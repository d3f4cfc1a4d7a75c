import Rocks.Op

/-! The outgoing side: resolve the requested address and connect to it. -/
namespace Rocks
open Async

inductive OutgoingError
  | generalFailure (e : Error)
  | networkUnreachable (e : Error)
  | hostUnreachable (e : Error)
  | connectionRefused (e : Error)
  | timedOut (e : Error)
deriving DecidableEq

namespace NetworkErrors

/-! The constants for `target_os = "linux"`. -/

def networkUnreachable : Int32 := 101
def hostUnreachable : Int32 := 110
def ttlExpired : Int32 := 113

end NetworkErrors

/-- The `map_err` closure of `TcpStream::connect`. -/
def connectError (e : IoError) : OutgoingError :=
  if e.kind = .connectionRefused then
    .connectionRefused (.io e)
  else if e.rawOsError = some NetworkErrors.networkUnreachable then
    .networkUnreachable (.io e)
  else if e.rawOsError = some NetworkErrors.hostUnreachable then
    .hostUnreachable (.io e)
  else if e.rawOsError = some NetworkErrors.ttlExpired then
    .timedOut (.io e)
  else
    .generalFailure (.io e)

/-- `DirectOutgoing` -/
inductive DirectOutgoing
  | mk
deriving DecidableEq

/-- `DirectOutgoing::process_request_impl`, with its `Result` as the value. -/
def DirectOutgoing.processRequest (_self : DirectOutgoing) (req : ReqAddr) :
    Io (Except OutgoingError TcpStream) := do
  match ← req.resolveLocal.attempt with
  | .error e => return .error (.hostUnreachable e)
  | .ok addr =>
    match ← TcpStream.connect addr with
    | .error e => return .error (connectError e)
    | .ok stream => return .ok stream

inductive OutgoingType
  | rocks
  | direct
  | ignore
deriving DecidableEq, Repr

/-- `OutgoingConfig`, of which `get_outgoing` reads the type only. -/
structure OutgoingConfig where
  type : OutgoingType
deriving DecidableEq, Repr

def getOutgoing (conf : OutgoingConfig) : Except Error DirectOutgoing :=
  match conf.type with
  | .direct => .ok .mk
  -- `Rocks` and `Ignore`
  | _ => .error (Error.fromDescription "Unsupported outgoing type")

end Rocks
