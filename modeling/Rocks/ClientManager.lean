import Rocks.Socks5

/-! The relay between two connections, and the whole life of one client.
Log lines are left out. -/
namespace Rocks
open Async

namespace TcpStream

def lAddr (self : TcpStream) : Io ReqAddr := do
  return .fromAddr (← ofIo (← self.localAddr))

def pAddr (self : TcpStream) : Io ReqAddr := do
  return .fromAddr (← ofIo (← self.peerAddr))

def split (self : TcpStream) : ReadHalf × WriteHalf := (⟨self⟩, ⟨self⟩)

end TcpStream

def bicopy (incoming outgoing : TcpStream) : Io Unit := do
  -- the ports are only logged, but each `?` can end the relay before it starts
  let _riport := (← incoming.pAddr).port
  let _loport := (← outgoing.lAddr).port
  let _roport := (← incoming.lAddr).port
  let _liport := (← outgoing.pAddr).port
  let (rin, win) := incoming.split
  let (rout, wout) := outgoing.split
  let i2o : CopyArgs := ⟨rin, wout⟩
  let o2i : CopyArgs := ⟨rout, win⟩
  match ← join i2o o2i with
  | (.ok _, .ok _) => pure ()
  | (.error e, .ok _) => throw (Error.fromDescription s!"copy error first half: {e.text}")
  | (_, .error e) => throw (Error.fromDescription s!"copy error second half: {e.text}")

def abort (client : Socks5Connected) (error : OutgoingError) (req : ReqAddr) : Io Unit := do
  let _ ← (client.abort error req).attempt

def processRequest (client : Socks5Connected) (o : DirectOutgoing) (r : ReqAddr) : Io Unit := do
  match ← o.processRequest r with
  | .ok o =>
    match ← ((Socks5Connected.readyForConnect r).run client).attempt with
    | .ok (i, _) =>
      -- how the relay ends is only logged
      let _ ← (bicopy i o).attempt
    | .error _ => pure ()
  | .error e => abort client e r

def handleClient (debugLog : Bool) (client : Socks5Connected) (outgoingCfg : OutgoingConfig) :
    Io Unit := do
  match ← ((Socks5Connected.nextRequest debugLog).run client).attempt with
  | .ok (r, client) =>
    match getOutgoing outgoingCfg with
    | .ok o => processRequest client o r
    | .error e => abort client (.generalFailure e) r
  | .error _ => pure ()

end Rocks
