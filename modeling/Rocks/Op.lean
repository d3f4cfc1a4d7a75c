import Rocks.ReqAddr

/-! What the program awaits from tokio and std, and the two sockets of one client. -/
namespace Rocks
open Async

/-- The handles of one connection: the accepted socket and the outgoing one. -/
inductive TcpStream
  | client
  | remote
deriving DecidableEq, Repr

/-- The halves that `tokio::io::split` gives. -/
structure ReadHalf where
  of : TcpStream
deriving DecidableEq, Repr

structure WriteHalf where
  of : TcpStream
deriving DecidableEq, Repr

/-- `tokio::io::copy(reader, writer)` before its first poll. -/
structure CopyArgs where
  reader : ReadHalf
  writer : WriteHalf
deriving DecidableEq, Repr

inductive Op
  | readExact (stream : TcpStream) (len : ℕ)
  | writeAll (stream : TcpStream) (buf : List UInt8)
  | toSocketAddrs (domain : String) (port : UInt16)
  | connect (addr : SocketAddr)
  | peerAddr (stream : TcpStream)
  | localAddr (stream : TcpStream)
  | join (first second : CopyArgs)
  -- `shutdown` of a write half, which the peer sees as the end of its stream
  | shutdown (stream : TcpStream)
deriving DecidableEq

@[reducible] def Op.Res : Op → Type
  | readExact _ _ => Except IoError (List UInt8)
  | writeAll _ _ => Except IoError Unit
  | toSocketAddrs _ _ => Except IoError (List SocketAddr)
  | connect _ => Except IoError TcpStream
  | peerAddr _ => Except IoError SocketAddr
  | localAddr _ => Except IoError SocketAddr
  | join _ _ => Except IoError ℕ × Except IoError ℕ
  | shutdown _ => Except IoError Unit

/-- An async function of the program. -/
abbrev Io : Type → Type := Task Op Op.Res Error

def perform (o : Op) : Io o.Res := Task.perform o

namespace TcpStream

def readExact (stream : TcpStream) (len : ℕ) : Io (Except IoError (List UInt8)) :=
  perform (.readExact stream len)

def writeAll (stream : TcpStream) (buf : List UInt8) : Io (Except IoError Unit) :=
  perform (.writeAll stream buf)

def connect (addr : SocketAddr) : Io (Except IoError TcpStream) :=
  perform (.connect addr)

def peerAddr (stream : TcpStream) : Io (Except IoError SocketAddr) :=
  perform (.peerAddr stream)

def localAddr (stream : TcpStream) : Io (Except IoError SocketAddr) :=
  perform (.localAddr stream)

end TcpStream

/-- `(domain, port).to_socket_addrs()` -/
def toSocketAddrs (domain : String) (port : UInt16) : Io (Except IoError (List SocketAddr)) :=
  perform (.toSocketAddrs domain port)

/-- `futures::join!(copy(..), copy(..))` -/
def join (first second : CopyArgs) : Io (Except IoError ℕ × Except IoError ℕ) :=
  perform (.join first second)

section run

variable {σ : Type} (h : (o : Op) → σ → o.Res × σ) (w : σ)

@[simp] theorem run_readExact (s : TcpStream) (len : ℕ) :
    Task.run h (s.readExact len) w = (.ok (h (.readExact s len) w).1, (h (.readExact s len) w).2) := rfl

@[simp] theorem run_writeAll (s : TcpStream) (buf : List UInt8) :
    Task.run h (s.writeAll buf) w = (.ok (h (.writeAll s buf) w).1, (h (.writeAll s buf) w).2) := rfl

@[simp] theorem run_connect (addr : SocketAddr) :
    Task.run h (TcpStream.connect addr) w = (.ok (h (.connect addr) w).1, (h (.connect addr) w).2) := rfl

@[simp] theorem run_peerAddr (s : TcpStream) :
    Task.run h s.peerAddr w = (.ok (h (.peerAddr s) w).1, (h (.peerAddr s) w).2) := rfl

@[simp] theorem run_localAddr (s : TcpStream) :
    Task.run h s.localAddr w = (.ok (h (.localAddr s) w).1, (h (.localAddr s) w).2) := rfl

@[simp] theorem run_toSocketAddrs (domain : String) (port : UInt16) :
    Task.run h (toSocketAddrs domain port) w =
      (.ok (h (.toSocketAddrs domain port) w).1, (h (.toSocketAddrs domain port) w).2) := rfl

@[simp] theorem run_join (first second : CopyArgs) :
    Task.run h (join first second) w =
      (.ok (h (.join first second) w).1, (h (.join first second) w).2) := rfl

end run

def ReqAddr.resolveLocal : ReqAddr → Io SocketAddr
  | .ip addr => pure addr
  | .domain name port => do
    let sas ← ofIo (← toSocketAddrs name port)
    match sas.head? with
    | some addr => pure (.new addr.ip port)
    | none => throw (Error.fromDescription "Local resolve faiure")

end Rocks
