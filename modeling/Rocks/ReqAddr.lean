import Rocks.Buffer
import Rocks.Bytes

/-! Errors, addresses, and the parsers of the three SOCKS5 address forms. -/
namespace Rocks
open Async Buffer Bytes

/-- `std::io::ErrorKind` -/
inductive ErrorKind
  | notFound | permissionDenied | connectionRefused | connectionReset | connectionAborted
  | notConnected | addrInUse | addrNotAvailable | brokenPipe | alreadyExists | wouldBlock
  | invalidInput | invalidData | timedOut | writeZero | interrupted | unsupported
  | unexpectedEof | outOfMemory | other | uncategorized
deriving DecidableEq, Repr

/-- `ECONNREFUSED` on Linux. -/
def econnrefused : Int32 := 111

/-- `std::io::Error`: a kind, the OS code if there is one, and the text it displays.
The kind of an OS error is derived from its code. -/
structure IoError where
  kind : ErrorKind
  rawOsError : Option Int32
  text : String
  refused_iff : ∀ c, rawOsError = some c → (kind = .connectionRefused ↔ c = econnrefused)
deriving DecidableEq

/-- An error that std or tokio makes itself, without an OS code. -/
def IoError.simple (kind : ErrorKind) (text : String) : IoError :=
  ⟨kind, none, text, by simp⟩

/-- The variants of `Error` that requests can meet. The position inside a `Utf8Error`
is only ever logged. -/
inductive Error
  | io (e : IoError)
  | description (text : String)
  | utf8
  | notConnected
  | invalidSocks5AddrType
deriving DecidableEq

def Error.fromDescription (descriotion : String) : Error := .description descriotion

/-- `?` on an `io::Result`. -/
def ofIo {α : Type} : Except IoError α → Outcome Error α
  | .ok a => .ok a
  | .error e => .err (.io e)

@[simp] theorem ofIo_ok {α : Type} (a : α) : ofIo (.ok a) = .ok a := rfl
@[simp] theorem ofIo_error {α : Type} (e : IoError) : ofIo (.error e : Except IoError α) = .err (.io e) := rfl

structure Ipv4Addr where
  (a b c d : UInt8)
deriving DecidableEq, Repr

def Ipv4Addr.octets (ip : Ipv4Addr) : List UInt8 := [ip.a, ip.b, ip.c, ip.d]

structure Ipv6Addr where
  (a b c d e f g h : UInt16)
deriving DecidableEq, Repr

def Ipv6Addr.segments (ip : Ipv6Addr) : List UInt16 :=
  [ip.a, ip.b, ip.c, ip.d, ip.e, ip.f, ip.g, ip.h]

inductive IpAddr
  | v4 (ip : Ipv4Addr)
  | v6 (ip : Ipv6Addr)
deriving DecidableEq, Repr

inductive SocketAddr
  | v4 (ip : Ipv4Addr) (port : UInt16)
  | v6 (ip : Ipv6Addr) (port : UInt16) (flowinfo scopeId : UInt32)
deriving DecidableEq, Repr

namespace SocketAddr

def new : IpAddr → UInt16 → SocketAddr
  | .v4 ip, port => .v4 ip port
  | .v6 ip, port => .v6 ip port 0 0

def ip : SocketAddr → IpAddr
  | .v4 ip _ => .v4 ip
  | .v6 ip _ _ _ => .v6 ip

def port : SocketAddr → UInt16
  | .v4 _ port => port
  | .v6 _ port _ _ => port

end SocketAddr

inductive ReqAddr
  | ip (addr : SocketAddr)
  | domain (name : String) (port : UInt16)
deriving DecidableEq, Repr

namespace ReqAddr

def fromAddr (addr : SocketAddr) : ReqAddr := .ip addr

def fromDomain (domain : String) (port : UInt16) : ReqAddr := .domain domain port

def port : ReqAddr → UInt16
  | ip addr => addr.port
  | domain _ port => port

/-- `127.0.0.1:0` -/
def default : ReqAddr := .ip (.v4 ⟨127, 0, 0, 1⟩ 0)

def parseAddressV4 (addrBytes : List UInt8) : Outcome Error ReqAddr := do
  if addrBytes.length ≠ 6 then
    if addrBytes.length ≠ 6 then
      throw (Error.fromDescription "IPv4 address format error")
  let host : Ipv4Addr := ⟨← index addrBytes 0, ← index addrBytes 1, ← index addrBytes 2,
    ← index addrBytes 3⟩
  -- bytes 3 and 4, although the port is in bytes 4 and 5
  let port := word (← index addrBytes 3) (← index addrBytes 4)
  return fromAddr (.new (.v4 host) port)

def parseAddressV6 (addrBytes : List UInt8) : Outcome Error ReqAddr := do
  if addrBytes.length ≠ 18 then
    throw (Error.fromDescription "IPv6 address format error")
  let a := word (← index addrBytes 0) (← index addrBytes 1)
  let b := word (← index addrBytes 2) (← index addrBytes 3)
  let c := word (← index addrBytes 4) (← index addrBytes 5)
  let d := word (← index addrBytes 6) (← index addrBytes 7)
  let e := word (← index addrBytes 8) (← index addrBytes 9)
  let f := word (← index addrBytes 10) (← index addrBytes 11)
  let g := word (← index addrBytes 12) (← index addrBytes 13)
  let h := word (← index addrBytes 14) (← index addrBytes 15)
  let host : Ipv6Addr := ⟨a, b, c, d, e, f, g, h⟩
  let port := word (← index addrBytes 16) (← index addrBytes 17)
  return fromAddr (.new (.v6 host) port)

def parseDomain (addrLen : ℕ) (addrBytes : List UInt8) : Outcome Error ReqAddr := do
  let bytes ← slice addrBytes 0 addrLen
  let hostname ← match fromUtf8 bytes with
    | some s => pure s
    | none => throw .utf8
  let port := word (← index addrBytes addrLen) (← index addrBytes (addrLen+1))
  return fromDomain hostname port

theorem parseAddressV4_eq (a b c d hi lo : UInt8) :
    parseAddressV4 [a, b, c, d, hi, lo] = .ok (.ip (.v4 ⟨a, b, c, d⟩ (word d hi))) := by
  simp [parseAddressV4, index, fromAddr, SocketAddr.new]

theorem parseAddressV6_eq (a a' b b' c c' d d' e e' f f' g g' h h' hi lo : UInt8) :
    parseAddressV6 [a, a', b, b', c, c', d, d', e, e', f, f', g, g', h, h', hi, lo] =
      .ok (.ip (.v6 ⟨word a a', word b b', word c c', word d d', word e e', word f f',
        word g g', word h h'⟩ (word hi lo) 0 0)) := by
  simp [parseAddressV6, index, fromAddr, SocketAddr.new]

theorem parseDomain_eq (name : List UInt8) (hi lo : UInt8) :
    parseDomain name.length (name ++ [hi, lo]) = match fromUtf8 name with
      | some s => .ok (.domain s (word hi lo))
      | none => .err .utf8 := by
  have hs : slice (name ++ [hi, lo]) 0 name.length = (.ok name : Outcome Error (List UInt8)) := by
    rw [slice_eq_ok (by omega) (by simp)]
    simp
  have hi' : index (name ++ [hi, lo]) name.length = (.ok hi : Outcome Error UInt8) := by
    simp [index]
  have lo' : index (name ++ [hi, lo]) (name.length+1) = (.ok lo : Outcome Error UInt8) := by
    simp [index]
  unfold parseDomain
  rw [hs, Outcome.ok_bind]
  cases fromUtf8 name with
  | none => rfl
  | some s => simp [hi', lo', fromDomain]

end ReqAddr

end Rocks
