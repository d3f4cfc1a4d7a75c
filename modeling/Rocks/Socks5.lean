import Rocks.Outgoing

/-! The SOCKS5 side of one client: greeting, request and final reply, with every
buffer access of the source. -/
namespace Rocks
open Async Buffer Bytes

def socks5Protocol : UInt8 := 5
def socks5NoAuth : UInt8 := 0
def socks5NoAcceptableMethod : UInt8 := 0xff
def socks5CmdConnect : UInt8 := 1

inductive Socks5Error
  | success
  | generalProxyFailure
  | networkUnreachable
  | hostUnreachable
  | connectionRefused
  | ttlExpired
  | commandNotSupported
  | addressTypeNotSupported
deriving DecidableEq, Repr

/-- `err as u8` -/
def Socks5Error.code : Socks5Error → UInt8
  | success => 0
  | generalProxyFailure => 1
  | networkUnreachable => 3
  | hostUnreachable => 4
  | connectionRefused => 5
  | ttlExpired => 6
  | commandNotSupported => 7
  | addressTypeNotSupported => 8

inductive Socks5AddrType
  | ipv4
  | ipv6
  | domain
deriving DecidableEq, Repr

namespace Socks5AddrType

def code : Socks5AddrType → UInt8
  | ipv4 => 1
  | ipv6 => 4
  | domain => 3

def tryFrom (i : UInt8) : Except Error Socks5AddrType :=
  match i with
  | 1 => .ok ipv4
  | 3 => .ok domain
  | 4 => .ok ipv6
  | _ => .error .invalidSocks5AddrType

end Socks5AddrType

/-- An accepted client. Its two addresses are only logged. -/
structure Socks5Connected where
  stream : Option TcpStream
deriving DecidableEq, Repr

/-- An async method on `&mut Socks5Connected`. -/
abbrev ClientM := StateT Socks5Connected Io

/-- Code without `.await`: buffer accesses, parsers, `?` and `unwrap()`. -/
def ClientM.sync {α : Type} (r : Outcome Error α) : ClientM α := StateT.lift (.done r)

open ClientM (sync)

@[simp] theorem run_sync {α σ : Type} (h : (o : Op) → σ → o.Res × σ) (w : σ) (r : Outcome Error α)
    (self : Socks5Connected) :
    Task.run h ((sync r).run self) w = Task.andThen (r, w) (fun a w => (.ok (a, self), w)) := by
  cases r <;> rfl

namespace Socks5Connected

def getReason : OutgoingError → Socks5Error
  | .generalFailure _ => .generalProxyFailure
  | .networkUnreachable _ => .networkUnreachable
  | .hostUnreachable _ => .hostUnreachable
  | .connectionRefused _ => .connectionRefused
  | .timedOut _ => .ttlExpired

/-- `read_exact(&mut buf[a..b])`, giving the buffer afterwards. -/
def readExact (buf : List UInt8) (a b : ℕ) : ClientM (List UInt8) := do
  let target ← sync (slice buf a b)
  match (← get).stream with
  | some stream =>
    let bytes ← sync (ofIo (← stream.readExact target.length))
    return splice buf a bytes
  | none => throw .notConnected

def writeAll (buf : List UInt8) : ClientM Unit := do
  match (← get).stream with
  | some stream => sync (ofIo (← stream.writeAll buf))
  | none => throw .notConnected

def authenticateClient : ClientM Unit := do
  let buf ← readExact (zeroed 256) 0 2
  let p ← sync (index buf 0)
  if p ≠ socks5Protocol then
    throw (Error.fromDescription s!"Not SOCKS5 protocol - {p}")
  let numAuthMethods ← sync (index buf 1)
  -- the methods overwrite the two bytes before them
  let buf ← readExact buf 0 numAuthMethods.toNat
  let authenticateMethods ← sync (slice buf 0 numAuthMethods.toNat)
  if socks5NoAuth ∉ authenticateMethods then
    writeAll [socks5Protocol, socks5NoAcceptableMethod]
    throw (Error.fromDescription "No supported method given")
  writeAll [socks5Protocol, socks5NoAuth]

/-- The loop over the eight segments, from `pos` on. -/
def storeSegments (resp : List UInt8) (pos : ℕ) : List UInt16 → Outcome Error (List UInt8 × ℕ)
  | [] => pure (resp, pos)
  | segment :: rest => do
    let resp ← store resp pos (segment >>> 8).toUInt8
    let resp ← store resp (pos+1) segment.toUInt8
    storeSegments resp (pos+2) rest

/-- `let pos = match &addr { .. }` of `send_final_response`, with the buffer it writes. -/
def storeAddr (resp : List UInt8) : ReqAddr → Outcome Error (List UInt8 × ℕ)
  | .ip (.v4 ip _) => do
    let resp ← store resp 3 Socks5AddrType.ipv4.code
    let resp ← copyFromSlice resp 4 8 ip.octets
    pure (resp, 8)
  | .ip (.v6 ip _ _ _) => do
    let resp ← store resp 3 Socks5AddrType.ipv6.code
    storeSegments resp 4 ip.segments
  | .domain domain _ => do
    let resp ← store resp 3 Socks5AddrType.domain.code
    -- `domain.len() as u8` and the length of the slice agree up to 255 bytes only
    let resp ← store resp 4 (asBytes domain).length.toUInt8
    let pos := 5+(← index resp 4).toNat
    let resp ← copyFromSlice resp 5 pos (asBytes domain)
    pure (resp, pos)

/-- What `send_final_response` lays out in `resp`, up to the bytes it writes. -/
def finalResponse (err : Socks5Error) (addr : ReqAddr) : Outcome Error (List UInt8) := do
  let resp ← store (zeroed (256+5)) 0 5
  let resp ← store resp 1 err.code
  let resp ← store resp 2 0
  let (resp, pos) ← storeAddr resp addr
  let resp ← store resp pos (addr.port >>> 8).toUInt8
  let resp ← store resp (pos+1) addr.port.toUInt8
  slice resp 0 (pos+2)

def sendFinalResponse (err : Socks5Error) (addr : ReqAddr) : ClientM Unit := do
  let resp ← sync (finalResponse err addr)
  writeAll resp

/-- `let addr = match Socks5AddrType::try_from(atyp) { .. }` of `get_request`, where the
first five bytes are in `buf`. `debugLog` tells whether `debug!` evaluates its arguments. -/
def readAddr (debugLog : Bool) (buf : List UInt8) (atyp b0 : UInt8) :
    ClientM (Except Error ReqAddr) :=
  match Socks5AddrType.tryFrom atyp with
  | .ok .ipv4 => do
    -- `buf[4]` is read already, so the address begins one byte before this read
    let buf ← readExact buf 5 10
    let addrBytes ← sync (slice buf 4 10)
    sync (ReqAddr.parseAddressV4 addrBytes).attempt
  | .ok .ipv6 => do
    let buf ← readExact buf 5 22
    let addrBytes ← sync (slice buf 4 22)
    sync (ReqAddr.parseAddressV6 addrBytes).attempt
  | .ok .domain => do
    let addrLen := b0.toNat
    -- `b0` is the length, and the name is read over the head of the request
    let buf ← readExact buf 0 (addrLen+2)
    let addr ← sync (slice buf 0 (addrLen+2))
    let r ← sync (ReqAddr.parseDomain addrLen addr).attempt
    -- the argument of `debug!` is `r.as_ref().unwrap()`
    if debugLog then
      let _ ← sync (Outcome.unwrap r)
    pure r
  | .error e => do
    -- `get_request` answers this error once more
    sendFinalResponse .addressTypeNotSupported .default
    pure (.error e)

def getRequest (debugLog : Bool) : ClientM ReqAddr := do
  let buf ← readExact (zeroed 255) 0 5
  let p ← sync (index buf 0)
  if p ≠ socks5Protocol then
    throw (Error.fromDescription s!"Not SOCKS5 protocol - {p}")
  let cmd ← sync (index buf 1)
  if cmd ≠ socks5CmdConnect then
    sendFinalResponse .commandNotSupported .default
    throw (Error.fromDescription "req cmd is not connect")
  -- the reserved byte `buf[2]` is not looked at
  let atyp ← sync (index buf 3)
  let b0 ← sync (index buf 4)
  let addr ← readAddr debugLog buf atyp b0
  if let .error _ := addr then
    sendFinalResponse .addressTypeNotSupported .default
  sync (Outcome.ofExcept addr)

def nextRequest (debugLog : Bool) : ClientM ReqAddr := do
  authenticateClient
  getRequest debugLog

def abort (self : Socks5Connected) (err : OutgoingError) (req : ReqAddr) : Io Unit :=
  (sendFinalResponse (getReason err) req).run' self

def readyForConnect (req : ReqAddr) : ClientM TcpStream := do
  sendFinalResponse .success req
  let self ← get
  -- `self.stream.take().unwrap()`
  set { self with stream := none }
  match self.stream with
  | some stream => pure stream
  | none => sync .panic

end Socks5Connected

end Rocks
