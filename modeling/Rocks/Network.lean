import Rocks.World

/-! One client served in small steps: the peers' bytes arrive when they please, reads and
writes are short, and the two halves of the relay advance in any order. -/
namespace Rocks
open Async

/-- A socket as the program sees it. `coming` is `none` once the peer's end of stream is there. -/
structure Sock where
  taken : List UInt8
  arrived : List UInt8
  coming : Option (List UInt8)
  room : Option ℕ
  shut : Bool

/-- What the peer has sent or will send, and the program has not read. -/
def Sock.unread (s : Sock) : List UInt8 := s.arrived ++ s.coming.getD []

structure Net where
  sock : TcpStream → Sock
  trace : List Event

namespace Net

def modify (n : Net) (s : TcpStream) (f : Sock → Sock) : Net :=
  { n with sock := Function.update n.sock s (f (n.sock s)) }

/-- The next `k` bytes of the peer arrive. -/
def arrive (n : Net) (s : TcpStream) (k : ℕ) : Net :=
  n.modify s (fun sock => { sock with
    arrived := sock.arrived ++ (sock.coming.getD []).take k
    coming := sock.coming.map (·.drop k) })

/-- The end of the peer's stream arrives. -/
def finish (n : Net) (s : TcpStream) : Net := n.modify s (fun sock => { sock with coming := none })

/-- The program reads `k` bytes. -/
def take (n : Net) (s : TcpStream) (k : ℕ) : Net :=
  n.modify s (fun sock => { sock with
    taken := sock.taken ++ sock.arrived.take k
    arrived := sock.arrived.drop k })

/-- The socket takes `buf` from the program. -/
def deliver (n : Net) (s : TcpStream) (buf : List UInt8) : Net :=
  { n.modify s (fun sock => { sock with room := roomLeft sock.room buf.length }) with
    trace := n.trace ++ buf.map (.sent s) }

/-- The write half of a socket is shut. -/
def shutDown (n : Net) (s : TcpStream) : Net :=
  { n.modify s (fun sock => { sock with room := some 0, shut := true }) with
    trace := n.trace ++ [.shutDown s] }

def log (n : Net) (e : Event) : Net := { n with trace := n.trace ++ [e] }

/-- Both sockets are dropped. -/
def dropped (n : Net) : Net := { n with sock := fun s => { n.sock s with shut := true } }

/-- Bytes that a peer has got or is about to get. -/
def delivered (n : Net) (s : TcpStream) : List UInt8 := sentTo s n.trace

/-- The uncut streams, which do not show what has arrived. -/
def wire (n : Net) : Wire := ⟨fun s => (n.sock s).unread, fun s => (n.sock s).room, n.trace⟩

/-- Two fresh connections whose peers will send `streams`. -/
def fresh (streams : TcpStream → List UInt8) (room : TcpStream → Option ℕ) : Net :=
  ⟨fun s => ⟨[], [], some (streams s), room s, false⟩, []⟩

end Net

inductive Arrives : Net → Net → Prop
  | bytes (n : Net) (s : TcpStream) (k : ℕ) : Arrives n (n.arrive s k)
  | ending (n : Net) (s : TcpStream) (h : (n.sock s).coming = some []) : Arrives n (n.finish s)

/-- One poll of an async function. A read or a write that is not complete stays where it is,
with the bytes it still wants. -/
inductive Polls (env : Env) {α : Type} : Net × Io α → Net × Io α → Prop
  | read (n : Net) (s : TcpStream) (len m : ℕ) (k : Except IoError (List UInt8) → Io α) (h0 : 0 < m)
      (hl : m ≤ len) (ha : m ≤ (n.sock s).arrived.length) :
      Polls env (n, .await (.readExact s len) k) (n.take s m,
        .await (.readExact s (len-m)) (fun r : Except IoError (List UInt8) =>
          k (r.map ((n.sock s).arrived.take m ++ ·))))
  | filled (n : Net) (s : TcpStream) (k : Except IoError (List UInt8) → Io α) :
      Polls env (n, .await (.readExact s 0) k) (n, k (.ok []))
  | cutOff (n : Net) (s : TcpStream) (len : ℕ) (k : Except IoError (List UInt8) → Io α) (h0 : 0 < len)
      (ha : (n.sock s).arrived = []) (hc : (n.sock s).coming = none) :
      Polls env (n, .await (.readExact s len) k) (n, k (.error (env.ending s).readExactError))
  | write (n : Net) (s : TcpStream) (buf : List UInt8) (m : ℕ) (k : Except IoError Unit → Io α)
      (h0 : 0 < m) (hl : m ≤ buf.length) (hr : accepted (n.sock s).room m = m) :
      Polls env (n, .await (.writeAll s buf) k)
        (n.deliver s (buf.take m), .await (.writeAll s (buf.drop m)) k)
  | written (n : Net) (s : TcpStream) (k : Except IoError Unit → Io α) :
      Polls env (n, .await (.writeAll s []) k) (n, k (.ok ()))
  | refused (n : Net) (s : TcpStream) (buf : List UInt8) (k : Except IoError Unit → Io α)
      (hb : buf ≠ []) (hr : (n.sock s).room = some 0) :
      Polls env (n, .await (.writeAll s buf) k) (n, k (.error (env.writeError s)))
  | toSocketAddrs (n : Net) (domain : String) (port : UInt16)
      (k : Except IoError (List SocketAddr) → Io α) :
      Polls env (n, .await (.toSocketAddrs domain port) k)
        (n.log (.resolved domain port), k (env.resolver domain port))
  | connect (n : Net) (addr : SocketAddr) (k : Except IoError TcpStream → Io α) :
      Polls env (n, .await (.connect addr) k)
        (n.log (.connected addr), k ((env.connect addr).map (fun _ => .remote)))
  | peerAddr (n : Net) (s : TcpStream) (k : Except IoError SocketAddr → Io α) :
      Polls env (n, .await (.peerAddr s) k) (n, k (env.peerAddr s))
  | localAddr (n : Net) (s : TcpStream) (k : Except IoError SocketAddr → Io α) :
      Polls env (n, .await (.localAddr s) k) (n, k (env.localAddr s))
  | shutdown (n : Net) (s : TcpStream) (k : Except IoError Unit → Io α) :
      Polls env (n, .await (.shutdown s) k) (n.shutDown s, k (.ok ()))

/-- `tokio::io::copy` between two polls: the bytes it has read and not yet written, how many
it has written, whether the reader is at its end, and its result. -/
structure Copy where
  args : CopyArgs
  buf : List UInt8
  amt : ℕ
  readDone : Bool
  result : Option (Except IoError ℕ)

namespace Copy

def new (args : CopyArgs) : Copy := ⟨args, [], 0, false, none⟩

def source (c : Copy) : TcpStream := c.args.reader.of

def target (c : Copy) : TcpStream := c.args.writer.of

end Copy

/-- One step of `tokio::io::copy`: it reads only into an empty buffer, writes what it has
read, and ends when the reader has. -/
inductive Copies (env : Env) : Net × Copy → Net × Copy → Prop
  | read (n : Net) (c : Copy) (m : ℕ) (hc : c.result = none) (hb : c.buf = []) (hd : c.readDone = false)
      (h0 : 0 < m) (ha : m ≤ (n.sock c.source).arrived.length) :
      Copies env (n, c) (n.take c.source m, { c with buf := (n.sock c.source).arrived.take m })
  | readEnd (n : Net) (c : Copy) (hc : c.result = none) (hb : c.buf = []) (hd : c.readDone = false)
      (ha : (n.sock c.source).arrived = []) (hn : (n.sock c.source).coming = none)
      (he : env.ending c.source = .eof) :
      Copies env (n, c) (n, { c with readDone := true })
  | readError (n : Net) (c : Copy) (e : IoError) (hc : c.result = none) (hb : c.buf = [])
      (hd : c.readDone = false) (ha : (n.sock c.source).arrived = [])
      (hn : (n.sock c.source).coming = none) (he : env.ending c.source = .reset e) :
      Copies env (n, c) (n, { c with result := some (.error e) })
  | write (n : Net) (c : Copy) (m : ℕ) (hc : c.result = none) (h0 : 0 < m) (hl : m ≤ c.buf.length)
      (hr : accepted (n.sock c.target).room m = m) :
      Copies env (n, c) (n.deliver c.target (c.buf.take m),
        { c with buf := c.buf.drop m, amt := c.amt+m })
  | writeError (n : Net) (c : Copy) (hc : c.result = none) (hb : c.buf ≠ [])
      (hr : (n.sock c.target).room = some 0) :
      Copies env (n, c) (n, { c with result := some (.error (env.writeError c.target)) })
  | done (n : Net) (c : Copy) (hc : c.result = none) (hb : c.buf = []) (hd : c.readDone = true) :
      Copies env (n, c) (n, { c with result := some (.ok c.amt) })

/-- What the task of one client is doing. -/
inductive Phase (α : Type)
  | awaiting (t : Io α)
  | joining (first second : Copy) (k : Except IoError ℕ × Except IoError ℕ → Io α)

structure Sys (α : Type) where
  net : Net
  phase : Phase α

/-- One step of the whole: the network, the task, or one half of its relay. -/
inductive Step (env : Env) {α : Type} : Sys α → Sys α → Prop
  | arrives {n n' : Net} (p : Phase α) (h : Arrives n n') : Step env ⟨n, p⟩ ⟨n', p⟩
  | polls {n n' : Net} {t t' : Io α} (h : Polls env (n, t) (n', t')) :
      Step env ⟨n, .awaiting t⟩ ⟨n', .awaiting t'⟩
  | joins (n : Net) (a b : CopyArgs) (k : Except IoError ℕ × Except IoError ℕ → Io α) :
      Step env ⟨n, .awaiting (.await (.join a b) k)⟩ ⟨n, .joining (.new a) (.new b) k⟩
  | first {n n' : Net} {c c' : Copy} (d : Copy) (k : Except IoError ℕ × Except IoError ℕ → Io α)
      (h : Copies env (n, c) (n', c')) : Step env ⟨n, .joining c d k⟩ ⟨n', .joining c' d k⟩
  | second {n n' : Net} (c : Copy) {d d' : Copy} (k : Except IoError ℕ × Except IoError ℕ → Io α)
      (h : Copies env (n, d) (n', d')) : Step env ⟨n, .joining c d k⟩ ⟨n', .joining c d' k⟩
  | joined (n : Net) (c d : Copy) (k : Except IoError ℕ × Except IoError ℕ → Io α)
      {r r' : Except IoError ℕ} (hc : c.result = some r) (hd : d.result = some r') :
      Step env ⟨n, .joining c d k⟩ ⟨n, .awaiting (k (r, r'))⟩
  | drops (n : Net) (r : Outcome Error α) :
      Step env ⟨n, .awaiting (.done r)⟩ ⟨n.dropped, .awaiting (.done r)⟩

/-- Reachable by any number of steps in any order. -/
abbrev Reaches (env : Env) {α : Type} : Sys α → Sys α → Prop := Relation.ReflTransGen (Step env)

end Rocks
