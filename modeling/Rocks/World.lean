import Rocks.Segments
import Rocks.ClientManager

/-! What the two sockets, the resolver and the network answer. The stream of a
socket is kept either as the segments that its reads deliver or as plain bytes. -/
namespace Rocks
open Async Segments

/-- How a peer's byte stream ends. -/
inductive Ending
  | eof
  | reset (e : IoError)
deriving DecidableEq

/-- What `read_exact` fails with when the stream ends first. -/
def Ending.readExactError : Ending → IoError
  | eof => .simple .unexpectedEof "early eof"
  | reset e => e

/-- Everything about one connection that the program does not decide. -/
structure Env where
  resolver : String → UInt16 → Except IoError (List SocketAddr)
  connect : SocketAddr → Except IoError Unit
  ending : TcpStream → Ending
  writeError : TcpStream → IoError
  peerAddr : TcpStream → Except IoError SocketAddr
  localAddr : TcpStream → Except IoError SocketAddr
  joined : Except IoError ℕ × Except IoError ℕ

instance : Inhabited IoError := ⟨.simple .other ""⟩

instance : Inhabited Env :=
  ⟨⟨fun _ _ => .ok [], fun _ => .ok (), fun _ => .eof, fun _ => default,
    fun _ => .error default, fun _ => .error default, (.ok 0, .ok 0)⟩⟩

/-- Two sockets that know their addresses, and peers that never reset. -/
def named : Env :=
  let addr : Except IoError SocketAddr := .ok (.v4 ⟨127, 0, 0, 1⟩ 80)
  { (default : Env) with peerAddr := fun _ => addr, localAddr := fun _ => addr }

/-- What the program has done to the outside, byte by byte. -/
inductive Event
  | sent (stream : TcpStream) (byte : UInt8)
  | resolved (domain : String) (port : UInt16)
  | connected (addr : SocketAddr)
  | relayed (first second : CopyArgs)
  | shutDown (stream : TcpStream)
deriving DecidableEq

theorem sent_injective (s : TcpStream) : Function.Injective (Event.sent s) :=
  fun _ _ h => (Event.sent.inj h).2

/-- The relay whose first half reads from `incoming`. -/
def relayBetween (incoming outgoing : TcpStream) : Event :=
  .relayed ⟨⟨incoming⟩, ⟨outgoing⟩⟩ ⟨⟨outgoing⟩, ⟨incoming⟩⟩

/-- The bytes among the events that went to a stream. -/
def sentTo (s : TcpStream) (trace : List Event) : List UInt8 :=
  trace.filterMap (fun | .sent s' b => if s' = s then some b else none | _ => none)

section sentTo

variable (s : TcpStream)

@[simp] theorem sentTo_nil : sentTo s [] = [] := rfl

@[simp] theorem sentTo_append (es es' : List Event) :
    sentTo s (es ++ es') = sentTo s es ++ sentTo s es' :=
  List.filterMap_append

@[simp] theorem sentTo_sent (bs : List UInt8) : sentTo s (bs.map (.sent s)) = bs := by
  simp [sentTo, List.filterMap_map]

theorem sentTo_eq_nil {es : List Event} (h : ∀ e ∈ es, ∀ b, e ≠ .sent s b) : sentTo s es = [] := by
  rw [sentTo, List.filterMap_eq_nil_iff]
  intro e he
  split
  · next s' b =>
    rw [if_neg]
    rintro rfl
    exact h _ he b rfl
  · rfl

theorem sentTo_prefix {es es' : List Event} (h : es <+: es') : sentTo s es <+: sentTo s es' :=
  h.filterMap _

end sentTo

/-- How many of `n` bytes a socket still takes; `none` stands for a socket that
takes everything at once. -/
def accepted (room : Option ℕ) (n : ℕ) : ℕ :=
  match room with
  | none => n
  | some r => min n r

def roomLeft (room : Option ℕ) (n : ℕ) : Option ℕ := room.map (·-n)

structure World (ι : Type) where
  input : TcpStream → ι
  room : TcpStream → Option ℕ
  trace : List Event

namespace World

variable {ι : Type}

def consume (w : World ι) (s : TcpStream) (rest : ι) : World ι :=
  { w with input := Function.update w.input s rest }

def log (w : World ι) (e : Event) : World ι := { w with trace := w.trace ++ [e] }

def logs (w : World ι) (es : List Event) : World ι := { w with trace := w.trace ++ es }

/-- The socket takes the first `n` bytes of `buf`. -/
def deliver (w : World ι) (s : TcpStream) (buf : List UInt8) (n : ℕ) : World ι :=
  { w with
    room := Function.update w.room s (roomLeft (w.room s) n)
    trace := w.trace ++ (buf.take n).map (.sent s) }

/-- The write half of a socket is shut, and takes nothing after that. -/
def shutDown (w : World ι) (s : TcpStream) : World ι :=
  { w with
    room := Function.update w.room s (some 0)
    trace := w.trace ++ [.shutDown s] }

section

variable (w : World ι) (s : TcpStream) (rest : ι) (e : Event) (buf : List UInt8) (n : ℕ)

@[simp] theorem consume_input_self : (w.consume s rest).input s = rest := by simp [consume]
@[simp] theorem consume_room : (w.consume s rest).room = w.room := rfl
@[simp] theorem consume_trace : (w.consume s rest).trace = w.trace := rfl
@[simp] theorem log_input : (w.log e).input = w.input := rfl
@[simp] theorem log_room : (w.log e).room = w.room := rfl
@[simp] theorem log_trace : (w.log e).trace = w.trace ++ [e] := rfl
@[simp] theorem logs_room (es : List Event) : (w.logs es).room = w.room := rfl
@[simp] theorem logs_trace (es : List Event) : (w.logs es).trace = w.trace ++ es := rfl
@[simp] theorem logs_nil : w.logs [] = w := by simp [logs]
@[simp] theorem logs_logs (es es' : List Event) : (w.logs es).logs es' = w.logs (es ++ es') := by
  simp [logs]

@[simp] theorem deliver_input : (w.deliver s buf n).input = w.input := rfl
@[simp] theorem deliver_trace :
    (w.deliver s buf n).trace = w.trace ++ (buf.take n).map (.sent s) := rfl

@[simp] theorem consume_consume (rest' : ι) :
    (w.consume s rest).consume s rest' = w.consume s rest' := by
  simp [consume]

end

end World

@[ext] theorem World.ext_fields {ι : Type} {w w' : World ι} (hi : ∀ s, w.input s = w'.input s)
    (hr : ∀ s, w.room s = w'.room s) (ht : w.trace = w'.trace) : w = w' := by
  obtain ⟨i, r, t⟩ := w
  obtain ⟨i', r', t'⟩ := w'
  obtain rfl : i = i' := funext hi
  obtain rfl : r = r' := funext hr
  obtain rfl : t = t' := ht
  rfl

/-- The last event of a log shows what was there before it. -/
theorem World.log_inj {ι : Type} {w w' : World ι} {e e' : Event} (h : w.log e = w'.log e') :
    w = w' ∧ e = e' := by
  have hin : (w.log e).input = (w'.log e').input := by rw [h]
  have hroom : (w.log e).room = (w'.log e').room := by rw [h]
  have htrace : (w.log e).trace = (w'.log e').trace := by rw [h]
  obtain ⟨ht, he⟩ := List.append_inj' htrace rfl
  exact ⟨World.ext_fields (congrFun hin) (congrFun hroom) ht, (List.cons.inj he).1⟩

/-- The answers to all operations, for sockets whose streams are read by `pull`. -/
def handler {ι : Type} (pull : ℕ → ι → Option (List UInt8) × ι) (env : Env) :
    (o : Op) → World ι → o.Res × World ι
  -- `read_exact` has eaten what there was, also when it fails
  | .readExact s len, w =>
    let r := pull len (w.input s)
    let answer : Except IoError (List UInt8) := match r.1 with
      | some bytes => .ok bytes
      | none => .error (env.ending s).readExactError
    (answer, w.consume s r.2)
  -- a failed `write_all` has sent what the socket still took
  | .writeAll s buf, w =>
    let n := accepted (w.room s) buf.length
    let answer : Except IoError Unit :=
      if n = buf.length then .ok () else .error (env.writeError s)
    (answer, w.deliver s buf n)
  | .toSocketAddrs domain port, w => (env.resolver domain port, w.log (.resolved domain port))
  | .connect addr, w => ((env.connect addr).map (fun _ => .remote), w.log (.connected addr))
  | .peerAddr s, w => (env.peerAddr s, w)
  | .localAddr s, w => (env.localAddr s, w)
  | .join first second, w => (env.joined, w.log (.relayed first second))
  | .shutdown s, w => (.ok (), w.shutDown s)

/-- The stream as bytes. -/
abbrev Wire := World (List UInt8)

/-- The stream as the segments of successive reads. -/
abbrev CutWire := World (List (Segment UInt8))

abbrev wire (env : Env) : (o : Op) → Wire → o.Res × Wire := handler takeExact env

abbrev cutWire (env : Env) : (o : Op) → CutWire → o.Res × CutWire := handler pullExact env

/-- Forget how the streams are cut. -/
def CutWire.uncut (w : CutWire) : Wire := ⟨fun s => joined (w.input s), w.room, w.trace⟩

@[simp] theorem CutWire.uncut_input (w : CutWire) (s : TcpStream) :
    w.uncut.input s = joined (w.input s) := rfl

@[simp] theorem CutWire.uncut_room (w : CutWire) : w.uncut.room = w.room := rfl

@[simp] theorem CutWire.uncut_trace (w : CutWire) : w.uncut.trace = w.trace := rfl

/-- A client that sends `bs` one byte a read, over sockets that take everything at once. -/
def CutWire.sending (bs : List UInt8) : CutWire :=
  ⟨fun | .client => bs.map (fun b => ⟨[b], List.cons_ne_nil b []⟩) | .remote => [],
    fun _ => none, []⟩

theorem CutWire.joined_sending (bs : List UInt8) : joined ((CutWire.sending bs).input .client) = bs := by
  induction bs with
  | nil => rfl
  | cons b bs ih => exact congrArg (b :: ·) ih

theorem uncut_consume (w : CutWire) (s : TcpStream) (rest : List (Segment UInt8)) :
    CutWire.uncut (w.consume s rest) = w.uncut.consume s (joined rest) := by
  unfold CutWire.uncut World.consume
  congr 1
  funext s'
  by_cases h : s' = s
  · subst h; simp
  · simp [Function.update_of_ne h]

theorem wire_uncut (env : Env) (o : Op) (w : CutWire) :
    wire env o w.uncut = ((cutWire env o w).1, (cutWire env o w).2.uncut) := by
  cases o with
  -- the only operation that sees how a stream is cut
  | readExact s len =>
    have hj := takeExact_joined len (w.input s)
    simp only [wire, cutWire, handler, uncut_consume]
    simp only [CutWire.uncut, hj]
  | writeAll | toSocketAddrs | connect | peerAddr | localAddr | join | shutdown => rfl

/-- A run on the cut streams is the run on the bytes. -/
theorem run_cutWire {α : Type} (env : Env) (t : Io α) (w : CutWire) :
    t.run (wire env) w.uncut =
      ((t.run (cutWire env) w).1, (t.run (cutWire env) w).2.uncut) :=
  Task.run_abstraction (cutWire env) (wire env) CutWire.uncut (wire_uncut env) t w

theorem run_cutWire_fst {α : Type} (env : Env) (t : Io α) (w : CutWire) :
    (t.run (wire env) w.uncut).1 = (t.run (cutWire env) w).1 := by
  rw [run_cutWire]

theorem run_cutWire_trace {α : Type} (env : Env) (t : Io α) (w : CutWire) :
    (t.run (wire env) w.uncut).2.trace = (t.run (cutWire env) w).2.trace := by
  rw [run_cutWire, CutWire.uncut_trace]

end Rocks
