import Mathlib.Data.List.Infix
import Mathlib.Data.List.Nodup
import Mathlib.Logic.Function.Basic
import Mathlib.Logic.Relation
import Rocks.Numerals
import Rocks.Polling
import Rocks.ReqAddr

/-! The HTTP requests of the rocks protocol: each becomes a packet in one queue, with a channel
of its own for the reply. The queue, the channels, the timer and whoever answers are the outside. -/
namespace Rocks.ActixApp
open Polling

/-- `http::Method`, of which two are told apart. -/
inductive Method
  | get
  | post
  | other
deriving DecidableEq

/-- `RocksPacket`. A channel is named by the request that it belongs to. -/
inductive RocksPacket (ι Uuid : Type)
  | get (conn : Uuid) (resp : ι)
  | post (conn : Uuid) (resp : ι)
  | connect (user : Uuid) (addr : ReqAddr) (resp : ι)

/-- The errors of a request: those of its form, of `Uuid::parse_str`, of the port, and of the
timer, and texts. -/
inductive Error (P U : Type)
  | urlencoded (e : P)
  | uuid (e : U)
  | parseInt
  | timer
  | message (text : String)

variable {ι Uuid P U : Type}

def RocksPacket.resp : RocksPacket ι Uuid → ι
  | get _ resp | post _ resp | connect _ _ resp => resp

section new

variable (parseStr : String → Except U Uuid) (parseIp : String → Option IpAddr)

def parseUuid (text : String) : Except (Error P U) Uuid := (parseStr text).mapError .uuid

/-- `parse::<u16>` -/
def parsePort (text : String) : Except (Error P U) UInt16 :=
  match Numerals.parse 65535 text.toList with
  | some n => .ok n.toUInt16
  | none => .error .parseInt

/-- A host that reads as an address is one, and else it is a name. -/
def hostAddr (host : String) (port : UInt16) : ReqAddr :=
  match parseIp host with
  | some host => .fromAddr (.new host port)
  | none => .fromDomain host port

def RocksPacket.new (m : Method) (map : String → Option String) (resp : ι) :
    Except (Error P U) (RocksPacket ι Uuid) :=
  match m, map "user", map "host", map "port", map "conn" with
  | _, some user, some host, some port, none => do
    let user ← parseUuid parseStr user
    let port ← parsePort port
    return connect user (hostAddr parseIp host port) resp
  | .get, none, none, none, some conn => return get (← parseUuid parseStr conn) resp
  | .post, none, none, none, some conn => return post (← parseUuid parseStr conn) resp
  | _, _, _, _, _ => throw (.message "Unreconised package format")

/-- The form of a request to connect. -/
def connectForm (user host : String) (port : UInt16) (key : String) : Option String :=
  if key = "user" then some user
  else if key = "host" then some host
  else if key = "port" then some (toString port.toNat)
  else none

theorem parsePort_toString (port : UInt16) :
    (parsePort (toString port.toNat) : Except (Error P U) UInt16) = .ok port := by
  have hle : port.toNat ≤ 65535 := Nat.le_of_lt_succ port.toNat_lt
  have hparse : Numerals.parse 65535 (toString port.toNat).toList = some port.toNat := by
    rw [Nat.toString_eq_repr, Nat.toList_repr]
    exact Numerals.parse_toDigits hle
  rw [parsePort, hparse]
  simp

/-- Every user, host and port is read back. -/
theorem new_connectForm {parseStr} {user : String} {id : Uuid} (hu : parseStr user = .ok id) (m : Method)
    (host : String) (port : UInt16) (resp : ι) :
    (RocksPacket.new parseStr parseIp m (connectForm user host port) resp : Except (Error P U) _) =
      .ok (.connect id (hostAddr parseIp host port) resp) := by
  have hid : (parseUuid parseStr user : Except (Error P U) Uuid) = .ok id := by
    rw [parseUuid, hu]
    rfl
  have hport := parsePort_toString (P := P) (U := U) port
  simp only [RocksPacket.new, connectForm, String.reduceEq, ↓reduceIte, hid, hport, bind, Except.bind]
  rfl

end new

/-- `ReceiverFuture::poll`, by what `try_recv` answers. -/
def receiverPoll {T E : Type} : Except E T → Poll T
  | .ok t => .ready t
  | .error _ => .pending

/-- `SegQueueFuture::poll`, by what `pop` answers. -/
def segQueuePoll {T E : Type} : Except E T → Poll T
  | .ok t => .ready t
  | .error _ => .pending

/-- What goes into the queue and the channels, and what comes out. -/
inductive Event (ι Uuid : Type)
  | pushed (pkt : RocksPacket ι Uuid)
  | popped (pkt : RocksPacket ι Uuid)
  | sent (i : ι) (reply : List UInt8)
  | received (i : ι) (reply : List UInt8)

/-- Where `rocks_handler_impl` is: before its packet, behind it, or at its end. -/
inductive Handler (P U : Type)
  | reading
  | receiving
  | answered (r : Except (Error P U) (List UInt8))
  | cancelled

/-- The reply that a request has got. -/
def Handler.reply : Handler P U → Option (List UInt8)
  | answered (.ok reply) => some reply
  | answered (.error _) | reading | receiving | cancelled => none

/-- A request that has no answer yet. -/
def Handler.Open (h : Handler P U) : Prop := h = reading ∨ h = receiving

/-- The error of a `Timeout` whose future has none. -/
def Error.TimedOut (e : Error P U) : Prop := e = message "elapsed" ∨ e = timer

section log

def pushes (log : List (Event ι Uuid)) : List (RocksPacket ι Uuid) :=
  log.filterMap fun | .pushed pkt => some pkt | _ => none

def pops (log : List (Event ι Uuid)) : List (RocksPacket ι Uuid) :=
  log.filterMap fun | .popped pkt => some pkt | _ => none

variable [DecidableEq ι]

/-- What has been sent on the channel of request `i`. -/
def sends (i : ι) (log : List (Event ι Uuid)) : List (List UInt8) :=
  log.filterMap fun | .sent j reply => if j = i then some reply else none | _ => none

def receives (i : ι) (log : List (Event ι Uuid)) : List (List UInt8) :=
  log.filterMap fun | .received j reply => if j = i then some reply else none | _ => none

/-- What crossbeam and the owners of senders promise: the queue and each channel give out what they
have taken, in order and once, and a sender is used only by whoever has popped the packet with it. -/
def Promised (log : List (Event ι Uuid)) : Event ι Uuid → Prop
  | .pushed _ => True
  | .popped pkt => pops log ++ [pkt] <+: pushes log
  | .sent i _ => ∃ pkt ∈ pops log, pkt.resp = i
  | .received i reply => receives i log ++ [reply] <+: sends i log

/-- The promises have been kept. -/
inductive Lawful : List (Event ι Uuid) → Prop
  | nil : Lawful []
  | snoc (log : List (Event ι Uuid)) (e : Event ι Uuid) (h : Lawful log) (he : Promised log e) :
      Lawful (log ++ [e])

end log

/-- All requests, and what has happened at the queue and the channels. -/
structure App (ι Uuid P U : Type) where
  handlers : ι → Handler P U
  log : List (Event ι Uuid)

namespace App

def start : App ι Uuid P U := ⟨fun _ => .reading, []⟩

variable [DecidableEq ι]

/-- Request `i` moves on to `h`. -/
def move (s : App ι Uuid P U) (i : ι) (h : Handler P U) (events : List (Event ι Uuid)) :
    App ι Uuid P U :=
  ⟨Function.update s.handlers i h, s.log ++ events⟩

section move

variable (s : App ι Uuid P U) (i : ι) (h : Handler P U) (events : List (Event ι Uuid))

@[simp] theorem move_log : (s.move i h events).log = s.log ++ events := rfl

@[simp] theorem move_self : (s.move i h events).handlers i = h := Function.update_self _ _ _

theorem move_of_ne {j : ι} (hj : j ≠ i) : (s.move i h events).handlers j = s.handlers j :=
  Function.update_of_ne hj _ _

end move

end App

section steps

variable [DecidableEq ι] (parseStr : String → Except U Uuid) (parseIp : String → Option IpAddr)
  (method : ι → Method) (form : ι → Except P (String → Option String))

/-- The packet of a request whose form is there. -/
def packetOf (i : ι) : Except (Error P U) (RocksPacket ι Uuid) :=
  match form i with
  | .ok map => RocksPacket.new parseStr parseIp (method i) map i
  | .error e => .error (.urlencoded e)

/-- One step of a request, or of whoever pops the packets and replies to them. A `Timeout` passes
on what its future gives, and until then it may give an error of its own at any time. A request
can be cancelled at any time too, and its receiver is there until its future is dropped. -/
inductive Step : App ι Uuid P U → App ι Uuid P U → Prop
  | refuses (s : App ι Uuid P U) (i : ι) (e : Error P U) (h : s.handlers i = .reading)
      (hp : packetOf parseStr parseIp method form i = .error e) :
      Step s (s.move i (.answered (.error e)) [])
  | pushes (s : App ι Uuid P U) (i : ι) (pkt : RocksPacket ι Uuid) (h : s.handlers i = .reading)
      (hp : packetOf parseStr parseIp method form i = .ok pkt) :
      Step s (s.move i .receiving [.pushed pkt])
  | receives (s : App ι Uuid P U) (i : ι) (reply : List UInt8) {tryRecv : Except Unit (List UInt8)}
      (h : s.handlers i = .receiving) (hr : receiverPoll tryRecv = .ready reply) :
      Step s (s.move i (.answered (.ok reply)) [.received i reply])
  | times (s : App ι Uuid P U) (i : ι) (e : Error P U) (he : e.TimedOut) (h : (s.handlers i).Open) :
      Step s (s.move i (.answered (.error e)) [])
  | cancels (s : App ι Uuid P U) (i : ι) (h : (s.handlers i).Open) : Step s (s.move i .cancelled [])
  | pops (s : App ι Uuid P U) (pkt : RocksPacket ι Uuid) {pop : Except Unit (RocksPacket ι Uuid)}
      (hq : segQueuePoll pop = .ready pkt) : Step s { s with log := s.log ++ [.popped pkt] }
  | sends (s : App ι Uuid P U) (i : ι) (reply : List UInt8) :
      Step s { s with log := s.log ++ [.sent i reply] }

abbrev Reaches : App ι Uuid P U → App ι Uuid P U → Prop :=
  Relation.ReflTransGen (Step parseStr parseIp method form)

end steps

section invariant

variable [DecidableEq ι] {parseStr : String → Except U Uuid} {parseIp : String → Option IpAddr}
  {method : ι → Method} {form : ι → Except P (String → Option String)}

section new

omit [DecidableEq ι]

theorem ok_of_bind {ε α β : Type} {x : Except ε α} {f : α → Except ε β} {b : β} (h : x >>= f = .ok b) :
    ∃ a, x = .ok a ∧ f a = .ok b := by
  cases x with
  | ok a => exact ⟨a, rfl, h⟩
  | error e => cases h

/-- A packet goes back to the request that it is made of. -/
theorem new_resp {m : Method} {map : String → Option String} {resp : ι} {pkt : RocksPacket ι Uuid}
    (h : (RocksPacket.new parseStr parseIp m map resp : Except (Error P U) _) = .ok pkt) :
    pkt.resp = resp := by
  unfold RocksPacket.new at h
  split at h
  · obtain ⟨user, -, h⟩ := ok_of_bind h
    obtain ⟨port, -, h⟩ := ok_of_bind h
    obtain rfl := Except.ok.inj h
    rfl
  · obtain ⟨conn, -, h⟩ := ok_of_bind h
    obtain rfl := Except.ok.inj h
    rfl
  · obtain ⟨conn, -, h⟩ := ok_of_bind h
    obtain rfl := Except.ok.inj h
    rfl
  · cases h

theorem packetOf_resp {i : ι} {pkt : RocksPacket ι Uuid}
    (h : (packetOf parseStr parseIp method form i : Except (Error P U) _) = .ok pkt) : pkt.resp = i := by
  rw [packetOf] at h
  split at h
  · exact new_resp h
  · cases h

end new

section log

variable {log : List (Event ι Uuid)}

omit [DecidableEq ι] in
@[simp] theorem pushes_append (log events : List (Event ι Uuid)) :
    pushes (log ++ events) = pushes log ++ pushes events := List.filterMap_append

omit [DecidableEq ι] in
@[simp] theorem pops_append (log events : List (Event ι Uuid)) :
    pops (log ++ events) = pops log ++ pops events := List.filterMap_append

@[simp] theorem sends_append (i : ι) (log events : List (Event ι Uuid)) :
    sends i (log ++ events) = sends i log ++ sends i events := List.filterMap_append

@[simp] theorem receives_append (i : ι) (log events : List (Event ι Uuid)) :
    receives i (log ++ events) = receives i log ++ receives i events := List.filterMap_append

theorem Lawful.queue (h : Lawful log) : pops log <+: pushes log := by
  induction h with
  | nil => exact List.prefix_rfl
  | snoc log e _ he ih =>
    have hpush : pushes log <+: pushes (log ++ [e]) := by
      rw [pushes_append]
      exact List.prefix_append _ _
    refine List.IsPrefix.trans ?_ hpush
    cases e with
    | popped pkt =>
      have he : pops log ++ [pkt] <+: pushes log := he
      simpa [pops] using he
    | pushed | sent | received => simpa [pops] using ih

theorem Lawful.channel (h : Lawful log) (i : ι) : receives i log <+: sends i log := by
  induction h with
  | nil => exact List.prefix_rfl
  | snoc log e _ he ih =>
    have hsend : sends i log <+: sends i (log ++ [e]) := by
      rw [sends_append]
      exact List.prefix_append _ _
    refine List.IsPrefix.trans ?_ hsend
    cases e with
    | received j reply =>
      by_cases hj : j = i
      · subst hj
        have he : receives j log ++ [reply] <+: sends j log := he
        simpa [receives] using he
      · simpa [receives, hj] using ih
    | pushed | popped | sent => simpa [receives] using ih

/-- Whoever sends on a channel has popped the packet with its sender before. -/
theorem Lawful.owner {before after : List (Event ι Uuid)} {i : ι} {reply : List UInt8}
    (h : Lawful (before ++ .sent i reply :: after)) :
    Lawful before ∧ ∃ pkt ∈ pops before, pkt.resp = i := by
  generalize hlog : before ++ .sent i reply :: after = log at h
  induction h generalizing after with
  | nil => simp at hlog
  | snoc log e h he ih =>
    rcases List.eq_nil_or_concat after with rfl | ⟨after, last, rfl⟩
    · obtain ⟨rfl, hlast⟩ := List.append_inj' hlog rfl
      obtain rfl := (List.cons.inj hlast).1
      exact ⟨h, he⟩
    · have hsplit : (before ++ .sent i reply :: after) ++ [last] = log ++ [e] := by
        rw [← hlog]
        simp
      exact ih (List.append_inj' hsplit rfl).1

/-- The first reply sent on a channel, and what came before it. -/
theorem first_sent {i : ι} {reply : List UInt8} {later : List (List UInt8)}
    (h : sends i log = reply :: later) :
    ∃ before after, log = before ++ .sent i reply :: after ∧ sends i before = [] := by
  obtain ⟨before, e, after, rfl, hnone, he, -⟩ := List.filterMap_eq_cons_iff.mp h
  cases e with
  | pushed | popped | received => cases he
  | sent j other =>
    simp only at he
    split_ifs at he with hj
    obtain rfl := hj
    obtain rfl := Option.some.inj he
    exact ⟨before, after, rfl, List.filterMap_eq_nil_iff.mpr hnone⟩

end log

/-- What the log says about every state that is reached. -/
structure Accounts (parseStr : String → Except U Uuid) (parseIp : String → Option IpAddr)
    (method : ι → Method) (form : ι → Except P (String → Option String)) (s : App ι Uuid P U) :
    Prop where
  once : ((pushes s.log).map RocksPacket.resp).Nodup
  formed : ∀ pkt ∈ pushes s.log, packetOf parseStr parseIp method form pkt.resp = .ok pkt
  unread : ∀ i, s.handlers i = .reading → i ∉ (pushes s.log).map RocksPacket.resp
  received : ∀ i, receives i s.log = (s.handlers i).reply.toList
  refused : ∀ i e, s.handlers i = .answered (.error e) → e.TimedOut ∨
    packetOf parseStr parseIp method form i = .error e ∧ i ∉ (pushes s.log).map RocksPacket.resp

namespace Accounts

variable {s : App ι Uuid P U} {i : ι}

theorem start : Accounts parseStr parseIp method form (App.start : App ι Uuid P U) where
  once := List.nodup_nil
  formed := by simp [App.start, pushes]
  unread := by simp [App.start, pushes]
  received := by simp [App.start, receives, Handler.reply]
  refused := by simp [App.start]

/-- A request that is answered without a reply, or given up. -/
theorem closes (ha : Accounts parseStr parseIp method form s) (hopen : (s.handlers i).Open)
    {h : Handler P U} (hread : h ≠ .reading) (hreply : h.reply = none)
    (hrefused : ∀ e, h = .answered (.error e) → e.TimedOut ∨
      packetOf parseStr parseIp method form i = .error e ∧ i ∉ (pushes s.log).map RocksPacket.resp) :
    Accounts parseStr parseIp method form (s.move i h []) := by
  have hlog : (s.move i h []).log = s.log := List.append_nil _
  have hreplied : (s.handlers i).reply = none := by
    rcases hopen with ho | ho <;> rw [ho] <;> rfl
  refine ⟨?_, ?_, ?_, ?_, ?_⟩ <;> rw [hlog]
  · exact ha.once
  · exact ha.formed
  · intro j hj
    by_cases hji : j = i
    · rw [hji, App.move_self] at hj
      exact absurd hj hread
    · rw [App.move_of_ne _ _ _ _ hji] at hj
      exact ha.unread j hj
  · intro j
    rw [ha.received j]
    by_cases hji : j = i
    · rw [hji, App.move_self, hreply, hreplied]
    · rw [App.move_of_ne _ _ _ _ hji]
  · intro j e hj
    by_cases hji : j = i
    · rw [hji, App.move_self] at hj
      rw [hji]
      exact hrefused e hj
    · rw [App.move_of_ne _ _ _ _ hji] at hj
      exact ha.refused j e hj

/-- Events at the outside that are neither pushes nor receipts. -/
theorem logs (ha : Accounts parseStr parseIp method form s) {e : Event ι Uuid}
    (hpush : pushes [e] = []) (hreceive : ∀ i, receives i [e] = []) :
    Accounts parseStr parseIp method form { s with log := s.log ++ [e] } := by
  have hp : pushes (s.log ++ [e]) = pushes s.log := by rw [pushes_append, hpush, List.append_nil]
  refine ⟨?_, ?_, ?_, ?_, ?_⟩ <;> simp only [hp]
  · exact ha.once
  · exact ha.formed
  · exact ha.unread
  · intro i
    rw [receives_append, hreceive i, List.append_nil, ha.received i]
  · exact ha.refused

/-- The step lemma. -/
theorem step {s' : App ι Uuid P U} (ha : Accounts parseStr parseIp method form s)
    (h : Step parseStr parseIp method form s s') : Accounts parseStr parseIp method form s' := by
  cases h with
  | refuses i e h hp =>
    apply ha.closes (Or.inl h) (by simp) rfl
    intro e' he
    obtain rfl := Except.error.inj (Handler.answered.inj he)
    exact Or.inr ⟨hp, ha.unread i h⟩
  | times i e he h =>
    apply ha.closes h (by simp) rfl
    intro e' he'
    obtain rfl := Except.error.inj (Handler.answered.inj he')
    exact Or.inl he
  | cancels i h => exact ha.closes h (by simp) rfl (by simp)
  | pops => exact ha.logs rfl (fun _ => rfl)
  | sends => exact ha.logs rfl (fun _ => rfl)
  | pushes i pkt h hp =>
    obtain rfl : pkt.resp = i := packetOf_resp hp
    have hlog : pushes (s.log ++ [.pushed pkt]) = pushes s.log ++ [pkt] := pushes_append _ _
    refine ⟨?_, ?_, ?_, ?_, ?_⟩ <;> rw [App.move_log]
    · rw [hlog, List.map_append, List.map_singleton, ← List.concat_eq_append]
      exact List.Nodup.concat (ha.unread _ h) ha.once
    · rw [hlog]
      intro other hother
      rcases List.mem_append.mp hother with hother | hother
      · exact ha.formed other hother
      · obtain rfl := List.mem_singleton.mp hother
        exact hp
    · rw [hlog]
      intro j hj
      by_cases hjp : j = pkt.resp
      · rw [hjp, App.move_self] at hj
        cases hj
      · rw [App.move_of_ne _ _ _ _ hjp] at hj
        simpa [hjp] using ha.unread j hj
    · intro j
      rw [receives_append, ha.received j]
      by_cases hjp : j = pkt.resp
      · rw [hjp, App.move_self, h]
        rfl
      · rw [App.move_of_ne _ _ _ _ hjp]
        exact List.append_nil _
    · rw [hlog]
      intro j e hj
      by_cases hjp : j = pkt.resp
      · rw [hjp, App.move_self] at hj
        cases hj
      · rw [App.move_of_ne _ _ _ _ hjp] at hj
        simpa [hjp] using ha.refused j e hj
  | receives i reply h hr =>
    have hlog : pushes (s.log ++ [.received i reply]) = pushes s.log := by
      rw [pushes_append]
      exact List.append_nil _
    refine ⟨?_, ?_, ?_, ?_, ?_⟩ <;> rw [App.move_log]
    · rw [hlog]
      exact ha.once
    · rw [hlog]
      exact ha.formed
    · rw [hlog]
      intro j hj
      by_cases hji : j = i
      · rw [hji, App.move_self] at hj
        cases hj
      · rw [App.move_of_ne _ _ _ _ hji] at hj
        exact ha.unread j hj
    · intro j
      rw [receives_append, ha.received j]
      by_cases hji : j = i
      · rw [hji, App.move_self, h]
        simp [receives, Handler.reply]
      · rw [App.move_of_ne _ _ _ _ hji]
        simp [receives, Ne.symm hji]
    · rw [hlog]
      intro j e hj
      by_cases hji : j = i
      · rw [hji, App.move_self] at hj
        cases hj
      · rw [App.move_of_ne _ _ _ _ hji] at hj
        exact ha.refused j e hj

end Accounts

/-- Whatever the requests, the timer and whoever answers do, and in whatever order: each request
pushes at most one packet; what it is answered with is the first reply sent on its own channel, by
whoever has popped the packet that its form says, and it takes no other; and an error is that of the
timer, or that of its form, and then it has pushed nothing. -/
theorem requests_get_their_replies {s : App ι Uuid P U}
    (h : Reaches parseStr parseIp method form .start s) (hl : Lawful s.log) :
    ((pushes s.log).map RocksPacket.resp).Nodup ∧
      (∀ i, receives i s.log = (s.handlers i).reply.toList) ∧
      (∀ i reply, s.handlers i = .answered (.ok reply) → ∃ pkt before after,
        packetOf parseStr parseIp method form i = .ok pkt ∧ pkt ∈ pops before ∧
          sends i before = [] ∧ s.log = before ++ .sent i reply :: after) ∧
      ∀ i e, s.handlers i = .answered (.error e) → e.TimedOut ∨
        packetOf parseStr parseIp method form i = .error e ∧
          i ∉ (pushes s.log).map RocksPacket.resp := by
  have ha : Accounts parseStr parseIp method form s := by
    apply Async.keeps_of_reaches _ h Accounts.start
    intro s s' hstep ha
    exact ha.step hstep
  refine ⟨ha.once, ha.received, ?_, ha.refused⟩
  intro i reply hi
  have hreceived : receives i s.log = [reply] := by
    rw [ha.received i, hi]
    rfl
  have hsent := hl.channel i
  rw [hreceived] at hsent
  obtain ⟨later, hlater⟩ := hsent
  obtain ⟨before, after, hlog, hfirst⟩ := first_sent hlater.symm
  rw [hlog] at hl
  obtain ⟨hbefore, pkt, hpkt, hresp⟩ := hl.owner
  have hpushed : pkt ∈ pushes s.log := by
    rw [hlog, pushes_append]
    exact List.mem_append_left _ (hbefore.queue.subset hpkt)
  have hform := ha.formed pkt hpushed
  rw [hresp] at hform
  exact ⟨pkt, before, after, hform, hpkt, hfirst, hlog⟩

end invariant

/-- One request, to connect to a name, and others whose forms do not come through. -/
def sampleForm : ℕ → Except Unit (String → Option String)
  | 0 => .ok (connectForm "7" "example.org" 80)
  | _ => .error ()

def sampleUser (text : String) : Except Unit ℕ := if text = "7" then .ok 7 else .error ()

abbrev sampleReaches : App ℕ ℕ Unit Unit → App ℕ ℕ Unit Unit → Prop :=
  Reaches sampleUser (fun _ => none) (fun _ => .get) sampleForm

def samplePacket : RocksPacket ℕ ℕ := .connect 7 (.domain "example.org" 80) 0

theorem samplePacket_new :
    packetOf sampleUser (fun _ => none) (fun _ => .get) sampleForm 0 = .ok samplePacket :=
  new_connectForm (fun _ => none) (by decide) .get "example.org" 80 0

/-- The request gets the first of two replies. -/
theorem requests_get_their_replies_connect :
    ∃ s, sampleReaches .start s ∧ Lawful s.log ∧ s.handlers 0 = .answered (.ok [1]) ∧
      sends 0 s.log = [[1], [2]] ∧ receives 0 s.log = [[1]] ∧
      ∃ pkt before after, packetOf sampleUser (fun _ => none) (fun _ => .get) sampleForm 0 = .ok pkt ∧
        pkt ∈ pops before ∧ sends 0 before = [] ∧ s.log = before ++ .sent 0 [1] :: after := by
  have h1 := Relation.ReflTransGen.single (Step.pushes App.start 0 samplePacket (by rfl) samplePacket_new)
  have h2 := h1.tail (.pops _ samplePacket (show segQueuePoll (.ok samplePacket) = _ from rfl))
  have h3 := h2.tail (.sends _ 0 [1])
  have h4 := h3.tail (.receives _ 0 [1] (by rfl) (show receiverPoll (.ok [1]) = _ from rfl))
  have h5 := h4.tail (.sends _ 0 [2])
  have hl : Lawful [.pushed samplePacket, .popped samplePacket, .sent 0 [1], .received 0 [1],
      .sent 0 [2]] := by
    have l1 := Lawful.nil.snoc _ (.pushed samplePacket) trivial
    have l2 := l1.snoc _ (.popped samplePacket) List.prefix_rfl
    have l3 := l2.snoc _ (.sent 0 [1]) ⟨samplePacket, by simp [pops], rfl⟩
    have l4 := l3.snoc _ (.received 0 [1]) List.prefix_rfl
    exact l4.snoc _ (.sent 0 [2]) ⟨samplePacket, by simp [pops], rfl⟩
  obtain ⟨-, hreceived, hanswered, -⟩ := requests_get_their_replies h5 hl
  exact ⟨_, h5, hl, by rfl, by rfl, hreceived 0, hanswered 0 [1] (by rfl)⟩

end Rocks.ActixApp
