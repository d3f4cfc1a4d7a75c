import Rocks.RelayLast

/-! Up to its relay a task run in small steps does what it does in one run. -/
namespace Rocks
open Async Segments

namespace World

variable {ι : Type} (w : World ι) (s : TcpStream)

theorem consume_self : w.consume s (w.input s) = w := by
  simp [consume]

/-- A write of which nothing is taken. -/
theorem deliver_zero (buf : List UInt8) : w.deliver s buf 0 = w := by
  refine World.ext_fields (fun _ => rfl) (fun s' => ?_) (by simp)
  simp only [deliver, Function.update_apply]
  split_ifs with hs
  · rw [hs]
    cases w.room s <;> rfl
  · rfl

theorem accepted_add {room : Option ℕ} {m n : ℕ} (hm : accepted room m = m) :
    accepted room (m+n) = m+accepted (roomLeft room m) n := by
  cases room with
  | none => rfl
  | some r =>
    simp only [accepted, roomLeft, Option.map_some] at hm ⊢
    omega

/-- A short write and the rest of it. -/
theorem deliver_deliver (buf : List UInt8) (m n : ℕ) :
    (w.deliver s (buf.take m) m).deliver s (buf.drop m) n = w.deliver s buf (m+n) := by
  have ht : buf.take (m+n) = buf.take m ++ (buf.drop m).take n := List.take_add
  have hr : roomLeft (roomLeft (w.room s) m) n = roomLeft (w.room s) (m+n) := by
    cases w.room s with
    | none => rfl
    | some r => simp [roomLeft, Nat.sub_sub]
  simp [deliver, ht, hr, List.take_take]

/-- So the answer to a write does not depend on how it is cut. -/
theorem handler_writeAll (pull : ℕ → ι → Option (List UInt8) × ι) (env : Env) (buf : List UInt8) (m : ℕ)
    (hl : m ≤ buf.length) (hm : accepted (w.room s) m = m) :
    handler pull env (.writeAll s (buf.drop m)) (w.deliver s (buf.take m) m) =
      handler pull env (.writeAll s buf) w := by
  have hroom : (w.deliver s (buf.take m) m).room s = roomLeft (w.room s) m := by simp [deliver]
  have hn : accepted (w.room s) buf.length =
      m+accepted (roomLeft (w.room s) m) (buf.drop m).length := by
    rw [← accepted_add hm, List.length_drop, Nat.add_sub_cancel' hl]
  have hiff : accepted (roomLeft (w.room s) m) (buf.drop m).length = (buf.drop m).length ↔
      accepted (w.room s) buf.length = buf.length := by
    rw [hn, List.length_drop]
    omega
  simp only [handler, hroom, deliver_deliver, ← hn]
  congr 1
  split_ifs with h1 h2 h2
  · rfl
  · exact absurd (hiff.mp h1) h2
  · exact absurd (hiff.mpr h2) h1
  · rfl

end World

namespace Net

variable (n : Net) (s : TcpStream)

theorem modify_sock (f : Sock → Sock) (s' : TcpStream) :
    (n.modify s f).sock s' = if s' = s then f (n.sock s) else n.sock s' := by
  simp [modify, Function.update_apply]

/-- An update keeps what `f` keeps. -/
theorem modify_keeps {β : Type} (φ : Sock → β) {n : Net} {s : TcpStream} {f : Sock → Sock}
    (hf : ∀ sock, φ (f sock) = φ sock) (s' : TcpStream) :
    φ ((n.modify s f).sock s') = φ (n.sock s') := by
  rw [modify_sock]
  split_ifs with h
  · rw [hf, h]
  · rfl

/-- A write changes nothing of a socket but its room. -/
theorem deliver_keeps {β : Type} (φ : Sock → β) (n : Net) (s : TcpStream) (buf : List UInt8)
    (hf : ∀ (sock : Sock) room, φ { sock with room := room } = φ sock) (s' : TcpStream) :
    φ ((n.deliver s buf).sock s') = φ (n.sock s') :=
  modify_keeps φ (s := s) (fun sock => hf sock (roomLeft sock.room buf.length)) s'

theorem arrive_wire (k : ℕ) : (n.arrive s k).wire = n.wire := by
  refine World.ext_fields ?_ ?_ rfl
  · intro s'
    simp only [wire, arrive, modify_sock]
    split_ifs with h
    · subst h
      cases hc : (n.sock s').coming <;> simp [Sock.unread, hc]
    · rfl
  · intro s'
    exact modify_keeps Sock.room (by intro; rfl) s'

theorem finish_wire (h : (n.sock s).coming = some []) : (n.finish s).wire = n.wire := by
  refine World.ext_fields ?_ ?_ rfl
  · intro s'
    simp only [wire, finish, modify_sock]
    split_ifs with hs
    · subst hs
      simp [Sock.unread, h]
    · rfl
  · intro s'
    exact modify_keeps Sock.room (by intro; rfl) s'

theorem take_wire (k : ℕ) (h : k ≤ (n.sock s).arrived.length) :
    (n.take s k).wire = n.wire.consume s ((n.sock s).unread.drop k) := by
  refine World.ext_fields ?_ ?_ rfl
  · intro s'
    simp only [wire, take, modify_sock, World.consume, Function.update_apply]
    split_ifs with hs
    · simp [Sock.unread, List.drop_append_of_le_length h]
    · rfl
  · intro s'
    exact modify_keeps Sock.room (by intro; rfl) s'

theorem deliver_wire (buf : List UInt8) :
    (n.deliver s buf).wire = n.wire.deliver s buf buf.length := by
  refine World.ext_fields ?_ ?_ (by simp [wire, deliver])
  · intro s'
    simp only [wire, deliver, modify_sock, World.deliver]
    split_ifs with hs
    · rw [hs]
      rfl
    · rfl
  · intro s'
    simp only [wire, deliver, modify_sock, World.deliver, Function.update_apply]
    split_ifs with hs <;> rfl

theorem shutDown_wire : (n.shutDown s).wire = n.wire.shutDown s := by
  refine World.ext_fields ?_ ?_ rfl
  · intro s'
    exact modify_keeps Sock.unread (f := fun sock => { sock with room := some 0, shut := true })
      (by intro; rfl) s'
  · intro s'
    simp only [wire, shutDown, modify_sock, World.shutDown, Function.update_apply]
    split_ifs with hs <;> rfl

end Net

/-- The stream that is not read, cut where a read stops. -/
theorem Sock.unread_split (s : Sock) {k : ℕ} (h : k ≤ s.arrived.length) :
    s.unread = s.arrived.take k ++ s.unread.drop k := by
  rw [Sock.unread, List.drop_append_of_le_length h, ← List.append_assoc, List.take_append_drop]

theorem takeExact_unread {n : Net} {s : TcpStream} {len m : ℕ} (hl : m ≤ len)
    (ha : m ≤ (n.sock s).arrived.length) :
    takeExact len (n.sock s).unread =
      ((takeExact (len-m) ((n.sock s).unread.drop m)).1.map ((n.sock s).arrived.take m ++ ·),
        (takeExact (len-m) ((n.sock s).unread.drop m)).2) := by
  have hlen : ((n.sock s).arrived.take m).length = m := List.length_take_of_le ha
  have h := takeExact_append len ((n.sock s).arrived.take m) ((n.sock s).unread.drop m) (by omega)
  rwa [← (n.sock s).unread_split ha, hlen] at h

/-- A run only adds to the trace. -/
theorem run_trace_grows {ι α : Type} (pull : ℕ → ι → Option (List UInt8) × ι) (env : Env) (t : Io α)
    (w : World ι) : w.trace <+: (t.run (handler pull env) w).2.trace := by
  induction t generalizing w with
  | done r => exact List.prefix_rfl
  | await o k ih =>
    have ho : w.trace <+: (handler pull env o w).2.trace := by
      cases o with
      | writeAll | toSocketAddrs | connect | join | shutdown => exact List.prefix_append _ _
      | readExact | peerAddr | localAddr => exact List.prefix_rfl
    exact ho.trans (ih _ _)

/-- A run only takes from the front of a stream. -/
theorem run_input_suffix {α : Type} (env : Env) (t : Io α) (w : Wire) (s : TcpStream) :
    (t.run (wire env) w).2.input s <:+ w.input s := by
  induction t generalizing w with
  | done r => exact List.suffix_rfl
  | await o k ih =>
    have ho : (wire env o w).2.input s <:+ w.input s := by
      cases o with
      | readExact s' len =>
        simp only [wire, handler, World.consume, Function.update_apply]
        split_ifs with h
        · rw [h, takeExact]
          split_ifs
          · exact List.drop_suffix _ _
          · exact List.nil_suffix
        · exact List.suffix_rfl
      | writeAll | toSocketAddrs | connect | peerAddr | localAddr | join | shutdown =>
        exact List.suffix_rfl
    exact (ih _ _).trans ho

/-- A poll leaves the task with its relay still to come, if it has one. -/
theorem polls_endsWith {env : Env} {α : Type} {n n' : Net} {t t' : Io α}
    {g : Except IoError ℕ × Except IoError ℕ → Outcome Error α} (h : Polls env (n, t) (n', t'))
    (ht : t.EndsWith (relayLast g)) : t'.EndsWith (relayLast g) := by
  cases h with
  | read _ s len m k => exact .await _ _ rfl (fun r => ht.of_await rfl _)
  | write _ s buf m k => exact .await _ _ rfl (fun r => ht.of_await rfl r)
  | filled | cutOff | written | refused | toSocketAddrs | connect | peerAddr | localAddr | shutdown =>
    exact ht.of_await rfl _

/-- What is left of a run after a poll is what was left of it before. -/
theorem polls_run {env : Env} {α : Type} {n n' : Net} {t t' : Io α}
    (h : Polls env (n, t) (n', t')) :
    t'.run (wire env) n'.wire = t.run (wire env) n.wire := by
  cases h with
  | read _ s len m k h0 hl ha =>
    -- the bytes read now are the front of what the whole read would take
    have ht := takeExact_unread hl ha
    rw [Task.run_await, Task.run_await, Net.take_wire _ _ _ ha]
    simp only [wire, handler, World.consume_input_self, World.consume_consume]
    have hw : n.wire.input s = (n.sock s).unread := rfl
    rw [hw, ht]
    cases (takeExact (len-m) ((n.sock s).unread.drop m)).1 <;> rfl
  | filled _ s k =>
    simp only [Task.run_await, wire, handler, takeExact_zero, World.consume_self]
  | cutOff _ s len k h0 ha hc =>
    -- nothing has arrived and nothing will, so the one run falls short here too
    have hw : n.wire.input s = [] := by simp [Net.wire, Sock.unread, ha, hc]
    have ht : takeExact len (n.wire.input s) = (none, []) := takeExact_short (by rw [hw]; exact h0)
    have hsame : n.wire.consume s [] = n.wire := by rw [← hw, World.consume_self]
    simp only [Task.run_await, wire, handler, ht, hsame]
  | write _ s buf m k h0 hl hr =>
    have hw := World.handler_writeAll n.wire s takeExact env buf m hl hr
    have hlen : (buf.take m).length = m := List.length_take_of_le hl
    rw [Task.run_await, Task.run_await, Net.deliver_wire, hlen, wire, hw]
  | written _ s k =>
    -- an empty write is accepted by every socket
    have hz : accepted (n.wire.room s) 0 = 0 := by cases n.wire.room s <;> simp [accepted]
    have hw : handler takeExact env (.writeAll s []) n.wire = (.ok (), n.wire) := by
      simp only [handler, List.length_nil, hz, ↓reduceIte, World.deliver_zero]
    rw [Task.run_await, wire, hw]
  | refused _ s buf k hb hr =>
    have hroom : n.wire.room s = some 0 := hr
    have hw : handler takeExact env (.writeAll s buf) n.wire = (.error (env.writeError s), n.wire) := by
      have hne : ¬0 = buf.length := fun h => hb (List.length_eq_zero_iff.mp h.symm)
      simp only [handler, hroom, accepted, Nat.min_zero, hne, ↓reduceIte, World.deliver_zero]
    rw [Task.run_await, wire, hw]
  | shutdown _ s k =>
    rw [Task.run_await, Net.shutDown_wire]
    rfl
  | toSocketAddrs | connect | peerAddr | localAddr => rfl

end Rocks
