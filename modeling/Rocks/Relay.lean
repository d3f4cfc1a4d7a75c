import Rocks.Interleaving

/-! The two halves of the relay: what each of them has read is what it has written and what
it still holds, whatever the other half does. -/
namespace Rocks
open Async

namespace Net

variable (n : Net) (s s' : TcpStream)

theorem arrive_unread (k : ℕ) : ((n.arrive s k).sock s').unread = (n.sock s').unread :=
  congrFun (congrArg World.input (arrive_wire n s k)) s'

theorem finish_unread (h : (n.sock s).coming = some []) :
    ((n.finish s).sock s').unread = (n.sock s').unread :=
  congrFun (congrArg World.input (finish_wire n s h)) s'

theorem take_unread_self (k : ℕ) (h : k ≤ (n.sock s).arrived.length) :
    (n.sock s).unread = (n.sock s).arrived.take k ++ ((n.take s k).sock s).unread := by
  have ht : ((n.take s k).sock s).unread = (n.sock s).unread.drop k := by
    have hw := congrFun (congrArg World.input (take_wire n s k h)) s
    simpa [wire, World.consume] using hw
  rw [ht]
  exact (n.sock s).unread_split h

theorem take_sock_of_ne (k : ℕ) (h : s' ≠ s) : (n.take s k).sock s' = n.sock s' := by
  simp [take, modify_sock, h]

theorem deliver_unread (buf : List UInt8) :
    ((n.deliver s buf).sock s').unread = (n.sock s').unread :=
  congrFun (congrArg World.input (deliver_wire n s buf)) s'

theorem deliver_coming (buf : List UInt8) :
    ((n.deliver s buf).sock s').coming = (n.sock s').coming :=
  deliver_keeps Sock.coming n s buf (by intros; rfl) s'

theorem deliver_delivered_self (buf : List UInt8) :
    (n.deliver s buf).delivered s = n.delivered s ++ buf := by
  simp [delivered, deliver]

theorem deliver_delivered_of_ne (buf : List UInt8) (h : s' ≠ s) :
    (n.deliver s buf).delivered s' = n.delivered s' := by
  have hs : sentTo s' (buf.map (.sent s)) = [] := by
    apply sentTo_eq_nil s'
    intro e he b hb
    obtain ⟨_, -, rfl⟩ := List.mem_map.mp he
    exact h (Event.sent.inj hb).1.symm
  simp [delivered, deliver, hs]

end Net

/-- What a half of the relay that began in `w` has done since. -/
structure CopyInv (env : Env) (w : Wire) (n : Net) (c : Copy) : Prop where
  data : ∃ bytes, n.delivered c.target = sentTo c.target w.trace ++ bytes ∧
    w.input c.source = bytes ++ c.buf ++ (n.sock c.source).unread
  atEnd : c.readDone = true → env.ending c.source = .eof ∧ (n.sock c.source).coming = none ∧
    (n.sock c.source).unread = []
  finished : ∀ k, c.result = some (.ok k) → c.readDone = true ∧ c.buf = []

variable {env : Env} {w : Wire} {n n' : Net} {c c' d : Copy}

theorem copyInv_new (n : Net) (args : CopyArgs) : CopyInv env n.wire n (.new args) where
  data := ⟨[], by simp [Net.delivered, Net.wire], rfl⟩
  atEnd h := by cases h
  finished k h := by cases h

theorem copies_args (h : Copies env (n, c) (n', c')) : c'.args = c.args := by
  cases h <;> rfl

/-- A half changes nothing but the stream it reads and the one it writes. -/
theorem copies_frame (h : Copies env (n, c) (n', c')) :
    (∀ s, s ≠ c.source → (n'.sock s).unread = (n.sock s).unread ∧
      (n'.sock s).coming = (n.sock s).coming) ∧
      ∀ s, s ≠ c.target → n'.delivered s = n.delivered s := by
  cases h with
  | read =>
    refine ⟨fun s hs => ?_, fun s hs => rfl⟩
    rw [Net.take_sock_of_ne _ _ _ _ hs]
    exact ⟨rfl, rfl⟩
  | write =>
    exact ⟨fun s hs => ⟨Net.deliver_unread _ _ _ _, Net.deliver_coming _ _ _ _⟩,
      fun s hs => Net.deliver_delivered_of_ne _ _ _ _ hs⟩
  | readEnd | readError | writeError | done => exact ⟨fun _ _ => ⟨rfl, rfl⟩, fun _ _ => rfl⟩

namespace CopyInv

/-- Arrivals change neither the stream as a whole nor what was written. -/
theorem of_arrives (hi : CopyInv env w n c) (h : Arrives n n') : CopyInv env w n' c := by
  have hu : ∀ s, (n'.sock s).unread = (n.sock s).unread := by
    cases h with
    | bytes s k => exact fun s' => Net.arrive_unread n s s' k
    | ending s hs => exact fun s' => Net.finish_unread n s s' hs
  -- an end of stream that is there stays there
  have hc : ∀ s, (n.sock s).coming = none → (n'.sock s).coming = none := by
    intro s' hn
    cases h with
    | bytes s k =>
      simp only [Net.arrive, Net.modify_sock]
      split_ifs with he
      · subst he
        simp [hn]
      · exact hn
    | ending s hs =>
      simp only [Net.finish, Net.modify_sock]
      split_ifs with he
      · rfl
      · exact hn
  have hd : ∀ s, n'.delivered s = n.delivered s := by
    cases h <;> exact fun _ => rfl
  refine ⟨?_, ?_, hi.finished⟩
  · obtain ⟨bytes, h1, h2⟩ := hi.data
    exact ⟨bytes, by rw [hd, h1], by rw [hu, h2]⟩
  · intro hr
    obtain ⟨h1, h2, h3⟩ := hi.atEnd hr
    exact ⟨h1, hc _ h2, by rw [hu, h3]⟩

/-- The other half reads and writes elsewhere. -/
theorem of_other (hi : CopyInv env w n c) (h : Copies env (n, d) (n', c'))
    (hs : c.source ≠ d.source) (ht : c.target ≠ d.target) : CopyInv env w n' c := by
  obtain ⟨hsock, hdel⟩ := copies_frame h
  refine ⟨?_, ?_, hi.finished⟩
  · obtain ⟨bytes, h1, h2⟩ := hi.data
    exact ⟨bytes, by rw [hdel _ ht, h1], by rw [(hsock _ hs).1, h2]⟩
  · intro hr
    obtain ⟨h1, h2, h3⟩ := hi.atEnd hr
    exact ⟨h1, by rw [(hsock _ hs).2, h2], by rw [(hsock _ hs).1, h3]⟩

/-- Its own steps move bytes from the stream to the buffer and from there to the target. -/
theorem of_copies (hi : CopyInv env w n c) (h : Copies env (n, c) (n', c')) : CopyInv env w n' c' := by
  -- `bytes` is what this half has delivered since the relay began
  obtain ⟨bytes, h1, h2⟩ := hi.data
  cases h with
  | read _ _ m hc hb hd h0 ha =>
    have hu := Net.take_unread_self n c.source m ha
    refine ⟨⟨bytes, h1, ?_⟩, ?_, ?_⟩
    · rw [hb, List.append_nil, hu, ← List.append_assoc] at h2
      exact h2
    · intro hr
      exact absurd (hd.symm.trans hr) (by decide)
    · intro k hk
      exact absurd (hc.symm.trans hk) (by simp)
  | readEnd _ _ hc hb hd ha hn he =>
    have hu : (n.sock c.source).unread = [] := by simp [Sock.unread, ha, hn]
    refine ⟨⟨bytes, h1, h2⟩, fun _ => ⟨he, hn, hu⟩, ?_⟩
    intro k hk
    exact absurd (hc.symm.trans hk) (by simp)
  | readError => exact ⟨⟨bytes, h1, h2⟩, hi.atEnd, fun k hk => by simp at hk⟩
  | write _ _ m hc h0 hl hr =>
    refine ⟨⟨bytes ++ c.buf.take m, ?_, ?_⟩, ?_, ?_⟩
    · have hd := Net.deliver_delivered_self n c.target (c.buf.take m)
      rw [h1, List.append_assoc] at hd
      exact hd
    · have hb : bytes ++ c.buf = bytes ++ c.buf.take m ++ c.buf.drop m := by
        rw [List.append_assoc, List.take_append_drop]
      have hu := Net.deliver_unread n c.target c.source (c.buf.take m)
      rw [hb, ← hu] at h2
      exact h2
    · intro hr
      obtain ⟨he, hn, hu⟩ := hi.atEnd hr
      exact ⟨he, (Net.deliver_coming n c.target c.source _).trans hn,
        (Net.deliver_unread n c.target c.source _).trans hu⟩
    · intro k hk
      exact absurd (hc.symm.trans hk) (by simp)
  | writeError => exact ⟨⟨bytes, h1, h2⟩, hi.atEnd, fun k hk => by simp at hk⟩
  | done _ _ hc hb hd => exact ⟨⟨bytes, h1, h2⟩, hi.atEnd, fun _ _ => ⟨hd, hb⟩⟩

end CopyInv

end Rocks
