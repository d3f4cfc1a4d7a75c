import Rocks.FutureExt
import Mathlib.Order.Lattice
import Mathlib.Order.Nat

/-! `join` and `join_on_ok` over all orders in which the two children become ready. -/
namespace Rocks.FutureExt
open Polling

variable {T T1 T2 E1 E2 F1 F2 : Type}

section join

variable [Future F1 T1] [Future F2 T2] {P1 : ℕ → F1 → Prop} {P2 : ℕ → F2 → Prop}
  {d1 d2 k : ℕ} {v1 : T1} {v2 : T2} {this : Join.JoinFuture T1 T2 F1 F2}

/-- The slot of a child after `k` polls that the joined future answered with `Pending`. -/
def saved (d : ℕ) (v : T) (k : ℕ) : Option T := if d < k then some v else none

theorem saved_some {d k : ℕ} (v : T) (h : d < k) : saved d v k = some v := if_pos h

theorem saved_none {d k : ℕ} (v : T) (h : k ≤ d) : saved d v k = none := if_neg (by omega)

structure Joining (P1 : ℕ → F1 → Prop) (P2 : ℕ → F2 → Prop) (d1 d2 : ℕ) (v1 : T1) (v2 : T2) (k : ℕ)
    (this : Join.JoinFuture T1 T2 F1 F2) : Prop where
  child1 : P1 k this.f1
  child2 : P2 k this.f2
  slot1 : this.v1 = saved d1 v1 k
  slot2 : this.v2 = saved d2 v2 k

/-- The step lemma while a child is still pending. -/
theorem Joining.waits (hr1 : Ripens P1 d1 v1) (hr2 : Ripens P2 d2 v2)
    (h : Joining P1 P2 d1 d2 v1 v2 k this) (hk : k < max d1 d2) :
    ∃ this', Future.poll this = some (.pending, this') ∧ Joining P1 P2 d1 d2 v1 v2 (k+1) this' := by
  obtain ⟨f1, f2, s1, s2⟩ := this
  obtain ⟨hc1, hc2, hs1, hs2⟩ := h
  simp only at hc1 hc2 hs1 hs2
  subst hs1 hs2
  rcases lt_trichotomy k d1 with hk1 | rfl | hk1
  · obtain ⟨f1', hp1, hc1'⟩ := hr1.waits k f1 hk1 hc1
    have hs1 := saved_none v1 hk1.le
    have hs1' := saved_none v1 hk1
    rcases lt_trichotomy k d2 with hk2 | rfl | hk2
    · -- both are polled and both are pending
      obtain ⟨f2', hp2, hc2'⟩ := hr2.waits k f2 hk2 hc2
      refine ⟨⟨f1', f2', none, none⟩, ?_, hc1', hc2', hs1'.symm, (saved_none v2 hk2).symm⟩
      simp [Future.poll, Join.JoinFuture.poll, hs1, saved_none v2 hk2.le, hp1, hp2]
    · -- child 2 is ready at this poll, and its value is kept
      obtain ⟨f2', hp2, hc2'⟩ := hr2.ripens f2 hc2
      refine ⟨⟨f1', f2', none, some v2⟩, ?_, hc1', hc2', hs1'.symm, (saved_some v2 k.lt_succ_self).symm⟩
      simp [Future.poll, Join.JoinFuture.poll, hs1, saved_none v2 le_rfl, hp1, hp2]
    · -- child 2 is not polled any more
      refine ⟨⟨f1', f2, none, some v2⟩, ?_, hc1', hr2.rests k f2 hk2 hc2, hs1'.symm,
        (saved_some v2 (by omega)).symm⟩
      simp [Future.poll, Join.JoinFuture.poll, hs1, saved_some v2 hk2, hp1]
  · -- the mirror image: child 1 is ready at this poll
    have hk2 : k < d2 := by omega
    obtain ⟨f1', hp1, hc1'⟩ := hr1.ripens f1 hc1
    obtain ⟨f2', hp2, hc2'⟩ := hr2.waits k f2 hk2 hc2
    refine ⟨⟨f1', f2', some v1, none⟩, ?_, hc1', hc2', (saved_some v1 k.lt_succ_self).symm,
      (saved_none v2 hk2).symm⟩
    simp [Future.poll, Join.JoinFuture.poll, saved_none v1 le_rfl, saved_none v2 hk2.le, hp1, hp2]
  · -- child 1 has been ready before and is left alone
    have hk2 : k < d2 := by omega
    obtain ⟨f2', hp2, hc2'⟩ := hr2.waits k f2 hk2 hc2
    refine ⟨⟨f1, f2', some v1, none⟩, ?_, hr1.rests k f1 hk1 hc1, hc2',
      (saved_some v1 (by omega)).symm, (saved_none v2 hk2).symm⟩
    simp [Future.poll, Join.JoinFuture.poll, saved_some v1 hk1, saved_none v2 hk2.le, hp2]

/-- The last step: the poll at which the later child becomes ready. -/
theorem Joining.completes (hr1 : Ripens P1 d1 v1) (hr2 : Ripens P2 d2 v2)
    (h : Joining P1 P2 d1 d2 v1 v2 (max d1 d2) this) :
    ∃ this', Future.poll this = some (.ready (v1, v2), this') ∧
      P1 (max d1 d2+1) this'.f1 ∧ P2 (max d1 d2+1) this'.f2 := by
  obtain ⟨f1, f2, s1, s2⟩ := this
  obtain ⟨hc1, hc2, hs1, hs2⟩ := h
  simp only at hc1 hc2 hs1 hs2
  subst hs1 hs2
  rcases lt_trichotomy d1 d2 with hd | rfl | hd
  -- the kept value is taken out of its slot
  · rw [max_eq_right hd.le] at hc1 hc2 ⊢
    obtain ⟨f2', hp2, hc2'⟩ := hr2.ripens f2 hc2
    refine ⟨⟨f1, f2', none, none⟩, ?_, hr1.rests d2 f1 hd hc1, hc2'⟩
    simp [Future.poll, Join.JoinFuture.poll, saved_some v1 hd, saved_none v2 le_rfl, hp2]
  · rw [max_self] at hc1 hc2 ⊢
    obtain ⟨f1', hp1, hc1'⟩ := hr1.ripens f1 hc1
    obtain ⟨f2', hp2, hc2'⟩ := hr2.ripens f2 hc2
    refine ⟨⟨f1', f2', none, none⟩, ?_, hc1', hc2'⟩
    simp [Future.poll, Join.JoinFuture.poll, saved_none v1 le_rfl, saved_none v2 le_rfl, hp1, hp2]
  · rw [max_eq_left hd.le] at hc1 hc2 ⊢
    obtain ⟨f1', hp1, hc1'⟩ := hr1.ripens f1 hc1
    refine ⟨⟨f1', f2, none, none⟩, ?_, hc1', hr2.rests d1 f2 hd hc2⟩
    simp [Future.poll, Join.JoinFuture.poll, saved_none v1 le_rfl, saved_some v2 hd, hp1]

variable {f1 : F1} {f2 : F2}

/-- The run up to any poll before the last. -/
theorem join_waits (hr1 : Ripens P1 d1 v1) (hr2 : Ripens P2 d2 v2) (h1 : P1 0 f1) (h2 : P2 0 f2)
    (hk : k ≤ max d1 d2) : ∃ this, polls k (join f1 f2) = some (List.replicate k .pending, this) ∧
      Joining P1 P2 d1 d2 v1 v2 k this :=
  polls_pending (fun _ _ hk h => h.waits hr1 hr2 hk) ⟨h1, h2, rfl, rfl⟩ hk

/-- The whole run. -/
theorem join_runs (hr1 : Ripens P1 d1 v1) (hr2 : Ripens P2 d2 v2) (h1 : P1 0 f1) (h2 : P2 0 f2) :
    ∃ this, polls (max d1 d2+1) (join f1 f2) = some (pendingThen (max d1 d2) (v1, v2), this) ∧
      P1 (max d1 d2+1) this.f1 ∧ P2 (max d1 d2+1) this.f2 := by
  obtain ⟨this, hpolls, h⟩ := join_waits hr1 hr2 h1 h2 le_rfl
  obtain ⟨this', hpoll, hc1, hc2⟩ := h.completes hr1 hr2
  exact ⟨this', polls_concat hpolls hpoll, hc1, hc2⟩

theorem join_yields (h1 : Yields f1 d1 v1) (h2 : Yields f2 d2 v2) :
    Yields (join f1 f2) (max d1 d2) (v1, v2) := by
  obtain ⟨this, hpolls, -⟩ := join_runs (left_ripens d1 v1) (left_ripens d2 v2) (fun _ => h1) (fun _ => h2)
  exact yields_of_polls hpolls

/-- `join` is `Pending` until the first poll by which both children have been ready, and then gives
both values. Each child is polled once at each poll until it is ready and never again, and its
value is kept from then on. -/
theorem join_every_schedule (h1 : Yields f1 d1 v1) (h2 : Yields f2 d2 v2) :
    (∀ k ≤ max d1 d2, ∃ this : Join.JoinFuture T1 T2 (Logged F1 T1) (Logged F2 T2),
      polls k (join (Logged.new f1) (Logged.new f2)) = some (List.replicate k .pending, this) ∧
      this.f1.answers = (pendingThen d1 v1).take k ∧ this.f2.answers = (pendingThen d2 v2).take k ∧
      (d1 < k → this.v1 = some v1) ∧ (d2 < k → this.v2 = some v2)) ∧
    ∃ this : Join.JoinFuture T1 T2 (Logged F1 T1) (Logged F2 T2),
      polls (max d1 d2+1) (join (Logged.new f1) (Logged.new f2)) =
        some (List.replicate (max d1 d2) .pending ++ [.ready (v1, v2)], this) ∧
      this.f1.answers = pendingThen d1 v1 ∧ this.f2.answers = pendingThen d2 v2 := by
  have hr1 := Logged.ripens (F := F1) d1 v1
  have hr2 := Logged.ripens (F := F2) d2 v2
  constructor
  · intro k hk
    obtain ⟨this, hpolls, h⟩ := join_waits hr1 hr2 (.new h1) (.new h2) hk
    refine ⟨this, hpolls, h.child1.answers, h.child2.answers, ?_, ?_⟩
    · intro hk1
      rw [h.slot1, saved_some v1 hk1]
    · intro hk2
      rw [h.slot2, saved_some v2 hk2]
  · obtain ⟨this, hpolls, hc1, hc2⟩ := join_runs hr1 hr2 (.new h1) (.new h2)
    refine ⟨this, hpolls, ?_, ?_⟩
    · rw [hc1.answers, pendingThen_take_all v1 (by omega)]
    · rw [hc2.answers, pendingThen_take_all v2 (by omega)]

/-- The first child is ready at the first poll, the second one two polls later. -/
theorem join_every_schedule_second_later :
    (∀ k ≤ 2, ∃ this : Join.JoinFuture Bool ℕ (Logged (Scripted Bool) Bool) (Logged (Scripted ℕ) ℕ),
      polls k (join (Logged.new ⟨[.ready true]⟩) (Logged.new ⟨[.pending, .pending, .ready 7]⟩)) =
        some (List.replicate k .pending, this) ∧
      this.f1.answers = [.ready true].take k ∧
      this.f2.answers = [.pending, .pending, .ready 7].take k ∧
      (0 < k → this.v1 = some true) ∧ (2 < k → this.v2 = some 7)) ∧
    ∃ this : Join.JoinFuture Bool ℕ (Logged (Scripted Bool) Bool) (Logged (Scripted ℕ) ℕ),
      polls 3 (join (Logged.new ⟨[.ready true]⟩) (Logged.new ⟨[.pending, .pending, .ready 7]⟩)) =
        some ([.pending, .pending, .ready (true, 7)], this) ∧
      this.f1.answers = [.ready true] ∧ this.f2.answers = [.pending, .pending, .ready 7] :=
  join_every_schedule (yields_scripted 0 true) (yields_scripted 2 7)

end join

section joinOnOk

variable [Future F1 (Except E1 T1)] [Future F2 (Except E2 T2)] {P1 : ℕ → F1 → Prop}
  {P2 : ℕ → F2 → Prop} {d1 d2 k m : ℕ} {r1 : Except E1 T1} {r2 : Except E2 T2}
  {this : JoinOnOk.JoinFuture T1 T2 F1 F2}

/-- By poll `m`, counted from 0, a child has returned `Err` or both have returned. -/
def Settled (d1 d2 : ℕ) (r1 : Except E1 T1) (r2 : Except E2 T2) (m : ℕ) : Prop :=
  (d1 ≤ m ∧ ∃ e, r1 = .error e) ∨ (d2 ≤ m ∧ ∃ e, r2 = .error e) ∨ (d1 ≤ m ∧ d2 ≤ m)

/-- What a child has returned by then. -/
def returned (d : ℕ) (r : T) (m : ℕ) : Option T := if d ≤ m then some r else none

theorem returned_some {d m : ℕ} (r : T) (h : d ≤ m) : returned d r m = some r := if_pos h

theorem returned_none {d m : ℕ} (r : T) (h : m < d) : returned d r m = none := if_neg (by omega)

theorem returned_eq_none {d m : ℕ} {r : T} : returned d r m = none ↔ m < d := by
  rw [returned, ite_eq_right_iff]
  simp

structure JoiningOnOk (P1 : ℕ → F1 → Prop) (P2 : ℕ → F2 → Prop) (d1 d2 : ℕ) (r1 : Except E1 T1)
    (r2 : Except E2 T2) (k : ℕ) (this : JoinOnOk.JoinFuture T1 T2 F1 F2) : Prop where
  child1 : P1 k this.f1
  child2 : P2 k this.f2
  slot1 : this.v1.map .ok = saved d1 r1 k
  slot2 : this.v2.map .ok = saved d2 r2 k

/-- A child that has returned while the joined future is pending has returned `Ok`. -/
theorem ok_of_not_settled {d1 d2 : ℕ} {r1 : Except E1 T1} {r2 : Except E2 T2} {k : ℕ}
    (h : ¬Settled d1 d2 r1 r2 k) :
    (d1 ≤ k → k < d2 ∧ ∃ t, r1 = .ok t) ∧ (d2 ≤ k → k < d1 ∧ ∃ t, r2 = .ok t) := by
  constructor
  · intro hk
    constructor
    · by_contra hd
      exact h (.inr (.inr ⟨hk, by omega⟩))
    · cases r1 with
      | ok t => exact ⟨t, rfl⟩
      | error e => exact absurd (.inl ⟨hk, e, rfl⟩) h
  · intro hk
    constructor
    · by_contra hd
      exact h (.inr (.inr ⟨by omega, hk⟩))
    · cases r2 with
      | ok t => exact ⟨t, rfl⟩
      | error e => exact absurd (.inr (.inl ⟨hk, e, rfl⟩)) h

/-- The step lemma while the result is open. -/
theorem JoiningOnOk.waits (hr1 : Ripens P1 d1 r1) (hr2 : Ripens P2 d2 r2)
    (h : JoiningOnOk P1 P2 d1 d2 r1 r2 k this) (hk : ¬Settled d1 d2 r1 r2 k) :
    ∃ this', Future.poll this = some (.pending, this') ∧
      JoiningOnOk P1 P2 d1 d2 r1 r2 (k+1) this' := by
  obtain ⟨f1, f2, s1, s2⟩ := this
  obtain ⟨hc1, hc2, hs1, hs2⟩ := h
  simp only at hc1 hc2 hs1 hs2
  obtain ⟨hret1, hret2⟩ := ok_of_not_settled hk
  rcases lt_trichotomy k d1 with hk1 | hk1 | hk1
  · obtain ⟨f1', hp1, hc1'⟩ := hr1.waits k f1 hk1 hc1
    rw [saved_none r1 hk1.le, Option.map_eq_none_iff] at hs1
    have hs1' := saved_none r1 hk1
    rcases lt_trichotomy k d2 with hk2 | hk2 | hk2
    · obtain ⟨f2', hp2, hc2'⟩ := hr2.waits k f2 hk2 hc2
      rw [saved_none r2 hk2.le, Option.map_eq_none_iff] at hs2
      refine ⟨⟨f1', f2', none, none⟩, ?_, hc1', hc2', hs1'.symm, (saved_none r2 hk2).symm⟩
      simp [Future.poll, JoinOnOk.JoinFuture.poll, hs1, hs2, hp1, hp2]
    · -- only an `Ok` leaves the result open
      obtain ⟨-, t2, rfl⟩ := hret2 hk2.ge
      subst hk2
      obtain ⟨f2', hp2, hc2'⟩ := hr2.ripens f2 hc2
      rw [saved_none _ le_rfl, Option.map_eq_none_iff] at hs2
      refine ⟨⟨f1', f2', none, some t2⟩, ?_, hc1', hc2', hs1'.symm,
        (saved_some _ k.lt_succ_self).symm⟩
      simp [Future.poll, JoinOnOk.JoinFuture.poll, hs1, hs2, hp1, hp2]
    · obtain ⟨t2, rfl, ht2⟩ := Option.map_eq_some_iff.mp (hs2.trans (saved_some r2 hk2))
      refine ⟨⟨f1', f2, none, some t2⟩, ?_, hc1', hr2.rests k f2 hk2 hc2, hs1'.symm, ?_⟩
      · simp [Future.poll, JoinOnOk.JoinFuture.poll, hs1, hp1]
      · rw [saved_some r2 (by omega), ← ht2, Option.map_some]
  · obtain ⟨hk2, t1, rfl⟩ := hret1 hk1.ge
    subst hk1
    obtain ⟨f1', hp1, hc1'⟩ := hr1.ripens f1 hc1
    obtain ⟨f2', hp2, hc2'⟩ := hr2.waits k f2 hk2 hc2
    rw [saved_none _ le_rfl, Option.map_eq_none_iff] at hs1
    rw [saved_none r2 hk2.le, Option.map_eq_none_iff] at hs2
    refine ⟨⟨f1', f2', some t1, none⟩, ?_, hc1', hc2', (saved_some _ k.lt_succ_self).symm,
      (saved_none r2 hk2).symm⟩
    simp [Future.poll, JoinOnOk.JoinFuture.poll, hs1, hs2, hp1, hp2]
  · have hk2 := (hret1 hk1.le).1
    obtain ⟨f2', hp2, hc2'⟩ := hr2.waits k f2 hk2 hc2
    obtain ⟨t1, rfl, ht1⟩ := Option.map_eq_some_iff.mp (hs1.trans (saved_some r1 hk1))
    rw [saved_none r2 hk2.le, Option.map_eq_none_iff] at hs2
    refine ⟨⟨f1, f2', some t1, none⟩, ?_, hr1.rests k f1 hk1 hc1, hc2', ?_, (saved_none r2 hk2).symm⟩
    · simp [Future.poll, JoinOnOk.JoinFuture.poll, hs2, hp2]
    · rw [saved_some r1 (by omega), ← ht1, Option.map_some]

/-- The last step: what has been returned by then is handed out, whichever arm does it. -/
theorem JoiningOnOk.completes (hr1 : Ripens P1 d1 r1) (hr2 : Ripens P2 d2 r2)
    (h : JoiningOnOk P1 P2 d1 d2 r1 r2 m this) (hm : Settled d1 d2 r1 r2 m)
    (hopen : ∀ k < m, ¬Settled d1 d2 r1 r2 k) :
    ∃ this', Future.poll this = some (.ready (returned d1 r1 m, returned d2 r2 m), this') ∧
      P1 (m+1) this'.f1 ∧ P2 (m+1) this'.f2 := by
  obtain ⟨f1, f2, s1, s2⟩ := this
  obtain ⟨hc1, hc2, hs1, hs2⟩ := h
  simp only at hc1 hc2 hs1 hs2
  rcases lt_trichotomy m d1 with hm1 | hm1 | hm1
  · obtain ⟨f1', hp1, hc1'⟩ := hr1.waits m f1 hm1 hc1
    rw [saved_none r1 hm1.le, Option.map_eq_none_iff] at hs1
    -- child 1 is pending, so child 2 has failed, and at this very poll
    obtain ⟨hm2, e2, rfl⟩ : d2 ≤ m ∧ ∃ e, r2 = .error e := by
      rcases hm with h | h | h
      · omega
      · exact h
      · omega
    have hd2 : m = d2 := by
      by_contra hne
      exact hopen d2 (by omega) (.inr (.inl ⟨le_rfl, e2, rfl⟩))
    subst hd2
    obtain ⟨f2', hp2, hc2'⟩ := hr2.ripens f2 hc2
    rw [saved_none _ le_rfl, Option.map_eq_none_iff] at hs2
    refine ⟨⟨f1', f2', none, none⟩, ?_, hc1', hc2'⟩
    rw [returned_none r1 hm1, returned_some _ le_rfl]
    simp [Future.poll, JoinOnOk.JoinFuture.poll, hs1, hs2, hp1, hp2]
  · subst hm1
    obtain ⟨f1', hp1, hc1'⟩ := hr1.ripens f1 hc1
    rw [saved_none _ le_rfl, Option.map_eq_none_iff] at hs1
    rw [returned_some r1 le_rfl]
    rcases lt_trichotomy m d2 with hm2 | hm2 | hm2
    · -- child 2 is pending, so only an `Err` of child 1 settles the result
      obtain ⟨e1, rfl⟩ : ∃ e, r1 = .error e := by
        rcases hm with h | h | h
        · exact h.2
        · omega
        · omega
      obtain ⟨f2', hp2, hc2'⟩ := hr2.waits m f2 hm2 hc2
      rw [saved_none r2 hm2.le, Option.map_eq_none_iff] at hs2
      refine ⟨⟨f1', f2', none, none⟩, ?_, hc1', hc2'⟩
      rw [returned_none r2 hm2]
      simp [Future.poll, JoinOnOk.JoinFuture.poll, hs1, hs2, hp1, hp2]
    · subst hm2
      obtain ⟨f2', hp2, hc2'⟩ := hr2.ripens f2 hc2
      rw [saved_none _ le_rfl, Option.map_eq_none_iff] at hs2
      refine ⟨⟨f1', f2', none, none⟩, ?_, hc1', hc2'⟩
      rw [returned_some r2 le_rfl]
      simp [Future.poll, JoinOnOk.JoinFuture.poll, hs1, hs2, hp1, hp2]
    · -- the value of child 2 comes from its slot and is wrapped in `Ok` again
      obtain ⟨t2, rfl, ht2⟩ := Option.map_eq_some_iff.mp (hs2.trans (saved_some r2 hm2))
      refine ⟨⟨f1', f2, none, none⟩, ?_, hc1', hr2.rests m f2 hm2 hc2⟩
      rw [returned_some r2 hm2.le, ← ht2]
      simp [Future.poll, JoinOnOk.JoinFuture.poll, hs1, hp1]
  · -- child 1 has returned `Ok` before, so the result was left open by child 2 alone
    obtain ⟨t1, rfl, ht1⟩ := Option.map_eq_some_iff.mp (hs1.trans (saved_some r1 hm1))
    obtain rfl : m = d2 := by
      rcases lt_trichotomy m d2 with hm2 | hm2 | hm2
      · rcases hm with ⟨-, e, he⟩ | h | h
        · rw [← ht1] at he
          cases he
        · omega
        · omega
      · exact hm2
      · exact absurd (.inr (.inr ⟨le_max_left d1 d2, le_max_right d1 d2⟩))
          (hopen (max d1 d2) (max_lt hm1 hm2))
    obtain ⟨f2', hp2, hc2'⟩ := hr2.ripens f2 hc2
    rw [saved_none _ le_rfl, Option.map_eq_none_iff] at hs2
    refine ⟨⟨f1, f2', none, none⟩, ?_, hr1.rests m f1 hm1 hc1, hc2'⟩
    rw [returned_some r1 hm1.le, returned_some r2 le_rfl, ← ht1]
    simp [Future.poll, JoinOnOk.JoinFuture.poll, hs2, hp2]

/-- There is a first poll that settles the result. -/
theorem settles (d1 d2 : ℕ) (r1 : Except E1 T1) (r2 : Except E2 T2) :
    ∃ m, Settled d1 d2 r1 r2 m ∧ ∀ k < m, ¬Settled d1 d2 r1 r2 k := by
  have hmax : ∃ m, Settled d1 d2 r1 r2 m :=
    ⟨max d1 d2, .inr (.inr ⟨le_max_left d1 d2, le_max_right d1 d2⟩)⟩
  classical
  exact ⟨Nat.find hmax, Nat.find_spec hmax, fun _ hk => Nat.find_min hmax hk⟩

theorem Settled.fst_missing (h : Settled d1 d2 r1 r2 m) (hm : m < d1) :
    ∃ e, returned d2 r2 m = some (.error e) := by
  rcases h with h | ⟨hd, e, rfl⟩ | h
  · omega
  · exact ⟨e, returned_some _ hd⟩
  · omega

theorem Settled.snd_missing (h : Settled d1 d2 r1 r2 m) (hm : m < d2) :
    ∃ e, returned d1 r1 m = some (.error e) := by
  rcases h with ⟨hd, e, rfl⟩ | h | h
  · exact ⟨e, returned_some _ hd⟩
  · omega
  · omega

/-- Two `Ok`s settle the result when the later one is there. -/
theorem Settled.eq_max {t1 : T1} {t2 : T2}
    (h : Settled d1 d2 (.ok t1 : Except E1 T1) (.ok t2 : Except E2 T2) m)
    (hopen : ∀ k < m, ¬Settled d1 d2 (.ok t1 : Except E1 T1) (.ok t2 : Except E2 T2) k) :
    max d1 d2 = m := by
  have hboth : d1 ≤ m ∧ d2 ≤ m := by
    rcases h with ⟨-, e, he⟩ | ⟨-, e, he⟩ | h
    · cases he
    · cases he
    · exact h
  apply le_antisymm (max_le hboth.1 hboth.2)
  by_contra hlt
  exact hopen (max d1 d2) (by omega) (.inr (.inr ⟨le_max_left d1 d2, le_max_right d1 d2⟩))

variable {f1 : F1} {f2 : F2}

theorem joinOnOk_waits (hr1 : Ripens P1 d1 r1) (hr2 : Ripens P2 d2 r2) (h1 : P1 0 f1) (h2 : P2 0 f2)
    (hopen : ∀ k < m, ¬Settled d1 d2 r1 r2 k) (hk : k ≤ m) :
    ∃ this, polls k (joinOnOk f1 f2) = some (List.replicate k .pending, this) ∧
      JoiningOnOk P1 P2 d1 d2 r1 r2 k this :=
  polls_pending (fun k _ hk h => h.waits hr1 hr2 (hopen k hk)) ⟨h1, h2, rfl, rfl⟩ hk

/-- `join_on_ok` completes at the first poll that settles the result, and gives what has been
returned by then; a child that is ready is not polled again. With two `Ok`s this is the poll at
which `join` completes. -/
theorem joinOnOk_every_schedule (h1 : Yields f1 d1 r1) (h2 : Yields f2 d2 r2) :
    ∃ m, (Settled d1 d2 r1 r2 m ∧ ∀ k < m, ¬Settled d1 d2 r1 r2 k) ∧
      (∀ k ≤ m,
        ∃ this : JoinOnOk.JoinFuture T1 T2 (Logged F1 (Except E1 T1)) (Logged F2 (Except E2 T2)),
        polls k (joinOnOk (Logged.new f1) (Logged.new f2)) = some (List.replicate k .pending, this) ∧
        this.f1.answers = (pendingThen d1 r1).take k ∧ this.f2.answers = (pendingThen d2 r2).take k) ∧
      (∃ this : JoinOnOk.JoinFuture T1 T2 (Logged F1 (Except E1 T1)) (Logged F2 (Except E2 T2)),
        polls (m+1) (joinOnOk (Logged.new f1) (Logged.new f2)) =
          some (List.replicate m .pending ++ [.ready (returned d1 r1 m, returned d2 r2 m)], this) ∧
        this.f1.answers = (pendingThen d1 r1).take (m+1) ∧
        this.f2.answers = (pendingThen d2 r2).take (m+1)) ∧
      (returned d1 r1 m = none → ∃ e, returned d2 r2 m = some (.error e)) ∧
      (returned d2 r2 m = none → ∃ e, returned d1 r1 m = some (.error e)) ∧
      ∀ t1 t2, r1 = .ok t1 → r2 = .ok t2 → returned d1 r1 m = some (.ok t1) ∧
        returned d2 r2 m = some (.ok t2) ∧ Yields (join f1 f2) m (r1, r2) := by
  have hr1 := Logged.ripens (F := F1) d1 r1
  have hr2 := Logged.ripens (F := F2) d2 r2
  obtain ⟨m, hm, hopen⟩ := settles d1 d2 r1 r2
  refine ⟨m, ⟨hm, hopen⟩, ?_, ?_, ?_, ?_, ?_⟩
  · intro k hk
    obtain ⟨this, hpolls, h⟩ := joinOnOk_waits hr1 hr2 (.new h1) (.new h2) hopen hk
    exact ⟨this, hpolls, h.child1.answers, h.child2.answers⟩
  · obtain ⟨this, hpolls, h⟩ := joinOnOk_waits hr1 hr2 (.new h1) (.new h2) hopen le_rfl
    obtain ⟨this', hpoll, hc1, hc2⟩ := h.completes hr1 hr2 hm hopen
    exact ⟨this', polls_concat hpolls hpoll, hc1.answers, hc2.answers⟩
  · intro hnone
    exact hm.fst_missing (returned_eq_none.mp hnone)
  · intro hnone
    exact hm.snd_missing (returned_eq_none.mp hnone)
  · rintro t1 t2 rfl rfl
    have hmax := hm.eq_max hopen
    rw [returned_some _ (by omega), returned_some _ (by omega)]
    exact ⟨rfl, rfl, hmax ▸ join_yields h1 h2⟩

/-- The first child fails while the second one is pending. -/
theorem joinOnOk_every_schedule_first_fails :
    ∃ this : JoinOnOk.JoinFuture Bool ℕ (Logged (Scripted (Except ℕ Bool)) (Except ℕ Bool))
        (Logged (Scripted (Except ℕ ℕ)) (Except ℕ ℕ)),
      polls 2 (joinOnOk (Logged.new ⟨[.pending, .ready (.error 5)]⟩)
        (Logged.new ⟨[.pending, .pending, .pending, .ready (.ok 7)]⟩)) =
          some ([.pending, .ready (some (.error 5), none)], this) ∧
      this.f2.answers = [.pending, .pending] := by
  obtain ⟨m, ⟨hm, hopen⟩, -, ⟨this, hpolls, -, h2⟩, -⟩ := joinOnOk_every_schedule
    (yields_scripted 1 (.error 5 : Except ℕ Bool)) (yields_scripted 3 (.ok 7 : Except ℕ ℕ))
  have hpos : m ≠ 0 := by
    rintro rfl
    rcases hm with h | h | h <;> omega
  have hle : ¬1 < m := fun h => hopen 1 h (.inl ⟨le_rfl, 5, rfl⟩)
  obtain rfl : m = 1 := by omega
  exact ⟨this, hpolls, h2⟩

end joinOnOk

end Rocks.FutureExt
