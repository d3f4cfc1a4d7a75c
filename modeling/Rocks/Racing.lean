import Rocks.Joining

/-! `alt` over all orders in which the two children become ready, if they ever do. -/
namespace Rocks.FutureExt
open Polling

variable {T1 T2 F1 F2 : Type} [Future F1 T1] [Future F2 T2]

/-- What the answers of two children come to. -/
def either : Poll T1 → Poll T2 → Poll (Option T1 × Option T2)
  | .pending, .pending => .pending
  | r1, r2 => .ready (r1.value, r2.value)

theorem either_eq_pending {r1 : Poll T1} {r2 : Poll T2} :
    either r1 r2 = .pending ↔ r1 = .pending ∧ r2 = .pending := by
  cases r1 <;> cases r2 <;> simp [either]

theorem either_eq_ready {r1 : Poll T1} {r2 : Poll T2} {o1 : Option T1} {o2 : Option T2} :
    either r1 r2 = .ready (o1, o2) ↔ r1.value = o1 ∧ r2.value = o2 ∧ ¬(o1 = none ∧ o2 = none) := by
  cases r1 <;> cases r2 <;> grind [either, Poll.value]

/-- One poll of `alt` is one poll of each child, whatever the other one answers. -/
theorem poll_alt_iff {this this' : Alt.AltFuture F1 F2} {r : Poll (Option T1 × Option T2)} :
    Future.poll this = some (r, this') ↔ ∃ r1 r2, Future.poll this.f1 = some (r1, this'.f1) ∧
      Future.poll this.f2 = some (r2, this'.f2) ∧ either r1 r2 = r := by
  have hpoll : Future.poll this = (Future.poll this.f1).bind fun p1 => (Future.poll this.f2).bind fun p2 =>
      some (either p1.1 p2.1, ⟨p1.2, p2.2⟩) := by
    change this.poll = _
    rw [Alt.AltFuture.poll]
    rcases Future.poll this.f1 with _ | ⟨r1, f1⟩
    · rfl
    rcases Future.poll this.f2 with _ | ⟨r2, f2⟩
    · rfl
    cases r1 <;> cases r2 <;> rfl
  rw [hpoll]
  simp only [Option.bind_eq_some_iff, Option.some.injEq, Prod.mk.injEq, Prod.exists]
  constructor
  · rintro ⟨r1, f1, h1, r2, f2, h2, hr, rfl⟩
    exact ⟨r1, r2, h1, h2, hr⟩
  · rintro ⟨r1, r2, h1, h2, hr⟩
    exact ⟨r1, _, h1, r2, _, h2, hr, rfl⟩

variable {f1 : F1} {f2 : F2}

/-- As long as `alt` is pending, both children are, poll by poll. -/
theorem alt_waits_iff (k : ℕ) (this : Alt.AltFuture F1 F2) :
    polls k (alt f1 f2) = some (List.replicate k .pending, this) ↔
      polls k f1 = some (List.replicate k .pending, this.f1) ∧
        polls k f2 = some (List.replicate k .pending, this.f2) := by
  induction k generalizing this with
  | zero =>
    simp only [polls, List.replicate_zero, Option.some.injEq, Prod.mk.injEq, true_and]
    constructor
    · rintro rfl
      exact ⟨rfl, rfl⟩
    · rintro ⟨rfl, rfl⟩
      rfl
  | succ k ih =>
    simp only [List.replicate_succ', polls_concat_iff]
    constructor
    · rintro ⟨that, hs, h⟩
      obtain ⟨hs1, hs2⟩ := (ih that).mp hs
      obtain ⟨r1, r2, h1, h2, hr⟩ := poll_alt_iff.mp h
      -- the last answer is `Pending` only if both of its parts are
      obtain ⟨rfl, rfl⟩ := either_eq_pending.mp hr
      exact ⟨⟨that.f1, hs1, h1⟩, that.f2, hs2, h2⟩
    · rintro ⟨⟨g1, hs1, h1⟩, g2, hs2, h2⟩
      exact ⟨⟨g1, g2⟩, (ih ⟨g1, g2⟩).mpr ⟨hs1, hs2⟩, poll_alt_iff.mpr ⟨_, _, h1, h2, rfl⟩⟩

theorem alt_completes_iff (k : ℕ) (o1 : Option T1) (o2 : Option T2) (this : Alt.AltFuture F1 F2) :
    polls (k+1) (alt f1 f2) = some (List.replicate k .pending ++ [.ready (o1, o2)], this) ↔
      ∃ r1 r2, polls (k+1) f1 = some (List.replicate k .pending ++ [r1], this.f1) ∧
        polls (k+1) f2 = some (List.replicate k .pending ++ [r2], this.f2) ∧
        r1.value = o1 ∧ r2.value = o2 ∧ ¬(o1 = none ∧ o2 = none) := by
  simp only [polls_concat_iff]
  constructor
  · rintro ⟨that, hs, h⟩
    obtain ⟨hs1, hs2⟩ := (alt_waits_iff k that).mp hs
    obtain ⟨r1, r2, h1, h2, hr⟩ := poll_alt_iff.mp h
    exact ⟨r1, r2, ⟨that.f1, hs1, h1⟩, ⟨that.f2, hs2, h2⟩, either_eq_ready.mp hr⟩
  · rintro ⟨r1, r2, ⟨g1, hs1, h1⟩, ⟨g2, hs2, h2⟩, hr⟩
    have hs := (alt_waits_iff k ⟨g1, g2⟩).mpr ⟨hs1, hs2⟩
    exact ⟨⟨g1, g2⟩, hs, poll_alt_iff.mpr ⟨r1, r2, h1, h2, either_eq_ready.mpr hr⟩⟩

/-- The answer of a child to a poll up to its `Ready`. -/
theorem yields_answer {F T : Type} [Future F T] {f : F} {d k : ℕ} {v : T} (h : Yields f d v) (hk : k ≤ d) :
    ∃ r f', polls (k+1) f = some (List.replicate k .pending ++ [r], f') ∧ r.value = returned d v k := by
  have hr := left_ripens (F := F) d v
  obtain ⟨f', hpolls, hleft⟩ := polls_pending (fun k f hk h => hr.waits k f hk h) (fun _ => h) hk
  rcases Nat.lt_or_ge k d with hlt | hge
  · obtain ⟨f'', hpoll, -⟩ := hr.waits k f' hlt hleft
    exact ⟨.pending, f'', polls_concat hpolls hpoll, (returned_none v hlt).symm⟩
  · obtain rfl : k = d := by omega
    obtain ⟨f'', hpoll, -⟩ := hr.ripens f' hleft
    exact ⟨.ready v, f'', polls_concat hpolls hpoll, (returned_some v le_rfl).symm⟩

variable {d1 d2 : ℕ} {v1 : T1} {v2 : T2}

theorem alt_yields (h1 : Yields f1 d1 v1) (h2 : Yields f2 d2 v2) :
    Yields (alt f1 f2) (min d1 d2) (returned d1 v1 (min d1 d2), returned d2 v2 (min d1 d2)) := by
  obtain ⟨r1, g1, hs1, hr1⟩ := yields_answer h1 (min_le_left d1 d2)
  obtain ⟨r2, g2, hs2, hr2⟩ := yields_answer h2 (min_le_right d1 d2)
  -- at the earlier of the two polls one of them is ready
  have hfirst : ¬(returned d1 v1 (min d1 d2) = none ∧ returned d2 v2 (min d1 d2) = none) := by
    rw [returned_eq_none, returned_eq_none]
    omega
  have hall := (alt_completes_iff (min d1 d2) _ _ ⟨g1, g2⟩).mpr ⟨r1, r2, hs1, hs2, hr1, hr2, hfirst⟩
  exact yields_of_polls hall

/-- `alt` polls both children at every poll and is `Pending` as long as both are; the first poll at
which one is `Ready` completes it with what each of the two has answered to that poll. So children
that become ready complete it with the earlier value, or with both of a tie. -/
theorem alt_every_schedule (f1 : F1) (f2 : F2) :
    (∀ k (this : Alt.AltFuture F1 F2), polls k (alt f1 f2) = some (List.replicate k .pending, this) ↔
      polls k f1 = some (List.replicate k .pending, this.f1) ∧
        polls k f2 = some (List.replicate k .pending, this.f2)) ∧
    (∀ k o1 o2 (this : Alt.AltFuture F1 F2),
      polls (k+1) (alt f1 f2) = some (List.replicate k .pending ++ [.ready (o1, o2)], this) ↔
        ∃ r1 r2, polls (k+1) f1 = some (List.replicate k .pending ++ [r1], this.f1) ∧
          polls (k+1) f2 = some (List.replicate k .pending ++ [r2], this.f2) ∧
          r1.value = o1 ∧ r2.value = o2 ∧ ¬(o1 = none ∧ o2 = none)) ∧
    ∀ d1 d2 v1 v2, Yields f1 d1 v1 → Yields f2 d2 v2 →
      Yields (alt f1 f2) (min d1 d2) (returned d1 v1 (min d1 d2), returned d2 v2 (min d1 d2)) :=
  ⟨alt_waits_iff, alt_completes_iff, fun _ _ _ _ => alt_yields⟩

/-- Of a child that is ready at the third poll and one that never is, `alt` gives the first. -/
example : (polls 3 (alt (⟨[.pending, .pending, .ready 7]⟩ : Scripted ℕ)
    (⟨List.replicate 9 .pending⟩ : Scripted Bool))).map (·.1) =
      some [.pending, .pending, .ready (some 7, none)] := by rfl

end Rocks.FutureExt
