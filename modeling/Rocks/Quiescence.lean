import Mathlib.Logic.Function.Iterate
import Mathlib.Logic.Relation
import Mathlib.Order.WellFounded
import Mathlib.Tactic.Common

/-! Transition systems that come to rest: steps that change nothing are allowed, but no run
changes something infinitely often. -/
namespace Quiescence

variable {σ : Type} (step : σ → σ → Prop)

/-- A step that changes something. -/
def Moves (a b : σ) : Prop := step a b ∧ b ≠ a

/-- Nothing can change any more. -/
def Quiet (a : σ) : Prop := ∀ b, step a b → b = a

/-- No run from here moves forever. -/
def Settles (a : σ) : Prop := Acc (fun b a => Moves step a b) a

variable {step}

/-- What is at rest stays as it is. -/
theorem quiet_reaches {a b : σ} (hq : Quiet step a) (h : Relation.ReflTransGen step a b) : b = a := by
  induction h with
  | refl => rfl
  | tail _ hlast ih =>
    subst ih
    exact hq _ hlast

/-- The simulation rule: each move leads to a state known to settle, or keeps `I` and is a move
of a system that settles. -/
theorem Settles.of_map {τ : Type} {step' : τ → τ → Prop} {I : σ → Prop} (f : σ → τ)
    (hmove : ∀ a b, I a → Moves step a b → Settles step b ∨ I b ∧ Moves step' (f a) (f b)) {a : σ}
    (ha : I a) (hf : Settles step' (f a)) : Settles step a := by
  obtain ⟨c, hc⟩ : ∃ c, c = f a := ⟨_, rfl⟩
  rw [← hc] at hf
  induction hf generalizing a with
  | intro c _ ih =>
    subst hc
    constructor
    intro b hab
    rcases hmove a b ha hab with hb | ⟨hb, hm⟩
    · exact hb
    · exact ih (f b) hm hb rfl

theorem settles_lt (n : ℕ) : Settles (fun a b : ℕ => b < a) n := by
  induction n using Nat.strong_induction_on with
  | _ n ih =>
    constructor
    intro m hm
    exact ih m hm.1

/-- The ranking rule. -/
theorem Settles.of_rank {I : σ → Prop} (rank : σ → ℕ)
    (hmove : ∀ a b, I a → Moves step a b → Settles step b ∨ I b ∧ rank b < rank a) {a : σ} (ha : I a) :
    Settles step a := by
  apply Settles.of_map rank _ ha (settles_lt (rank a))
  intro a b ha hab
  exact (hmove a b ha hab).imp_right (fun h => ⟨h.1, h.2, by omega⟩)

/-- Moving on as long as anything can change leads to rest. -/
theorem Settles.exists_quiet {a : σ} (h : Settles step a) :
    ∃ b, Relation.ReflTransGen step a b ∧ Quiet step b := by
  induction h with
  | intro a _ ih =>
    by_cases hq : Quiet step a
    · exact ⟨a, .refl, hq⟩
    · obtain ⟨b, hb⟩ := not_forall.mp hq
      obtain ⟨hab, hne⟩ := Classical.not_imp.mp hb
      obtain ⟨c, hbc, hc⟩ := ih b ⟨hab, hne⟩
      exact ⟨c, .head hab hbc, hc⟩

/-- Every infinite run repeats one state from some point on. -/
theorem Settles.run_stops {run : ℕ → σ} (h : Settles step (run 0))
    (hrun : ∀ i, step (run i) (run (i+1))) : ∃ n, ∀ i, n ≤ i → run i = run n := by
  -- by induction on accessibility, along the tail of the run behind its first move
  have htail : ∀ a, Settles step a → ∀ m, run m = a → ∃ n, ∀ i, n ≤ i → run i = run n := by
    intro a ha
    induction ha with
    | intro a _ ih =>
      intro m hm
      by_cases hs : ∀ i, m ≤ i → run i = run m
      · exact ⟨m, hs⟩
      · obtain ⟨i, hi⟩ := not_forall.mp hs
        obtain ⟨hmi, hne⟩ := Classical.not_imp.mp hi
        obtain ⟨j, hj, hsame, hmoved⟩ : ∃ j, m ≤ j ∧ run j = a ∧ run (j+1) ≠ a := by
          by_contra hno
          apply hne
          have hall : ∀ d, run (m+d) = a := by
            intro d
            induction d with
            | zero => exact hm
            | succ d ihd =>
              by_contra hd
              exact hno ⟨m+d, by omega, ihd, hd⟩
          have hd := hall (i-m)
          rw [show m+(i-m) = i by omega] at hd
          rw [hd, hm]
        have hstep := hrun j
        rw [hsame] at hstep
        exact ih (run (j+1)) ⟨hstep, hmoved⟩ (j+1) rfl
  exact htail (run 0) h 0 rfl

/-- A run that may also stand still repeats one state from some point on. -/
theorem Settles.stands_still {run : ℕ → σ} (h : Settles step (run 0))
    (hrun : ∀ i, run (i+1) = run i ∨ step (run i) (run (i+1))) : ∃ n, ∀ i, n ≤ i → run i = run n := by
  let pauses : σ → σ → Prop := fun a b => b = a ∨ step a b
  have hp : Settles pauses (run 0) := by
    refine Settles.of_map (I := fun _ => True) id ?_ trivial h
    intro a b _ hab
    right
    exact ⟨trivial, hab.1.resolve_left hab.2, hab.2⟩
  exact hp.run_stops hrun

/-- A path to where one can go on forever is the beginning of an infinite run. -/
theorem exists_run {I : σ → Prop} (hI : ∀ a, I a → ∃ b, step a b ∧ I b) {a b : σ}
    (h : Relation.ReflTransGen step a b) (hb : I b) :
    ∃ run : ℕ → σ, run 0 = a ∧ (∀ n, step (run n) (run (n+1))) ∧ ∃ k, ∀ n, k ≤ n → I (run n) := by
  induction h using Relation.ReflTransGen.head_induction_on with
  | refl =>
    have hsub : ∀ c : {c // I c}, ∃ d : {c // I c}, step c.1 d.1 := by
      intro c
      obtain ⟨d, hd, hI'⟩ := hI c.1 c.2
      exact ⟨⟨d, hI'⟩, hd⟩
    choose next hnext using hsub
    refine ⟨fun n => (next^[n] ⟨b, hb⟩).1, rfl, ?_, 0, fun n _ => (next^[n] ⟨b, hb⟩).2⟩
    intro n
    simpa only [Function.iterate_succ_apply'] using hnext (next^[n] ⟨b, hb⟩)
  | @head a c hac _ ih =>
    obtain ⟨run, h0, hrun, k, hk⟩ := ih
    refine ⟨fun n => if n = 0 then a else run (n-1), rfl, ?_, k+1, ?_⟩
    · intro n
      cases n with
      | zero => simpa [h0] using hac
      | succ n => simpa using hrun n
    · intro n hn
      have hpos : n ≠ 0 := by omega
      simp only [hpos, if_false]
      exact hk (n-1) (by omega)

end Quiescence
