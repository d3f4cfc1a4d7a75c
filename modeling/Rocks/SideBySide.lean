import Mathlib.Data.List.Basic
import Mathlib.Logic.Relation
import Mathlib.Tactic.Common

/-! Any number of components side by side, which take their steps independently of each other:
what the whole reaches is exactly what the components reach one by one. -/
namespace SideBySide

variable {σ : Type}

/-- One component takes a step, the others stay. -/
inductive Advances (step : ℕ → σ → σ → Prop) : List σ → List σ → Prop
  | one (l : List σ) (i : ℕ) (a b : σ) (ha : l[i]? = some a) (h : step i a b) :
      Advances step l (l.set i b)

/-- The components from the second on, counted from zero. -/
def later (step : ℕ → σ → σ → Prop) (i : ℕ) : σ → σ → Prop := step (i+1)

variable {step : ℕ → σ → σ → Prop}

theorem advances_length {l l' : List σ} (h : Advances step l l') : l'.length = l.length := by
  cases h with
  | one i a b ha h => exact List.length_set

theorem Advances.head {a b : σ} {l : List σ} (h : step 0 a b) : Advances step (a :: l) (b :: l) :=
  .one (a :: l) 0 a b rfl h

theorem Advances.tail {a : σ} {l l' : List σ} (h : Advances (later step) l l') :
    Advances step (a :: l) (a :: l') := by
  cases h with
  | one i b c hb h => exact .one (a :: l) (i+1) b c hb h

theorem reaches_component {l l' : List σ} (h : Relation.ReflTransGen (Advances step) l l') :
    l'.length = l.length ∧ ∀ (i : ℕ) (a b : σ), l[i]? = some a → l'[i]? = some b →
      Relation.ReflTransGen (step i) a b := by
  induction h with
  | refl =>
    refine ⟨rfl, ?_⟩
    intro i a b ha hb
    obtain rfl := Option.some.inj (ha.symm.trans hb)
    exact .refl
  | @tail m m' _ hlast ih =>
    obtain ⟨hlen, hcomp⟩ := ih
    refine ⟨(advances_length hlast).trans hlen, ?_⟩
    intro i a b ha hb
    cases hlast with
    | one j c d hc h =>
      by_cases hij : j = i
      · subst hij
        have hj : j < m.length := (List.getElem?_eq_some_iff.mp hc).1
        rw [List.getElem?_set_self hj] at hb
        obtain rfl := Option.some.inj hb
        exact (hcomp j a c ha hc).tail h
      · rw [List.getElem?_set_ne hij] at hb
        exact hcomp i a b ha hb

/-- The whole reaches exactly the combinations of what its components reach. -/
theorem reaches_iff {l l' : List σ} : Relation.ReflTransGen (Advances step) l l' ↔
    l'.length = l.length ∧ ∀ (i : ℕ) (a b : σ), l[i]? = some a → l'[i]? = some b →
      Relation.ReflTransGen (step i) a b := by
  constructor
  · exact reaches_component
  · -- the first component runs first, then the others
    rintro ⟨hlen, hcomp⟩
    induction l generalizing l' step with
    | nil =>
      rw [List.length_nil] at hlen
      rw [List.length_eq_zero_iff.mp hlen]
    | cons a l ih =>
      cases l' with
      | nil => simp at hlen
      | cons b l' =>
        have hhead : Relation.ReflTransGen (Advances step) (a :: l) (b :: l) :=
          (hcomp 0 a b rfl rfl).lift (· :: l) (fun _ _ h => Advances.head h)
        have hl : l'.length = l.length := by simpa using hlen
        have htail : Relation.ReflTransGen (Advances (later step)) l l' :=
          ih hl (fun i c d hc hd => hcomp (i+1) c d hc hd)
        exact hhead.trans (htail.lift (b :: ·) (fun _ _ h => h.tail))

end SideBySide
