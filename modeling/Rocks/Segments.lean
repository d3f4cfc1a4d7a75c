import Mathlib.Data.List.Basic
import Mathlib.Tactic.Common

/-! A byte stream cut into the pieces that successive reads deliver, and the
loop that fills a buffer from them. -/
namespace Segments

variable {α : Type}

/-- What one read delivers. It is never empty: an empty read means end of stream. -/
abbrev Segment (α : Type) := {s : List α // s ≠ []}

/-- The stream that was cut. -/
def joined (ss : List (Segment α)) : List α := ss.flatMap (·.val)

@[simp] theorem joined_nil : joined ([] : List (Segment α)) = [] := rfl

@[simp] theorem joined_cons (s : Segment α) (ss : List (Segment α)) :
    joined (s :: ss) = s.val ++ joined ss := rfl

@[simp] theorem joined_append (ss ss' : List (Segment α)) :
    joined (ss ++ ss') = joined ss ++ joined ss' :=
  List.flatMap_append

/-- Read until `n` elements have arrived or the stream ends. A read takes at
most what is still wanted; the rest of its segment stays for the next read. -/
def pullExact : ℕ → List (Segment α) → Option (List α) × List (Segment α)
  | 0, ss => (some [], ss)
  | _+1, [] => (none, [])
  | n+1, s :: ss =>
    if h : n+1 < s.val.length then
      (some (s.val.take (n+1)),
        ⟨s.val.drop (n+1), fun hd => by have := congrArg List.length hd; simp at this; omega⟩ :: ss)
    else
      let r := pullExact (n+1-s.val.length) ss
      (r.1.map (s.val ++ ·), r.2)

/-- The same on the uncut stream. -/
def takeExact (n : ℕ) (xs : List α) : Option (List α) × List α :=
  if n ≤ xs.length then (some (xs.take n), xs.drop n) else (none, [])

theorem takeExact_zero (xs : List α) : takeExact 0 xs = (some [], xs) := by
  simp [takeExact]

/-- Taking a known prefix leaves the rest of the demand to the rest of the stream. -/
theorem takeExact_append (n : ℕ) (xs ys : List α) (h : xs.length ≤ n) :
    takeExact n (xs ++ ys) =
      ((takeExact (n-xs.length) ys).1.map (xs ++ ·), (takeExact (n-xs.length) ys).2) := by
  unfold takeExact
  by_cases hn : n ≤ xs.length+ys.length
  · have hy : n-xs.length ≤ ys.length := by omega
    simp only [List.length_append, hn, hy, ↓reduceIte, Option.map_some]
    rw [List.take_append, List.drop_append, List.take_of_length_le h, List.drop_eq_nil_of_le h,
      List.nil_append]
  · have hy : ¬n-xs.length ≤ ys.length := by omega
    simp only [List.length_append, hn, hy, ↓reduceIte, Option.map_none]

theorem takeExact_prefix (xs ys : List α) :
    takeExact xs.length (xs ++ ys) = (some xs, ys) := by
  simp [takeExact_append, takeExact_zero]

theorem takeExact_short {n : ℕ} {xs : List α} (h : xs.length < n) : takeExact n xs = (none, []) :=
  if_neg (by omega)

/-- How the stream was cut shows neither in what is read nor in what is left. -/
theorem takeExact_joined (n : ℕ) (ss : List (Segment α)) :
    takeExact n (joined ss) = ((pullExact n ss).1, joined (pullExact n ss).2) := by
  induction ss generalizing n with
  | nil => cases n <;> simp [pullExact, takeExact]
  | cons s ss ih =>
    cases n with
    | zero => simp [pullExact, takeExact]
    | succ n =>
      rw [pullExact, joined_cons]
      split
      · next hlt =>
        have hle : n+1 ≤ (s.val ++ joined ss).length := by simp; omega
        simp only [takeExact, hle, ↓reduceIte, joined_cons]
        rw [List.take_append_of_le_length (by omega), List.drop_append_of_le_length (by omega)]
      · next hge =>
        rw [takeExact_append _ _ _ (by omega), ih]

end Segments
