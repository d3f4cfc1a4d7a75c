import Mathlib.Tactic.Common

/-! Reading bounded unsigned decimal numerals, and what is read back from the shortest ones. -/
namespace Numerals

/-- Digits behind a number that begins with `acc`. It fails at the first digit that exceeds `max`. -/
def parseDigits (max : ℕ) : ℕ → List Char → Option ℕ
  | acc, [] => some acc
  | acc, c :: cs =>
    if c.isDigit ∧ 10*acc+(c.toNat - '0'.toNat) ≤ max then
      parseDigits max (10*acc+(c.toNat - '0'.toNat)) cs
    else
      none

/-- A numeral has at least one digit and may have a plus in front. -/
def parse (max : ℕ) : List Char → Option ℕ
  | [] => none
  | ['+'] => none
  | '+' :: cs => parseDigits max 0 cs
  | cs => parseDigits max 0 cs

variable {max acc n : ℕ} {cs : List Char}

theorem le_ofDigitChars (cs : List Char) (acc : ℕ) : acc ≤ Nat.ofDigitChars 10 cs acc := by
  induction cs generalizing acc with
  | nil => exact Nat.le_of_eq Nat.ofDigitChars_nil.symm
  | cons c cs ih =>
    rw [Nat.ofDigitChars_cons]
    have h := ih (10*acc+(c.toNat - '0'.toNat))
    omega

/-- The prefixes of a numeral do not exceed it, so only its value counts. -/
theorem parseDigits_eq_some_iff (hacc : acc ≤ max) : parseDigits max acc cs = some n ↔
    (∀ c ∈ cs, c.isDigit) ∧ Nat.ofDigitChars 10 cs acc = n ∧ n ≤ max := by
  induction cs generalizing acc with
  | nil =>
    simp only [parseDigits, Nat.ofDigitChars_nil, Option.some.injEq]
    constructor
    · rintro rfl
      exact ⟨by simp, rfl, hacc⟩
    · exact fun h => h.2.1
  | cons c cs ih =>
    rw [parseDigits, Nat.ofDigitChars_cons]
    split_ifs with h
    · rw [ih h.2]
      simp [h.1]
    · have hle := le_ofDigitChars cs (10*acc+(c.toNat - '0'.toNat))
      constructor
      · intro hn
        cases hn
      · rintro ⟨hd, rfl, hmax⟩
        exact absurd ⟨hd c (by simp), Nat.le_trans hle hmax⟩ h

/-- The shortest numeral of a number is read back. -/
theorem parse_toDigits (h : n ≤ max) : parse max (Nat.toDigits 10 n) = some n := by
  have hdigit : ∀ c ∈ Nat.toDigits 10 n, c.isDigit := fun c hc =>
    Nat.isDigit_of_mem_toDigits (by decide) (by decide) hc
  have hsome : parseDigits max 0 (Nat.toDigits 10 n) = some n :=
    (parseDigits_eq_some_iff (Nat.zero_le max)).mpr ⟨hdigit, Nat.ofDigitChars_ten_toDigits, h⟩
  cases hcs : Nat.toDigits 10 n with
  | nil => exact absurd hcs Nat.toDigits_ne_nil
  | cons c cs =>
    rw [hcs] at hdigit hsome
    -- a digit is no plus
    have hc : c ≠ '+' := by
      rintro rfl
      exact absurd (hdigit '+' (by simp)) (by decide)
    rw [parse]
    · exact hsome
    · simp
    · grind
    · grind

end Numerals
