import Rocks.LineFeed

/-! Which cuts of a stream the line parser misreads. -/
namespace Rocks
open Terminated Segments

namespace LineParser

/-- The bytes of a chunk, the last of them marked. -/
def marked : List UInt8 → List (UInt8 × Bool)
  | [] => []
  | b :: rest => (b, rest.isEmpty) :: marked rest

/-- The bytes of a cut stream; the last byte of every chunk is marked. -/
def cutBytes (cs : List (Segment UInt8)) : List (UInt8 × Bool) := cs.flatMap (fun c => marked c.val)

/-- The bytes seen end in a CR, or in CRLF pairs behind a CR, or in CRLF pairs of which one was
cut in the middle. -/
inductive Flagged : List (UInt8 × Bool) → Prop
  | ret (pre : List (UInt8 × Bool)) (last : Bool) : Flagged (pre ++ [(cr, last)])
  | cut (pre : List (UInt8 × Bool)) : Flagged (pre ++ [(cr, true), (lf, false)])
  | whole (pre : List (UInt8 × Bool)) (last : Bool) (h : Flagged pre) :
      Flagged (pre ++ [(cr, false), (lf, last)])

/-- The LF of a cut terminator is a chunk by itself, or an LF that is not the last of its chunk
follows such CRLF pairs. -/
def Misread (pre : List (UInt8 × Bool)) (b : UInt8 × Bool) : Prop :=
  b = (lf, true) ∧ pre.getLast? = some (cr, true) ∨
    b = (lf, false) ∧ Flagged pre ∧ ∃ last, pre.getLast? = some (lf, last)

def Misreads : List (UInt8 × Bool) → List (UInt8 × Bool) → Prop
  | _, [] => False
  | pre, b :: ms => Misread pre b ∨ Misreads (pre ++ [b]) ms

theorem misreads_iff (pre ms : List (UInt8 × Bool)) :
    Misreads pre ms ↔ ∃ q b t, ms = q ++ b :: t ∧ Misread (pre ++ q) b := by
  induction ms generalizing pre with
  | nil => simp [Misreads]
  | cons b ms ih =>
    rw [Misreads, ih]
    constructor
    · rintro (h | ⟨q, b', t, rfl, h⟩)
      · exact ⟨[], b, ms, rfl, by simpa using h⟩
      · exact ⟨b :: q, b', t, rfl, by simpa using h⟩
    · rintro ⟨_ | ⟨b', q⟩, b'', t, heq, h⟩
      · obtain ⟨rfl, rfl⟩ := List.cons.inj heq
        exact Or.inl (by simpa using h)
      · obtain ⟨rfl, rfl⟩ := List.cons.inj heq
        exact Or.inr ⟨q, b'', t, rfl, by simpa using h⟩

theorem misreads_append (pre ms ms' : List (UInt8 × Bool)) :
    Misreads pre (ms ++ ms') ↔ Misreads pre ms ∨ Misreads (pre ++ ms) ms' := by
  induction ms generalizing pre with
  | nil => simp [Misreads]
  | cons b ms ih =>
    rw [List.cons_append, Misreads, Misreads, ih, or_assoc, List.append_assoc]
    rfl

section flagged

variable {pre : List (UInt8 × Bool)}

theorem not_flagged_nil : ¬Flagged [] := fun h => by
  generalize hn : ([] : List (UInt8 × Bool)) = l at h
  cases h <;> simp at hn

theorem flagged_concat {b : UInt8} {last : Bool} (h : Flagged (pre ++ [(b, last)])) :
    b = cr ∨ b = lf ∧ ((∃ pre', pre = pre' ++ [(cr, true)] ∧ last = false) ∨
      ∃ pre', pre = pre' ++ [(cr, false)] ∧ Flagged pre') := by
  generalize hl : pre ++ [(b, last)] = l at h
  cases h with
  | ret pre' last' =>
    obtain ⟨-, heq⟩ := List.append_inj' hl rfl
    simp only [List.cons.injEq, Prod.mk.injEq] at heq
    exact Or.inl heq.1.1
  | cut pre' =>
    obtain ⟨hpre, heq⟩ := List.append_inj' (hl.trans (List.append_cons _ _ _)) rfl
    simp only [List.cons.injEq, Prod.mk.injEq] at heq
    exact Or.inr ⟨heq.1.1, Or.inl ⟨pre', hpre, heq.1.2⟩⟩
  | whole pre' last' h =>
    obtain ⟨hpre, heq⟩ := List.append_inj' (hl.trans (List.append_cons _ _ _)) rfl
    simp only [List.cons.injEq, Prod.mk.injEq] at heq
    exact Or.inr ⟨heq.1.1, Or.inr ⟨pre', hpre, h⟩⟩

/-- A byte that is not a CR, and not an LF behind one, clears the flag. -/
theorem not_flagged_concat {b : UInt8} (last : Bool) (hb : b ≠ cr)
    (hj : ¬((∃ last, pre.getLast? = some (cr, last)) ∧ b = lf)) : ¬Flagged (pre ++ [(b, last)]) := by
  intro h
  rcases flagged_concat h with h | ⟨rfl, ⟨pre', rfl, -⟩ | ⟨pre', rfl, -⟩⟩
  · exact hb h
  · exact hj ⟨⟨true, by simp⟩, rfl⟩
  · exact hj ⟨⟨false, by simp⟩, rfl⟩

/-- An uncut terminator keeps the flag. -/
theorem flagged_whole (last : Bool) :
    Flagged (pre ++ [(cr, false), (lf, last)]) ↔ Flagged pre := by
  refine ⟨fun h => ?_, .whole pre last⟩
  rw [List.append_cons] at h
  rcases flagged_concat h with h | ⟨-, ⟨pre', heq, -⟩ | ⟨pre', heq, h⟩⟩
  · exact absurd h cr_ne_lf.symm
  · have := (List.append_inj' heq rfl).2
    simp at this
  · rwa [(List.append_inj' heq rfl).1]

end flagged

section passes

variable {ms : List (UInt8 × Bool)} {pre : List (UInt8 × Bool)}

/-- A CR and an LF next to each other would be a terminator. -/
theorem joint_cons {b : UInt8} {last : Bool} (hf : Free cr lf (b :: ms.map Prod.fst)) :
    ¬((∃ last', (pre ++ [(b, last)]).getLast? = some (cr, last')) ∧
      (ms.map Prod.fst).head? = some lf) := by
  rintro ⟨⟨last', hl⟩, hh⟩
  simp only [List.getLast?_concat, Option.some.injEq, Prod.mk.injEq] at hl
  exact (free_cons.mp hf).1 ⟨hl.1, hh⟩

/-- Over bytes without a terminator the flag of one call stands for the CR at their end. -/
theorem flagged_passes (hf : Free cr lf (ms.map Prod.fst))
    (hj : ¬((∃ last, pre.getLast? = some (cr, last)) ∧ (ms.map Prod.fst).head? = some lf))
    {saw : Bool} (hs : saw = true ↔ Flagged pre) :
    lastReturn saw (ms.map Prod.fst) = true ↔ Flagged (pre ++ ms) := by
  induction ms generalizing pre saw with
  | nil => simpa [lastReturn] using hs
  | cons m ms ih =>
    obtain ⟨b, last⟩ := m
    rw [List.map_cons] at hf hj
    -- after one byte the flag only tells whether that byte is a CR
    have hs' : (b == cr) = true ↔ Flagged (pre ++ [(b, last)]) := by
      rw [beq_iff_eq]
      refine ⟨fun hb => hb ▸ .ret pre last, ?_⟩
      intro h
      by_contra hb
      exact not_flagged_concat last hb (by simpa using hj) h
    have hflag := ih (free_cons.mp hf).2 (joint_cons hf) hs'
    rw [List.append_assoc] at hflag
    exact hflag

/-- A call misreads no byte before the first terminator, unless it is the first byte of its slice. -/
theorem not_misreads_of_free (hf : Free cr lf (ms.map Prod.fst))
    (hj : ¬((∃ last, pre.getLast? = some (cr, last)) ∧ (ms.map Prod.fst).head? = some lf))
    (hm : ∀ m, ms.head? = some m → ¬Misread pre m) : ¬Misreads pre ms := by
  induction ms generalizing pre with
  | nil => exact id
  | cons m ms ih =>
    obtain ⟨b, last⟩ := m
    rw [List.map_cons] at hf hj
    have hm' : ∀ m, ms.head? = some m → ¬Misread (pre ++ [(b, last)]) m := by
      rintro m hh (⟨rfl, hl⟩ | ⟨rfl, hflag, last', hl⟩)
      · exact joint_cons hf ⟨⟨true, hl⟩, by simp [hh]⟩
      · simp only [List.getLast?_concat, Option.some.injEq, Prod.mk.injEq] at hl
        obtain ⟨rfl, -⟩ := hl
        exact not_flagged_concat last cr_ne_lf.symm (by simpa using hj) hflag
    exact not_or.mpr ⟨hm _ rfl, ih (free_cons.mp hf).2 (joint_cons hf) hm'⟩

end passes

end LineParser

end Rocks
