import Rocks.LineMarks

/-! What the flag and the buffer of the line parser say about the bytes it has read. -/
namespace Rocks
open Terminated Segments

namespace LineParser

section marked

@[simp] theorem marked_nil : marked [] = [] := rfl

theorem marked_map_fst (l : List UInt8) : (marked l).map Prod.fst = l := by
  induction l with
  | nil => rfl
  | cons b l ih => rw [marked, List.map_cons, ih]

theorem marked_drop (l : List UInt8) (n : ℕ) : (marked l).drop n = marked (l.drop n) := by
  induction l generalizing n with
  | nil => simp [marked]
  | cons b l ih =>
    cases n with
    | zero => rfl
    | succ n => exact ih n

/-- What is read of a chunk and the rest of it. -/
theorem marked_split (l : List UInt8) (n : ℕ) : (marked l).take n ++ marked (l.drop n) = marked l := by
  rw [← marked_drop, List.take_append_drop]

theorem marked_append (l : List UInt8) {l' : List UInt8} (h : l' ≠ []) :
    marked (l ++ l') = l.map (·, false) ++ marked l' := by
  induction l with
  | nil => rfl
  | cons b l ih =>
    have hne : (l ++ l').isEmpty = false := by simp [h]
    rw [List.cons_append, marked, ih, hne]
    rfl

theorem marked_concat (l : List UInt8) (b : UInt8) : marked (l ++ [b]) = l.map (·, false) ++ [(b, true)] :=
  marked_append l (List.cons_ne_nil b [])

theorem marked_getLast? (l : List UInt8) : (marked l).getLast? = l.getLast?.map (·, true) := by
  rcases List.eq_nil_or_concat l with rfl | ⟨l, b, rfl⟩
  · rfl
  · rw [List.concat_eq_append, marked_concat]
    simp

theorem marked_line (body rest : List UInt8) : (marked (body ++ cr :: lf :: rest)).take (body.length+2) =
    body.map (·, false) ++ [(cr, false), (lf, rest.isEmpty)] := by
  have h : marked (body ++ cr :: lf :: rest) =
      (body.map (·, false) ++ [(cr, false), (lf, rest.isEmpty)]) ++ marked rest := by
    rw [marked_append body (List.cons_ne_nil _ _)]
    simp [marked]
  rw [h, List.take_left' (by simp)]

end marked

/-- The parser between two calls, and the marked bytes that it has read. -/
structure Tracks (lp : LineParser) (pre : List (UInt8 × Bool)) : Prop where
  flag : lp.sawReturn = true ↔ Flagged pre
  ret : lp.buf.getLast? = some cr ↔ pre.getLast? = some (cr, true)
  ended : Flagged pre → (∃ last, pre.getLast? = some (lf, last)) → lp.buf = []
  boundary : pre.getLast? ≠ some (cr, false)
  free : Free cr lf lp.buf

theorem tracks_new : Tracks new [] where
  flag := by simp [new, not_flagged_nil]
  ret := by simp [new]
  ended := fun _ _ => rfl
  boundary := by simp
  free := free_nil

variable {self p : LineParser} {data line : List UInt8} {pos : ℕ} {pre : List (UInt8 × Bool)}

/-- The loop of a call reads no terminator but the one it stops at. -/
theorem Tracks.passes (ht : Tracks self pre) (hs : ¬self.Resumes data) (ms : List (UInt8 × Bool))
    (hf : Free cr lf (ms.map Prod.fst))
    (hms : ∀ last, ms.head? = some (lf, last) → (∃ rest, rest ≠ [] ∧ data = lf :: rest) ∨
      last = true ∧ pre.getLast? ≠ some (cr, true)) :
    ¬Misreads pre ms ∧ (lastReturn self.sawReturn (ms.map Prod.fst) = true ↔ Flagged (pre ++ ms)) ∧
      Free cr lf (self.buf ++ ms.map Prod.fst) := by
  -- no terminator lies across the joint
  have hj : ¬((∃ last, pre.getLast? = some (cr, last)) ∧ (ms.map Prod.fst).head? = some lf) := by
    rintro ⟨⟨last, hl⟩, hh⟩
    obtain rfl : last = true := by
      by_contra hlast
      rw [Bool.not_eq_true] at hlast
      exact ht.boundary (hlast ▸ hl)
    rw [List.head?_map] at hh
    obtain ⟨⟨b, last⟩, hm, rfl⟩ := Option.map_eq_some_iff.mp hh
    rcases hms last hm with ⟨rest, hne, rfl⟩ | ⟨-, hno⟩
    · obtain ⟨pre', rfl⟩ := List.getLast?_eq_some_iff.mp hl
      exact hs ⟨ht.flag.mpr (.ret pre' true), rest, hne, rfl⟩
    · exact hno hl
  have hm : ∀ m, ms.head? = some m → ¬Misread pre m := by
    rintro m hh (⟨rfl, hl⟩ | ⟨rfl, hflag, -⟩)
    · exact hj ⟨⟨true, hl⟩, by rw [List.head?_map, hh]; rfl⟩
    · rcases hms false hh with ⟨rest, hne, rfl⟩ | ⟨h, -⟩
      · exact hs ⟨ht.flag.mpr hflag, rest, hne, rfl⟩
      · cases h
  refine ⟨not_misreads_of_free hf hj hm, flagged_passes hf hj ht.flag,
    free_append.mpr ⟨ht.free, hf, ?_⟩⟩
  rintro ⟨hl, hh⟩
  exact hj ⟨⟨true, ht.ret.mp hl⟩, hh⟩

/-- The parser panics only behind a flag that has outlived its line. -/
theorem Call.misreads_of_panic (h : Call self data none) (ht : Tracks self pre) :
    Misreads pre (marked data) := by
  cases h with
  | panics hs hb =>
    obtain ⟨hsaw, rest, hne, rfl⟩ := hs
    have hflag := ht.flag.mp hsaw
    refine Or.inl (Or.inr ⟨by simp [hne], hflag, ?_⟩)
    -- the parser tracks `pre`, so an empty buffer excludes the CR that the flag stands for
    cases hflag with
    | ret pre' last =>
      cases last with
      | false => exact absurd (by simp) ht.boundary
      | true =>
        have hret := ht.ret.mpr (by simp)
        rw [hb] at hret
        cases hret
    | cut pre' => exact ⟨false, by simp⟩
    | whole pre' last _ => exact ⟨last, by simp⟩

theorem not_misreads_whole (pre : List (UInt8 × Bool)) (last : Bool) :
    ¬Misreads pre [(cr, false), (lf, last)] := by
  rintro ((⟨h, -⟩ | ⟨h, -⟩) | (⟨-, h⟩ | ⟨-, -, last', h⟩) | h)
  · simp [cr_ne_lf] at h
  · simp [cr_ne_lf] at h
  · simp at h
  · simp [cr_ne_lf] at h
  · exact h

/-- A call that returns a line has misread nothing. -/
theorem Call.tracks_line (h : Call self data (some (some (line, pos), p))) (ht : Tracks self pre) :
    ¬Misreads pre ((marked data).take pos) ∧ Tracks p (pre ++ (marked data).take pos) ∧
      Free cr lf line := by
  cases h with
  | resumes hs hb =>
    obtain ⟨hsaw, rest, hne, rfl⟩ := hs
    have hemp : rest.isEmpty = false := by simp [hne]
    have htake : (marked (lf :: rest)).take 1 = [(lf, false)] := by rw [marked, hemp]; rfl
    -- with bytes in the buffer, the flag can only come from a CR at the end of a chunk
    have hret : ∃ pre', pre = pre' ++ [(cr, true)] := by
      cases ht.flag.mp hsaw with
      | ret pre' last =>
        cases last with
        | false => exact absurd (by simp) ht.boundary
        | true => exact ⟨pre', rfl⟩
      | cut pre' => exact absurd (ht.ended (.cut pre') ⟨false, by simp⟩) hb
      | whole pre' last h => exact absurd (ht.ended (.whole pre' last h) ⟨last, by simp⟩) hb
    obtain ⟨pre', rfl⟩ := hret
    rw [htake, List.append_assoc]
    refine ⟨?_, ⟨by simpa using Flagged.cut pre', ?_, fun _ _ => rfl, ?_, free_nil⟩, ?_⟩
    · rintro ((⟨h, -⟩ | ⟨-, -, last, h⟩) | h)
      · simp at h
      · simp [cr_ne_lf] at h
      · exact h
    · simp [cr_ne_lf.symm]
    · simp [cr_ne_lf.symm]
    · have hpre : self.buf.dropLast <+: self.buf := List.dropLast_prefix self.buf
      exact ht.free.mono hpre.isInfix
  | line hs body rest hd hf =>
    have hmap : (body.map (·, false)).map Prod.fst = body := by
      rw [List.map_map]
      exact List.map_id body
    obtain ⟨hmis, hflag, hline⟩ := ht.passes hs (body.map (·, false)) (by rwa [hmap]) (by
      intro last hh
      left
      cases body with
      | nil => cases hh
      | cons b body =>
        obtain rfl : b = lf := (Prod.mk.inj (Option.some.inj hh)).1
        exact ⟨body ++ cr :: lf :: rest, by simp, hd⟩)
    rw [hmap] at hflag hline
    rw [hd, marked_line, misreads_append, ← List.append_assoc]
    refine ⟨not_or.mpr ⟨hmis, not_misreads_whole _ _⟩, ⟨?_, ?_, fun _ _ => rfl, ?_, free_nil⟩, hline⟩
    · rw [flagged_whole]
      exact hflag
    · simp [cr_ne_lf.symm]
    · simp [cr_ne_lf.symm]

/-- A call that returns `None` misreads its chunk exactly if that is the rest of a terminator. -/
theorem Call.tracks_more (h : Call self data (some (none, p))) (ht : Tracks self pre) (hd : data ≠ []) :
    Misreads pre (marked data) ∧ ¬Free cr lf p.buf ∨
      ¬Misreads pre (marked data) ∧ Tracks p (pre ++ marked data) := by
  cases h with
  | more hs hf =>
    -- `data.len()>1` fails on a lone LF, so the terminator stays in the buffer
    by_cases hlone : data = [lf] ∧ pre.getLast? = some (cr, true)
    · left
      obtain ⟨rfl, hl⟩ := hlone
      refine ⟨Or.inl (Or.inl ⟨rfl, hl⟩), ?_⟩
      intro h
      exact (free_append.mp h).2.2 ⟨ht.ret.mpr hl, rfl⟩
    · right
      obtain ⟨hmis, hflag, hfree⟩ := ht.passes hs (marked data) (by rwa [marked_map_fst]) (by
        intro last hh
        obtain ⟨b, rest, rfl⟩ := List.exists_cons_of_ne_nil hd
        obtain ⟨rfl, rfl⟩ := Prod.mk.inj (Option.some.inj hh)
        cases rest with
        | nil => exact Or.inr ⟨rfl, fun hl => hlone ⟨rfl, hl⟩⟩
        | cons b' rest => exact Or.inl ⟨b' :: rest, List.cons_ne_nil _ _, rfl⟩)
      rw [marked_map_fst] at hflag hfree
      have hlast : (pre ++ marked data).getLast? = data.getLast?.map (·, true) := by
        rw [List.getLast?_append_of_ne_nil, marked_getLast?]
        intro hm
        exact hd (by rw [← marked_map_fst data, hm]; rfl)
      refine ⟨hmis, hflag, ?_, ?_, ?_, hfree⟩
      · rw [hlast, List.getLast?_append_of_ne_nil _ hd]
        simp
      · intro hfl hlf
        obtain ⟨last, hl⟩ := hlf
        have hcr := (lastReturn_eq_true hd self.sawReturn).mp (hflag.mpr hfl)
        rw [hlast, hcr] at hl
        simp [cr_ne_lf] at hl
      · rw [hlast]
        intro h
        obtain ⟨b, -, hb⟩ := Option.map_eq_some_iff.mp h
        cases hb

end LineParser

end Rocks
