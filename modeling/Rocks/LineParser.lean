import Rocks.Terminated

/-! The line parser: a buffer for the line that has not ended, and a flag for its last byte. -/
namespace Rocks
open Terminated

def cr : UInt8 := 13

def lf : UInt8 := 10

theorem cr_ne_lf : cr ≠ lf := by decide

structure LineParser where
  buf : List UInt8
  sawReturn : Bool
deriving DecidableEq, Repr

namespace LineParser

def new : LineParser := ⟨[], false⟩

/-- The loop over `data`: `pos`, and what becomes of `saw_return`. -/
def findPos : List UInt8 → Bool → Option ℕ × Bool
  | [], saw => (none, saw)
  | b :: rest, saw =>
    if b = cr then
      -- `break` leaves the flag as it was before this CR
      if rest.head? = some lf then (some 2, saw)
      else ((findPos rest true).1.map (·+1), (findPos rest true).2)
    else ((findPos rest false).1.map (·+1), (findPos rest false).2)

/-- `none` is the panic of `r.len()-1` on an empty buffer. -/
def parseLineHttp (self : LineParser) (data : List UInt8) :
    Option (Option (List UInt8 × ℕ) × LineParser) :=
  if self.sawReturn ∧ data.length > 1 ∧ data.head? = some lf then
    -- the flag is not cleared here
    if self.buf = [] then none
    else some (some (self.buf.dropLast, 1), { self with buf := [] })
  else
    match findPos data self.sawReturn with
    | (some pos, saw) => some (some (self.buf ++ data.take (pos-2), pos), ⟨[], saw⟩)
    | (none, saw) => some (none, ⟨self.buf ++ data, saw⟩)

/-- The flag behind bytes that the loop has passed. -/
def lastReturn (saw : Bool) (l : List UInt8) : Bool := l.foldl (fun _ b => b == cr) saw

theorem lastReturn_cons (saw : Bool) (b : UInt8) (l : List UInt8) :
    lastReturn saw (b :: l) = lastReturn (b == cr) l := rfl

theorem lastReturn_eq_true {l : List UInt8} (h : l ≠ []) (saw : Bool) :
    lastReturn saw l = true ↔ l.getLast? = some cr := by
  obtain ⟨l, b, rfl⟩ := List.eq_nil_or_concat l |>.resolve_left h
  simp [lastReturn]

theorem findPos_of_free {data : List UInt8} (h : Free cr lf data) (saw : Bool) :
    findPos data saw = (none, lastReturn saw data) := by
  induction data generalizing saw with
  | nil => rfl
  | cons b rest ih =>
    obtain ⟨hn, hf⟩ := free_cons.mp h
    rw [findPos, ih hf, ih hf, lastReturn_cons]
    split_ifs with hb hl
    · exact absurd ⟨hb, hl⟩ hn
    · simp [hb]
    · simp [beq_eq_false_iff_ne.mpr hb]

theorem findPos_line {body : List UInt8} (h : Free cr lf body) (rest : List UInt8) (saw : Bool) :
    findPos (body ++ cr :: lf :: rest) saw = (some (body.length+2), lastReturn saw body) := by
  induction body generalizing saw with
  | nil => rfl
  | cons b body ih =>
    obtain ⟨hn, hf⟩ := free_cons.mp h
    have hhead : b = cr → (body ++ cr :: lf :: rest).head? ≠ some lf := by
      intro hb
      cases body with
      | nil => simp [cr_ne_lf]
      | cons b' body => simpa [hb] using hn
    rw [List.cons_append, findPos, ih hf, ih hf, lastReturn_cons]
    split_ifs with hb hl
    · exact absurd hl (hhead hb)
    · simp [hb]
    · simp [beq_eq_false_iff_ne.mpr hb]

/-- The call takes the branch for a terminator that was cut. -/
def Resumes (self : LineParser) (data : List UInt8) : Prop :=
  self.sawReturn = true ∧ ∃ rest, rest ≠ [] ∧ data = lf :: rest

theorem resumes_iff (self : LineParser) (data : List UInt8) :
    self.Resumes data ↔ self.sawReturn = true ∧ data.length > 1 ∧ data.head? = some lf := by
  refine and_congr_right fun _ => ⟨?_, ?_⟩
  · rintro ⟨rest, hne, rfl⟩
    have := List.length_pos_of_ne_nil hne
    simpa using this
  · rintro ⟨hl, hh⟩
    obtain ⟨rest, rfl⟩ := List.head?_eq_some_iff.mp hh
    refine ⟨rest, fun hr => ?_, rfl⟩
    rw [hr] at hl
    simp at hl

/-- All that a call can do. -/
inductive Call (self : LineParser) (data : List UInt8) :
    Option (Option (List UInt8 × ℕ) × LineParser) → Prop
  | panics (hs : self.Resumes data) (hb : self.buf = []) : Call self data none
  | resumes (hs : self.Resumes data) (hb : self.buf ≠ []) :
      Call self data (some (some (self.buf.dropLast, 1), ⟨[], true⟩))
  | line (hs : ¬self.Resumes data) (body rest : List UInt8) (hd : data = body ++ cr :: lf :: rest)
      (hf : Free cr lf body) :
      Call self data (some (some (self.buf ++ body, body.length+2), ⟨[], lastReturn self.sawReturn body⟩))
  | more (hs : ¬self.Resumes data) (hf : Free cr lf data) :
      Call self data (some (none, ⟨self.buf ++ data, lastReturn self.sawReturn data⟩))

theorem parseLineHttp_call {self : LineParser} {data : List UInt8}
    {r : Option (Option (List UInt8 × ℕ) × LineParser)} (h : self.parseLineHttp data = r) :
    Call self data r := by
  subst h
  unfold parseLineHttp
  split_ifs with hs hb
  · exact .panics ((resumes_iff self data).mpr hs) hb
  · rw [hs.1]
    exact .resumes ((resumes_iff self data).mpr hs) hb
  · rw [← resumes_iff] at hs
    -- the loop stops at the first terminator of the chunk, if there is one
    rcases free_or_line (x := cr) (y := lf) data with hf | ⟨body, rest, rfl, hf⟩
    · rw [findPos_of_free hf]
      exact .more hs hf
    · simpa [findPos_line hf] using Call.line hs body rest rfl hf

theorem parseLineHttp_line {self : LineParser} {body : List UInt8} (hf : Free cr lf body)
    (rest : List UInt8) (hs : ¬self.Resumes (body ++ cr :: lf :: rest)) :
    self.parseLineHttp (body ++ cr :: lf :: rest) =
      some (some (self.buf ++ body, body.length+2), ⟨[], lastReturn self.sawReturn body⟩) := by
  rw [resumes_iff] at hs
  rw [parseLineHttp, if_neg hs, findPos_line hf]
  simp

@[simp] theorem parseLineHttp_nil (self : LineParser) : self.parseLineHttp [] = some (none, self) := by
  simp [parseLineHttp, findPos]

theorem take_line (body rest : List UInt8) :
    (body ++ cr :: lf :: rest).take (body.length+2) = body ++ [cr, lf] := by
  have h : body ++ cr :: lf :: rest = (body ++ [cr, lf]) ++ rest := by simp
  rw [h, List.take_left' (by simp)]

theorem drop_line (body rest : List UInt8) :
    (body ++ cr :: lf :: rest).drop (body.length+2) = rest := by
  have h : body ++ cr :: lf :: rest = (body ++ [cr, lf]) ++ rest := by simp
  rw [h, List.drop_left' (by simp)]

/-- A call that returns a line has read something, and no more than it was given. -/
theorem Call.pos_bounds {self p : LineParser} {data line : List UInt8} {pos : ℕ}
    (h : Call self data (some (some (line, pos), p))) : 1 ≤ pos ∧ pos ≤ data.length := by
  cases h with
  | resumes hs hb =>
    obtain ⟨-, rest, -, rfl⟩ := hs
    simp
  | line hs body rest hd hf =>
    subst hd
    simp

/-- The flag stands for a CR at the end of the buffer, unless a line has just ended. -/
def WellFlagged (self : LineParser) : Prop :=
  self.sawReturn = true → self.buf = [] ∨ self.buf.getLast? = some cr

theorem wellFlagged_new : new.WellFlagged := fun h => absurd h (by decide)

theorem Call.wellFlagged {self p : LineParser} {data : List UInt8} {r : Option (List UInt8 × ℕ)}
    (h : Call self data (some (r, p))) (hw : self.WellFlagged) : p.WellFlagged := by
  cases h with
  | resumes | line => exact fun _ => Or.inl rfl
  | more hs hf =>
    intro hsaw
    -- an empty call leaves buffer and flag alone
    by_cases hd : data = []
    · subst hd
      simpa using hw hsaw
    · right
      rw [List.getLast?_append_of_ne_nil _ hd]
      exact (lastReturn_eq_true hd _).mp hsaw

/-- The bytes read are the line and its terminator, behind what was in the buffer. -/
theorem Call.line_eq {self p : LineParser} {data line : List UInt8} {pos : ℕ}
    (h : Call self data (some (some (line, pos), p))) (hw : self.WellFlagged) :
    self.buf ++ data.take pos = line ++ [cr, lf] ∧ p.buf = [] := by
  cases h with
  | resumes hs hb =>
    obtain ⟨hsaw, rest, -, rfl⟩ := hs
    -- the byte that `r.remove` takes out is the CR of the cut terminator
    have hlast : self.buf.dropLast ++ [cr] = self.buf :=
      List.dropLast_append_getLast? cr ((hw hsaw).resolve_left hb)
    refine ⟨?_, rfl⟩
    calc self.buf ++ List.take 1 (lf :: rest) = self.buf ++ [lf] := rfl
      _ = self.buf.dropLast ++ [cr, lf] := by
        rw [← hlast]
        simp
  | line hs body rest hd hf =>
    subst hd
    rw [take_line, List.append_assoc]
    exact ⟨rfl, rfl⟩

end LineParser

end Rocks
