import Rocks.HeaderBlocks

/-! The header slots, counted by lines that end in CR LF, against the header fields of `httparse`,
whose lines end in an LF with or without a CR. -/
namespace Rocks
open Terminated LineParser

namespace Httparse

/-- What an LF ends, without the LF. -/
def lfLines (data : List UInt8) : List (List UInt8) := (data.splitOn lf).dropLast

def isBlank (line : List UInt8) : Bool := line == [] || line == [cr]

/-- The line has a CR before its LF. -/
def endsInCr (line : List UInt8) : Bool := line.getLast? == some cr

/-- What `httparse` reads as the request line and the header fields: it skips empty lines before
them, and the next empty line is their end. -/
def head (data : List UInt8) : List (List UInt8) :=
  ((lfLines data).dropWhile isBlank).takeWhile (!isBlank ·)

/-- The other lines. -/
def outside (data : List UInt8) : List (List UInt8) :=
  (lfLines data).takeWhile isBlank ++ ((lfLines data).dropWhile isBlank).dropWhile (!isBlank ·)

/-- How many header fields `httparse` finds. -/
def fields (data : List UInt8) : ℕ := (head data).length-1

end Httparse

open Httparse

/-- What is assumed of `httparse`: data that it accepts with some number of slots is rejected for
too many headers with fewer slots than there are header fields, and with no others. -/
def Crates.CountsFields {R : Type} (c : Crates R) : Prop :=
  ∀ data m k, (c.parse data m).1 = .ok (.complete k) →
    ∀ n, (c.parse data n).1 = .error .tooManyHeaders ↔ n < fields data

/-- A fresh parser fed `data` in one call asks `httparse` to parse `acc` with `n` slots. -/
def Asks (data acc : List UInt8) (n : ℕ) : Prop :=
  ∀ (R : Type) (c : Crates R), (HttpHeaderParser.new.parseHttp c data).map (·.1) = some (c.respond acc n)

/-- No header fields get lost for want of a slot: there is one for each, and what `httparse` would
accept with more slots is not rejected for too many headers. -/
def SlotsSuffice (data acc : List UInt8) (n : ℕ) : Prop :=
  fields acc ≤ n ∧ ∀ (R : Type) (c : Crates R), c.CountsFields →
    (∃ m k, (c.parse acc m).1 = .ok (.complete k)) →
      (HttpHeaderParser.new.parseHttp c data).map (·.1) ≠ some (.error (.httparse .tooManyHeaders))

namespace Httparse

variable {ls : List (List UInt8)} {l acc : List UInt8}

/-- A line that ends in CR LF holds one CR before an LF: the last. -/
theorem countP_endsInCr (h : Free cr lf l) : ((l ++ [cr]).splitOn lf).countP endsInCr = 1 := by
  induction l with
  | nil => rfl
  | cons b l ih =>
    obtain ⟨hjoint, hf⟩ := free_cons.mp h
    rw [List.cons_append, List.splitOn_cons_eq_if_modifyHead]
    split
    · -- an LF ends an empty piece, which has no CR
      rw [List.countP_cons, ih hf]
      rfl
    · obtain ⟨r, rs, hrs⟩ := List.exists_cons_of_ne_nil (List.splitOn_ne_nil lf (l ++ [cr]))
      have hsame : endsInCr (b :: r) = endsInCr r := by
        cases r with
        | cons b' r => rfl
        | nil =>
          -- the next byte is an LF, so this one is no CR
          have hnext : l.head? = some lf := by
            cases l with
            | nil => cases hrs
            | cons b' l =>
              rw [List.cons_append, List.splitOn_cons_eq_if_modifyHead] at hrs
              split at hrs
              · next heq => rw [beq_iff_eq.mp heq]; rfl
              · have hmod := congrArg List.head? hrs
                simp at hmod
          have hb : b ≠ cr := fun hb => hjoint ⟨hb, hnext⟩
          simpa [endsInCr] using hb
      have hcount := ih hf
      rw [hrs, List.countP_cons] at hcount
      rw [hrs, List.modifyHead_cons, List.countP_cons, hsame, hcount]

theorem splitOn_unlines (ls : List (List UInt8)) (rest : List UInt8) :
    (unlines cr lf ls ++ rest).splitOn lf =
      ls.flatMap (fun l => (l ++ [cr]).splitOn lf) ++ rest.splitOn lf := by
  induction ls with
  | nil => rfl
  | cons l ls ih =>
    have hline : unlines cr lf (l :: ls) ++ rest = (l ++ [cr]) ++ lf :: (unlines cr lf ls ++ rest) := by
      rw [unlines_cons]
      simp
    rw [hline, List.splitOn_append_cons_self, ih, List.flatMap_cons, List.append_assoc]

theorem lfLines_block (ls : List (List UInt8)) : lfLines (unlines cr lf ls ++ [cr, lf]) =
    ls.flatMap (fun l => (l ++ [cr]).splitOn lf) ++ [[cr]] := by
  have hlast : [cr, lf].splitOn lf = [[cr], []] := rfl
  rw [lfLines, splitOn_unlines, hlast, List.dropLast_append_of_ne_nil (List.cons_ne_nil _ _)]
  rfl

/-- Every line of `LineParser` holds one CR before an LF, and so does the empty line. -/
theorem lfLines_countP (h : ∀ l ∈ ls, Free cr lf l) :
    (lfLines (unlines cr lf ls ++ [cr, lf])).countP endsInCr = ls.length+1 := by
  have hlines : (ls.flatMap (fun l => (l ++ [cr]).splitOn lf)).countP endsInCr = ls.length := by
    induction ls with
    | nil => rfl
    | cons l ls ih =>
      obtain ⟨hl, hls⟩ := List.forall_mem_cons.mp h
      rw [List.flatMap_cons, List.countP_append, countP_endsInCr hl, ih hls, List.length_cons, Nat.add_comm]
  rw [lfLines_block, List.countP_append, hlines]
  rfl

theorem countP_head_outside (p : List UInt8 → Bool) (data : List UInt8) :
    (head data).countP p + (outside data).countP p = (lfLines data).countP p := by
  have hskip := congrArg (List.countP p)
    (List.takeWhile_append_dropWhile (p := isBlank) (l := lfLines data))
  have hread := congrArg (List.countP p)
    (List.takeWhile_append_dropWhile (p := (!isBlank ·)) (l := (lfLines data).dropWhile isBlank))
  rw [List.countP_append] at hskip hread
  rw [head, outside, List.countP_append]
  omega

/-- The lines that `httparse` reads outnumber those of `LineParser` where bare LFs end more of
them than there are CR LFs elsewhere before the empty line. -/
theorem head_length_le_iff (h : ∀ l ∈ ls, Free cr lf l) (hacc : acc = unlines cr lf ls ++ [cr, lf]) :
    (head acc).length ≤ ls.length ↔
      (head acc).countP (!endsInCr ·) < (outside acc).countP endsInCr := by
  -- each CR LF is inside or outside what `httparse` reads
  have htotal := countP_head_outside endsInCr acc
  have hlines : (lfLines acc).countP endsInCr = ls.length+1 := by rw [hacc, lfLines_countP h]
  have hhead := List.length_eq_countP_add_countP endsInCr (l := head acc)
  simp only [Bool.not_eq_true, Bool.decide_eq_false] at hhead
  omega

theorem fields_le_iff (h : ∀ l ∈ ls, Free cr lf l) (hacc : acc = unlines cr lf ls ++ [cr, lf]) :
    fields acc ≤ ls.length-1 ↔
      (head acc).countP (!endsInCr ·) < (outside acc).countP endsInCr := by
  rw [← head_length_le_iff h hacc, fields]
  cases ls with
  | nil =>
    -- nothing but the empty line, which is skipped
    subst hacc
    decide
  | cons l ls =>
    rw [List.length_cons]
    omega

end Httparse

section asks

variable {data acc : List UInt8} {n : ℕ} {ls : List (List UInt8)}

/-- Crates that know one question from all others. -/
def knowing (acc : List UInt8) (n : ℕ) : Crates Unit where
  parse data m := (.error (if data = acc ∧ m = n then .token else .newLine), ⟨none, none, none, []⟩)
  build _ _ _ _ := .ok ()

theorem knowing_respond (acc : List UInt8) (n : ℕ) (data : List UInt8) (m : ℕ) :
    (knowing acc n).respond data m =
      .error (.httparse (if data = acc ∧ m = n then .token else .newLine)) := rfl

/-- Lines up to the first empty one lead to `httparse`. -/
theorem asks_block (h : ∀ l ∈ ls, l ≠ [] ∧ Free cr lf l) (hp : ¬PanicsOn false ls) (rest : List UInt8) :
    Asks (unlines cr lf ls ++ cr :: lf :: rest) (unlines cr lf ls ++ [cr, lf]) (ls.length-1) := by
  intro R c
  have hempty := HttpHeaderParser.parseHttp_empty_line c
    (rfl : (HttpHeaderParser.new.behind ls).lineParser.buf = []) rest
  rw [HttpHeaderParser.parseHttp_whole c rfl h hp, hempty]
  simp [HttpHeaderParser.behind, HttpHeaderParser.new]

/-- Lines without an empty one, and a rest without an end, do not. -/
theorem not_asks_of_unended (h : ∀ l ∈ ls, l ≠ [] ∧ Free cr lf l) {tail : List UInt8}
    (ht : Free cr lf tail) : ¬Asks (unlines cr lf ls ++ tail) acc n := by
  intro hasks
  have hans := hasks Unit (knowing acc n)
  rw [knowing_respond, if_pos ⟨rfl, rfl⟩] at hans
  by_cases hp : PanicsOn false ls
  · rw [HttpHeaderParser.parseHttp_panics _ rfl h hp] at hans
    cases hans
  · rw [HttpHeaderParser.parseHttp_whole _ rfl h hp] at hans
    have hcall := parseLineHttp_call (rfl : (HttpHeaderParser.new.behind ls).lineParser.parseLineHttp tail = _)
    cases hr : (HttpHeaderParser.new.behind ls).lineParser.parseLineHttp tail with
    | none =>
      rw [HttpHeaderParser.parseHttp_of_panic _ hr] at hans
      cases hans
    | some r =>
      obtain ⟨line, lp⟩ := r
      rw [hr] at hcall
      cases hcall with
      | resumes _ hb => exact hb rfl
      | line _ body rest hd =>
        subst hd
        exact ht ⟨body, rest, by simp⟩
      | more =>
        rw [HttpHeaderParser.parseHttp_of_more _ hr] at hans
        cases hans

theorem Asks.block (hasks : Asks data acc n) : ∃ ls, (∀ l ∈ ls, Free cr lf l) ∧
    acc = unlines cr lf ls ++ [cr, lf] ∧ n = ls.length-1 := by
  obtain ⟨hdata, hlines, htail⟩ := scan_spec (x := cr) (y := lf) data
  by_cases hempty : [] ∈ (scan cr lf data).1
  · -- `ls` are the lines before the first empty one
    obtain ⟨ls, rest, heq, hls⟩ := List.eq_append_cons_of_mem hempty
    rw [heq] at hlines hdata
    obtain ⟨hfree, -⟩ := List.forall_mem_append.mp hlines
    have hline : ∀ l ∈ ls, l ≠ [] ∧ Free cr lf l := by
      intro l hl
      refine ⟨?_, hfree l hl⟩
      rintro rfl
      exact hls hl
    rw [unlines_append, unlines_cons, List.append_assoc, List.nil_append, List.cons_append,
      List.cons_append] at hdata
    rw [← hdata] at hasks
    refine ⟨ls, hfree, ?_⟩
    -- the crates that know the question tell it from any other that might be asked
    have hans := hasks Unit (knowing acc n)
    rw [knowing_respond, if_pos ⟨rfl, rfl⟩] at hans
    by_cases hp : PanicsOn false ls
    · rw [HttpHeaderParser.parseHttp_panics _ rfl hline hp] at hans
      cases hans
    · rw [asks_block hline hp, knowing_respond] at hans
      split at hans
      · next h => exact ⟨h.1.symm, h.2.symm⟩
      · cases hans
  · exfalso
    rw [← hdata] at hasks
    refine not_asks_of_unended ?_ htail hasks
    intro l hl
    refine ⟨?_, hlines l hl⟩
    rintro rfl
    exact hempty hl

end asks

section slots

/-- Only `httparse` itself is the source of its errors. -/
theorem Crates.respond_eq_httparse {R : Type} (c : Crates R) {data : List UInt8} {n : ℕ}
    {e : HttparseError} (h : c.respond data n = .error (.httparse e)) :
    (c.parse data n).1 = .error e := by
  rw [Crates.respond] at h
  rcases hparse : c.parse data n with ⟨status, method, path, version, headers⟩
  rw [hparse] at h
  rcases status with e' | k | _
  · cases h
    rfl
  · exfalso
    have hbuild : ∀ v m p, (c.build v m p headers).mapError HttpError.builder ≠ .error (.httparse e) := by
      intro v m p hb
      cases hr : c.build v m p headers with
      | error text =>
        rw [hr] at hb
        cases hb
      | ok r =>
        rw [hr] at hb
        cases hb
    -- behind an accepted parse every other error is one of the code or of the builder
    simp only [bind, Except.bind] at h
    split at h
    case h_4 => cases h
    all_goals
      rcases method with _ | method
      · cases h
      rcases path with _ | path
      · cases h
      simp only [Option.elim] at h
      split at h
      · next hb =>
        cases h
        exact hbuild _ _ _ hb
      · cases h
  · cases h

variable {data acc : List UInt8} {n : ℕ}

/-- There is a slot for each header field exactly where fewer lines of those that `httparse` reads
end in a bare LF than there are CR LFs outside them, with that of the empty line. -/
theorem slots_suffice_iff (hasks : Asks data acc n) :
    SlotsSuffice data acc n ↔ (head acc).countP (!endsInCr ·) < (outside acc).countP endsInCr := by
  -- the slots are the lines of `LineParser` less one
  obtain ⟨ls, hfree, hacc, rfl⟩ := hasks.block
  rw [← fields_le_iff hfree hacc]
  constructor
  · exact And.left
  · intro hle
    refine ⟨hle, ?_⟩
    rintro R c hc ⟨m, k, haccept⟩ hreject
    rw [hasks R c] at hreject
    have hmany := c.respond_eq_httparse (Option.some.inj hreject)
    exact absurd ((hc acc m k haccept _).mp hmany) (Nat.not_lt.mpr hle)

/-- `GET / HTTP/1.1` -/
def requestLine : List UInt8 := [71, 69, 84, 32, 47, 32, 72, 84, 84, 80, 47, 49, 46, 49]

/-- `A: b` -/
def fieldLine : List UInt8 := [65, 58, 32, 98]

theorem slots_suffice_crlf :
    SlotsSuffice (unlines cr lf [requestLine, fieldLine] ++ [cr, lf])
      (unlines cr lf [requestLine, fieldLine] ++ [cr, lf]) 1 := by
  have hline : ∀ l ∈ [requestLine, fieldLine], l ≠ [] ∧ Free cr lf l := by decide
  have hparted : ¬PanicsOn false [requestLine, fieldLine] := by simp [PanicsOn, fieldLine, lf]
  exact (slots_suffice_iff (asks_block hline hparted [])).mpr (by decide)

/-- An `httparse` that only counts. -/
def counting : Crates Unit where
  parse data n :=
    if n < fields data then (.error .tooManyHeaders, ⟨none, none, none, []⟩)
    else (.ok (.complete data.length), ⟨some "GET", some "/", some 1, []⟩)
  build _ _ _ _ := .ok ()

theorem counting_countsFields : counting.CountsFields := by
  intro data m k _ n
  rw [counting]
  by_cases hn : n < fields data <;> simp [hn]

/-- With a bare LF behind the request line there is one line for `LineParser`, hence no slot, and
one header field for `httparse`. -/
theorem bare_lf_leaves_no_slot :
    let data := requestLine ++ lf :: fieldLine ++ [cr, lf, cr, lf]
    Asks data data 0 ∧ fields data = 1 ∧ counting.CountsFields ∧
      (counting.parse data 1).1 = .ok (.complete 23) ∧
      (HttpHeaderParser.new.parseHttp counting data).map (·.1) =
        some (.error (.httparse .tooManyHeaders)) := by
  intro data
  have hline : ∀ l ∈ [requestLine ++ lf :: fieldLine], l ≠ [] ∧ Free cr lf l := by decide
  have hparted : ¬PanicsOn false [requestLine ++ lf :: fieldLine] := by simp [PanicsOn]
  have hasks : Asks data data 0 := asks_block hline hparted []
  have hfields : fields data = 1 := by decide
  refine ⟨hasks, hfields, counting_countsFields, rfl, ?_⟩
  rw [hasks Unit counting]
  rfl

end slots

end Rocks
