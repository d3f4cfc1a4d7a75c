import Rocks.HttpParse
import Rocks.LineCalls
import Rocks.LineTracks

/-! Which calls make the line parser panic: those that find a flag without the CR it stands for. -/
namespace Rocks
open Terminated

namespace LineParser

/-- How many bytes of its slice a call reads behind the bytes `pre`: the LF of a terminator that was
cut, or up to the first terminator, or everything. -/
def reads (pre : List (UInt8 × Bool)) (data : List UInt8) : ℕ :=
  if pre.getLast? = some (cr, true) ∧ data.length > 1 ∧ data.head? = some lf then 1
  else match (scan cr lf data).1 with
    | [] => data.length
    | line :: _ => line.length+2

/-- The bytes read once calls with the slices `ds` have been made behind `pre`; the last byte of
every slice is marked. -/
def history (pre : List (UInt8 × Bool)) (ds : List (List UInt8)) : List (UInt8 × Bool) :=
  ds.foldl (fun pre data => pre ++ (marked data).take (reads pre data)) pre

/-- A slice that begins with an LF and goes on, behind CRLF pairs that follow a CR or of which one
was cut. -/
def Stale (pre : List (UInt8 × Bool)) (data : List UInt8) : Prop :=
  data.length > 1 ∧ data.head? = some lf ∧ Flagged pre ∧ ∃ last, pre.getLast? = some (lf, last)

/-- The parser behind the bytes `pre`, whatever has become of them. -/
structure Follows (lp : LineParser) (pre : List (UInt8 × Bool)) : Prop where
  flag : lp.sawReturn = true ↔ Flagged pre
  empty : Flagged pre → (lp.buf = [] ↔ ∃ last, pre.getLast? = some (lf, last))
  boundary : pre.getLast? ≠ some (cr, false)

theorem follows_new : Follows new [] where
  flag := by simp [new, not_flagged_nil]
  empty := fun h => absurd h not_flagged_nil
  boundary := by simp

variable {self p : LineParser} {data : List UInt8} {pre : List (UInt8 × Bool)}

/-- A flagged history ends in the last byte of a slice or in a terminator. -/
theorem Flagged.last_cases (h : Flagged pre) (hb : pre.getLast? ≠ some (cr, false)) :
    pre.getLast? = some (cr, true) ∨ ∃ last, pre.getLast? = some (lf, last) := by
  cases h with
  | ret pre last =>
    cases last with
    | false => exact absurd (by simp) hb
    | true => exact Or.inl (by simp)
  | cut pre => exact Or.inr ⟨false, by simp⟩
  | whole pre last _ => exact Or.inr ⟨last, by simp⟩

theorem Follows.resumes_iff (hf : Follows self pre) : self.Resumes data ↔
    Flagged pre ∧ data.length > 1 ∧ data.head? = some lf := by
  rw [LineParser.resumes_iff, hf.flag]

theorem Follows.panics_iff (hf : Follows self pre) :
    self.parseLineHttp data = none ↔ Stale pre data := by
  constructor
  · intro h
    cases parseLineHttp_call h with
    | panics hs hb =>
      obtain ⟨hflag, hlen, hhead⟩ := hf.resumes_iff.mp hs
      exact ⟨hlen, hhead, hflag, (hf.empty hflag).mp hb⟩
  · rintro ⟨hlen, hhead, hflag, hlast⟩
    have hbuf : self.buf = [] := (hf.empty hflag).mpr hlast
    rw [parseLineHttp, if_pos ⟨hf.flag.mpr hflag, hlen, hhead⟩, if_pos hbuf]

theorem Follows.joint (hf : Follows self pre) (hs : ¬self.Resumes data)
    (hl : ∃ last, pre.getLast? = some (cr, last)) (hlen : data.length > 1) : data.head? ≠ some lf := by
  intro hh
  obtain ⟨last, hl⟩ := hl
  obtain ⟨pre', rfl⟩ := List.getLast?_eq_some_iff.mp hl
  exact hs (hf.resumes_iff.mpr ⟨.ret pre' last, hlen, hh⟩)

theorem Follows.not_resumed (hf : Follows self pre) (hs : ¬self.Resumes data) :
    ¬(pre.getLast? = some (cr, true) ∧ data.length > 1 ∧ data.head? = some lf) := by
  rintro ⟨hl, hlen, hh⟩
  exact hf.joint hs ⟨true, hl⟩ hlen hh

/-- The step lemma. -/
theorem Call.follows {r : Option (List UInt8 × ℕ)} (h : Call self data (some (r, p)))
    (hf : Follows self pre) : Follows p (pre ++ (marked data).take (reads pre data)) := by
  cases h with
  | resumes hs hb =>
    obtain ⟨hflag, hlen, hhead⟩ := hf.resumes_iff.mp hs
    obtain ⟨-, rest, hne, rfl⟩ := hs
    have hlast : pre.getLast? = some (cr, true) := by
      apply (hflag.last_cases hf.boundary).resolve_right
      intro hl
      exact hb ((hf.empty hflag).mpr hl)
    have hemp : rest.isEmpty = false := by simp [hne]
    have htake : (marked (lf :: rest)).take 1 = [(lf, false)] := by rw [marked, hemp]; rfl
    obtain ⟨pre', rfl⟩ := List.getLast?_eq_some_iff.mp hlast
    rw [reads, if_pos ⟨hlast, hlen, hhead⟩, htake, List.append_assoc]
    exact ⟨by simpa using Flagged.cut pre', by simp, by simp [cr_ne_lf.symm]⟩
  | line hs body rest hd hfree =>
    subst hd
    have hmap : (body.map (·, false)).map Prod.fst = body := by
      rw [List.map_map]
      exact List.map_id body
    have hreads : reads pre (body ++ cr :: lf :: rest) = body.length+2 := by
      rw [reads, if_neg (hf.not_resumed hs), scan_line cr_ne_lf hfree]
    have hbody : Free cr lf ((body.map (·, false)).map Prod.fst) := by rwa [hmap]
    have hjoint : ¬((∃ last, pre.getLast? = some (cr, last)) ∧
        ((body.map (·, false)).map Prod.fst).head? = some lf) := by
      rw [hmap]
      rintro ⟨hl, hh⟩
      obtain ⟨body, rfl⟩ := List.head?_eq_some_iff.mp hh
      exact hf.joint hs hl (by rw [List.length_append, List.length_cons, List.length_cons]; omega) rfl
    have hflag := flagged_passes hbody hjoint hf.flag
    rw [hmap] at hflag
    rw [hreads, marked_line, ← List.append_assoc]
    refine ⟨?_, fun _ => by simp, by simp [cr_ne_lf.symm]⟩
    rw [flagged_whole]
    exact hflag
  | more hs hfree =>
    have hreads : (marked data).take (reads pre data) = marked data := by
      rw [reads, if_neg (hf.not_resumed hs), scan_of_free hfree]
      exact List.take_of_length_le (by rw [← List.length_map Prod.fst, marked_map_fst])
    rw [hreads]
    by_cases hd : data = []
    · subst hd
      simpa [lastReturn] using hf
    have hlast : (pre ++ marked data).getLast? = data.getLast?.map (·, true) := by
      rw [List.getLast?_append_of_ne_nil, marked_getLast?]
      intro hm
      exact hd (by rw [← marked_map_fst data, hm]; rfl)
    have hflag : lastReturn self.sawReturn data = true ↔ Flagged (pre ++ marked data) := by
      by_cases hlone : data = [lf] ∧ ∃ last, pre.getLast? = some (cr, last)
      · -- a lone LF clears the flag, even where it ends a terminator
        obtain ⟨rfl, hl⟩ := hlone
        apply iff_of_false (show ¬(lf == cr) = true by decide)
        intro h
        rcases flagged_concat h with h | ⟨-, ⟨pre', -, h⟩ | ⟨pre', rfl, -⟩⟩
        · exact cr_ne_lf h.symm
        · cases h
        · exact hf.boundary (by simp)
      · have hdata : Free cr lf ((marked data).map Prod.fst) := by rwa [marked_map_fst]
        have hjoint : ¬((∃ last, pre.getLast? = some (cr, last)) ∧
            ((marked data).map Prod.fst).head? = some lf) := by
          rw [marked_map_fst]
          rintro ⟨hl, hh⟩
          obtain ⟨rest, rfl⟩ := List.head?_eq_some_iff.mp hh
          refine hf.joint hs hl ?_ rfl
          rcases rest with _ | ⟨b, rest⟩
          · exact absurd ⟨rfl, hl⟩ hlone
          · simp
        have h := flagged_passes hdata hjoint hf.flag
        rwa [marked_map_fst] at h
    refine ⟨hflag, ?_, ?_⟩
    · intro hfl
      have hcr := (lastReturn_eq_true hd self.sawReturn).mp (hflag.mpr hfl)
      rw [hlast, hcr]
      refine iff_of_false (by simp [hd]) ?_
      simp [cr_ne_lf]
    · rw [hlast]
      intro h
      obtain ⟨b, -, hb⟩ := Option.map_eq_some_iff.mp h
      cases hb

/-- No slice finds a stale flag. -/
def Unstale (pre : List (UInt8 × Bool)) (ds : List (List UInt8)) : Prop :=
  ∀ ds₁ data ds₂, ds = ds₁ ++ data :: ds₂ → ¬Stale (history pre ds₁) data

theorem unstale_cons_iff (pre : List (UInt8 × Bool)) (data : List UInt8) (ds : List (List UInt8)) :
    Unstale pre (data :: ds) ↔
      ¬Stale pre data ∧ Unstale (pre ++ (marked data).take (reads pre data)) ds := by
  constructor
  · intro h
    refine ⟨h [] data ds rfl, ?_⟩
    rintro ds₁ d ds₂ rfl
    exact h (data :: ds₁) d ds₂ rfl
  · rintro ⟨h1, h2⟩ ds₁ d ds₂ heq
    cases ds₁ with
    | nil =>
      obtain ⟨rfl, -⟩ := List.cons.inj heq
      exact h1
    | cons d' ds₁ =>
      obtain ⟨rfl, rfl⟩ := List.cons.inj heq
      exact h2 ds₁ d ds₂ rfl

/-- The run lemma. -/
theorem calls_from_iff {ds : List (List UInt8)} (hf : Follows self pre) :
    (∃ rs p, self.calls ds = some (rs, p)) ↔ Unstale pre ds := by
  induction ds generalizing self pre with
  | nil =>
    refine iff_of_true ⟨[], self, rfl⟩ ?_
    intro ds₁ d ds₂ h
    simp at h
  | cons data ds ih =>
    rw [unstale_cons_iff, calls]
    rcases hcall : self.parseLineHttp data with _ | ⟨r, p1⟩
    · have hstale := hf.panics_iff.mp hcall
      simp [hstale]
    · have hstale : ¬Stale pre data := by
        rw [← hf.panics_iff, hcall]
        simp
      have hrest : (∃ rs p, (p1.calls ds).map (fun r' => (r :: r'.1, r'.2)) = some (rs, p)) ↔
          ∃ rs p, p1.calls ds = some (rs, p) := by
        rcases p1.calls ds with _ | ⟨rs, p⟩ <;> simp
      rw [← ih ((parseLineHttp_call hcall).follows hf), and_iff_right hstale]
      exact hrest

theorem calls_bounds {ds : List (List UInt8)} {rs : List (Option (List UInt8 × ℕ))}
    (h : self.calls ds = some (rs, p)) : ∀ q ∈ ds.zip rs, ∀ line pos, q.2 = some (line, pos) →
      1 ≤ pos ∧ pos ≤ q.1.length := by
  induction ds generalizing self rs with
  | nil => simp
  | cons data ds ih =>
    obtain ⟨r, p1, rs1, hcall, hrest, rfl⟩ := calls_cons_eq_some h
    intro q hq line pos hr
    rcases List.mem_cons.mp hq with rfl | hq
    · obtain rfl : r = some (line, pos) := hr
      exact hcall.pos_bounds
    · exact ih hrest q hq line pos hr

/-- Calls with any slices never panic and return positions in range, exactly where no slice that
begins with an LF and goes on comes behind CRLF pairs that follow a CR or of which one was cut. -/
theorem calls_in_range_iff (ds : List (List UInt8)) :
    (∃ rs p, new.calls ds = some (rs, p) ∧ ∀ q ∈ ds.zip rs, ∀ line pos, q.2 = some (line, pos) →
      1 ≤ pos ∧ pos ≤ q.1.length) ↔
        ∀ ds₁ data ds₂, ds = ds₁ ++ data :: ds₂ → ¬Stale (history [] ds₁) data := by
  rw [← Unstale, ← calls_from_iff follows_new]
  constructor
  · rintro ⟨rs, p, h, -⟩
    exact ⟨rs, p, h⟩
  · rintro ⟨rs, p, h⟩
    exact ⟨rs, p, h, calls_bounds h⟩

end LineParser

namespace HttpHeaderParser

open LineParser

/-- The calls that one `parse_http` makes: it panics where they do, and each of them is given a
rest of its slice. -/
theorem parseHttp_calls {R : Type} (c : Crates R) (self : HttpHeaderParser) (data : List UInt8) :
    ∃ ds, (∀ d ∈ ds, d <:+ data) ∧ (self.lineParser.calls ds).map (·.2) =
      (self.parseHttp c data).map (·.2.lineParser) := by
  fun_induction parseHttp c self data with
  | case1 self data hcall => exact ⟨[data], by simp, by simp [calls, hcall]⟩
  | case2 self data lp hcall => exact ⟨[data], by simp, by simp [calls, hcall]⟩
  | case3 self data l pos lp hcall self' hl ih =>
    obtain ⟨ds, hds, hlp⟩ := ih
    refine ⟨data :: ds, ?_, ?_⟩
    · intro d hd
      rcases List.mem_cons.mp hd with rfl | hd
      · exact List.suffix_rfl
      · exact (hds d hd).trans (List.drop_suffix pos data)
    · rw [← hlp]
      simp [calls, hcall, self', Function.comp_def]
  | case4 self data l pos lp hcall self' hl => exact ⟨[data], by simp, by simp [calls, hcall, self']⟩

/-- The slices that one `parse_http` takes are in range: each call is given `data[start..]`, and the
line it finds ends within `data`. -/
theorem parseHttp_in_range {R : Type} (c : Crates R) {self p : HttpHeaderParser} {data : List UInt8}
    {r : Except HttpError (Option (R × ℕ))} (h : self.parseHttp c data = some (r, p)) :
    ∃ ds rs, self.lineParser.calls ds = some (rs, p.lineParser) ∧ ∀ q ∈ ds.zip rs,
      ∃ start ≤ data.length, q.1 = data.drop start ∧
        ∀ line pos, q.2 = some (line, pos) → 1 ≤ pos ∧ start+pos ≤ data.length := by
  obtain ⟨ds, hds, hlp⟩ := parseHttp_calls c self data
  rw [h, Option.map_some] at hlp
  obtain ⟨⟨rs, lp⟩, hcalls, rfl⟩ := Option.map_eq_some_iff.mp hlp
  refine ⟨ds, rs, hcalls, ?_⟩
  intro q hq
  have hsuf : q.1 <:+ data := hds q.1 (List.of_mem_zip hq).1
  have hlen := hsuf.length_le
  refine ⟨data.length-q.1.length, Nat.sub_le _ _, List.suffix_iff_eq_drop.mp hsuf, ?_⟩
  intro line pos hr
  obtain ⟨hpos, hle⟩ := calls_bounds hcalls q hq line pos hr
  exact ⟨hpos, by omega⟩

/-- The CR of a line that ends in one leaves the flag behind, and the LF that the next line begins
with is taken for the end of a cut terminator. -/
theorem stale_flag_panics :
    LineParser.new.calls [[13, 13, 10, 10, 65], [10, 65]] = none ∧
      ∀ c : Crates Unit, new.parseHttp c [13, 13, 10, 10, 65] = none := by
  refine ⟨by decide, ?_⟩
  intro c
  have hline : new.lineParser.parseLineHttp [13, 13, 10, 10, 65] =
      some (some ([13], 3), ⟨[], true⟩) := by decide
  rw [parseHttp_of_line c hline (by decide)]
  exact parseHttp_of_panic c (by decide)

end HttpHeaderParser

end Rocks
