import Rocks.LineFeed

/-! The line parser called with one slice after another, whatever the slices are. -/
namespace Rocks
open Terminated

namespace LineParser

/-- One call after the other: what each of them returns, and the parser behind them. -/
def calls (self : LineParser) :
    List (List UInt8) → Option (List (Option (List UInt8 × ℕ)) × LineParser)
  | [] => some ([], self)
  | data :: ds =>
    (self.parseLineHttp data).bind (fun r => (r.2.calls ds).map (fun r' => (r.1 :: r'.1, r'.2)))

theorem calls_cons_eq_some {self p : LineParser} {data : List UInt8} {ds : List (List UInt8)}
    {rs : List (Option (List UInt8 × ℕ))} (h : self.calls (data :: ds) = some (rs, p)) :
    ∃ r p1 rs1, Call self data (some (r, p1)) ∧ p1.calls ds = some (rs1, p) ∧ rs = r :: rs1 := by
  obtain ⟨⟨r, p1⟩, h1, h⟩ := Option.bind_eq_some_iff.mp h
  obtain ⟨⟨rs1, p'⟩, h2, heq⟩ := Option.map_eq_some_iff.mp h
  obtain ⟨rfl, rfl⟩ := Prod.mk.inj heq
  exact ⟨r, p1, rs1, parseLineHttp_call h1, h2, rfl⟩

/-- `Vec::from` -/
def vecFrom (lp : LineParser) : List UInt8 := lp.buf

/-- The bytes of its slice that a call has read. -/
def consumed (data : List UInt8) : Option (List UInt8 × ℕ) → List UInt8
  | none => data
  | some (_, pos) => data.take pos

/-- The lines among the results. -/
def emitted (rs : List (Option (List UInt8 × ℕ))) : List (List UInt8) :=
  rs.filterMap (Option.map Prod.fst)

theorem Call.conserves {self p : LineParser} {data : List UInt8} {r : Option (List UInt8 × ℕ)}
    (h : Call self data (some (r, p))) (hw : self.WellFlagged) :
    self.buf ++ consumed data r = unlines cr lf (emitted [r]) ++ p.buf := by
  cases r with
  | none =>
    cases h
    rfl
  | some q =>
    obtain ⟨line, pos⟩ := q
    obtain ⟨hline, hbuf⟩ := h.line_eq hw
    calc self.buf ++ consumed data (some (line, pos)) = line ++ [cr, lf] := hline
      _ = unlines cr lf (emitted [some (line, pos)]) ++ p.buf := by
        rw [hbuf, List.append_nil]
        exact (unlines_cons line []).symm

/-- The run lemma. -/
theorem calls_conserve_from {ds : List (List UInt8)} {self p : LineParser} (hw : self.WellFlagged)
    {rs : List (Option (List UInt8 × ℕ))} (h : self.calls ds = some (rs, p)) :
    self.buf ++ (List.zipWith consumed ds rs).flatten = unlines cr lf (emitted rs) ++ p.buf ∧
      p.WellFlagged := by
  induction ds generalizing self rs with
  | nil =>
    cases h
    exact ⟨by simp [emitted], hw⟩
  | cons data ds ih =>
    obtain ⟨r, p1, rs1, hcall, hrest, rfl⟩ := calls_cons_eq_some h
    obtain ⟨hall, hwp⟩ := ih (hcall.wellFlagged hw) hrest
    have hemit : emitted (r :: rs1) = emitted [r] ++ emitted rs1 := List.filterMap_append (l := [r])
    refine ⟨?_, hwp⟩
    calc self.buf ++ (List.zipWith consumed (data :: ds) (r :: rs1)).flatten
        = (self.buf ++ consumed data r) ++ (List.zipWith consumed ds rs1).flatten := by
          rw [List.zipWith_cons_cons, List.flatten_cons, List.append_assoc]
      _ = unlines cr lf (emitted [r]) ++ (unlines cr lf (emitted rs1) ++ p.buf) := by
          rw [hcall.conserves hw, List.append_assoc, hall]
      _ = unlines cr lf (emitted (r :: rs1)) ++ p.buf := by
          rw [hemit, unlines_append, List.append_assoc]

/-- All bytes that were read are in the lines, in their terminators and in the buffer, and the byte
that the next call drops to end a cut line is a CR. -/
theorem calls_conserve {ds : List (List UInt8)} {rs : List (Option (List UInt8 × ℕ))}
    {p : LineParser} (h : new.calls ds = some (rs, p)) :
    (List.zipWith consumed ds rs).flatten = unlines cr lf (emitted rs) ++ vecFrom p ∧
      ∀ data, p.Resumes data → p.buf ≠ [] → p.buf.getLast? = some cr := by
  obtain ⟨hall, hw⟩ := calls_conserve_from wellFlagged_new h
  refine ⟨hall, ?_⟩
  intro data hs hb
  exact (hw hs.1).resolve_left hb

/-- A terminator that is cut behind `a`, and the bytes behind it. -/
theorem calls_conserve_cut : ∃ (rs : List (Option (List UInt8 × ℕ))) (p : LineParser),
    (List.zipWith consumed [[97, 13], [10, 98], [], [98]] rs).flatten =
      unlines cr lf (emitted rs) ++ vecFrom p ∧ emitted rs = [[97]] ∧ vecFrom p = [98] := by
  have h : new.calls [[97, 13], [10, 98], [], [98]] =
      some ([none, some ([97], 1), none, none], ⟨[98], false⟩) := by decide
  exact ⟨_, _, (calls_conserve h).1, rfl, rfl⟩

end LineParser

end Rocks
