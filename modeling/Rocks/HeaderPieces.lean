import Rocks.HeaderBlocks

/-! What the header parser keeps of the chunks it is given. -/
namespace Rocks
open Terminated Segments LineParser

/-- What one call adds to `data`: a line with its terminator, or just the LF of one that was cut. -/
def Piece (q : List UInt8) : Prop := q = [lf] ∨ ∃ l, Free cr lf l ∧ q = l ++ [cr, lf]

theorem LineParser.Call.piece {self lp : LineParser} {data l : List UInt8} {p : ℕ}
    (h : Call self data (some (some (l, p), lp))) : Piece (data.take p) ∧
      (self.sawReturn = true → data.head? = some lf → data.take p = [lf]) := by
  cases h with
  | resumes hs hb =>
    obtain ⟨-, rest, -, rfl⟩ := hs
    exact ⟨Or.inl rfl, fun _ _ => rfl⟩
  | line hs body rest hd hf =>
    subst hd
    rw [take_line]
    refine ⟨Or.inr ⟨body, hf, rfl⟩, ?_⟩
    intro hsaw hh
    cases body with
    | nil => simp [cr_ne_lf] at hh
    | cons b body =>
      obtain rfl : b = lf := Option.some.inj hh
      exact absurd ⟨hsaw, body ++ cr :: lf :: rest, by simp, rfl⟩ hs

/-- Only an empty line is kept as a bare terminator. -/
theorem pieces_of_empty_line {qs : List (List UInt8)} (h : ∀ q ∈ qs, Piece q)
    (hf : qs.flatten = [cr, lf]) : qs = [[cr, lf]] := by
  cases qs with
  | nil => cases hf
  | cons q qs =>
    obtain ⟨hq, hqs⟩ := List.forall_mem_cons.mp h
    rw [List.flatten_cons] at hf
    rcases hq with rfl | ⟨l, -, rfl⟩
    · exact absurd (List.cons.inj hf).1 cr_ne_lf.symm
    · have hlen := congrArg List.length hf
      simp only [List.length_append, List.length_cons, List.length_nil] at hlen
      have hl : l = [] := List.eq_nil_of_length_eq_zero (by omega)
      have hrest : qs.flatten = [] := List.eq_nil_of_length_eq_zero (by omega)
      cases qs with
      | nil => rw [hl, List.nil_append]
      | cons q' qs =>
        -- a piece is not empty
        have hnil := (List.append_eq_nil_iff.mp (List.flatten_cons.symm.trans hrest)).1
        rcases (List.forall_mem_cons.mp hqs).1 with rfl | ⟨l', -, rfl⟩ <;> simp at hnil

/-- There are as many lines in the pieces as pieces only if each piece is a line. -/
theorem lines_of_pieces {qs : List (List UInt8)} (h : ∀ q ∈ qs, Piece q) :
    (scan cr lf qs.flatten).1.length ≤ qs.length ∧
      (qs.length ≤ (scan cr lf qs.flatten).1.length →
        ∃ ls : List (List UInt8), (∀ l ∈ ls, Free cr lf l) ∧ qs = ls.map (· ++ [cr, lf])) := by
  induction qs with
  | nil => exact ⟨Nat.le_refl 0, fun _ => ⟨[], by simp, rfl⟩⟩
  | cons q qs ih =>
    obtain ⟨hq, hqs⟩ := List.forall_mem_cons.mp h
    obtain ⟨hle, hall⟩ := ih hqs
    -- a lone LF adds a piece but no line
    rcases hq with rfl | ⟨l, hf, rfl⟩
    · have hlen : (scan cr lf ([lf] :: qs).flatten).1.length = (scan cr lf qs.flatten).1.length :=
        length_lines_cons cr_ne_lf.symm qs.flatten
      rw [hlen, List.length_cons]
      exact ⟨by omega, fun _ => by omega⟩
    · have hscan : scan cr lf ((l ++ [cr, lf]) :: qs).flatten =
          (l :: (scan cr lf qs.flatten).1, (scan cr lf qs.flatten).2) := by
        rw [List.flatten_cons, List.append_assoc]
        exact scan_line cr_ne_lf hf qs.flatten
      rw [hscan, List.length_cons, List.length_cons]
      refine ⟨by omega, ?_⟩
      intro h
      obtain ⟨ls, hls, rfl⟩ := hall (by omega)
      exact ⟨l :: ls, List.forall_mem_cons.mpr ⟨hf, hls⟩, rfl⟩

namespace HttpHeaderParser

variable {R : Type} {c : Crates R}

/-- The chunk `data` adds `qs` to what is kept, and leaves `rest` to the line parser. -/
structure Keeps (hp p : HttpHeaderParser) (data : List UInt8) (qs : List (List UInt8))
    (rest : List UInt8) : Prop where
  split : data = qs.flatten ++ rest
  piece : ∀ q ∈ qs, Piece q
  kept : p.data = hp.data ++ qs.flatten
  resumed : hp.lineParser.sawReturn = true → data.head? = some lf → ∀ q ∈ qs.head?, q = [lf]

theorem Keeps.cons {self p : HttpHeaderParser} {data l : List UInt8} {pos n : ℕ} {lp : LineParser}
    {qs : List (List UInt8)} {rest : List UInt8}
    (h : Call self.lineParser data (some (some (l, pos), lp)))
    (hk : Keeps ⟨self.data ++ data.take pos, n, lp⟩ p (data.drop pos) qs rest) :
    Keeps self p data (data.take pos :: qs) rest where
  split := by rw [List.flatten_cons, List.append_assoc, ← hk.split, List.take_append_drop]
  piece := List.forall_mem_cons.mpr ⟨h.piece.1, hk.piece⟩
  kept := by rw [hk.kept, List.flatten_cons, List.append_assoc]
  resumed hsaw hh := by simpa using h.piece.2 hsaw hh

theorem parseHttp_keeps {self p : HttpHeaderParser} {data : List UInt8}
    {r : Except HttpError (Option (R × ℕ))} (h : self.parseHttp c data = some (r, p)) :
    ∃ qs rest, Keeps self p data qs rest ∧
      (r = .ok none ∧ p.linesCnt = self.linesCnt+qs.length ∧
          (∃ buf saw, p.lineParser = ⟨buf ++ rest, lastReturn saw rest⟩ ∧
            (qs = [] → buf = self.lineParser.buf)) ∨
        qs ≠ [] ∧ r = c.respond p.data (self.linesCnt+(qs.length-1)-1) ∧
          (self.lineParser.buf = [] ∨ qs.head? = some [lf] ∨ 2 ≤ qs.length)) := by
  fun_induction parseHttp c self data with
  | case1 => cases h
  | case2 self data lp hcall =>
    cases h
    refine ⟨[], data, ⟨rfl, by simp, by simp, by simp⟩, Or.inl ⟨rfl, rfl, ?_⟩⟩
    cases parseLineHttp_call hcall
    exact ⟨_, _, rfl, fun _ => rfl⟩
  -- `continue`: one more piece and one more line counted
  | case3 self data l pos lp hcall self' hl ih =>
    obtain ⟨qs, rest, hk, hr⟩ := ih h
    refine ⟨data.take pos :: qs, rest, hk.cons (parseLineHttp_call hcall), ?_⟩
    rcases hr with ⟨hr, hn, buf, saw, hlp, -⟩ | ⟨hne, hr, -⟩
    · refine Or.inl ⟨hr, ?_, buf, saw, hlp, fun hnil => absurd hnil (List.cons_ne_nil _ _)⟩
      rw [hn, List.length_cons]
      simp only [self']
      omega
    · have hpos := List.length_pos_of_ne_nil hne
      refine Or.inr ⟨List.cons_ne_nil _ _, ?_, Or.inr (Or.inr (Nat.succ_le_succ hpos))⟩
      have hcnt : self'.linesCnt+1+(qs.length-1)-1 = self.linesCnt+((data.take pos :: qs).length-1)-1 := by
        rw [List.length_cons]
        simp only [self']
        omega
      rw [hr, ← hcnt]
  -- the empty line is kept as well, but not counted
  | case4 self data l pos lp hcall self' hl =>
    obtain ⟨rfl, rfl⟩ := Prod.mk.inj (Option.some.inj h)
    have hcall' := parseLineHttp_call hcall
    refine ⟨[data.take pos], data.drop pos, ?_, Or.inr ⟨List.cons_ne_nil _ _, ?_, ?_⟩⟩
    · exact Keeps.cons (n := 0) hcall' ⟨rfl, by simp, by simp [self'], by simp⟩
    · rw [headersCnt_eq]
      rfl
    -- a line that has begun is not empty, unless only its LF was missing
    · obtain rfl : l = [] := List.eq_nil_of_length_eq_zero (not_not.mp hl)
      generalize hout : some (some ([], pos), lp) = out at hcall'
      cases hcall' with
      | panics => cases hout
      | more => cases hout
      | resumes hs =>
        right
        left
        obtain ⟨-, rest, -, hdata⟩ := hs
        obtain ⟨-, rfl⟩ := Prod.mk.inj (Option.some.inj (Prod.mk.inj (Option.some.inj hout)).1)
        rw [hdata]
        rfl
      | line hs body rest hd hf =>
        left
        have hnil := (Prod.mk.inj (Option.some.inj (Prod.mk.inj (Option.some.inj hout)).1)).1
        exact (List.append_eq_nil_iff.mp hnil.symm).1

end HttpHeaderParser

end Rocks
