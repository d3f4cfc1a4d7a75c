import Rocks.HeaderPieces

/-! The state of the header parser while it waits for the end of a block. -/
namespace Rocks
open Terminated Segments LineParser

namespace HttpHeaderParser

variable {R : Type} {c : Crates R}

/-- What is kept of the chunks `cs` after they have all been answered `Ok(None)`. -/
structure Gathered (cs : List (Segment UInt8)) (p : HttpHeaderParser) (qs : List (List UInt8)) :
    Prop where
  kept : p.data = qs.flatten
  count : p.linesCnt = qs.length
  piece : ∀ q ∈ qs, Piece q
  short : p.data.length ≤ (joined cs).length
  flag : (joined cs).getLast? = some cr → p.lineParser.sawReturn = true
  begun : qs = [] → p.lineParser.buf = joined cs
  whole : p.data.length = (joined cs).length → (∀ q ∈ qs, [cr, lf] <:+ q) →
    ∀ before, before <+: cs → before ≠ [] → [cr, lf] <:+ joined before

theorem suffix_flatten {qs : List (List UInt8)} (h : ∀ q ∈ qs, [cr, lf] <:+ q) (hne : qs ≠ []) :
    [cr, lf] <:+ qs.flatten := by
  obtain ⟨qs, q, rfl⟩ := List.eq_nil_or_concat qs |>.resolve_left hne
  rw [List.concat_eq_append, List.flatten_append]
  simp only [List.flatten_cons, List.flatten_nil, List.append_nil]
  exact (h q (by simp)).trans (List.suffix_append _ _)

theorem piece_getLast? {qs : List (List UInt8)} (h : ∀ q ∈ qs, Piece q) (hne : qs ≠ []) :
    qs.flatten.getLast? = some lf := by
  obtain ⟨qs, q, rfl⟩ := List.eq_nil_or_concat qs |>.resolve_left hne
  rcases h q (by simp) with rfl | ⟨l, -, rfl⟩ <;> simp

/-- The step lemma: one more chunk that is answered `Ok(None)`. -/
theorem Gathered.concat {cs : List (Segment UInt8)} {p p' : HttpHeaderParser} {qs : List (List UInt8)}
    (hg : Gathered cs p qs) (hc : ∀ data n, c.respond data n ≠ .ok none) {s : Segment UInt8}
    (h : p.wait c s = some p') : ∃ qs', Gathered (cs ++ [s]) p' (qs ++ qs') := by
  obtain ⟨qs', rest, hk, ⟨-, hn, buf, saw, hlp, hbuf⟩ | ⟨-, hr, -⟩⟩ := parseHttp_keeps (wait_eq_some.mp h)
  swap
  · exact absurd hr.symm (hc _ _)
  have hjoin : joined (cs ++ [s]) = joined cs ++ s.val := by simp
  have hlen : s.val.length = qs'.flatten.length+rest.length := by
    rw [hk.split, List.length_append]
  have hdata : p'.data.length = p.data.length+qs'.flatten.length := by
    rw [hk.kept, List.length_append]
  have hcs := hg.short
  refine ⟨qs', ⟨?_, ?_, ?_, ?_, ?_, ?_, ?_⟩⟩
  · rw [hk.kept, hg.kept, List.flatten_append]
  · rw [hn, hg.count, List.length_append]
  · exact List.forall_mem_append.mpr ⟨hg.piece, hk.piece⟩
  · rw [hjoin, List.length_append]
    omega
  · -- the chunk ends in the CR, so it was left to the line parser
    intro hlast
    rw [hjoin, List.getLast?_append_of_ne_nil _ s.property] at hlast
    have hrest : rest ≠ [] := by
      rintro rfl
      rw [hk.split, List.append_nil] at hlast
      have hq' : qs' ≠ [] := by
        rintro rfl
        cases hlast
      rw [piece_getLast? hk.piece hq'] at hlast
      exact cr_ne_lf.symm (Option.some.inj hlast)
    rw [hk.split, List.getLast?_append_of_ne_nil _ hrest] at hlast
    rw [hlp]
    exact (lastReturn_eq_true hrest saw).mpr hlast
  · intro hnil
    obtain ⟨rfl, rfl⟩ := List.append_eq_nil_iff.mp hnil
    have hs := hk.split
    rw [List.flatten_nil, List.nil_append] at hs
    rw [hlp, hbuf rfl, hg.begun rfl, hjoin, hs]
  · -- nothing has been left out so far, so this chunk leaves nothing out either
    intro hfull hq before hpre hne
    rw [hjoin, List.length_append] at hfull
    obtain ⟨hq1, hq2⟩ := List.forall_mem_append.mp hq
    rcases List.prefix_concat_iff.mp hpre with rfl | hpre
    · have hrest : rest = [] := List.eq_nil_of_length_eq_zero (by omega)
      have hs := hk.split
      rw [hrest, List.append_nil] at hs
      have hq' : qs' ≠ [] := by
        rintro rfl
        exact s.property hs
      rw [hjoin, hs]
      exact (suffix_flatten hq2 hq').trans (List.suffix_append _ _)
    · exact hg.whole (by omega) hq1 before hpre hne

/-- The run lemma. -/
theorem gathered_of_waits (hc : ∀ data n, c.respond data n ≠ .ok none) (cs : List (Segment UInt8))
    {p : HttpHeaderParser} (h : new.waits c cs = some p) : ∃ qs, Gathered cs p qs := by
  induction cs using List.reverseRecOn generalizing p with
  | nil =>
    cases h
    refine ⟨[], rfl, rfl, by simp, Nat.le_refl 0, ?_, fun _ => rfl, ?_⟩
    · intro h
      cases h
    · intro _ _ before hpre hne
      exact absurd (List.prefix_nil.mp hpre) hne
  | append_singleton cs s ih =>
    rw [waits, List.foldlM_append] at h
    obtain ⟨p1, h1, h⟩ := Option.bind_eq_some_iff.mp h
    obtain ⟨qs, hg⟩ := ih h1
    obtain ⟨qs', hg'⟩ := hg.concat hc (by simpa using h)
    exact ⟨qs ++ qs', hg'⟩

end HttpHeaderParser

end Rocks
