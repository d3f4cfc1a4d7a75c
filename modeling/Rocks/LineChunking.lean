import Rocks.LineTracks

/-! The line parser returns the lines of the stream exactly where it misreads no cut. -/
namespace Rocks
open Terminated Segments

namespace LineParser

variable {self p : LineParser} {data : List UInt8} {pre : List (UInt8 × Bool)} {ls : List (List UInt8)}

theorem Tainted.cons (h : Tainted ls p) (l : List UInt8) : Tainted (l :: ls) p :=
  h.imp_left fun ⟨l', hl, hn⟩ => ⟨l', List.mem_cons_of_mem l hl, hn⟩

theorem Tainted.append_left (h : Tainted ls p) (ls' : List (List UInt8)) : Tainted (ls' ++ ls) p :=
  h.imp_left fun ⟨l', hl, hn⟩ => ⟨l', List.mem_append_right ls' hl, hn⟩

/-- A terminator that is in the buffer does not come out again. -/
theorem Call.taints {r : Option (List UInt8 × ℕ)} (h : Call self data (some (r, p)))
    (hw : self.WellFlagged) (hn : ¬Free cr lf self.buf) :
    match r with
    | some (l, _) => ¬Free cr lf l
    | none => ¬Free cr lf p.buf := by
  cases h with
  | resumes hs hb =>
    have hlast : self.buf.dropLast ++ [cr] = self.buf :=
      List.dropLast_append_getLast? cr ((hw hs.1).resolve_left hb)
    intro hf
    refine hn ?_
    rw [← hlast]
    exact free_append.mpr ⟨hf, free_singleton cr, by simp [cr_ne_lf]⟩
  | line => exact fun hf => hn (hf.mono (List.prefix_append _ _).isInfix)
  | more => exact fun hf => hn (hf.mono (List.prefix_append _ _).isInfix)

theorem Feeds.taints {r : Option (List (List UInt8) × LineParser)} (h : Feeds self data r)
    (hw : self.WellFlagged) (hn : ¬Free cr lf self.buf) (hr : r = some (ls, p)) : Tainted ls p := by
  cases h with
  | panics => cases hr
  | more _ _ _ h =>
    cases hr
    exact Or.inr (h.taints hw hn)
  | last _ _ _ line pos h =>
    cases hr
    exact Or.inl ⟨line, List.mem_singleton_self line, h.taints hw hn⟩
  | line _ _ _ line pos r h =>
    obtain ⟨⟨ls', p'⟩, -, heq⟩ := Option.map_eq_some_iff.mp hr
    cases heq
    exact Or.inl ⟨line, List.mem_cons_self, h.taints hw hn⟩

theorem drive_taints {cs : List (Segment UInt8)} (hw : self.WellFlagged) (hn : ¬Free cr lf self.buf)
    (h : self.drive cs = some (ls, p)) : Tainted ls p := by
  induction cs generalizing self ls with
  | nil =>
    cases h
    exact Or.inr hn
  | cons c cs ih =>
    obtain ⟨ls1, p1, ls2, h1, h2, rfl⟩ := drive_cons_eq_some h
    have hfeed := feed_feeds self c.val
    rcases hfeed.taints hw hn h1 with ⟨l, hl, hf⟩ | hbuf
    · exact Or.inl ⟨l, List.mem_append_left ls2 hl, hf⟩
    · exact (ih (hfeed.conserves hw h1).2 hbuf h2).append_left ls1

/-- What a driver's result says about the bytes it has read: either one of them was misread and
shows, or none was. -/
def Shows (pre ms : List (UInt8 × Bool)) (r : Option (List (List UInt8) × LineParser)) : Prop :=
  Misreads pre ms ∧ (∀ ls p, r = some (ls, p) → Tainted ls p) ∨
    ¬Misreads pre ms ∧ ∃ ls p, r = some (ls, p) ∧ (∀ l ∈ ls, Free cr lf l) ∧ Tracks p (pre ++ ms)

/-- The run lemma for one chunk. -/
theorem Feeds.shows {r : Option (List (List UInt8) × LineParser)} (h : Feeds self data r)
    (hd : data ≠ []) (ht : Tracks self pre) : Shows pre (marked data) r := by
  induction h generalizing pre with
  | panics self data h =>
    left
    exact ⟨h.misreads_of_panic ht, fun ls p hr => by cases hr⟩
  | more self p data h =>
    rcases h.tracks_more ht hd with ⟨hmis, hn⟩ | ⟨hmis, htp⟩
    · left
      refine ⟨hmis, ?_⟩
      intro ls p hr
      cases hr
      exact Or.inr hn
    · exact Or.inr ⟨hmis, [], p, rfl, by simp, htp⟩
  | last self p data line pos h hdrop =>
    obtain ⟨hmis, htp, hf⟩ := h.tracks_line ht
    have htake := marked_split data pos
    rw [hdrop, marked_nil, List.append_nil] at htake
    rw [htake] at hmis htp
    exact Or.inr ⟨hmis, [line], p, rfl, by simpa using hf, htp⟩
  | line self p data line pos r h hdrop _ ih =>
    obtain ⟨hmis, htp, hf⟩ := h.tracks_line ht
    rw [Shows, ← marked_split data pos, misreads_append, ← List.append_assoc]
    -- the line itself is clean, so what the rest of the chunk shows decides
    rcases ih hdrop htp with ⟨hmis', htaint⟩ | ⟨hmis', ls, q, rfl, hfree, htq⟩
    · left
      refine ⟨Or.inr hmis', ?_⟩
      intro ls q hr
      obtain ⟨⟨ls', q'⟩, hr', heq⟩ := Option.map_eq_some_iff.mp hr
      cases heq
      exact (htaint ls' _ hr').cons line
    · right
      exact ⟨not_or.mpr ⟨hmis, hmis'⟩, line :: ls, q, rfl, List.forall_mem_cons.mpr ⟨hf, hfree⟩, htq⟩

/-- The run lemma for all chunks. -/
theorem drive_shows (cs : List (Segment UInt8)) (hw : self.WellFlagged) (ht : Tracks self pre) :
    Shows pre (cutBytes cs) (self.drive cs) := by
  induction cs generalizing self pre with
  | nil => exact Or.inr ⟨id, [], self, rfl, by simp, by simpa [cutBytes] using ht⟩
  | cons c cs ih =>
    have hfeed := feed_feeds self c.val
    have hcut : cutBytes (c :: cs) = marked c.val ++ cutBytes cs := rfl
    rw [Shows, hcut, misreads_append, ← List.append_assoc, drive]
    rcases hfeed.shows c.property ht with ⟨hmis, htaint⟩ | ⟨hmis, ls1, p1, h1, hfree, htp⟩
    · left
      refine ⟨Or.inl hmis, ?_⟩
      intro ls q hr
      obtain ⟨ls1, p1, ls2, h1, h2, rfl⟩ := drive_cons_eq_some hr
      -- a terminator misread in this chunk is in its lines, or comes out with the lines after it
      rcases htaint ls1 p1 h1 with ⟨l, hl, hf⟩ | hbuf
      · exact Or.inl ⟨l, List.mem_append_left ls2 hl, hf⟩
      · exact (drive_taints (hfeed.conserves hw h1).2 hbuf h2).append_left ls1
    · rw [h1]
      simp only [Option.bind_some]
      rcases ih (hfeed.conserves hw h1).2 htp with ⟨hmis', htaint⟩ | ⟨hmis', ls2, q, h2, hfree', htq⟩
      · left
        refine ⟨Or.inr hmis', ?_⟩
        intro ls q hr
        obtain ⟨⟨ls2, q2⟩, h2, heq⟩ := Option.map_eq_some_iff.mp hr
        cases heq
        exact (htaint ls2 _ h2).append_left ls1
      · right
        rw [h2]
        refine ⟨not_or.mpr ⟨hmis, hmis'⟩, ls1 ++ ls2, q, rfl, ?_, htq⟩
        exact List.forall_mem_append.mpr ⟨hfree, hfree'⟩

/-- The lines do not depend on the cuts exactly where no cut is misread: no chunk that follows a CR
is a lone LF, and behind CRLF pairs that follow a CR, or of which one is cut, there is no LF but
at the end of its chunk. -/
theorem drive_splits_iff (cs : List (Segment UInt8)) :
    (new.drive cs).map (·.1) = some (scan cr lf (joined cs)).1 ↔
      ∀ pre b post, cutBytes cs = pre ++ b :: post → ¬Misread pre b := by
  have hmis : (∀ pre b post, cutBytes cs = pre ++ b :: post → ¬Misread pre b) ↔
      ¬Misreads [] (cutBytes cs) := by
    rw [misreads_iff]
    simp
  rw [drive_lines_iff, hmis]
  rcases drive_shows cs wellFlagged_new tracks_new with ⟨hm, htaint⟩ | ⟨hm, ls, p, hr, hfree, ht⟩
  · refine iff_of_false ?_ (not_not_intro hm)
    rintro ⟨ls, p, hr, hn⟩
    exact hn (htaint ls p hr)
  · refine iff_of_true ⟨ls, p, hr, ?_⟩ hm
    rintro (⟨l, hl, hn⟩ | hn)
    · exact hn (hfree l hl)
    · exact hn ht.free

/-- A CRLF whose LF comes alone ends no line. -/
theorem lone_lf_ends_no_line :
    (new.drive [⟨[97, 13], by decide⟩, ⟨[10], by decide⟩]).map (·.1) = some [] ∧
      (scan cr lf (joined [⟨[97, 13], by decide⟩, ⟨[10], by decide⟩])).1 = [[97]] := by
  decide +kernel

end LineParser

end Rocks
