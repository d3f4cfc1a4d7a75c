import Rocks.LineParser
import Rocks.Segments

/-! The line parser driven over a stream in chunks: every byte ends up in a line or in the buffer. -/
namespace Rocks
open Terminated Segments

namespace LineParser

/-- One chunk: the unread rest goes into the next call, until a call returns `None` or nothing
is left. -/
def feed (self : LineParser) (data : List UInt8) : Option (List (List UInt8) × LineParser) :=
  match _h : self.parseLineHttp data with
  | none => none
  | some (none, p) => some ([], p)
  | some (some (line, pos), p) =>
    if data.drop pos = [] then some ([line], p)
    else (p.feed (data.drop pos)).map (fun r => (line :: r.1, r.2))
termination_by data.length
decreasing_by
  have := (parseLineHttp_call _h).pos_bounds
  rw [List.length_drop]
  omega

/-- All chunks, one after another. -/
def drive (self : LineParser) : List (Segment UInt8) → Option (List (List UInt8) × LineParser)
  | [] => some ([], self)
  | c :: cs => (self.feed c.val).bind (fun r => (r.2.drive cs).map (fun r' => (r.1 ++ r'.1, r'.2)))

/-- The lines and the parser behind them. -/
inductive Feeds : LineParser → List UInt8 → Option (List (List UInt8) × LineParser) → Prop
  | panics (self : LineParser) (data : List UInt8) (h : Call self data none) : Feeds self data none
  | more (self p : LineParser) (data : List UInt8) (h : Call self data (some (none, p))) :
      Feeds self data (some ([], p))
  | last (self p : LineParser) (data line : List UInt8) (pos : ℕ)
      (h : Call self data (some (some (line, pos), p))) (hd : data.drop pos = []) :
      Feeds self data (some ([line], p))
  | line (self p : LineParser) (data line : List UInt8) (pos : ℕ)
      (r : Option (List (List UInt8) × LineParser)) (h : Call self data (some (some (line, pos), p)))
      (hd : data.drop pos ≠ []) (hf : Feeds p (data.drop pos) r) :
      Feeds self data (r.map (fun r => (line :: r.1, r.2)))

theorem feed_feeds (self : LineParser) (data : List UInt8) : Feeds self data (self.feed data) := by
  fun_induction feed self data with
  | case1 self data h => exact .panics self data (parseLineHttp_call h)
  | case2 self data p h => exact .more self p data (parseLineHttp_call h)
  | case3 self data line pos p h hd => exact .last self p data line pos (parseLineHttp_call h) hd
  | case4 self data line pos p h hd ih => exact .line self p data line pos _ (parseLineHttp_call h) hd ih

/-- Nothing is lost: a chunk's bytes are in its lines and in the buffer. -/
theorem Feeds.conserves {self : LineParser} {data : List UInt8}
    {r : Option (List (List UInt8) × LineParser)} (h : Feeds self data r) (hw : self.WellFlagged)
    {ls : List (List UInt8)} {p : LineParser} (hr : r = some (ls, p)) :
    unlines cr lf ls ++ p.buf = self.buf ++ data ∧ p.WellFlagged := by
  induction h generalizing ls p with
  | panics => cases hr
  | more self p data h =>
    cases hr
    refine ⟨?_, h.wellFlagged hw⟩
    cases h
    rfl
  | last self p data line pos h hd =>
    cases hr
    obtain ⟨hline, hbuf⟩ := h.line_eq hw
    rw [List.take_of_length_le (List.drop_eq_nil_iff.mp hd)] at hline
    exact ⟨by rw [hbuf, unlines_cons, hline, List.append_nil, unlines_nil], h.wellFlagged hw⟩
  | line self p data line pos r h hd hf ih =>
    obtain ⟨⟨ls', p'⟩, rfl, heq⟩ := Option.map_eq_some_iff.mp hr
    cases heq
    obtain ⟨hline, hbuf⟩ := h.line_eq hw
    obtain ⟨hall, hw'⟩ := ih (h.wellFlagged hw) rfl
    refine ⟨?_, hw'⟩
    calc unlines cr lf (line :: ls') ++ p'.buf
        = (line ++ [cr, lf]) ++ (unlines cr lf ls' ++ p'.buf) := by simp [unlines_cons]
      _ = self.buf ++ (data.take pos ++ data.drop pos) := by
        rw [hall, hbuf, ← hline]
        simp
      _ = self.buf ++ data := by rw [List.take_append_drop]

theorem drive_cons_eq_some {self p : LineParser} {c : Segment UInt8} {cs : List (Segment UInt8)}
    {ls : List (List UInt8)} (h : self.drive (c :: cs) = some (ls, p)) :
    ∃ ls1 p1 ls2, self.feed c.val = some (ls1, p1) ∧ p1.drive cs = some (ls2, p) ∧ ls = ls1 ++ ls2 := by
  obtain ⟨⟨ls1, p1⟩, h1, h⟩ := Option.bind_eq_some_iff.mp h
  obtain ⟨⟨ls2, p2⟩, h2, heq⟩ := Option.map_eq_some_iff.mp h
  obtain ⟨rfl, rfl⟩ := Prod.mk.inj heq
  exact ⟨ls1, p1, ls2, h1, h2, rfl⟩

theorem drive_conserves {cs : List (Segment UInt8)} {self : LineParser} (hw : self.WellFlagged)
    {ls : List (List UInt8)} {p : LineParser} (h : self.drive cs = some (ls, p)) :
    unlines cr lf ls ++ p.buf = self.buf ++ joined cs := by
  induction cs generalizing self ls with
  | nil =>
    cases h
    simp
  | cons c cs ih =>
    obtain ⟨ls1, p1, ls2, h1, h2, rfl⟩ := drive_cons_eq_some h
    obtain ⟨hall, hw1⟩ := (feed_feeds self c.val).conserves hw h1
    calc unlines cr lf (ls1 ++ ls2) ++ p.buf
        = unlines cr lf ls1 ++ (unlines cr lf ls2 ++ p.buf) := by rw [unlines_append, List.append_assoc]
      _ = unlines cr lf ls1 ++ p1.buf ++ joined cs := by rw [ih hw1 h2, List.append_assoc]
      _ = self.buf ++ joined (c :: cs) := by rw [hall, joined_cons, List.append_assoc]

/-- A terminator has been read as part of a line. -/
def Tainted (ls : List (List UInt8)) (p : LineParser) : Prop :=
  (∃ l ∈ ls, ¬Free cr lf l) ∨ ¬Free cr lf p.buf

/-- The lines are those of the stream exactly when no terminator has become part of one. -/
theorem drive_lines_iff (cs : List (Segment UInt8)) :
    (new.drive cs).map (·.1) = some (scan cr lf (joined cs)).1 ↔
      ∃ ls p, new.drive cs = some (ls, p) ∧ ¬Tainted ls p := by
  -- a panic gives no lines at all
  rcases hr : new.drive cs with _ | ⟨ls, p⟩
  · simp
  have hall := drive_conserves wellFlagged_new hr
  rw [show new.buf ++ joined cs = joined cs from rfl] at hall
  constructor
  · intro h
    have hls : ls = (scan cr lf (joined cs)).1 := Option.some.inj h
    obtain ⟨hs, hfree, htail⟩ := scan_spec (x := cr) (y := lf) (joined cs)
    have hbuf : p.buf = (scan cr lf (joined cs)).2 := by
      rw [← hls] at hs
      exact List.append_cancel_left (hall.trans hs.symm)
    refine ⟨ls, p, rfl, ?_⟩
    rintro (⟨l, hl, hn⟩ | hn)
    · exact hn (hfree l (hls ▸ hl))
    · exact hn (hbuf ▸ htail)
  · rintro ⟨_, _, heq, hn⟩
    cases heq
    obtain ⟨hls, hbuf⟩ := not_or.mp hn
    simp only [not_exists, not_and, not_not] at hls hbuf
    rw [← hall, scan_eq cr_ne_lf hls hbuf]
    rfl

end LineParser

end Rocks
