import Rocks.HttpParse

/-! Header blocks, and the header parser on whole lines. -/
namespace Rocks
open Terminated Segments LineParser

/-- The lines of a request, of which the first is the request line. -/
structure HeaderBlock where
  lines : List (List UInt8)
  nonempty : lines ≠ []
  line : ∀ l ∈ lines, l ≠ [] ∧ Free cr lf l

namespace HeaderBlock

/-- The lines and the empty line behind them. -/
def bytes (b : HeaderBlock) : List UInt8 := unlines cr lf b.lines ++ [cr, lf]

/-- The block behind `k` empty lines. -/
def led (b : HeaderBlock) (k : ℕ) : List UInt8 := unlines cr lf (List.replicate k []) ++ b.bytes

theorem led_zero (b : HeaderBlock) : b.led 0 = b.bytes := rfl

theorem led_succ (b : HeaderBlock) (k : ℕ) : b.led (k+1) = cr :: lf :: b.led k := by
  rw [led, List.replicate_succ, unlines_cons]
  rfl

/-- No line that ends in a CR is followed by one that begins with an LF. -/
def Parted (b : HeaderBlock) : Prop :=
  b.lines.IsChain (fun l l' => ¬(l.getLast? = some cr ∧ l'.head? = some lf))

instance (b : HeaderBlock) : Decidable b.Parted := inferInstanceAs (Decidable (List.IsChain _ _))

theorem scan_bytes (b : HeaderBlock) (body : List UInt8) : scan cr lf (b.bytes ++ body) =
    (b.lines ++ [] :: (scan cr lf body).1, (scan cr lf body).2) := by
  rw [bytes, List.append_assoc, scan_unlines cr_ne_lf (fun l hl => (b.line l hl).2)]
  rfl

end HeaderBlock

/-- A line begins with an LF while the flag is set. -/
def PanicsOn : Bool → List (List UInt8) → Prop
  | _, [] => False
  | saw, l :: ls => (saw = true ∧ l.head? = some lf) ∨ PanicsOn (lastReturn saw l) ls

theorem panicsOn_cons_iff {l : List UInt8} {ls : List (List UInt8)} (h : ∀ l' ∈ l :: ls, l' ≠ [])
    (saw : Bool) : ¬PanicsOn saw (l :: ls) ↔ ¬(saw = true ∧ l.head? = some lf) ∧
      (l :: ls).IsChain (fun l l' => ¬(l.getLast? = some cr ∧ l'.head? = some lf)) := by
  induction ls generalizing l saw with
  | nil => simp [PanicsOn]
  | cons l' ls ih =>
    obtain ⟨hl, hls⟩ := List.forall_mem_cons.mp h
    rw [PanicsOn, not_or, ih hls, lastReturn_eq_true hl, List.isChain_cons_cons]

theorem HeaderBlock.parted_iff (b : HeaderBlock) : b.Parted ↔ ¬PanicsOn false b.lines := by
  obtain ⟨l, ls, hls⟩ := List.exists_cons_of_ne_nil b.nonempty
  have h := fun l' hl => (b.line l' hl).1
  rw [hls] at h
  rw [Parted, hls, panicsOn_cons_iff h]
  simp

namespace HttpHeaderParser

variable {R : Type} (c : Crates R) {self : HttpHeaderParser} {ls : List (List UInt8)}

/-- The parser behind whole lines. -/
def behind (self : HttpHeaderParser) (ls : List (List UInt8)) : HttpHeaderParser :=
  ⟨self.data ++ unlines cr lf ls, self.linesCnt+ls.length,
    ⟨[], ls.foldl lastReturn self.lineParser.sawReturn⟩⟩

theorem behind_nil (hb : self.lineParser.buf = []) : self.behind [] = self := by
  obtain ⟨data, n, buf, saw⟩ := self
  obtain rfl : buf = [] := hb
  simp [behind]

/-- Where a line begins, a line with its terminator is read in one call. -/
theorem parseLineHttp_whole {lp : LineParser} (hb : lp.buf = []) {l : List UInt8}
    (hf : Free cr lf l) (rest : List UInt8) :
    lp.parseLineHttp (l ++ cr :: lf :: rest) =
      if lp.sawReturn = true ∧ l.head? = some lf then none
      else some (some (l, l.length+2), ⟨[], lastReturn lp.sawReturn l⟩) := by
  -- with its terminator every line is long enough for `data.len()>1`
  have hres : lp.Resumes (l ++ cr :: lf :: rest) ↔ lp.sawReturn = true ∧ l.head? = some lf := by
    rw [resumes_iff]
    cases l with
    | nil => simp [cr_ne_lf]
    | cons b l =>
      have hlen : (b :: (l ++ cr :: lf :: rest)).length > 1 := by
        rw [List.length_cons, List.length_append, List.length_cons]
        omega
      simp only [List.cons_append, List.head?_cons, hlen, true_and]
  split_ifs with h
  · have h' := (resumes_iff lp _).mp (hres.mpr h)
    rw [parseLineHttp, if_pos h', if_pos hb]
  · rw [parseLineHttp_line hf rest (fun hr => h (hres.mp hr)), hb, List.nil_append]

theorem parseHttp_whole (hb : self.lineParser.buf = []) (h : ∀ l ∈ ls, l ≠ [] ∧ Free cr lf l)
    (hp : ¬PanicsOn self.lineParser.sawReturn ls) (rest : List UInt8) :
    self.parseHttp c (unlines cr lf ls ++ rest) = (self.behind ls).parseHttp c rest := by
  induction ls generalizing self with
  | nil => rw [behind_nil hb, unlines_nil, List.nil_append]
  | cons l ls ih =>
    obtain ⟨⟨hne, hf⟩, hls⟩ := List.forall_mem_cons.mp h
    obtain ⟨hnow, hlater⟩ := not_or.mp hp
    have hcall := parseLineHttp_whole hb hf (unlines cr lf ls ++ rest)
    rw [if_neg hnow] at hcall
    calc self.parseHttp c (unlines cr lf (l :: ls) ++ rest)
        = self.parseHttp c (l ++ cr :: lf :: (unlines cr lf ls ++ rest)) := by
          rw [unlines_cons, List.append_assoc, List.cons_append, List.cons_append]
      _ = parseHttp c ⟨self.data ++ (l ++ [cr, lf]), self.linesCnt+1,
            ⟨[], lastReturn self.lineParser.sawReturn l⟩⟩ (unlines cr lf ls ++ rest) := by
          rw [parseHttp_of_line c hcall hne, take_line, drop_line]
      _ = (self.behind (l :: ls)).parseHttp c rest := by
          rw [ih rfl hls hlater]
          simp [behind, unlines_cons, Nat.add_assoc, Nat.add_comm 1]

theorem parseHttp_panics (hb : self.lineParser.buf = []) (h : ∀ l ∈ ls, l ≠ [] ∧ Free cr lf l)
    (hp : PanicsOn self.lineParser.sawReturn ls) (rest : List UInt8) :
    self.parseHttp c (unlines cr lf ls ++ rest) = none := by
  induction ls generalizing self with
  | nil => exact absurd hp id
  | cons l ls ih =>
    obtain ⟨⟨hne, hf⟩, hls⟩ := List.forall_mem_cons.mp h
    rw [unlines_cons, List.append_assoc, List.cons_append, List.cons_append]
    have hcall := parseLineHttp_whole hb hf (unlines cr lf ls ++ rest)
    by_cases hnow : self.lineParser.sawReturn = true ∧ l.head? = some lf
    · rw [if_pos hnow] at hcall
      exact parseHttp_of_panic c hcall
    · rw [if_neg hnow] at hcall
      rw [parseHttp_of_line c hcall hne, drop_line]
      exact ih rfl hls (hp.resolve_left hnow)

theorem parseHttp_empty_line (hb : self.lineParser.buf = []) (rest : List UInt8) :
    (self.parseHttp c (cr :: lf :: rest)).map (·.1) =
      some (c.respond (self.data ++ [cr, lf]) (self.linesCnt-1)) := by
  have hcall := parseLineHttp_whole hb free_nil rest
  rw [if_neg (by simp)] at hcall
  rw [← List.nil_append (cr :: lf :: rest), parseHttp_of_empty c hcall, take_line]
  rfl

/-- A header block in one call. -/
theorem parseHttp_block (b : HeaderBlock) (hp : b.Parted) (body : List UInt8) :
    (new.parseHttp c (b.bytes ++ body)).map (·.1) = some (c.respond b.bytes (b.lines.length-1)) := by
  have hempty := parseHttp_empty_line c (rfl : (new.behind b.lines).lineParser.buf = []) body
  rw [HeaderBlock.bytes, List.append_assoc, parseHttp_whole c rfl b.line (b.parted_iff.mp hp)]
  simpa [behind, new] using hempty

theorem parseHttp_block_panics (b : HeaderBlock) (hp : ¬b.Parted) (body : List UInt8) :
    new.parseHttp c (b.bytes ++ body) = none := by
  rw [b.parted_iff, not_not] at hp
  rw [HeaderBlock.bytes, List.append_assoc, parseHttp_panics c rfl b.line hp]

end HttpHeaderParser

end Rocks
