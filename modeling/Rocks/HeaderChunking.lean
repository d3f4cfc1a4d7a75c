import Rocks.HeaderGathered

/-! Which cuts of a header block the header parser does not notice. -/
namespace Rocks
open Terminated Segments LineParser

/-- Behind every chunk that ends within the block, a line has just ended. -/
def HeaderBlock.CutAtLines (b : HeaderBlock) (cs : List (Segment UInt8)) : Prop :=
  ∀ before, before <+: cs → before ≠ [] → (joined before).length < b.bytes.length →
    [cr, lf] <:+ joined before

instance (b : HeaderBlock) (cs : List (Segment UInt8)) : Decidable (b.CutAtLines cs) :=
  decidable_of_iff (∀ before ∈ cs.inits, before ≠ [] → (joined before).length < b.bytes.length →
    [cr, lf] <:+ joined before) (by simp [HeaderBlock.CutAtLines])

/-- The first chunk reaches to the end of the block behind `k` empty lines. -/
def HeaderBlock.InOneChunk (b : HeaderBlock) (k : ℕ) (cs : List (Segment UInt8)) : Prop :=
  ∀ s ∈ cs.head?, (b.led k).length ≤ s.val.length

instance (b : HeaderBlock) (k : ℕ) (cs : List (Segment UInt8)) : Decidable (b.InOneChunk k cs) :=
  inferInstanceAs (Decidable (∀ s ∈ cs.head?, (b.led k).length ≤ s.val.length))

theorem panicsOn_append (saw : Bool) (ls ls' : List (List UInt8)) :
    PanicsOn saw (ls ++ ls') ↔ PanicsOn saw ls ∨ PanicsOn (ls.foldl lastReturn saw) ls' := by
  induction ls generalizing saw with
  | nil => simp [PanicsOn]
  | cons l ls ih =>
    rw [List.cons_append, PanicsOn, PanicsOn, ih, or_assoc]
    rfl

namespace HttpHeaderParser

variable {R : Type}

/-- The chunks are answered as one call with all of them is: `Ok(None)` up to the chunk that
completes the block behind `k` empty lines, and then with the same answer. -/
def Uncut (c : Crates R) (b : HeaderBlock) (k : ℕ) (cs : List (Segment UInt8)) : Prop :=
  ∃ before last after p r, cs = before ++ last :: after ∧ (joined before).length < (b.led k).length ∧
    (b.led k).length ≤ (joined (before ++ [last])).length ∧ new.waits c before = some p ∧
    (p.parseHttp c last.val).map (·.1) = some r ∧ (new.parseHttp c (joined cs)).map (·.1) = some r

/-- Where every chunk within the block ends with a line, the last of them gives the answer. -/
theorem completes (c : Crates R) {cs : List (Segment UInt8)} {self : HttpHeaderParser}
    {ls : List (List UInt8)} {body : List UInt8} (hb : self.lineParser.buf = [])
    (hls : ∀ l ∈ ls, l ≠ [] ∧ Free cr lf l) (hp : ¬PanicsOn self.lineParser.sawReturn ls)
    (h : joined cs = unlines cr lf ls ++ cr :: lf :: body)
    (hcut : ∀ before, before <+: cs → before ≠ [] →
      (joined before).length < (unlines cr lf ls).length+2 → [cr, lf] <:+ joined before) :
    ∃ before last after p, cs = before ++ last :: after ∧
      (joined before).length < (unlines cr lf ls).length+2 ∧
      (unlines cr lf ls).length+2 ≤ (joined (before ++ [last])).length ∧ self.waits c before = some p ∧
      (p.parseHttp c last.val).map (·.1) =
        some (c.respond (self.data ++ unlines cr lf ls ++ [cr, lf]) (self.linesCnt+ls.length-1)) := by
  induction cs generalizing self ls with
  | nil =>
    have := congrArg List.length h
    simp at this
  | cons s ss ih =>
    rw [joined_cons] at h
    -- either this chunk holds the rest of the block, or it ends with one of its lines
    by_cases hlen : (unlines cr lf ls).length+2 ≤ s.val.length
    · have hs : ∃ rest, s.val = unlines cr lf ls ++ cr :: lf :: rest := by
        have hpre : unlines cr lf ls ++ [cr, lf] <+: s.val := by
          have hall : unlines cr lf ls ++ [cr, lf] <+: s.val ++ joined ss := ⟨body, by rw [h]; simp⟩
          exact List.prefix_of_prefix_length_le hall (List.prefix_append _ _) (by simpa using hlen)
        obtain ⟨rest, hrest⟩ := hpre
        exact ⟨rest, by rw [← hrest]; simp⟩
      obtain ⟨rest, hs⟩ := hs
      refine ⟨[], s, ss, self, rfl, by simp, by simpa using hlen, rfl, ?_⟩
      rw [hs, parseHttp_whole c hb hls hp]
      exact parseHttp_empty_line c (rfl : (self.behind ls).lineParser.buf = []) rest
    · have hend : (scan cr lf s.val).2 = [] := by
        have hsuf := hcut [s] ⟨ss, rfl⟩ (by simp) (by simpa using hlen)
        exact (tail_eq_nil_iff cr_ne_lf).mpr (Or.inr (by simpa using hsuf))
      obtain ⟨ls', hls', ht⟩ := lines_before_empty cr_ne_lf (fun l hl => (hls l hl).2) h hend (by omega)
      have hs := unlines_lines hend
      generalize (scan cr lf s.val).1 = ls1 at hls' hs
      subst hls'
      obtain ⟨hls1, hls2⟩ := List.forall_mem_append.mp hls
      obtain ⟨hp1, hp2⟩ := not_or.mp (fun hn => hp ((panicsOn_append _ ls1 ls').mpr hn))
      have hwait : self.wait c s = some (self.behind ls1) := by
        have hw := parseHttp_whole c hb hls1 hp1 []
        rw [List.append_nil, parseHttp_nil, hs] at hw
        exact wait_eq_some.mpr hw
      have hsum : (unlines cr lf (ls1 ++ ls')).length = s.val.length+(unlines cr lf ls').length := by
        rw [unlines_append, List.length_append, hs]
      have hcut' : ∀ before, before <+: ss → before ≠ [] →
          (joined before).length < (unlines cr lf ls').length+2 → [cr, lf] <:+ joined before := by
        intro before hpre hne hlt
        have hsuf := hcut (s :: before) (List.cons_prefix_cons.mpr ⟨rfl, hpre⟩) (by simp) (by
          rw [joined_cons, List.length_append]
          omega)
        have htail := (tail_eq_nil_iff cr_ne_lf).mpr (Or.inr hsuf)
        rw [joined_cons, scan_append cr_ne_lf hend] at htail
        apply ((tail_eq_nil_iff cr_ne_lf).mp htail).resolve_left
        intro hnil
        obtain ⟨s', before, rfl⟩ := List.exists_cons_of_ne_nil hne
        exact s'.property (List.append_eq_nil_iff.mp hnil).1
      obtain ⟨before, last, after, p, rfl, hlt, hle, hwaits, hr⟩ :=
        ih (rfl : (self.behind ls1).lineParser.buf = []) hls2 hp2 ht hcut'
      refine ⟨s :: before, last, after, p, rfl, ?_, ?_, ?_, ?_⟩
      · rw [joined_cons, List.length_append]
        omega
      · rw [List.cons_append, joined_cons, List.length_append]
        omega
      · rw [waits, List.foldlM_cons, hwait]
        exact hwaits
      · rw [hr]
        simp [behind, Nat.add_assoc]

/-- An `httparse` that knows `block` with so many slots from all other data. -/
def telling (R : Type) (block : List UInt8) (slots : ℕ) : Crates R where
  parse data n :=
    (.error (if data = block ∧ n = slots then .token else .newLine), ⟨none, none, none, []⟩)
  build _ _ _ _ := .error ""

theorem telling_respond (block : List UInt8) (slots : ℕ) (data : List UInt8) (n : ℕ) :
    (telling R block slots).respond data n =
      .error (.httparse (if data = block ∧ n = slots then .token else .newLine)) := rfl

theorem telling_ne_none (block : List UInt8) (slots : ℕ) (data : List UInt8) (n : ℕ) :
    (telling R block slots).respond data n ≠ .ok none := by
  rw [telling_respond]
  simp

theorem telling_knows {block : List UInt8} {slots : ℕ} {data : List UInt8} {n : ℕ}
    (h : (telling R block slots).respond data n = .error (.httparse .token)) :
    data = block ∧ n = slots := by
  rw [telling_respond] at h
  split_ifs at h with hsame
  · exact hsame
  · cases h

/-- What was kept when even this `httparse` gives its own answer. -/
theorem kept_of_uncut {block : List UInt8} {slots : ℕ} {before : List (Segment UInt8)}
    {last : Segment UInt8} {p : HttpHeaderParser} (hwaits : new.waits (telling R block slots) before = some p)
    (hr : (p.parseHttp (telling R block slots) last.val).map (·.1) = some (.error (.httparse .token))) :
    ∃ qs qs' p' rest, Gathered before p qs ∧ Keeps p p' last.val qs' rest ∧ qs' ≠ [] ∧
      qs.flatten ++ qs'.flatten = block ∧ qs.length+(qs'.length-1)-1 = slots ∧
      (p.lineParser.buf = [] ∨ qs'.head? = some [lf] ∨ 2 ≤ qs'.length) := by
  obtain ⟨⟨_, p'⟩, hparse, rfl⟩ := Option.map_eq_some_iff.mp hr
  obtain ⟨qs, hg⟩ := gathered_of_waits (telling_ne_none block slots) before hwaits
  obtain ⟨qs', rest, hk, ⟨hno, -⟩ | ⟨hne, hans, hfirst⟩⟩ := parseHttp_keeps hparse
  · cases hno
  obtain ⟨hdata, hcnt⟩ := telling_knows hans.symm
  rw [hk.kept, hg.kept] at hdata
  rw [hg.count] at hcnt
  exact ⟨qs, qs', p', rest, hg, hk, hne, hdata, hcnt, hfirst⟩

/-- The part of a block that is in its last chunk ends in the empty line, or that chunk begins with
the LF of a terminator that was cut. -/
theorem ends_of_block (b : HeaderBlock) {s u : List UInt8} (h : b.bytes = s ++ u) (hu : u ≠ []) :
    (∃ ls, scan cr lf u = (ls ++ [[]], [])) ∨ s.getLast? = some cr ∧ u.head? = some lf := by
  obtain ⟨l, hl⟩ := ends_of_unlines (x := cr) (y := lf) b.nonempty
  have hlast : l ++ [cr, lf, cr, lf] = s ++ u := by
    rw [← h, HeaderBlock.bytes, ← hl, List.append_assoc]
    rfl
  rcases List.append_eq_append_iff.mp hlast with ⟨a, rfl, ha⟩ | ⟨a, -, rfl⟩
  -- the cut may fall into the last two terminators, before each of their four bytes
  · rcases a with _ | ⟨a1, _ | ⟨a2, _ | ⟨a3, _ | ⟨a4, a⟩⟩⟩⟩
    · left
      rw [List.nil_append] at ha
      exact ⟨[[]], by rw [← ha]; rfl⟩
    · right
      obtain ⟨rfl, rfl⟩ := List.cons.inj ha
      simp
    · left
      simp only [List.cons_append, List.nil_append, List.cons.injEq] at ha
      exact ⟨[], by rw [← ha.2.2]; rfl⟩
    · right
      simp only [List.cons_append, List.nil_append, List.cons.injEq] at ha
      obtain ⟨-, -, rfl, rfl⟩ := ha
      simp
    · simp only [List.cons_append, List.cons.injEq] at ha
      exact absurd (List.append_eq_nil_iff.mp ha.2.2.2.2.symm).2 hu
  · left
    have htail : (scan cr lf (a ++ [cr, lf])).2 = [] :=
      (tail_eq_nil_iff cr_ne_lf).mpr (Or.inr (List.suffix_append _ _))
    have hsplit : a ++ [cr, lf, cr, lf] = a ++ [cr, lf] ++ [cr, lf] := by simp
    exact ⟨_, by rw [hsplit, scan_append cr_ne_lf htail]; rfl⟩

/-- When the answer is that to the whole block, all that was kept are its lines. -/
theorem lines_of_kept (b : HeaderBlock) {qs qs' : List (List UInt8)} (hq : ∀ q ∈ qs, Piece q)
    (hq' : ∀ q ∈ qs', Piece q) (hne : qs' ≠ []) (hdata : qs.flatten ++ qs'.flatten = b.bytes)
    (hcnt : qs.length+(qs'.length-1)-1 = b.lines.length-1) :
    ∃ ls ls', qs = ls.map (· ++ [cr, lf]) ∧ qs' = ls'.map (· ++ [cr, lf]) ∧
      ls ++ ls' = b.lines ++ [[]] ∧ ∀ l ∈ ls', Free cr lf l := by
  have hscan : scan cr lf b.bytes = (b.lines ++ [[]], []) := by
    have h := b.scan_bytes []
    rwa [List.append_nil] at h
  obtain ⟨-, hall⟩ := lines_of_pieces (List.forall_mem_append.mpr ⟨hq, hq'⟩)
  rw [List.flatten_append, hdata, hscan, List.length_append, List.length_append] at hall
  have hpos := List.length_pos_of_ne_nil hne
  have hlines := List.length_pos_of_ne_nil b.nonempty
  obtain ⟨ls, hfree, hmap⟩ := hall (by simp only [List.length_singleton]; omega)
  have hls : ls = b.lines ++ [[]] := by
    have h := scan_eq cr_ne_lf hfree (free_nil (x := cr) (y := lf))
    have hflat : unlines cr lf ls = b.bytes := by
      rw [← hdata, ← List.flatten_append, hmap, unlines, List.flatMap_def]
    rw [hflat, List.append_nil, hscan] at h
    exact (congrArg Prod.fst h).symm
  obtain ⟨ls1, ls2, rfl, rfl, rfl⟩ := List.map_eq_append_iff.mp hmap.symm
  exact ⟨ls1, ls2, rfl, rfl, hls, fun l hl => hfree l (List.mem_append_right ls1 hl)⟩

/-- Lines that are kept up to the empty one leave nothing out. -/
theorem kept_all (b : HeaderBlock) {s data rest t body : List UInt8} {ls ls' : List (List UInt8)}
    (hj : s ++ (data ++ t) = b.bytes ++ body) (hlt : s.length < b.bytes.length)
    (hle : b.bytes.length ≤ s.length+data.length) (hkept : unlines cr lf ls ++ unlines cr lf ls' = b.bytes)
    (hshort : (unlines cr lf ls).length ≤ s.length) (hsplit : data = unlines cr lf ls' ++ rest)
    (hls : ls ++ ls' = b.lines ++ [[]]) (hfree : ∀ l ∈ ls', Free cr lf l)
    (hno : ¬(s.getLast? = some cr ∧ data.head? = some lf)) :
    (unlines cr lf ls).length = s.length := by
  have hs : s <+: b.bytes := List.prefix_of_prefix_length_le ⟨data ++ t, hj⟩ ⟨body, rfl⟩ hlt.le
  obtain ⟨u, hu⟩ := hs
  have hlen := congrArg List.length hu
  have hlen' := congrArg List.length hkept
  rw [List.length_append] at hlen hlen'
  have hune : u ≠ [] := by
    rintro rfl
    rw [List.length_nil] at hlen
    omega
  have hud : u <+: data := by
    rw [← hu, List.append_assoc] at hj
    exact List.prefix_of_prefix_length_le ⟨body, (List.append_cancel_left hj).symm⟩ ⟨t, rfl⟩ (by omega)
  rcases ends_of_block b hu.symm hune with ⟨lsu, hscan⟩ | ⟨hcr, hlf⟩
  · have huls : u <+: unlines cr lf ls' :=
      List.prefix_of_prefix_length_le hud ⟨rest, hsplit.symm⟩ (by omega)
    obtain ⟨w, hw⟩ := huls
    have hls' : lsu ++ [[]] ++ (scan cr lf w).1 = ls' ∧ (scan cr lf w).2 = [] := by
      have h1 := scan_append cr_ne_lf (congrArg Prod.snd hscan) w
      have h2 := scan_eq cr_ne_lf hfree (free_nil (x := cr) (y := lf))
      rw [List.append_nil] at h2
      rw [hw, h2, hscan] at h1
      exact ⟨(congrArg Prod.fst h1).symm, (congrArg Prod.snd h1).symm⟩
    -- only the last line of the block is empty, so nothing is read behind it
    have hwnil : (scan cr lf w).1 = [] := by
      rcases List.eq_nil_or_concat (scan cr lf w).1 with hnil | ⟨lw, z, hlw⟩
      · exact hnil
      · rw [← hls'.1, hlw, List.concat_eq_append] at hls
        simp only [← List.append_assoc] at hls
        have hmem : [] ∈ b.lines := by
          rw [← (List.append_inj' hls rfl).1]
          simp
        exact absurd rfl (b.line [] hmem).1
    have hwe := unlines_lines hls'.2
    rw [hwnil, unlines_nil] at hwe
    rw [← hwe, List.append_nil] at hw
    rw [← hw] at hlen'
    omega
  · obtain ⟨v, rfl⟩ := hud
    refine absurd ⟨hcr, ?_⟩ hno
    rw [List.head?_append, hlf]
    rfl

/-- If even this `httparse` gives the same answer, then no line has been cut. -/
theorem cutAtLines_of_uncut (b : HeaderBlock) {body : List UInt8} {cs : List (Segment UInt8)}
    (h : joined cs = b.bytes ++ body) (hu : Uncut (telling R b.bytes (b.lines.length-1)) b 0 cs) :
    b.Parted ∧ b.CutAtLines cs := by
  obtain ⟨before, last, after, p, r, hcs, hlt, hle, hwaits, hr, hwhole⟩ := hu
  rw [HeaderBlock.led_zero] at hlt hle
  have hparted : b.Parted := by
    by_contra hp
    rw [h, parseHttp_block_panics _ b hp] at hwhole
    cases hwhole
  refine ⟨hparted, ?_⟩
  rw [h, parseHttp_block _ b hparted, telling_respond, if_pos ⟨rfl, rfl⟩] at hwhole
  obtain rfl := Option.some.inj hwhole
  obtain ⟨qs, qs', p', rest, hg, hk, hne, hdata, hcnt, -⟩ := kept_of_uncut hwaits hr
  obtain ⟨ls, ls', rfl, rfl, hls, hfree⟩ := lines_of_kept b hg.piece hk.piece hne hdata hcnt
  have hunl : ∀ ls : List (List UInt8), (ls.map (· ++ [cr, lf])).flatten = unlines cr lf ls :=
    fun ls => List.flatMap_def.symm
  have hkept := hg.kept
  have hsplit := hk.split
  rw [hunl] at hkept hsplit
  rw [hunl, hunl] at hdata
  -- the first piece of the last chunk is a line, so that chunk does not resume a terminator
  have hno : ¬((joined before).getLast? = some cr ∧ last.val.head? = some lf) := by
    rintro ⟨hcr, hlf⟩
    cases ls' with
    | nil => exact hne rfl
    | cons l ls' =>
      have hbare := congrArg List.length (hk.resumed (hg.flag hcr) hlf (l ++ [cr, lf]) rfl)
      simp at hbare
  have hlost : (unlines cr lf ls).length = (joined before).length := by
    have hj : joined before ++ (last.val ++ joined after) = b.bytes ++ body := by
      rw [← h, hcs, joined_append, joined_cons]
    refine kept_all b hj hlt ?_ hdata ?_ hsplit hls hfree hno
    · simpa using hle
    · rw [← hkept]
      exact hg.short
  have hwhole := hg.whole (by rw [hkept, hlost]) (fun q hq => by
    obtain ⟨l, -, rfl⟩ := List.mem_map.mp hq
    exact List.suffix_append l [cr, lf])
  -- every chunk that ends within the block is one of those before the last
  intro front hpre hfront hlen
  have hall : before ++ [last] <+: cs := ⟨after, by rw [hcs, List.append_assoc]; rfl⟩
  rcases List.prefix_or_prefix_of_prefix hpre hall with hp | ⟨more, rfl⟩
  · rcases List.prefix_concat_iff.mp hp with rfl | hp
    · omega
    · exact hwhole front hp hfront
  · rw [joined_append, List.length_append] at hlen
    omega

/-- A block without empty lines before it, cut behind lines only. -/
theorem uncut_of_cutAtLines (c : Crates R) (b : HeaderBlock) {body : List UInt8} {cs : List (Segment UInt8)}
    (h : joined cs = b.bytes ++ body) (hp : b.Parted) (hcut : b.CutAtLines cs) : Uncut c b 0 cs := by
  have hbytes : b.bytes.length = (unlines cr lf b.lines).length+2 := by simp [HeaderBlock.bytes]
  have hjoin : joined cs = unlines cr lf b.lines ++ cr :: lf :: body := by
    rw [h, HeaderBlock.bytes, List.append_assoc]
    rfl
  obtain ⟨before, last, after, p, rfl, hlt, hle, hwaits, hr⟩ :=
    completes c (rfl : new.lineParser.buf = []) b.line (b.parted_iff.mp hp) hjoin
      (fun before hpre hne hlt => hcut before hpre hne (hbytes ▸ hlt))
  refine ⟨before, last, after, p, _, rfl, hbytes ▸ hlt, hbytes ▸ hle, hwaits, hr, ?_⟩
  rw [h, parseHttp_block c b hp]
  simp [new, HeaderBlock.bytes]

/-- The first empty line is answered at once, whatever follows it. -/
theorem parseHttp_led (c : Crates R) (b : HeaderBlock) (k : ℕ) (body : List UInt8) :
    (new.parseHttp c (b.led (k+1) ++ body)).map (·.1) = some (c.respond [cr, lf] 0) := by
  rw [b.led_succ]
  exact parseHttp_empty_line c rfl _

theorem uncut_of_inOneChunk (c : Crates R) (b : HeaderBlock) (k : ℕ) {body : List UInt8}
    {cs : List (Segment UInt8)} (h : joined cs = b.led (k+1) ++ body) (hone : b.InOneChunk (k+1) cs) :
    Uncut c b (k+1) cs := by
  cases cs with
  | nil =>
    rw [b.led_succ] at h
    cases h
  | cons s ss =>
    have hle : (b.led (k+1)).length ≤ s.val.length := hone s rfl
    obtain ⟨more, hs⟩ : b.led (k+1) <+: s.val :=
      List.prefix_of_prefix_length_le ⟨body, h.symm⟩ ⟨joined ss, (joined_cons s ss).symm⟩ hle
    refine ⟨[], s, ss, new, c.respond [cr, lf] 0, rfl, ?_, by simpa using hle, rfl, ?_, ?_⟩
    · rw [b.led_succ]
      exact Nat.succ_pos _
    · rw [← hs]
      exact parseHttp_led c b k more
    · rw [h]
      exact parseHttp_led c b k body

/-- Behind a chunk that ends in the first empty lines or in the block, even this `httparse` is not
given what it is given in one call. -/
theorem inOneChunk_of_uncut (b : HeaderBlock) {k : ℕ} {body : List UInt8} {cs : List (Segment UInt8)}
    (h : joined cs = b.led (k+1) ++ body) (hu : Uncut (telling R [cr, lf] 0) b (k+1) cs) :
    b.InOneChunk (k+1) cs := by
  obtain ⟨before, last, after, p, r, rfl, hlt, hle, hwaits, hr, hwhole⟩ := hu
  rw [h, parseHttp_led, telling_respond, if_pos ⟨rfl, rfl⟩] at hwhole
  obtain rfl := Option.some.inj hwhole
  obtain ⟨qs, qs', p', rest, hg, hk, hne, hdata, -, hfirst⟩ := kept_of_uncut hwaits hr
  -- all that was kept is the empty line, so none of it was kept of the chunks before
  rw [← List.flatten_append] at hdata
  have hqs := pieces_of_empty_line (List.forall_mem_append.mpr ⟨hg.piece, hk.piece⟩) hdata
  obtain ⟨rfl, rfl⟩ : qs = [] ∧ qs' = [[cr, lf]] := by
    cases qs with
    | nil => exact ⟨rfl, hqs⟩
    | cons q qs => exact absurd (List.append_eq_nil_iff.mp (List.cons.inj hqs).2).2 hne
  have hbuf : joined before = [] := by
    rw [← hg.begun rfl]
    rcases hfirst with hbuf | hlf | htwo
    · exact hbuf
    · exact absurd (List.cons.inj (Option.some.inj hlf)).1 cr_ne_lf
    · exact absurd htwo (by decide)
  cases before with
  | nil =>
    intro s hs
    obtain rfl := Option.some.inj hs
    simpa using hle
  | cons s before =>
    rw [joined_cons] at hbuf
    exact absurd (List.append_eq_nil_iff.mp hbuf).1 s.property

/-- `GET / HTTP/1.1` -/
def getLine : List UInt8 := [71, 69, 84, 32, 47, 32, 72, 84, 84, 80, 47, 49, 46, 49]

def getBlock : HeaderBlock := ⟨[getLine], by decide, by decide⟩

/-- An `httparse` for requests without headers, and a builder that keeps the method. -/
def methodOnly : Crates String where
  parse data _ := (.ok (.complete data.length),
    ⟨some (String.ofList ((data.takeWhile (· ≠ 32)).map (fun b => Char.ofNat b.toNat))), some "/",
      some 1, []⟩)
  build _ method _ _ := .ok method

end HttpHeaderParser

end Rocks
