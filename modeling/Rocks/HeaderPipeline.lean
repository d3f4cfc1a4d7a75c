import Rocks.HeaderChunking

/-! One header parser for several requests: nothing is ever reset, so the first request is the
answer to all of them. -/
namespace Rocks
open Terminated Segments LineParser

variable {R : Type}

/-- A complete request stays the answer when more bytes follow and more slots are there. -/
def Crates.Stable (c : Crates R) : Prop :=
  ∀ data n k more m, n ≤ m → (c.parse data n).1 = .ok (.complete k) →
    c.parse (data ++ more) m = c.parse data n

namespace HttpHeaderParser

variable (c : Crates R)

/-- The answers to successive calls; `none` is a panic. -/
def answers (self : HttpHeaderParser) : List (List UInt8) → Option (List (Except HttpError (Option (R × ℕ))))
  | [] => some []
  | data :: rest => do
    let (r, self) ← self.parseHttp c data
    let rs ← self.answers rest
    return r :: rs

variable {c} {self : HttpHeaderParser}

/-- The parser behind a block and its empty line. -/
def past (self : HttpHeaderParser) (b : HeaderBlock) : HttpHeaderParser :=
  ⟨self.data ++ b.bytes, self.linesCnt+b.lines.length,
    ⟨[], b.lines.foldl lastReturn self.lineParser.sawReturn⟩⟩

/-- A block where a line begins. -/
theorem parseHttp_past (hb : self.lineParser.buf = []) (b : HeaderBlock)
    (hp : ¬PanicsOn self.lineParser.sawReturn b.lines) :
    self.parseHttp c b.bytes =
      some (c.respond (self.past b).data ((self.past b).linesCnt-1), self.past b) := by
  have hcall := parseLineHttp_whole (rfl : (self.behind b.lines).lineParser.buf = []) free_nil []
  rw [if_neg (by simp)] at hcall
  rw [HeaderBlock.bytes, parseHttp_whole c hb b.line hp]
  rw [← List.nil_append [cr, lf], parseHttp_of_empty c hcall, take_line]
  simp [behind, past, HeaderBlock.bytes, lastReturn]

/-- What has been stored behind some blocks. -/
def bytesOf (bs : List HeaderBlock) : List UInt8 := bs.flatMap HeaderBlock.bytes

def linesOf (bs : List HeaderBlock) : List (List UInt8) := bs.flatMap HeaderBlock.lines

theorem inits_tail_cons {α : Type} (a : α) (l : List α) :
    (a :: l).inits.tail = [a] :: l.inits.tail.map (a :: ·) := by
  cases l <;> simp

/-- Each call is answered from everything since the first one. -/
theorem answers_eq (hb : self.lineParser.buf = []) (bs : List HeaderBlock)
    (hp : ¬PanicsOn self.lineParser.sawReturn (linesOf bs)) :
    self.answers c (bs.map HeaderBlock.bytes) = some (bs.inits.tail.map fun before =>
      c.respond (self.data ++ bytesOf before) (self.linesCnt+(linesOf before).length-1)) := by
  induction bs generalizing self with
  | nil => rfl
  | cons b bs ih =>
    rw [linesOf, List.flatMap_cons, panicsOn_append, not_or] at hp
    have hnext := ih (rfl : (self.past b).lineParser.buf = []) hp.2
    rw [List.map_cons, answers, parseHttp_past hb b hp.1, inits_tail_cons, List.map_cons, List.map_map]
    simp only [Option.bind_eq_bind, Option.bind_some, hnext, Option.pure_def]
    congr 2
    · simp [past, bytesOf, linesOf]
    · apply List.map_congr_left
      intro before _
      simp [past, bytesOf, linesOf, Nat.add_assoc]

/-- However many requests a parser is given after a complete one, it answers each of them with
the first one, unless a line of theirs ends in CR and the next begins with LF. -/
theorem answers_first (hc : c.Stable) (b : HeaderBlock) (bs : List HeaderBlock)
    (hp : ¬PanicsOn false (linesOf (b :: bs))) {k : ℕ}
    (hk : (c.parse b.bytes (b.lines.length-1)).1 = .ok (.complete k)) :
    new.answers c ((b :: bs).map HeaderBlock.bytes) =
      some (List.replicate (bs.length+1) (c.respond b.bytes (b.lines.length-1))) := by
  have hfirst : ∀ more m, b.lines.length-1 ≤ m →
      c.respond (b.bytes ++ more) m = c.respond b.bytes (b.lines.length-1) := by
    intro more m hm
    rw [Crates.respond, hc b.bytes _ k more m hm hk]
    rfl
  rw [answers_eq rfl (b :: bs) hp, inits_tail_cons]
  congr 1
  rw [List.eq_replicate_iff]
  constructor
  · simp
  · intro r hr
    obtain ⟨before, hbefore, rfl⟩ := List.mem_map.mp hr
    obtain ⟨later, rfl⟩ : ∃ later, before = b :: later := by
      rcases List.mem_cons.mp hbefore with rfl | h
      · exact ⟨[], rfl⟩
      · obtain ⟨later, -, rfl⟩ := List.mem_map.mp h
        exact ⟨later, rfl⟩
    have hdata : new.data ++ bytesOf (b :: later) = b.bytes ++ bytesOf later := by
      simp [new, bytesOf]
    rw [hdata]
    apply hfirst
    simp [new, linesOf]
    omega

/-- An `httparse` that knows the block of `GET /`, and hyper's builder on what it finds there. -/
def knowingGet : Crates String where
  parse data _ :=
    if getBlock.bytes <+: data then (.ok (.complete 18), ⟨some "GET", some "/", some 1, []⟩)
    else (.ok .incomplete, ⟨none, none, none, []⟩)
  build _ method path _ := .ok (method ++ " " ++ path)

theorem knowingGet_stable : knowingGet.Stable := by
  intro data n k more m _ h
  by_cases hd : getBlock.bytes <+: data
  · have hmore : getBlock.bytes <+: data ++ more := hd.trans (List.prefix_append data more)
    simp only [knowingGet, hd, hmore, ↓reduceIte]
  · simp only [knowingGet, hd, ↓reduceIte, Except.ok.injEq, reduceCtorEq] at h

/-- The line of `GET /b HTTP/1.1`. -/
def otherBlock : HeaderBlock :=
  ⟨[[71, 69, 84, 32, 47, 98, 32, 72, 84, 84, 80, 47, 49, 46, 49]], by decide, by decide⟩

/-- The request for `/b` is answered with the one for `/`. -/
theorem answers_first_get : new.answers knowingGet [getBlock.bytes, otherBlock.bytes] =
    some [.ok (some ("GET /", 18)), .ok (some ("GET /", 18))] :=
  answers_first knowingGet_stable getBlock [otherBlock] (by simp [PanicsOn, linesOf, getBlock,
    otherBlock, getLine, lastReturn, lf, cr]) rfl

end HttpHeaderParser

end Rocks
