import Rocks.LineParser
import Rocks.Segments

/-! The incremental parser of HTTP headers. What `httparse` and hyper's request builder answer is
left open. -/
namespace Rocks
open Segments

/-- `httparse::Error` -/
inductive HttparseError
  | headerName
  | headerValue
  | newLine
  | status
  | token
  | tooManyHeaders
  | version
deriving DecidableEq, Repr

/-- `httparse::Status`; `incomplete` is its `Partial`. -/
inductive Status
  | complete (n : ℕ)
  | incomplete
deriving DecidableEq, Repr

/-- `httparse::Request` after a parse. -/
structure HttparseRequest where
  method : Option String
  path : Option String
  version : Option UInt8
  headers : List (String × List UInt8)

inductive Version
  | http09
  | http10
  | http11
deriving DecidableEq, Repr

/-- `failure::Error` -/
inductive HttpError
  | httparse (e : HttparseError)
  | message (text : String)
  | builder (text : String)
deriving DecidableEq, Repr

/-- `Request::parse` with a number of header slots, and the builder of hyper's requests, whose
type is `R`. -/
structure Crates (R : Type) where
  parse : List UInt8 → ℕ → Except HttparseError Status × HttparseRequest
  build : Version → String → String → List (String × List UInt8) → Except String R

variable {R : Type}

/-- The answer once an empty line has been seen. -/
def Crates.respond (c : Crates R) (data : List UInt8) (headersCnt : ℕ) :
    Except HttpError (Option (R × ℕ)) :=
  let (status, req) := c.parse data headersCnt
  match status with
  | .ok (.complete n) => do
    let version ← match req.version with
      | none => .ok .http09
      | some 0 => .ok .http10
      | some 1 => .ok .http11
      | _ => .error (.message "Unsupported version")
    -- the arguments of the builder in their order: the first that fails is the answer
    let method ← req.method.elim (.error (.message "method is empty")) .ok
    let path ← req.path.elim (.error (.message "path is empty")) .ok
    let r ← (c.build version method path req.headers).mapError .builder
    return some (r, n)
  | .ok .incomplete => .ok none
  | .error e => .error (.httparse e)

structure HttpHeaderParser where
  data : List UInt8
  linesCnt : ℕ
  lineParser : LineParser
deriving DecidableEq, Repr

namespace HttpHeaderParser

def new : HttpHeaderParser := ⟨[], 0, .new⟩

def headersCnt (self : HttpHeaderParser) : ℕ := if self.linesCnt > 0 then self.linesCnt-1 else 0

theorem headersCnt_eq (self : HttpHeaderParser) : self.headersCnt = self.linesCnt-1 := by
  rw [headersCnt]
  split_ifs <;> omega

/-- `data` is what the source writes `data[start..]`; `none` is a panic of the line parser. -/
def parseHttp (c : Crates R) (self : HttpHeaderParser) (data : List UInt8) :
    Option (Except HttpError (Option (R × ℕ)) × HttpHeaderParser) :=
  match _h : self.lineParser.parseLineHttp data with
  | none => none
  | some (none, lp) => some (.ok none, { self with lineParser := lp })
  | some (some (l, p), lp) =>
    -- only bytes up to a line's end are kept: a rest without one goes to the line parser alone
    let self : HttpHeaderParser := { self with data := self.data ++ data.take p, lineParser := lp }
    if l.length ≠ 0 then
      parseHttp c { self with linesCnt := self.linesCnt+1 } (data.drop p)
    else
      -- nothing is reset, whatever the answer
      some (c.respond self.data self.headersCnt, self)
termination_by data.length
decreasing_by
  have := (LineParser.parseLineHttp_call _h).pos_bounds
  rw [List.length_drop]
  omega

/-- A chunk that is answered `Ok(None)`. -/
def wait (c : Crates R) (self : HttpHeaderParser) (s : Segment UInt8) : Option HttpHeaderParser :=
  match self.parseHttp c s.val with
  | some (.ok none, p) => some p
  | _ => none

/-- Chunks that are all answered `Ok(None)`, and the parser behind them. -/
def waits (c : Crates R) (self : HttpHeaderParser) (cs : List (Segment UInt8)) :
    Option HttpHeaderParser := cs.foldlM (wait c) self

theorem wait_eq_some {c : Crates R} {self p : HttpHeaderParser} {s : Segment UInt8} :
    self.wait c s = some p ↔ self.parseHttp c s.val = some (.ok none, p) := by
  rw [wait]
  split <;> simp_all

section step

variable (c : Crates R) {self : HttpHeaderParser} {data l : List UInt8} {p : ℕ} {lp : LineParser}

theorem parseHttp_of_panic (h : self.lineParser.parseLineHttp data = none) :
    self.parseHttp c data = none := by
  unfold parseHttp
  split <;> simp_all

theorem parseHttp_of_more (h : self.lineParser.parseLineHttp data = some (none, lp)) :
    self.parseHttp c data = some (.ok none, { self with lineParser := lp }) := by
  unfold parseHttp
  split <;> simp_all

theorem parseHttp_of_line (h : self.lineParser.parseLineHttp data = some (some (l, p), lp)) (hl : l ≠ []) :
    self.parseHttp c data =
      parseHttp c ⟨self.data ++ data.take p, self.linesCnt+1, lp⟩ (data.drop p) := by
  conv_lhs => unfold parseHttp
  split <;> simp_all

theorem parseHttp_of_empty (h : self.lineParser.parseLineHttp data = some (some ([], p), lp)) :
    self.parseHttp c data =
      some (c.respond (self.data ++ data.take p) (self.linesCnt-1),
        ⟨self.data ++ data.take p, self.linesCnt, lp⟩) := by
  unfold parseHttp
  split <;> simp_all [headersCnt_eq]

theorem parseHttp_nil : self.parseHttp c [] = some (.ok none, self) :=
  parseHttp_of_more c (LineParser.parseLineHttp_nil self.lineParser)

end step

end HttpHeaderParser

end Rocks
