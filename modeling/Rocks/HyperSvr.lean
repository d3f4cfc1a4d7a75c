import Rocks.Bytes
import Rocks.Numerals
import Rocks.Polling

/-! The HTTP front of the rocks listener: futures that do their work on one thread only, and the
requests that are served by them. -/
namespace Rocks.HyperSvr
open Bytes Polling

section wrapFuture

variable {ι F T E : Type} [DecidableEq ι] [Future F (Except E T)]

/-- The future of `wrap_future`, and how often it has called its waker. -/
structure WrapFuture (ι F : Type) where
  fut : F
  tid : ι
  wakes : ℕ

def wrapFuture (f : F) (tid : ι) : WrapFuture ι F := ⟨f, tid, 0⟩

namespace WrapFuture

/-- A poll on the thread `current`. -/
def poll (current : ι) (this : WrapFuture ι F) : Option (Except E (Poll T) × WrapFuture ι F) :=
  if current = this.tid then do
    let (r, fut) ← Future.poll this.fut
    match r with
    | .ready (.ok t) => return (.ok (.ready t), { this with fut })
    | .ready (.error e) => return (.error e, { this with fut })
    | .pending => return (.ok .pending, { this with fut })
  else
    return (.ok .pending, { this with wakes := this.wakes+1 })

/-- One poll on each of the threads, in this order. -/
def polls : List ι → WrapFuture ι F → Option (List (Except E (Poll T)) × WrapFuture ι F)
  | [], this => some ([], this)
  | t :: ts, this => do
    let (r, this) ← this.poll t
    let (rs, this) ← this.polls ts
    return (r :: rs, this)

end WrapFuture

/-- An answer of a future, as a `Result` of an `Async`. -/
def answer : Poll (Except E T) → Except E (Poll T)
  | .ready (.ok t) => .ok (.ready t)
  | .ready (.error e) => .error e
  | .pending => .ok .pending

/-- The answers of a future to the polls on its thread, among those on other threads. -/
def weave (tid : ι) : List ι → List (Poll (Except E T)) → List (Except E (Poll T))
  | [], _ => []
  | t :: ts, as =>
    if t = tid then
      answer (as.headD .pending) :: weave tid ts as.tail
    else
      .ok .pending :: weave tid ts as

theorem poll_own {current : ι} {this this' : WrapFuture ι F} {r : Except E (Poll T)}
    (h : current = this.tid) : this.poll current = some (r, this') ↔
      ∃ a, Future.poll this.fut = some (a, this'.fut) ∧ r = answer a ∧ this'.tid = this.tid ∧
        this'.wakes = this.wakes := by
  have hpoll : this.poll current = (Future.poll this.fut).map fun p =>
      (answer p.1, { this with fut := p.2 }) := by
    rw [WrapFuture.poll, if_pos h]
    rcases Future.poll this.fut with _ | ⟨_ | _ | _, fut⟩ <;> rfl
  rw [hpoll, Option.map_eq_some_iff]
  constructor
  · rintro ⟨⟨a, fut⟩, hf, heq⟩
    obtain ⟨rfl, rfl⟩ := Prod.mk.inj heq
    exact ⟨a, hf, rfl, rfl, rfl⟩
  · rintro ⟨a, hf, rfl, htid, hwakes⟩
    refine ⟨(a, this'.fut), hf, ?_⟩
    rw [← htid, ← hwakes]

theorem poll_foreign {current : ι} {this this' : WrapFuture ι F} {r : Except E (Poll T)}
    (h : current ≠ this.tid) : this.poll current = some (r, this') ↔
      r = .ok .pending ∧ this' = { this with wakes := this.wakes+1 } := by
  rw [WrapFuture.poll, if_neg h]
  simp [eq_comm]

theorem polls_cons_iff {t : ι} {ts : List ι} {this this' : WrapFuture ι F}
    {rs : List (Except E (Poll T))} : this.polls (t :: ts) = some (rs, this') ↔
      ∃ r that rs', this.poll t = some (r, that) ∧ that.polls ts = some (rs', this') ∧ rs = r :: rs' := by
  simp only [WrapFuture.polls, Option.bind_eq_bind, Option.pure_def, Option.bind_eq_some_iff,
    Option.some.injEq, Prod.mk.injEq, Prod.exists]
  constructor
  · rintro ⟨r, that, h, rs', _, hs, rfl, rfl⟩
    exact ⟨r, that, rs', h, hs, rfl⟩
  · rintro ⟨r, that, rs', h, hs, rfl⟩
    exact ⟨r, that, h, rs', this', hs, rfl, rfl⟩

/-- What the polls on any threads come to: the wrapped future is polled once for each poll on its
own thread and gives these polls their answers, and each of the others gets `NotReady` and wakes. -/
theorem polls_iff (ts : List ι) (this this' : WrapFuture ι F) (rs : List (Except E (Poll T))) :
    this.polls ts = some (rs, this') ↔
      ∃ as, Polling.polls (ts.count this.tid) this.fut = some (as, this'.fut) ∧
        rs = weave this.tid ts as ∧ this'.tid = this.tid ∧
        this'.wakes = this.wakes+ts.countP (· ≠ this.tid) := by
  induction ts generalizing this rs with
  | nil =>
    simp only [WrapFuture.polls, List.count_nil, Polling.polls, weave, List.countP_nil, Nat.add_zero,
      Option.some.injEq, Prod.mk.injEq]
    constructor
    · rintro ⟨rfl, rfl⟩
      exact ⟨[], ⟨rfl, rfl⟩, rfl, rfl, rfl⟩
    · rintro ⟨_, ⟨rfl, hf⟩, rfl, htid, hwakes⟩
      refine ⟨rfl, ?_⟩
      cases this
      cases this'
      simp_all
  | cons t ts ih =>
    rw [polls_cons_iff]
    by_cases h : t = this.tid
    · -- the first of the inner answers goes to this poll
      rw [h, List.count_cons_self, List.countP_cons_of_neg (by simp)]
      constructor
      · rintro ⟨r, that, rs', hpoll, hs, rfl⟩
        obtain ⟨a, hf, rfl, htid, hwakes⟩ := (poll_own rfl).mp hpoll
        obtain ⟨as, has, rfl, htid', hwakes'⟩ := (ih that rs').mp hs
        rw [htid] at has htid' hwakes' ⊢
        refine ⟨a :: as, polls_cons hf has, ?_, htid', by rw [hwakes', hwakes]⟩
        simp [weave]
      · rintro ⟨as, has, rfl, htid, hwakes⟩
        obtain ⟨a, fut, as', hf, has', rfl⟩ := polls_succ_iff.mp has
        refine ⟨answer a, { this with fut }, weave this.tid ts as',
          (poll_own rfl).mpr ⟨a, hf, rfl, rfl, rfl⟩, ?_, by simp [weave]⟩
        exact (ih { this with fut } _).mpr ⟨as', has', rfl, htid, hwakes⟩
    · -- this poll leaves the wrapped future as it is
      rw [List.count_cons_of_ne h, List.countP_cons_of_pos (by simpa using h)]
      constructor
      · rintro ⟨r, that, rs', hpoll, hs, rfl⟩
        obtain ⟨rfl, rfl⟩ := (poll_foreign h).mp hpoll
        obtain ⟨as, has, rfl, htid', hwakes'⟩ := (ih _ rs').mp hs
        have hw : this'.wakes = this.wakes+1+ts.countP (· ≠ this.tid) := hwakes'
        exact ⟨as, has, by simp [weave, h], htid', by omega⟩
      · rintro ⟨as, has, rfl, htid, hwakes⟩
        refine ⟨.ok .pending, _, weave this.tid ts as, (poll_foreign h).mpr ⟨rfl, rfl⟩, ?_,
          by simp [weave, h]⟩
        have hw : this'.wakes = this.wakes+1+ts.countP (· ≠ this.tid) := by omega
        exact (ih { this with wakes := this.wakes+1 } _).mpr ⟨as, has, rfl, htid, hw⟩

theorem weave_pending (tid : ι) (ts : List ι) :
    weave tid ts (List.replicate (ts.count tid) (.pending : Poll (Except E T))) =
      List.replicate ts.length (.ok .pending) := by
  induction ts with
  | nil => rfl
  | cons t ts ih =>
    by_cases h : t = tid
    · rw [h, List.count_cons_self]
      simp [weave, List.replicate_succ, ih, answer]
    · rw [List.count_cons_of_ne h]
      simp [weave, h, List.replicate_succ, ih]

theorem weave_last (tid : ι) (ts : List ι) (a : Poll (Except E T)) :
    weave tid (ts ++ [tid]) (List.replicate (ts.count tid) .pending ++ [a]) =
      List.replicate ts.length (.ok .pending) ++ [answer a] := by
  induction ts with
  | nil => simp [weave]
  | cons t ts ih =>
    by_cases h : t = tid
    · rw [h, List.count_cons_self]
      simp [weave, List.replicate_succ, ih, answer]
    · rw [List.count_cons_of_ne h]
      simp [weave, h, List.replicate_succ, ih]

end wrapFuture

structure Response where
  status : ℕ
  headers : List (String × String)
  body : String
deriving DecidableEq

/-- `failure::Error`, by where it comes from. -/
inductive Error
  | toStr
  | parseInt
  | message (text : String)
deriving DecidableEq

variable {H : Type}

/-- What the polls of a body give: a chunk or an error, the end, or nothing yet. -/
structure Body (H : Type) where
  contentLength : Option UInt64
  events : List (Poll (Option (Except H (List UInt8))))

/-- `http::HeaderValue`: its bytes, and what its `to_str` makes of them. -/
structure HeaderValue where
  bytes : List UInt8
  text : Option (List Char)

/-- A request: which strings its URI equals, and the first value of each header. -/
structure Request (H : Type) where
  uriIs : String → Bool
  headers : String → Option HeaderValue
  body : Body H

/-- `to_str()` of a header, for `?`. -/
def HeaderValue.toStr (value : HeaderValue) : Except Error (List Char) :=
  match value.text with
  | some text => .ok text
  | none => .error .toStr

/-- `parse::<u64>` -/
def parseU64 (s : List Char) : Except Error UInt64 :=
  match Numerals.parse 18446744073709551615 s with
  | some n => .ok n.toUInt64
  | none => .error .parseInt

def notFound : Response := ⟨404, [("Connection", "close")], ""⟩

def handleStaticFiles : Response := ⟨200, [("Context-Type", "text/html")], "Hello"⟩

/-- `handle_rocks` up to its loop, and the body that the loop is to read, if it is reached. -/
def handleRocks (req : Request H) : Except Error (Option (Body H)) :=
  match req.headers "content-type", req.headers "content-length" with
  | some contentType, some contentLength =>
    if contentType.bytes = asBytes "application/x-www-form-urlencoded" then do
      let len ← parseU64 (← contentLength.toStr)
      match req.body.contentLength with
      | some l =>
        if len ≠ l then
          throw (.message "length not match")
        else
          return some req.body
      | none => return none
    else
      return none
  | _, _ => return none

/-- The loop of `handle_rocks` in one poll: whether it has ended, and what is left of the body. -/
def readAll : List (Poll (Option (Except H (List UInt8)))) →
    Bool × List (Poll (Option (Except H (List UInt8))))
  | [] => (false, [])
  | .pending :: events => (false, events)
  | .ready none :: events => (true, events)
  | .ready (some _) :: events => readAll events

/-- The future of `serve_rocks_async`. -/
inductive ServeRocks (H : Type)
  | start (req : Request H)
  | reading (events : List (Poll (Option (Except H (List UInt8)))))
  | finished

namespace ServeRocks

def read (events : List (Poll (Option (Except H (List UInt8))))) :
    Poll (Except Error Response) × ServeRocks H :=
  match readAll events with
  | (true, _) => (.ready (.ok notFound), finished)
  | (false, events) => (.pending, reading events)

def poll : ServeRocks H → Option (Poll (Except Error Response) × ServeRocks H)
  | start req =>
    if req.uriIs "/rocks" then
      match handleRocks req with
      | .ok (some body) => some (read body.events)
      | .ok none => some (.ready (.ok notFound), finished)
      | .error e => some (.ready (.error e), finished)
    else
      some (.ready (.ok handleStaticFiles), finished)
  | reading events => some (read events)
  | finished => none -- an async function that has returned

instance : Future (ServeRocks H) (Except Error Response) := ⟨poll⟩

end ServeRocks

/-- What a request is answered in the end, whatever its body holds. -/
def Request.verdict (req : Request H) : Except Error Response :=
  if req.uriIs "/rocks" then
    (handleRocks req).map fun _ => notFound
  else
    .ok handleStaticFiles

/-- How often a body is not there yet, before it ends. -/
def waits : List (Poll (Option (Except H (List UInt8)))) → Option ℕ
  | [] => none
  | .pending :: events => (waits events).map (·+1)
  | .ready none :: _ => some 0
  | .ready (some _) :: events => waits events

/-- How often a request is polled in vain, if it is ever answered. -/
def Request.waits (req : Request H) : Option ℕ :=
  if req.uriIs "/rocks" then
    match handleRocks req with
    | .ok (some body) => HyperSvr.waits body.events
    | _ => some 0
  else
    some 0

namespace ServeRocks

variable {events : List (Poll (Option (Except H (List UInt8))))} {d k m : ℕ} {req : Request H}

theorem read_ready (h : waits events = some 0) : read events = (.ready (.ok notFound), finished) := by
  induction events with
  | nil => cases h
  | cons e events ih =>
    cases e with
    | pending =>
      obtain ⟨n, -, hn⟩ := Option.map_eq_some_iff.mp h
      cases hn
    | ready r =>
      cases r with
      | none => rfl
      | some chunk => exact ih h

/-- Chunks and errors are read past, up to where the body is not there yet. -/
theorem read_pending (h : waits events ≠ some 0) : ∃ events', read events = (.pending, reading events') ∧
    waits events = (waits events').map (·+1) := by
  induction events with
  | nil => exact ⟨[], rfl, rfl⟩
  | cons e events ih =>
    cases e with
    | pending => exact ⟨events, rfl, rfl⟩
    | ready r =>
      cases r with
      | none => exact absurd rfl h
      | some chunk => exact ih h

theorem poll_reading (events : List (Poll (Option (Except H (List UInt8))))) :
    Future.poll (reading events) = some (read events) := rfl

/-- The first poll of a request decides on its answer, or goes on like one of its loop. -/
theorem poll_start (req : Request H) :
    (req.waits = some 0 ∧ Future.poll (start req) = some (.ready req.verdict, finished)) ∨
      ∃ events, req.waits = HyperSvr.waits events ∧ req.verdict = .ok notFound ∧
        Future.poll (start req) = Future.poll (reading events) := by
  change (_ ∧ poll _ = _) ∨ ∃ events, _ ∧ _ ∧ poll _ = poll _
  by_cases hu : req.uriIs "/rocks"
  · cases hr : handleRocks req with
    | error e => simp [Request.waits, Request.verdict, poll, hu, hr, Except.map]
    | ok body =>
      cases body with
      | none => simp [Request.waits, Request.verdict, poll, hu, hr, Except.map]
      | some body =>
        right
        exact ⟨body.events, by simp [Request.waits, hu, hr],
          by simp [Request.verdict, hu, hr, Except.map], by simp [poll, hu, hr]⟩
  · simp [Request.waits, Request.verdict, poll, hu]

theorem reading_yields (h : waits events = some d) : Yields (reading events) d (.ok notFound) := by
  induction d generalizing events with
  | zero =>
    apply Yields.ready _ finished
    rw [poll_reading, read_ready h]
  | succ d ih =>
    obtain ⟨events', hread, hwaits⟩ := read_pending (by rw [h]; simp)
    apply Yields.pending _ (reading events')
    · rw [poll_reading, hread]
    · apply ih
      rw [h] at hwaits
      obtain ⟨n, hn, hd⟩ := Option.map_eq_some_iff.mp hwaits.symm
      rw [hn, Nat.succ.inj hd]

/-- A body that does not end before poll `k` keeps its request waiting up to there. -/
theorem reading_waits (h : ∀ d, waits events = some d → k ≤ d) :
    ∃ f, polls k (reading events) = some (List.replicate k .pending, f) := by
  -- after `j` polls the body still needs all but `j` of the polls it needed
  have hstep : ∀ j (f : ServeRocks H), j < k →
      (∃ events, f = reading events ∧ ∀ d, waits events = some d → k ≤ j+d) →
      ∃ f', Future.poll f = some (.pending, f') ∧
        ∃ events, f' = reading events ∧ ∀ d, waits events = some d → k ≤ j+1+d := by
    rintro j _ hj ⟨events, rfl, hleft⟩
    have hne : waits events ≠ some 0 := by
      intro h0
      have hk := hleft 0 h0
      omega
    obtain ⟨events', hread, hwaits⟩ := read_pending hne
    refine ⟨reading events', by rw [poll_reading, hread], events', rfl, ?_⟩
    intro d hd
    have hk := hleft (d+1) (by rw [hwaits, hd]; rfl)
    omega
  obtain ⟨f, hpolls, -⟩ := polls_pending hstep ⟨events, rfl, by simpa using h⟩ (Nat.le_refl k)
  exact ⟨f, hpolls⟩

theorem serve_yields (h : req.waits = some d) : Yields (start req) d req.verdict := by
  rcases poll_start req with ⟨h0, hpoll⟩ | ⟨events, hwaits, hverdict, hpoll⟩
  · obtain rfl := Option.some.inj (h0.symm.trans h)
    exact .ready _ finished _ hpoll
  · rw [hverdict]
    exact (reading_yields (hwaits.symm.trans h)).of_poll_eq hpoll

theorem serve_waits (h : ∀ d, req.waits = some d → k ≤ d) :
    ∃ f, polls k (start req) = some (List.replicate k .pending, f) := by
  cases k with
  | zero => exact ⟨start req, rfl⟩
  | succ k =>
    rcases poll_start req with ⟨h0, -⟩ | ⟨events, hwaits, -, hpoll⟩
    · exact absurd (h 0 h0) (by omega)
    · rw [hwaits] at h
      obtain ⟨f, hpolls⟩ := reading_waits h
      exact ⟨f, (polls_of_poll_eq hpoll).trans hpolls⟩

end ServeRocks

variable {ι : Type} [DecidableEq ι]

/-- `serve_rocks` -/
def serveRocks (req : Request H) (tid : ι) : WrapFuture ι (ServeRocks H) := wrapFuture (.start req) tid

/-- A request is answered by the polls on the thread that the server was started on, and only by
them: polls on other threads are answered `NotReady` and call the waker once each. Its answer depends
on its head alone, and it comes when the body has ended, with all chunks and errors read past. -/
theorem serveRocks_every_schedule (req : Request H) (tid : ι) (ts : List ι) :
    ((∀ d, req.waits = some d → ts.count tid ≤ d) →
      ∃ this, (serveRocks req tid).polls ts = some (List.replicate ts.length (.ok .pending), this) ∧
        this.wakes = ts.countP (· ≠ tid)) ∧
    (req.waits = some (ts.count tid) →
      ∃ this, (serveRocks req tid).polls (ts ++ [tid]) =
        some (List.replicate ts.length (.ok .pending) ++ [answer (.ready req.verdict)], this) ∧
        this.wakes = ts.countP (· ≠ tid)) := by
  constructor
  · intro h
    obtain ⟨f, hpolls⟩ := ServeRocks.serve_waits h
    refine ⟨⟨f, tid, ts.countP (· ≠ tid)⟩, ?_, rfl⟩
    apply (polls_iff _ _ _ _).mpr
    exact ⟨_, hpolls, (weave_pending tid ts).symm, rfl, (Nat.zero_add _).symm⟩
  · intro h
    obtain ⟨f, hpolls⟩ := (ServeRocks.serve_yields h).polls_all
    have hcount : (ts ++ [tid]).count tid = ts.count tid+1 := by simp
    have hwakes : (ts ++ [tid]).countP (· ≠ tid) = ts.countP (· ≠ tid) := by simp
    refine ⟨⟨f, tid, ts.countP (· ≠ tid)⟩, ?_, rfl⟩
    apply (polls_iff _ _ _ _).mpr
    refine ⟨_, ?_, (weave_last tid ts _).symm, rfl, ?_⟩
    · exact (congrArg (fun n => polls n _) hcount).trans hpolls
    · exact (hwakes.symm.trans (Nat.zero_add _).symm)

/-- A form of two bytes, of which the second comes late. Thread 0 started the server. -/
example : ((serveRocks (⟨fun s => s == "/rocks", fun name =>
    if name = "content-type" then some ⟨asBytes "application/x-www-form-urlencoded", none⟩
    else if name = "content-length" then some ⟨asBytes "2", some (String.toList "2")⟩ else none,
    ⟨some 2, [.ready (some (.ok [97])), .pending, .ready (some (.ok [98])), .ready none]⟩⟩ : Request Unit)
      0).polls [1, 0, 1, 0]).map (·.1) =
        some [.ok .pending, .ok .pending, .ok .pending, .ok (.ready notFound)] := by decide +kernel

end Rocks.HyperSvr
