import Rocks.TlsStream

/-! The plaintext that the session has taken against what the writes report. -/
namespace Rocks.TlsStream
open Polling

variable {S : Type} [Session S]

/-- `taken` is the plaintext that the session has taken so far: only `Session::write` adds to it,
the bytes whose number it reports. -/
structure TakesPlaintext (taken : S → List UInt8) : Prop where
  moves : ∀ t, Moves (fun s => taken s = t)
  read : ∀ s len, taken (Session.read s len).2 = taken s
  write_ok : ∀ s buf n s', Session.write s buf = (.ok n, s') →
    n ≤ buf.length ∧ taken s' = taken s ++ buf.take n
  write_error : ∀ s buf e s', Session.write s buf = (.error e, s') → taken s' = taken s

/-- What a write reports as accepted. -/
def Answer.accepted : Answer → List UInt8
  | .write buf (.ok n) => buf.take n
  | _ => []

/-- Where a write comes to give `buf` to the session: how many bytes the session takes, and the
stream before they are flushed. -/
def taking (this : TlsStream S) (buf : List UInt8) : Option (ℕ × TlsStream S) :=
  if buf = [] ∨ this.eof = true then
    none
  else
    match this.completeIo with
    | (.ready (.ok ()), this) =>
      match Session.write this.session buf with
      | (.ok n, session) => some (n, { this with session })
      | _ => none
    | _ => none

/-- While the session still has output, the socket has no more answers or gives an error as in `P`. -/
def Refuses (P : IoError → Prop) : S → List (Except IoError ℕ) → Prop
  | s, [] => Session.wantsWrite s = true
  | s, .ok n :: ws => Session.wantsWrite s = true ∧ Refuses P (Session.writeTls s (.ok n)) ws
  | s, .error e :: _ => Session.wantsWrite s = true ∧ P e

/-- The session takes bytes, and the socket would block before they are flushed. -/
def Straddles (this : TlsStream S) (buf : List UInt8) : Prop :=
  ∃ n t, 0 < n ∧ this.taking buf = some (n, t) ∧
    Refuses (fun e => e.kind = .wouldBlock) t.session t.stream.writes

/-- The session takes bytes, and the socket refuses some of them for whatever reason. -/
def CutShort (this : TlsStream S) : Call → Prop
  | .write buf => ∃ n t, 0 < n ∧ this.taking buf = some (n, t) ∧
      Refuses (fun _ => True) t.session t.stream.writes
  | _ => False

/-- No write of a run is cut short. -/
def NoneCut : TlsStream S → List Call → Prop
  | _, [] => True
  | this, c :: cs => ¬this.CutShort c ∧ NoneCut (this.call c).2 cs

variable {taken : S → List UInt8} {this : TlsStream S} {buf : List UInt8}

/-- How the flush ends: it is pending where the socket would block, it completes where the socket
refuses nothing, and any other error is not `WouldBlock`. -/
theorem writeLoop_ends (ws : List (Except IoError ℕ)) :
    ((this.writeLoop ws).1 = .pending ↔
      Refuses (fun e => e.kind = .wouldBlock) this.session ws) ∧
    ((this.writeLoop ws).1 = .ready (.ok ()) ↔ ¬Refuses (fun _ => True) this.session ws) ∧
    ∀ e, (this.writeLoop ws).1 = .ready (.error e) → e.kind ≠ .wouldBlock := by
  induction ws generalizing this with
  | nil => by_cases hw : Session.wantsWrite this.session = true <;> simp [writeLoop, Refuses, hw]
  | cons w ws ih =>
    by_cases hw : Session.wantsWrite this.session = true
    · cases w with
      | ok n =>
        simp only [writeLoop, Refuses, hw, true_and]
        exact ih
      | error e =>
        by_cases hk : e.kind = .wouldBlock
        · simp [writeLoop, Refuses, hw, hk]
        · simp only [writeLoop, Refuses, hw, hk]
          refine ⟨by simp, by simp, ?_⟩
          rintro e' ⟨⟩
          exact hk
    · cases w <;> simp [writeLoop, Refuses, hw]

/-- A call that is let through leaves the session what it had taken. -/
theorem completeIo_taken (hT : TakesPlaintext taken) :
    taken this.completeIo.2.session = taken this.session :=
  completeIo_keeps (hT.moves (taken this.session)) rfl

theorem write_of_not_taking (hT : TakesPlaintext taken) (h : this.taking buf = none) :
    taken (this.write buf).2.session = taken this.session ∧ ∀ n, (this.write buf).1 = .ok n → n = 0 := by
  rw [taking] at h
  rw [write]
  by_cases hb : buf = []
  · rw [if_pos (by rw [hb]; rfl)]
    cases hs : this.stream.shutdown with
    | mk r stream => cases r <;> simp
  rw [if_neg (by simpa using hb)]
  by_cases he : this.eof = true
  · rw [if_pos he]
    simp
  rw [if_neg he]
  rw [if_neg (by simp [hb, he])] at h
  have htaken : taken this.completeIo.2.session = taken this.session := completeIo_taken hT
  cases hc : this.completeIo with
  | mk p t =>
    rw [hc] at h htaken
    -- the call is let through only by a `Ready(Ok(()))`
    cases p with
    | pending => simpa [checkWouldBlock] using htaken
    | ready r =>
      cases r with
      | error e => simpa [checkWouldBlock] using htaken
      | ok u =>
        cases hw : Session.write t.session buf with
        | mk r s' =>
          cases r with
          | error e =>
            have hs' := hT.write_error _ _ _ _ hw
            simpa [checkWouldBlock, hw, hs'] using htaken
          | ok n => simp [hw] at h

theorem write_of_taking (hT : TakesPlaintext taken) {n : ℕ} {t : TlsStream S}
    (h : this.taking buf = some (n, t)) :
    taken (this.write buf).2.session = taken this.session ++ buf.take n ∧
      (this.write buf).1 = (checkWouldBlock t.checkWrite.1).map (fun _ => n) := by
  rw [taking] at h
  rw [write]
  split at h
  · cases h
  next hb =>
  obtain ⟨hb, he⟩ := not_or.mp hb
  rw [if_neg (by simpa using hb), if_neg he]
  have htaken : taken this.completeIo.2.session = taken this.session := completeIo_taken hT
  split at h
  · next t' hc =>
    rw [hc] at htaken
    split at h
    · next n' s' hw =>
      obtain ⟨rfl, rfl⟩ := Prod.mk.inj (Option.some.inj h)
      have hflush : taken (checkWrite { t' with session := s' }).2.session = taken s' :=
        checkWrite_keeps (hT.moves (taken s')).writeTls rfl
      -- the flush moves what is queued, so all that was taken is what `Session::write` reported
      rw [(hT.write_ok _ _ _ _ hw).2, htaken] at hflush
      rw [hc]
      simp only [checkWouldBlock, hw]
      split
      · next heq =>
        rw [heq]
        exact ⟨hflush, rfl⟩
      · next heq =>
        rw [heq]
        exact ⟨hflush, rfl⟩
    · cases h
  · cases h

theorem take_ne_nil {n : ℕ} (hn : 0 < n) (hb : buf ≠ []) : buf.take n ≠ [] := by
  rw [Ne, List.take_eq_nil_iff, not_or]
  exact ⟨by omega, hb⟩

theorem taking_ne_nil {n : ℕ} {t : TlsStream S} (h : this.taking buf = some (n, t)) : buf ≠ [] := by
  rintro rfl
  simp [taking] at h

/-- One write: `WouldBlock` means that nothing was taken exactly where the write does not straddle
the session's taking bytes. -/
theorem wouldBlock_taken_iff (hT : TakesPlaintext taken) :
    (∀ e, (this.write buf).1 = .error e → e.kind = .wouldBlock →
      taken (this.write buf).2.session = taken this.session) ↔ ¬this.Straddles buf := by
  constructor
  · rintro h ⟨n, t, hn, htaking, hrefuses⟩
    obtain ⟨htaken, hr⟩ := write_of_taking hT htaking
    have hpending : t.checkWrite.1 = .pending := (writeLoop_ends _).1.mpr hrefuses
    rw [hpending] at hr
    have hsame := h .wouldBlock hr rfl
    rw [htaken, List.append_right_eq_self] at hsame
    exact take_ne_nil hn (taking_ne_nil htaking) hsame
  · intro h e hr hkind
    cases htaking : this.taking buf with
    | none => exact (write_of_not_taking hT htaking).1
    | some x =>
      obtain ⟨n, t⟩ := x
      obtain ⟨htaken, hr'⟩ := write_of_taking hT htaking
      rw [hr'] at hr
      rcases hflush : t.checkWrite.1 with _ | _ | _
      · -- the flush would block, so the session took no bytes
        obtain rfl : n = 0 := by
          by_contra hn
          exact h ⟨n, t, Nat.pos_of_ne_zero hn, htaking, (writeLoop_ends _).1.mp hflush⟩
        rw [htaken, List.take_zero, List.append_nil]
      · rw [hflush] at hr
        cases hr
        exact absurd hkind ((writeLoop_ends _).2.2 e hflush)
      · rw [hflush] at hr
        cases hr

theorem read_taken (hT : TakesPlaintext taken) (len : ℕ) :
    taken (this.read len).2.session = taken this.session := by
  rcases this.read_stream len with heq | heq
  · rw [heq, completeIo_taken hT]
  · rw [heq, hT.read, completeIo_taken hT]

/-- The step lemma for a call that is not cut short. -/
theorem call_taken (hT : TakesPlaintext taken) {c : Call} (h : ¬this.CutShort c) :
    taken (this.call c).2.session = taken this.session ++ (this.call c).1.accepted := by
  have hkeeps := hT.moves (taken this.session)
  cases c with
  | read len => simpa [call, Answer.accepted] using read_taken hT len
  | flush => simpa [call, Answer.accepted, flush] using checkWrite_keeps hkeeps.writeTls rfl
  | shutdown => simpa [call, Answer.accepted] using shutdown_keeps hkeeps rfl
  | write buf =>
    simp only [call, Prod.map_fst, Prod.map_snd, id]
    cases htaking : this.taking buf with
    | none =>
      obtain ⟨htaken, hzero⟩ := write_of_not_taking hT htaking
      cases hr : (this.write buf).1 with
      | error e => simpa [Answer.accepted] using htaken
      | ok n =>
        obtain rfl := hzero n hr
        simpa [Answer.accepted] using htaken
    | some x =>
      obtain ⟨n, t⟩ := x
      obtain ⟨htaken, hr⟩ := write_of_taking hT htaking
      rw [htaken, hr]
      by_cases hrefuses : Refuses (fun _ => True) t.session t.stream.writes
      -- a flush that fails hides nothing if nothing was taken
      · obtain rfl : n = 0 := by
          by_contra hn
          exact h ⟨n, t, Nat.pos_of_ne_zero hn, htaking, hrefuses⟩
        rcases t.checkWrite.1 with _ | _ | _ <;> rfl
      · have hflush : t.checkWrite.1 = .ready (.ok ()) := (writeLoop_ends _).2.1.mpr hrefuses
        rw [hflush]
        rfl

/-- The step lemma for a write that is cut short: it reports nothing of what was taken. -/
theorem call_hidden (hT : TakesPlaintext taken) {c : Call} (h : this.CutShort c) :
    (this.call c).1.accepted = [] ∧ (taken this.session).length < (taken (this.call c).2.session).length := by
  cases c with
  | read len => cases h
  | flush => cases h
  | shutdown => cases h
  | write buf =>
    obtain ⟨n, t, hn, htaking, hrefuses⟩ := h
    obtain ⟨htaken, hr⟩ := write_of_taking hT htaking
    simp only [call, Prod.map_fst, Prod.map_snd, id]
    rw [htaken, hr, List.length_append]
    have hpos := List.length_pos_of_ne_nil (take_ne_nil hn (taking_ne_nil htaking))
    refine ⟨?_, by omega⟩
    rcases hflush : t.checkWrite.1 with _ | _ | _
    · rfl
    · rfl
    · exact absurd hrefuses ((writeLoop_ends _).2.1.mp hflush)

theorem calls_taken (hT : TakesPlaintext taken) {cs : List Call} (h : this.NoneCut cs) :
    taken (this.calls cs).2.session = taken this.session ++ (this.calls cs).1.flatMap Answer.accepted := by
  induction cs generalizing this with
  | nil => simp [calls]
  | cons c cs ih =>
    obtain ⟨hc, hcs⟩ := h
    calc taken (this.calls (c :: cs)).2.session
        = taken ((this.call c).2.calls cs).2.session := rfl
      _ = taken (this.call c).2.session ++ ((this.call c).2.calls cs).1.flatMap Answer.accepted := ih hcs
      _ = taken this.session ++ (this.calls (c :: cs)).1.flatMap Answer.accepted := by
        rw [call_taken hT hc, List.append_assoc]
        rfl

/-- A write that is cut short is never made up for. -/
theorem calls_taken_lt (hT : TakesPlaintext taken) {cs : List Call} (h : ¬this.NoneCut cs) :
    (taken this.session).length + ((this.calls cs).1.flatMap Answer.accepted).length <
      (taken (this.calls cs).2.session).length := by
  induction cs generalizing this with
  | nil => exact absurd trivial h
  | cons c cs ih =>
    have hlen : ((this.calls (c :: cs)).1.flatMap Answer.accepted).length =
        (this.call c).1.accepted.length + (((this.call c).2.calls cs).1.flatMap Answer.accepted).length :=
      List.length_append
    have hrest : ¬(this.call c).2.NoneCut cs ∨ (taken ((this.call c).2.calls cs).2.session).length =
        (taken (this.call c).2.session).length +
          (((this.call c).2.calls cs).1.flatMap Answer.accepted).length := by
      by_cases hcs : (this.call c).2.NoneCut cs
      · exact .inr (by rw [calls_taken hT hcs, List.length_append])
      · exact .inl hcs
    change _ < (taken ((this.call c).2.calls cs).2.session).length
    rw [hlen]
    -- the first write that is cut short may be this one or a later one
    by_cases hc : this.CutShort c
    · obtain ⟨hnone, hlt⟩ := call_hidden hT hc
      rw [hnone, List.length_nil]
      rcases hrest with hcs | heq
      · have := ih hcs
        omega
      · omega
    · have hcs : ¬(this.call c).2.NoneCut cs := fun hcs => h ⟨hc, hcs⟩
      have hstep := congrArg List.length (call_taken hT hc)
      rw [List.length_append] at hstep
      have := ih hcs
      omega

/-- Over any calls the session has taken exactly what was reported, unless a write is cut short. -/
theorem calls_taken_iff (hT : TakesPlaintext taken) (cs : List Call) :
    taken (this.calls cs).2.session = taken this.session ++ (this.calls cs).1.flatMap Answer.accepted ↔
      this.NoneCut cs := by
  constructor
  · intro h
    by_contra hcut
    have hlt := calls_taken_lt hT hcut
    rw [h, List.length_append] at hlt
    omega
  · exact calls_taken hT

/-- A write that reports `WouldBlock` has taken nothing exactly where it does not straddle the
session's taking bytes; over any calls the session has taken exactly what was reported where no
write is cut short. -/
theorem writes_report_taken_iff (hT : TakesPlaintext taken) :
    (∀ (this : TlsStream S) (buf : List UInt8), buf ≠ [] →
      ((∀ e, (this.write buf).1 = .error e → e.kind = .wouldBlock →
        taken (this.write buf).2.session = taken this.session) ↔ ¬this.Straddles buf)) ∧
    ∀ (this : TlsStream S) (cs : List Call),
      taken (this.calls cs).2.session =
        taken this.session ++ (this.calls cs).1.flatMap Answer.accepted ↔ this.NoneCut cs := by
  constructor
  · intro this buf _
    exact wouldBlock_taken_iff hT
  · intro this cs
    exact calls_taken_iff hT cs

theorem nullCipher_takesPlaintext : TakesPlaintext NullCipher.taken where
  moves t := by
    refine ⟨?_, fun s h => h, ?_⟩
    · intro s r h
      cases r <;> exact h
    · intro s w h
      cases w <;> exact h
  read s len := rfl
  write_ok s buf n s' h := by
    cases h
    exact ⟨Nat.le_refl _, by simp⟩
  write_error s buf e s' h := by cases h

/-- The socket takes all that is written. -/
theorem writes_report_taken_open :
    let start := new ⟨[], [.ok 2, .ok 1], []⟩ (⟨[], [], [], [], 0⟩ : NullCipher)
    (start.calls [.write [1, 2], .write [3]]).2.session.taken = [1, 2, 3] := by
  intro start
  refine ((writes_report_taken_iff nullCipher_takesPlaintext).2 start [.write [1, 2], .write [3]]).mpr ?_
  refine ⟨?_, ?_, trivial⟩
  · rintro ⟨n, t, -, htaking, hrefuses⟩
    cases htaking
    cases (hrefuses.2.1 : false = true)
  · rintro ⟨n, t, -, htaking, hrefuses⟩
    cases htaking
    cases (hrefuses.2 : false = true)

/-- The socket is full when the first byte is written, and takes the byte twice when it is retried. -/
theorem wouldBlock_after_taking :
    let start := new ⟨[], [.error .wouldBlock, .ok 1, .ok 1], []⟩ (⟨[], [], [], [], 0⟩ : NullCipher)
    ((start.write [1]).1 = .error .wouldBlock ∧ (start.write [1]).2.session.taken = [1]) ∧
      (start.calls [.write [1], .write [1]]).1.flatMap Answer.accepted = [1] ∧
      (start.calls [.write [1], .write [1]]).2.session.taken = [1, 1] :=
  ⟨⟨rfl, rfl⟩, rfl, rfl⟩

end Rocks.TlsStream
