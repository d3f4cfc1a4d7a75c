import Rocks.TlsStream

/-! The plaintext that the session has decrypted against what the reads return. -/
namespace Rocks.TlsStream
open Polling

variable {S : Type} [Session S]

/-- `decrypted` is the plaintext the session has found so far and `buffered` the part it still
holds: `process_new_packets` alone adds to it, `read` hands it out in order, and the session does
not ask for more TLS bytes while it holds some. -/
structure HandsOut (decrypted buffered : S → List UInt8) : Prop where
  wantsRead : ∀ s, Session.wantsRead s = true → buffered s = []
  readTls : ∀ s r, decrypted (Session.readTls s r) = decrypted s ∧ buffered (Session.readTls s r) = buffered s
  writeTls : ∀ s w, decrypted (Session.writeTls s w) = decrypted s ∧ buffered (Session.writeTls s w) = buffered s
  processNewPackets : ∀ s, ∃ new, decrypted (Session.processNewPackets s).2 = decrypted s ++ new ∧
    buffered (Session.processNewPackets s).2 = buffered s ++ new
  write : ∀ s buf, decrypted (Session.write s buf).2 = decrypted s ∧
    buffered (Session.write s buf).2 = buffered s
  read_ok : ∀ s len buf s', Session.read s len = (.ok buf, s') →
    decrypted s' = decrypted s ∧ buffered s = buf ++ buffered s'
  read_error : ∀ s len e s', Session.read s len = (.error e, s') →
    decrypted s' = decrypted s ∧ buffered s' = buffered s

/-- What a read returns. -/
def Answer.returned : Answer → List UInt8
  | .read (.ok buf) => buf
  | _ => []

/-- What holds after reads that returned `out`: the rest of the plaintext is buffered, and there
is none once the flag is set. -/
structure Accounted (decrypted buffered : S → List UInt8) (out : List UInt8) (this : TlsStream S) :
    Prop where
  bytes : decrypted this.session = out ++ buffered this.session
  ended : this.eof = true → buffered this.session = [] ∧ this.stream.AtEnd

variable {decrypted buffered : S → List UInt8} {out : List UInt8} {this : TlsStream S}

theorem HandsOut.moves (hH : HandsOut decrypted buffered) (out : List UInt8) :
    Moves (fun s => decrypted s = out ++ buffered s) where
  readTls s r h := by
    obtain ⟨hd, hb⟩ := hH.readTls s r
    rw [hd, hb, h]
  processNewPackets s h := by
    obtain ⟨new, hd, hb⟩ := hH.processNewPackets s
    rw [hd, hb, h, List.append_assoc]
  writeTls s w h := by
    obtain ⟨hd, hb⟩ := hH.writeTls s w
    rw [hd, hb, h]

theorem nullCipher_handsOut : HandsOut NullCipher.decrypted NullCipher.buffered where
  wantsRead s h := List.isEmpty_iff.mp h
  readTls s r := by cases r <;> exact ⟨rfl, rfl⟩
  writeTls s w := by cases w <;> exact ⟨rfl, rfl⟩
  processNewPackets s := ⟨s.received, rfl, rfl⟩
  write s buf := ⟨rfl, rfl⟩
  read_ok s len buf s' h := by
    cases h
    exact ⟨rfl, (List.take_append_drop len s.buffered).symm⟩
  read_error s len e s' h := by cases h

/-- The loop sets the flag only where the session held no plaintext. -/
theorem readLoop_ended (hH : HandsOut decrypted buffered) (he : this.eof = false) {rs : List Received}
    (h : (this.readLoop rs).2.eof = true) :
    buffered (this.readLoop rs).2.session = [] ∧ (this.readLoop rs).2.stream.AtEnd := by
  induction rs generalizing this with
  | nil =>
    rw [readLoop] at h
    split at h
    · rw [he] at h
      cases h
    · rw [he] at h
      cases h
  | cons r rs ih =>
    rw [readLoop] at h ⊢
    by_cases hw : Session.wantsRead this.session = true
    · rw [if_pos hw] at h ⊢
      cases r with
      | bytes data hd =>
        -- the loop goes on with the bytes processed, and the flag is still unset
        dsimp only at h ⊢
        split at h
        · exact ih he h
        · rw [he] at h
          cases h
      -- only here the flag is set, and the session had asked for bytes
      | eof => exact ⟨(hH.readTls _ _).2.trans (hH.wantsRead _ hw), rfl⟩
      | error e =>
        rw [he] at h
        cases h
    · rw [if_neg hw, he] at h
      cases h

theorem Accounted.checkRead (hH : HandsOut decrypted buffered) (h : Accounted decrypted buffered out this) :
    Accounted decrypted buffered out this.checkRead.2 := by
  refine ⟨checkRead_keeps (hH.moves out) h.bytes, ?_⟩
  rw [TlsStream.checkRead]
  by_cases he : this.eof = true
  · rw [if_pos he]
    exact h.ended
  · rw [if_neg he]
    exact readLoop_ended hH (by simpa using he)

theorem Accounted.checkWrite (hH : HandsOut decrypted buffered) (h : Accounted decrypted buffered out this) :
    Accounted decrypted buffered out this.checkWrite.2 := by
  obtain ⟨heof, hreads⟩ : this.checkWrite.2.eof = this.eof ∧
      this.checkWrite.2.stream.reads = this.stream.reads := writeLoop_reads this.stream.writes
  refine ⟨checkWrite_keeps (hH.moves out).writeTls h.bytes, ?_⟩
  intro he
  -- a flag that is set was set before, when nothing was buffered
  obtain ⟨hb, hend⟩ := h.ended (heof.symm.trans he)
  have hkeeps : ∀ s w, buffered s = [] → buffered (Session.writeTls s w) = [] := by
    intro s w hs
    exact (hH.writeTls s w).2.trans hs
  exact ⟨checkWrite_keeps hkeeps hb, (congrArg List.head? hreads).trans hend⟩

theorem Accounted.completeIo (hH : HandsOut decrypted buffered) (h : Accounted decrypted buffered out this) :
    Accounted decrypted buffered out this.completeIo.2 := by
  rw [this.completeIo_stream]
  exact (h.checkRead hH).checkWrite hH

/-- A read accounts for what it returns, and returns no bytes only at the end. -/
theorem Accounted.read (hH : HandsOut decrypted buffered) (h : Accounted decrypted buffered out this)
    (len : ℕ) : Accounted decrypted buffered (out ++ (Answer.read (this.read len).1).returned)
        (this.read len).2 ∧
      ((this.read len).1 = .ok [] → (this.read len).2.stream.AtEnd ∧
        buffered (this.read len).2.session = []) := by
  have hc := h.completeIo hH
  rw [TlsStream.read]
  dsimp only
  split
  · exact ⟨by simpa [Answer.returned] using hc, by simp⟩
  · by_cases he : this.completeIo.2.eof = true
    · -- `Ok(0)` without asking the session
      rw [if_pos he]
      obtain ⟨hb, hend⟩ := hc.ended he
      exact ⟨by simpa [Answer.returned] using hc, fun _ => ⟨hend, hb⟩⟩
    · rw [if_neg he]
      split
      · next heq =>
        obtain ⟨hd, hb⟩ := hH.read_error _ _ _ _ heq
        refine ⟨⟨?_, fun he' => absurd he' he⟩, by simp⟩
        simpa [Answer.returned, hd, hb] using hc.bytes
      · next buf s' heq =>
        obtain ⟨hd, hb⟩ := hH.read_ok _ _ _ _ heq
        have hbytes : decrypted s' = out ++ buf ++ buffered s' := by
          rw [hd, hc.bytes, hb, List.append_assoc]
        split
        · next hlen =>
          refine ⟨⟨hbytes, fun he' => absurd he' he⟩, ?_⟩
          rintro ⟨⟩
          cases hlen
        · next hlen =>
          -- the session had nothing to hand out, so the read would block
          obtain rfl : buf = [] := by simpa using hlen
          exact ⟨⟨hbytes, fun he' => absurd he' he⟩, by simp⟩

theorem Accounted.of_write (hH : HandsOut decrypted buffered)
    (h : Accounted decrypted buffered out this) (buf : List UInt8) :
    Accounted decrypted buffered out { this with session := (Session.write this.session buf).2 } := by
  obtain ⟨hd, hb⟩ := hH.write this.session buf
  constructor
  · rw [hd, h.bytes, hb]
  · intro he
    obtain ⟨hnone, hend⟩ := h.ended he
    exact ⟨hb.trans hnone, hend⟩

omit [Session S] in
theorem Accounted.of_shutdown (h : Accounted decrypted buffered out this) :
    Accounted decrypted buffered out { this with stream := this.stream.shutdown.2 } := by
  refine ⟨h.bytes, ?_⟩
  intro he
  obtain ⟨hnone, hend⟩ := h.ended he
  refine ⟨hnone, ?_⟩
  rw [Socket.AtEnd, Socket.shutdown]
  split
  · exact hend
  · exact hend

theorem Accounted.write (hH : HandsOut decrypted buffered) (h : Accounted decrypted buffered out this)
    (buf : List UInt8) : Accounted decrypted buffered out (this.write buf).2 := by
  have hc := h.completeIo hH
  have hw := hc.of_write hH buf
  rcases this.write_stream buf with heq | heq | heq | heq | heq
  · rw [heq]
    exact h.of_shutdown
  · rw [heq]
    exact h
  · rw [heq]
    exact hc
  · rw [heq]
    exact hw
  · rw [heq]
    exact hw.checkWrite hH

theorem Accounted.shutdown (hH : HandsOut decrypted buffered)
    (h : Accounted decrypted buffered out this) : Accounted decrypted buffered out this.shutdown.2 := by
  rcases this.shutdown_stream with heq | heq
  · rw [heq]
    exact h.of_shutdown
  · rw [heq]
    exact h.of_shutdown.completeIo hH

/-- The step lemma. -/
theorem Accounted.call (hH : HandsOut decrypted buffered) (h : Accounted decrypted buffered out this)
    (c : Call) : Accounted decrypted buffered (out ++ (this.call c).1.returned) (this.call c).2 := by
  cases c with
  | read len => exact (h.read hH len).1
  | write buf => simpa [TlsStream.call, Answer.returned] using h.write hH buf
  | flush => simpa [TlsStream.call, Answer.returned, flush] using h.checkWrite hH
  | shutdown => simpa [TlsStream.call, Answer.returned] using h.shutdown hH

/-- The run lemma. -/
theorem Accounted.calls (hH : HandsOut decrypted buffered) (cs : List Call) :
    ∀ {out : List UInt8} {this : TlsStream S}, Accounted decrypted buffered out this →
      Accounted decrypted buffered (out ++ (this.calls cs).1.flatMap Answer.returned) (this.calls cs).2 := by
  induction cs with
  | nil =>
    intro out this h
    simpa [TlsStream.calls] using h
  | cons c cs ih =>
    intro out this h
    have hrest := ih (h.call hH c)
    rw [List.append_assoc] at hrest
    exact hrest

/-- Over any calls the reads return the decrypted plaintext in order, and a read returns no bytes
only when the socket is at its end and all of it has been returned. -/
theorem reads_lose_nothing (hH : HandsOut decrypted buffered) (stream : Socket) (session : S)
    (hnew : decrypted session = buffered session) (cs : List Call) :
    decrypted ((new stream session).calls cs).2.session =
        ((new stream session).calls cs).1.flatMap Answer.returned ++
          buffered ((new stream session).calls cs).2.session ∧
      ∀ len, (((new stream session).calls cs).2.read len).1 = .ok [] →
        (((new stream session).calls cs).2.read len).2.stream.AtEnd ∧
        decrypted (((new stream session).calls cs).2.read len).2.session =
          ((new stream session).calls cs).1.flatMap Answer.returned := by
  have hstart : Accounted decrypted buffered [] (new stream session) := ⟨hnew, fun h => by cases h⟩
  have hrun := hstart.calls hH cs
  rw [List.nil_append] at hrun
  refine ⟨hrun.bytes, ?_⟩
  intro len hlen
  -- the last read adds nothing to what was returned, so the invariant behind it says it all
  obtain ⟨hread, hend⟩ := hrun.read hH len
  obtain ⟨hat, hnone⟩ := hend hlen
  refine ⟨hat, ?_⟩
  have hbytes := hread.bytes
  rw [hlen, hnone, List.append_nil] at hbytes
  exact hbytes.trans (List.append_nil _)

/-- Two bytes arrive and then the end of stream, and they are read one by one. -/
theorem reads_lose_nothing_nullCipher :
    let start := new ⟨[.bytes [5, 6] (by decide), .eof], [], []⟩ (⟨[], [], [], [], 0⟩ : NullCipher)
    let this := (start.calls [.read 1, .read 1]).2
    (this.read 1).1 = .ok [] ∧ (this.read 1).2.stream.AtEnd ∧ (this.read 1).2.session.decrypted = [5, 6] := by
  intro start this
  have hempty : (this.read 1).1 = .ok [] := rfl
  exact ⟨hempty, (reads_lose_nothing nullCipher_handsOut _ _ rfl [.read 1, .read 1]).2 1 hempty⟩

end Rocks.TlsStream
