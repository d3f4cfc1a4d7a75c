import Rocks.Polling
import Rocks.ReqAddr

/-! The TLS stream over a socket that does not block, with the TLS session as a parameter. -/
namespace Rocks
open Polling

/-- What one read of the socket gives. -/
inductive Received
  | bytes (data : List UInt8) (h : data ≠ [])
  | eof
  | error (e : IoError)

/-- What the socket will answer, in order; when there are no more answers it would block. -/
structure Socket where
  reads : List Received
  writes : List (Except IoError ℕ)
  shutdowns : List (Except IoError Unit)

/-- The next read finds the end of stream, and so does every later one. -/
def Socket.AtEnd (stream : Socket) : Prop := stream.reads.head? = some .eof

def Socket.shutdown (stream : Socket) : Except IoError Unit × Socket :=
  match stream.shutdowns with
  | [] => (.ok (), stream)
  | r :: rs => (r, { stream with shutdowns := rs })

/-- `IoError::from(ErrorKind::WouldBlock)` -/
def IoError.wouldBlock : IoError := .simple .wouldBlock "operation would block"

/-- `rustls::Session`. `read_tls` and `write_tls` make one read or write of the socket and give
back its result, so the session is told that result. Errors of the session are their texts. -/
class Session (S : Type) where
  wantsRead : S → Bool
  wantsWrite : S → Bool
  isHandshaking : S → Bool
  readTls : S → Received → S
  writeTls : S → Except IoError ℕ → S
  processNewPackets : S → Except String Unit × S
  read : S → ℕ → Except IoError (List UInt8) × S
  write : S → List UInt8 → Except IoError ℕ × S

structure TlsStream (S : Type) where
  stream : Socket
  session : S
  eof : Bool

namespace TlsStream

variable {S : Type} [Session S]

def new (stream : Socket) (session : S) : TlsStream S := ⟨stream, session, false⟩

/-- The loop of `check_read` over the answers of the socket. The flag is looked at before the
loop: it is set only where the loop is left. -/
def readLoop (this : TlsStream S) : List Received → Poll (Except IoError Unit) × TlsStream S
  | [] =>
    if Session.wantsRead this.session then
      (.pending, { this with
        session := Session.readTls this.session (.error .wouldBlock), stream.reads := [] })
    else
      (.ready (.ok ()), { this with stream.reads := [] })
  | r :: rs =>
    if Session.wantsRead this.session then
      let session := Session.readTls this.session r
      match r with
      | .bytes _ _ =>
        match Session.processNewPackets session with
        | (.ok (), session) => readLoop { this with session } rs
        | (.error e, session) =>
          (.ready (.error (.simple .invalidData e)), { this with session, stream.reads := rs })
      | .eof => (.ready (.ok ()), { this with session, eof := true, stream.reads := r :: rs })
      | .error e =>
        (if e.kind = .wouldBlock then .pending else .ready (.error e),
          { this with session, stream.reads := rs })
    else
      (.ready (.ok ()), { this with stream.reads := r :: rs })

def checkRead (this : TlsStream S) : Poll (Except IoError Unit) × TlsStream S :=
  if this.eof then
    (.ready (.ok ()), this)
  else
    this.readLoop this.stream.reads

/-- The loop of `check_write` over the answers of the socket. -/
def writeLoop (this : TlsStream S) : List (Except IoError ℕ) → Poll (Except IoError Unit) × TlsStream S
  | [] =>
    if Session.wantsWrite this.session then
      (.pending, { this with
        session := Session.writeTls this.session (.error .wouldBlock), stream.writes := [] })
    else
      (.ready (.ok ()), { this with stream.writes := [] })
  | w :: ws =>
    if Session.wantsWrite this.session then
      let session := Session.writeTls this.session w
      match w with
      | .ok _ => writeLoop { this with session } ws
      | .error e =>
        (if e.kind = .wouldBlock then .pending else .ready (.error e),
          { this with session, stream.writes := ws })
    else
      (.ready (.ok ()), { this with stream.writes := w :: ws })

def checkWrite (this : TlsStream S) : Poll (Except IoError Unit) × TlsStream S :=
  this.writeLoop this.stream.writes

def completeIo (this : TlsStream S) : Poll (Except IoError Unit) × TlsStream S :=
  let (r, this) := this.checkRead
  let (w, this) := this.checkWrite
  match r, w with
  | .ready (.ok _), .ready (.ok _) => (.ready (.ok ()), this)
  | .ready (.error e), _ => (.ready (.error e), this)
  | _, .ready (.error e) => (.ready (.error e), this)
  | _, _ => (if Session.isHandshaking this.session then .pending else .ready (.ok ()), this)

def checkWouldBlock {T : Type} : Poll (Except IoError T) → Except IoError T
  | .ready (.error e) => .error e
  | .ready (.ok t) => .ok t
  | .pending => .error .wouldBlock

/-- `Read::read` into a buffer of `len` bytes: the bytes instead of their number. -/
def read (this : TlsStream S) (len : ℕ) : Except IoError (List UInt8) × TlsStream S :=
  let (p, this) := this.completeIo
  match checkWouldBlock p with
  | .error e => (.error e, this)
  | .ok () =>
    if this.eof then
      (.ok [], this)
    else
      match Session.read this.session len with
      | (.error e, session) => (.error e, { this with session })
      | (.ok buf, session) =>
        if buf.length > 0 then
          (.ok buf, { this with session })
        else
          (.error .wouldBlock, { this with session })

def write (this : TlsStream S) (buf : List UInt8) : Except IoError ℕ × TlsStream S :=
  if buf.length = 0 then
    match this.stream.shutdown with
    | (.error e, stream) => (.error e, { this with stream })
    | (.ok (), stream) => (.ok 0, { this with stream })
  else if this.eof then
    (.ok 0, this)
  else
    let (p, this) := this.completeIo
    match checkWouldBlock p with
    | .error e => (.error e, this)
    | .ok () =>
      match Session.write this.session buf with
      | (.error e, session) => (.error e, { this with session })
      | (.ok n, session) =>
        let (p, this) := { this with session }.checkWrite
        match checkWouldBlock p with
        | .error e => (.error e, this)
        | .ok () => (.ok n, this)

def flush (this : TlsStream S) : Except IoError Unit × TlsStream S :=
  let (p, this) := this.checkWrite
  (checkWouldBlock p, this)

/-- `AsyncWrite::shutdown`: `Pending` stands for `NotReady`. -/
def shutdown (this : TlsStream S) : Except IoError (Poll Unit) × TlsStream S :=
  match this.stream.shutdown with
  | (.error e, stream) => (.error e, { this with stream })
  | (.ok (), stream) =>
    match { this with stream }.completeIo with
    | (.pending, this) => (.ok .pending, this)
    | (.ready (.ok ()), this) => (.ok (.ready ()), this)
    | (.ready (.error e), this) => (.error e, this)

/-- A call of the user of the stream. -/
inductive Call
  | read (len : ℕ)
  | write (buf : List UInt8)
  | flush
  | shutdown

inductive Answer
  | read (r : Except IoError (List UInt8))
  | write (buf : List UInt8) (r : Except IoError ℕ)
  | flush (r : Except IoError Unit)
  | shutdown (r : Except IoError (Poll Unit))

def call (this : TlsStream S) : Call → Answer × TlsStream S
  | .read len => ((this.read len).map .read id)
  | .write buf => ((this.write buf).map (.write buf) id)
  | .flush => (this.flush.map .flush id)
  | .shutdown => (this.shutdown.map .shutdown id)

/-- Any calls, one after the other. -/
def calls (this : TlsStream S) : List Call → List Answer × TlsStream S
  | [] => ([], this)
  | c :: cs =>
    let (r, this) := this.call c
    let (rs, this) := this.calls cs
    (r :: rs, this)

section streams

variable (this : TlsStream S)

theorem completeIo_stream : this.completeIo.2 = this.checkRead.2.checkWrite.2 := by
  rw [completeIo]
  dsimp only
  split <;> rfl

/-- All that a read can leave behind. -/
theorem read_stream (len : ℕ) : (this.read len).2 = this.completeIo.2 ∨
    (this.read len).2 =
      { this.completeIo.2 with session := (Session.read this.completeIo.2.session len).2 } := by
  rw [read]
  dsimp only
  split
  · exact .inl rfl
  · split
    · exact .inl rfl
    · right
      rcases Session.read this.completeIo.2.session len with ⟨e | buf, session⟩
      · rfl
      · dsimp only
        split <;> rfl

/-- All that a write can leave behind. -/
theorem write_stream (buf : List UInt8) :
    (this.write buf).2 = { this with stream := this.stream.shutdown.2 } ∨
    (this.write buf).2 = this ∨ (this.write buf).2 = this.completeIo.2 ∨
    (this.write buf).2 =
      { this.completeIo.2 with session := (Session.write this.completeIo.2.session buf).2 } ∨
    (this.write buf).2 =
      (checkWrite { this.completeIo.2 with
        session := (Session.write this.completeIo.2.session buf).2 }).2 := by
  rw [write]
  split
  · left
    rcases this.stream.shutdown with ⟨_ | _, _⟩ <;> rfl
  right
  split
  · exact .inl rfl
  right
  dsimp only
  split
  · exact .inl rfl
  right
  rcases Session.write this.completeIo.2.session buf with ⟨e | n, session⟩
  · exact .inl rfl
  · right
    dsimp only
    split <;> rfl

/-- All that `AsyncWrite::shutdown` can leave behind. -/
theorem shutdown_stream : this.shutdown.2 = { this with stream := this.stream.shutdown.2 } ∨
    this.shutdown.2 = (completeIo { this with stream := this.stream.shutdown.2 }).2 := by
  rw [shutdown]
  rcases this.stream.shutdown with ⟨_ | _, stream⟩
  · exact .inl rfl
  · right
    dsimp only
    rcases completeIo { this with stream } with ⟨_ | _ | _, _⟩ <;> rfl

end streams

section keeps

variable {this : TlsStream S} {I : S → Prop}

/-- Moving TLS bytes between the socket and the session keeps `I`. -/
structure Moves (I : S → Prop) : Prop where
  readTls : ∀ s r, I s → I (Session.readTls s r)
  processNewPackets : ∀ s, I s → I (Session.processNewPackets s).2
  writeTls : ∀ s w, I s → I (Session.writeTls s w)

theorem readLoop_keeps (hI : Moves I) (rs : List Received) (h : I this.session) :
    I (this.readLoop rs).2.session := by
  induction rs generalizing this with
  | nil =>
    rw [readLoop]
    split
    · exact hI.readTls _ _ h
    · exact h
  | cons r rs ih =>
    rw [readLoop]
    split
    · have hread := hI.readTls this.session r h
      cases r with
      | bytes data hd =>
        -- bytes are processed at once, whether or not the session finds an error in them
        have hproc := hI.processNewPackets _ hread
        dsimp only
        split
        · next heq =>
          rw [heq] at hproc
          exact ih hproc
        · next heq =>
          rw [heq] at hproc
          exact hproc
      | eof => exact hread
      | error e => exact hread
    · exact h

theorem writeLoop_keeps (hI : ∀ s w, I s → I (Session.writeTls s w)) (ws : List (Except IoError ℕ))
    (h : I this.session) : I (this.writeLoop ws).2.session := by
  induction ws generalizing this with
  | nil =>
    rw [writeLoop]
    split
    · exact hI _ _ h
    · exact h
  | cons w ws ih =>
    rw [writeLoop]
    split
    · have hwrite := hI this.session w h
      cases w with
      | ok n => exact ih hwrite
      | error e => exact hwrite
    · exact h

theorem checkRead_keeps (hI : Moves I) (h : I this.session) : I this.checkRead.2.session := by
  rw [checkRead]
  split
  · exact h
  · exact readLoop_keeps hI _ h

theorem checkWrite_keeps (hI : ∀ s w, I s → I (Session.writeTls s w)) (h : I this.session) :
    I this.checkWrite.2.session :=
  writeLoop_keeps hI _ h

/-- Writing touches neither the flag nor what the socket has to read. -/
theorem writeLoop_reads (ws : List (Except IoError ℕ)) : (this.writeLoop ws).2.eof = this.eof ∧
    (this.writeLoop ws).2.stream.reads = this.stream.reads := by
  induction ws generalizing this with
  | nil =>
    rw [writeLoop]
    split
    · exact ⟨rfl, rfl⟩
    · exact ⟨rfl, rfl⟩
  | cons w ws ih =>
    rw [writeLoop]
    split
    · cases w with
      | ok n => exact ih
      | error e => exact ⟨rfl, rfl⟩
    · exact ⟨rfl, rfl⟩

theorem completeIo_keeps (hI : Moves I) (h : I this.session) : I this.completeIo.2.session := by
  rw [this.completeIo_stream]
  exact checkWrite_keeps hI.writeTls (checkRead_keeps hI h)

theorem shutdown_keeps (hI : Moves I) (h : I this.session) : I this.shutdown.2.session := by
  rcases this.shutdown_stream with heq | heq
  · rw [heq]
    exact h
  · rw [heq]
    exact completeIo_keeps hI h

end keeps

end TlsStream

/-- A session without encryption: the bytes it has got and not looked at, the plaintext it has
found so far and still holds, the plaintext it has taken, and how much of that is queued. -/
structure NullCipher where
  received : List UInt8
  decrypted : List UInt8
  buffered : List UInt8
  taken : List UInt8
  queued : ℕ
deriving DecidableEq

instance : Session NullCipher where
  wantsRead s := s.buffered.isEmpty
  wantsWrite s := 0 < s.queued
  isHandshaking _ := false
  readTls s r := match r with
    | .bytes data _ => { s with received := s.received ++ data }
    | _ => s
  writeTls s w := match w with
    | .ok n => { s with queued := s.queued-n }
    | .error _ => s
  processNewPackets s := (.ok (), { s with
    received := [], decrypted := s.decrypted ++ s.received, buffered := s.buffered ++ s.received })
  read s len := (.ok (s.buffered.take len), { s with buffered := s.buffered.drop len })
  write s buf := (.ok buf.length, { s with taken := s.taken ++ buf, queued := s.queued+buf.length })

end Rocks
