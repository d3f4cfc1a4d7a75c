import Rocks.Contracts
import Rocks.Socks5

/-! The websocket way in: one upgraded connection, one request by the enabled user, one status
byte and then the relay. The codec, the resolver and the peer are the outside. -/
namespace Rocks.Websocket
open Async

/-- `websocket::message::OwnedMessage` -/
inductive OwnedMessage
  | text (text : String)
  | binary (bytes : List UInt8)
  | close
  | ping (bytes : List UInt8)
  | pong (bytes : List UInt8)

structure WebSocketRequest (User : Type) where
  addr : ReqAddr
  user : User

/-- An `Upgrade`, of which `serve_websocket` looks at the protocols that the peer offers. -/
structure Upgrade where
  protocols : List String

inductive WsOp
  | reject
  | accept (protocol : String)
  | intoFuture
  | connectTcpstream (addr : ReqAddr)
  | send (message : List UInt8)
  | copy
deriving DecidableEq

@[reducible] def WsOp.Res (E : Type) : WsOp → Type
  | reject => Except E Unit
  | accept _ => Except E Unit
  | intoFuture => Except E (Option OwnedMessage)
  | connectTcpstream _ => Except (Socks5Error × E) Unit
  | send _ => Except E Unit
  | copy => Except E Unit

/-- The errors of `serve_websocket`: made by `Error::new`, mapped by `map_my_err`, or passed on. -/
inductive WsError (E : Type)
  | new (text : String)
  | mapped (text : String) (e : E)
  | passed (e : E)

abbrev WsIo (E : Type) : Type → Type := Task WsOp (WsOp.Res E) (WsError E)

section

variable {E User : Type}

/-- `.map_my_err(text)?` -/
def mapMyErr {α : Type} (text : String) : Except E α → Outcome (WsError E) α
  | .ok a => .ok a
  | .error e => .err (.mapped text e)

def perform (o : WsOp) : WsIo E (o.Res E) := Task.perform o

variable [DecidableEq User] (parseStr : String → Except E User)
  (deserialize : List UInt8 → Except E (WebSocketRequest User))

/-- The request that an opened connection has sent. -/
def serveRequest (enabledUser : User) (bytes : List UInt8) : WsIo E Unit := do
  let request ← mapMyErr "deserialize" (deserialize bytes)
  if request.user ≠ enabledUser then
    throw (.new "User uuid does not match")
  else
    match ← perform (.connectTcpstream request.addr) with
    | .ok () =>
      mapMyErr "send back" (← perform (.send [Socks5Error.success.code]))
      mapMyErr "ws copy" (← perform .copy)
    | .error (r, e) =>
      mapMyErr "ws connect" (← perform (.send [r.code]))
      throw (.passed e)

def serveWebsocket (upgrade : Except (WsError E) Upgrade) (user : String) : WsIo E Unit := do
  let enabledUser ← mapMyErr "invalid uuid" (parseStr user)
  let upgrade ← Outcome.ofExcept upgrade
  if "rust-websocket" ∉ upgrade.protocols then
    mapMyErr "serve_websocket" (← perform .reject)
  else
    mapMyErr "ws accept" (← perform (.accept "rust-websocket"))
    match ← mapMyErr "into_future" (← perform .intoFuture) with
    | some (.binary bytes) => serveRequest deserialize enabledUser bytes
    | _ => throw (.new "Not processable")

end

/-- How far a connection is. -/
inductive Stage (E : Type)
  | fresh
  | opened
  | heard (message : Option OwnedMessage)
  | dialled (answer : Except (Socks5Error × E) Unit)
  | announced
  | closed

section protocol

variable {E User : Type} (parseStr : String → Except E User)
  (deserialize : List UInt8 → Except E (WebSocketRequest User))
  (upgrade : Except (WsError E) Upgrade) (user : String)

/-- The server is set up, and the peer offers `protocols`. -/
def Offered (protocols : List String) : Prop :=
  (∃ enabledUser, parseStr user = .ok enabledUser) ∧ upgrade = .ok ⟨protocols⟩

/-- The message is a request of the enabled user for `addr`. -/
def Authorised (message : Option OwnedMessage) (addr : ReqAddr) : Prop :=
  ∃ bytes request, message = some (.binary bytes) ∧ deserialize bytes = .ok request ∧
    parseStr user = .ok request.user ∧ request.addr = addr

namespace Stage

def Allows : Stage E → WsOp → Prop
  | fresh, .reject => ∃ protocols, Offered parseStr upgrade user protocols ∧ "rust-websocket" ∉ protocols
  | fresh, .accept protocol => protocol = "rust-websocket" ∧
      ∃ protocols, Offered parseStr upgrade user protocols ∧ "rust-websocket" ∈ protocols
  | opened, .intoFuture => True
  | heard message, .connectTcpstream addr => Authorised parseStr deserialize user message addr
  | dialled (.ok _), .send bytes => bytes = [0]
  | dialled (.error (r, _)), .send bytes => bytes = [r.code]
  | announced, .copy => True
  | _, _ => False

def next : Stage E → (o : WsOp) → o.Res E → Stage E
  | fresh, .accept _, .ok _ => opened
  | opened, .intoFuture, .ok message => heard message
  | heard _, .connectTcpstream _, answer => dialled answer
  | dialled (.ok _), .send _, .ok _ => announced
  | _, _, _ => closed

/-- How a connection may end: a request of the enabled user is never dropped, and `Ok` means that
the peer was rejected or relayed. -/
def Ends : Outcome (WsError E) Unit → Stage E → Prop
  | .err _, fresh => ∀ protocols, ¬Offered parseStr upgrade user protocols
  | .err _, heard message => ∀ addr, ¬Authorised parseStr deserialize user message addr
  | .ok _, closed | .err _, closed => True
  | _, _ => False

end Stage

def websocket : Contract WsOp (WsOp.Res E) (Stage E) where
  allows := Stage.Allows parseStr deserialize upgrade user
  answers := fun _ _ _ => True
  next := Stage.next

variable {parseStr deserialize upgrade user}

theorem obeys_perform {q : Stage E} (o : WsOp)
    {post : Outcome (WsError E) (o.Res E) → Stage E → Prop}
    (hallow : q.Allows parseStr deserialize upgrade user o) (h : ∀ r, post (.ok r) (q.next o r)) :
    Task.Obeys (websocket parseStr deserialize upgrade user) post (perform o) q := by
  rw [perform, Task.obeys_perform]
  exact ⟨hallow, fun r _ => h r⟩

variable [DecidableEq User]

theorem serveRequest_obeys {enabledUser : User} (hu : parseStr user = .ok enabledUser) (bytes : List UInt8) :
    Task.Obeys (websocket parseStr deserialize upgrade user) (Stage.Ends parseStr deserialize upgrade user)
      (serveRequest deserialize enabledUser bytes) (.heard (some (.binary bytes))) := by
  rw [serveRequest, Task.obeys_bind, Task.obeys_lift]
  cases hd : deserialize bytes with
  | error e =>
    intro addr h'
    obtain ⟨bytes', request, hb, hr, _⟩ := h'
    obtain rfl := OwnedMessage.binary.inj (Option.some.inj hb)
    rw [hd] at hr
    cases hr
  | ok request =>
    rw [mapMyErr, Task.handsOver_ok]
    by_cases hm : request.user = enabledUser
    swap
    · rw [if_pos hm]
      refine (Task.obeys_throw _).mpr ?_
      intro addr h'
      obtain ⟨bytes', request', hb, hr, hu', _⟩ := h'
      obtain rfl := OwnedMessage.binary.inj (Option.some.inj hb)
      obtain rfl := Except.ok.inj (hd.symm.trans hr)
      exact hm (Except.ok.inj (hu'.symm.trans hu))
    · rw [if_neg (not_not.mpr hm), Task.obeys_bind]
      apply obeys_perform (.connectTcpstream request.addr)
      · exact ⟨bytes, request, rfl, hd, hm ▸ hu, rfl⟩
      intro answer
      rw [Task.handsOver_ok]
      rcases answer with ⟨r, e⟩ | u
      · rw [Task.obeys_bind]
        apply obeys_perform (.send [r.code])
        · rfl
        intro sent
        rw [Task.handsOver_ok, Task.obeys_bind, Task.obeys_lift]
        cases sent with
        | error e => trivial
        | ok u => exact (Task.obeys_throw _).mpr trivial
      · rw [Task.obeys_bind]
        apply obeys_perform (.send [Socks5Error.success.code])
        · rfl
        intro sent
        rw [Task.handsOver_ok, Task.obeys_bind, Task.obeys_lift]
        cases sent with
        | error e => trivial
        | ok u =>
          rw [mapMyErr, Task.handsOver_ok, Task.obeys_bind]
          apply obeys_perform .copy
          · trivial
          intro copied
          rw [Task.handsOver_ok, Task.obeys_lift]
          cases copied <;> trivial

/-- Whatever the peer sends and the outside answers, the server connects only for a request of the
enabled user, never drops such a request, and relays only behind one status byte of success. -/
theorem serveWebsocket_obeys :
    Task.Obeys (websocket parseStr deserialize upgrade user) (Stage.Ends parseStr deserialize upgrade user)
      (serveWebsocket parseStr deserialize upgrade user) .fresh := by
  rw [serveWebsocket, Task.obeys_bind, Task.obeys_lift]
  cases hu : parseStr user with
  | error e =>
    intro protocols h'
    obtain ⟨⟨enabledUser, h⟩, _⟩ := h'
    rw [hu] at h
    cases h
  | ok enabledUser =>
    rw [mapMyErr, Task.handsOver_ok, Task.obeys_bind, Task.obeys_lift]
    cases hup : upgrade with
    | error e =>
      intro protocols h'
      obtain ⟨_, h⟩ := h'
      cases h
    | ok offer =>
      have hoffered : Offered parseStr (.ok offer) user offer.protocols := ⟨⟨enabledUser, hu⟩, rfl⟩
      rw [Outcome.ofExcept, Task.handsOver_ok]
      by_cases hp : "rust-websocket" ∈ offer.protocols
      swap
      · rw [if_pos hp, Task.obeys_bind]
        apply obeys_perform .reject
        · exact ⟨offer.protocols, hoffered, hp⟩
        intro rejected
        rw [Task.handsOver_ok, Task.obeys_lift]
        cases rejected <;> trivial
      · rw [if_neg (not_not.mpr hp), Task.obeys_bind]
        apply obeys_perform (.accept "rust-websocket")
        · exact ⟨rfl, offer.protocols, hoffered, hp⟩
        intro accepted
        rw [Task.handsOver_ok, Task.obeys_bind, Task.obeys_lift]
        cases accepted with
        | error e => trivial
        | ok u =>
          rw [mapMyErr, Task.handsOver_ok, Task.obeys_bind]
          apply obeys_perform .intoFuture
          · trivial
          intro message
          rw [Task.handsOver_ok, Task.obeys_bind, Task.obeys_lift]
          cases message with
          | error e => trivial
          | ok message =>
            rw [mapMyErr, Task.handsOver_ok]
            have hother : (∀ bytes, message ≠ some (.binary bytes)) →
                Stage.Ends parseStr deserialize (.ok offer) user
                  (.err (.new "Not processable")) (.heard message) := by
              intro hm addr h'
              obtain ⟨bytes, _, hb, _⟩ := h'
              exact hm bytes hb
            cases message with
            | none => exact (Task.obeys_throw _).mpr (hother (by simp))
            | some m =>
              cases m with
              | binary bytes => exact serveRequest_obeys hu bytes
              | text | close | ping | pong => exact (Task.obeys_throw _).mpr (hother (by simp))

abbrev History (E : Type) := List (Σ o : WsOp, o.Res E)

/-- How a history explains the stage that it has led to. -/
structure Explains (parseStr : String → Except E User)
    (deserialize : List UInt8 → Except E (WebSocketRequest User)) (user : String)
    (log : History E) (q : Stage E) : Prop where
  pending : ∀ message, ⟨.intoFuture, .ok message⟩ ∈ log → q = .heard message ∨
    ∃ addr answer, Authorised parseStr deserialize user message addr ∧
      ⟨.connectTcpstream addr, answer⟩ ∈ log
  asked : ∀ addr answer, ⟨.connectTcpstream addr, answer⟩ ∈ log →
    ∃ message, ⟨.intoFuture, .ok message⟩ ∈ log ∧ Authorised parseStr deserialize user message addr
  heard : ∀ message, q = .heard message → ⟨.intoFuture, .ok message⟩ ∈ log
  dialled : q = .dialled (.ok ()) → ∃ addr, ⟨.connectTcpstream addr, .ok ()⟩ ∈ log
  announced : q = .announced →
    ⟨.send [0], .ok ()⟩ ∈ log ∧ ∃ addr, ⟨.connectTcpstream addr, .ok ()⟩ ∈ log
  copied : ∀ answer, ⟨.copy, answer⟩ ∈ log →
    ⟨.send [0], .ok ()⟩ ∈ log ∧ ∃ addr, ⟨.connectTcpstream addr, .ok ()⟩ ∈ log

omit [DecidableEq User] in
theorem explains_nil : Explains parseStr deserialize user [] .fresh := by
  constructor <;> simp

omit [DecidableEq User] in
/-- The step lemma. -/
theorem Explains.concat {log : History E} {q : Stage E} {o : WsOp} (r : o.Res E)
    (h : Explains parseStr deserialize user log q)
    (ho : q.Allows parseStr deserialize upgrade user o) :
    Explains parseStr deserialize user (log ++ [⟨o, r⟩]) (q.next o r) := by
  obtain ⟨hpending, hasked, hheard, hdialled, hannounced, hcopied⟩ := h
  cases q with
  | fresh =>
    cases o with
    | reject =>
      constructor <;> simp only [List.mem_append, List.mem_singleton, Stage.next] <;> grind
    | accept protocol =>
      cases r <;> constructor <;> simp only [List.mem_append, List.mem_singleton, Stage.next] <;> grind
    | intoFuture | connectTcpstream | send | copy => exact ho.elim
  | opened =>
    cases o with
    | intoFuture =>
      cases r <;> constructor <;> simp only [List.mem_append, List.mem_singleton, Stage.next] <;> grind
    | reject | accept | connectTcpstream | send | copy => exact ho.elim
  | heard message =>
    cases o with
    | connectTcpstream addr =>
      -- the only operation that can follow a message
      have hauth : Authorised parseStr deserialize user message addr := ho
      constructor <;> simp only [List.mem_append, List.mem_singleton, Stage.next] <;> grind
    | reject | accept | intoFuture | send | copy => exact ho.elim
  | dialled answer =>
    cases o with
    | send bytes =>
      cases answer with
      | error e =>
        constructor <;> simp only [List.mem_append, List.mem_singleton, Stage.next] <;> grind
      | ok =>
        obtain rfl : bytes = [0] := ho
        cases r <;> constructor <;> simp only [List.mem_append, List.mem_singleton, Stage.next] <;> grind
    | reject | accept | intoFuture | connectTcpstream | copy => cases answer <;> exact ho.elim
  | announced =>
    cases o with
    | copy =>
      constructor <;> simp only [List.mem_append, List.mem_singleton, Stage.next] <;> grind
    | reject | accept | intoFuture | connectTcpstream | send => exact ho.elim
  | closed => cases o <;> exact ho.elim

omit [DecidableEq User] in
/-- The outside may answer anything. -/
theorem honest (log : History E) (q : Stage E) :
    (websocket parseStr deserialize upgrade user).Honest q log := by
  induction log generalizing q with
  | nil => trivial
  | cons e log ih => exact ⟨trivial, ih _⟩

/-- The run lemma. -/
theorem explained {log : History E} {u : WsIo E Unit}
    (hlog : (serveWebsocket parseStr deserialize upgrade user).Leads log u) :
    ∃ q, Explains parseStr deserialize user log q ∧
      u.Obeys (websocket parseStr deserialize upgrade user)
        (Stage.Ends parseStr deserialize upgrade user) q := by
  have hh : (websocket parseStr deserialize upgrade user).Honest .fresh log := honest log .fresh
  obtain ⟨hkept, hu⟩ := Contract.kept_of_obeys serveWebsocket_obeys hlog hh
  refine ⟨_, ?_, hu⟩
  refine Contract.after_keeps (I := Explains parseStr deserialize user) ?_ explains_nil hkept hh
  intro log q o r h ho _
  exact h.concat r ho

/-- In every history that has come to its end, the server has connected to exactly what the peer
has asked for as the enabled user. -/
theorem dials_iff {log : History E} {r : Outcome (WsError E) Unit}
    (hlog : (serveWebsocket parseStr deserialize upgrade user).Leads log (.done r)) (addr : ReqAddr) :
    (∃ answer, ⟨.connectTcpstream addr, answer⟩ ∈ log) ↔ ∃ message,
      ⟨.intoFuture, .ok message⟩ ∈ log ∧ Authorised parseStr deserialize user message addr := by
  obtain ⟨q, h, hend⟩ := explained hlog
  rw [Task.obeys_done] at hend
  constructor
  · rintro ⟨answer, hmem⟩
    exact h.asked addr answer hmem
  · rintro ⟨message, hmem, hauth⟩
    rcases h.pending message hmem with rfl | ⟨addr', answer, hauth', hconn⟩
    · cases r with
      | err e => exact absurd hauth (hend addr)
      | ok | panic => exact hend.elim
    · -- a message is a request for one address
      obtain ⟨bytes, request, hb, hd, -, rfl⟩ := hauth
      obtain ⟨bytes', request', hb', hd', -, rfl⟩ := hauth'
      obtain rfl := OwnedMessage.binary.inj (Option.some.inj (hb.symm.trans hb'))
      obtain rfl := Except.ok.inj (hd.symm.trans hd')
      exact ⟨answer, hconn⟩

/-- The server relays only what the enabled user has asked for, once it is connected and the
peer has been told. -/
theorem relays_for_the_user {log : History E} {u : WsIo E Unit}
    (hlog : (serveWebsocket parseStr deserialize upgrade user).Leads log u) {answer : Except E Unit}
    (hcopy : ⟨.copy, answer⟩ ∈ log) :
    ⟨.send [0], .ok ()⟩ ∈ log ∧ ∃ message addr, ⟨.intoFuture, .ok message⟩ ∈ log ∧
      Authorised parseStr deserialize user message addr ∧ ⟨.connectTcpstream addr, .ok ()⟩ ∈ log := by
  obtain ⟨q, h, -⟩ := explained hlog
  obtain ⟨hsent, addr, hconn⟩ := h.copied answer hcopy
  obtain ⟨message, hmem, hauth⟩ := h.asked addr _ hconn
  exact ⟨hsent, message, addr, hmem, hauth, hconn⟩

end protocol

/-! One connection of the user `00000000-0000-0000-0000-000000000007` to `127.0.0.1:80`, with ids
and requests read as `uuid` and `bincode` read these. -/

def sampleId (text : String) : Except Unit (BitVec 128) :=
  if text = "00000000000000000000000000000007" then .ok 7 else .error ()

def sampleBytes : List UInt8 :=
  [0, 0, 0, 0] ++ [0, 0, 0, 0, 127, 0, 0, 1, 80, 0] ++ [16, 0, 0, 0, 0, 0, 0, 0] ++
    List.replicate 15 0 ++ [7]

def sampleRequest (bytes : List UInt8) : Except Unit (WebSocketRequest (BitVec 128)) :=
  if bytes = sampleBytes then .ok ⟨.ip (.v4 ⟨127, 0, 0, 1⟩ 80), 7⟩ else .error ()

def sampleLog : History Unit :=
  [⟨.accept "rust-websocket", .ok ()⟩, ⟨.intoFuture, .ok (some (.binary sampleBytes))⟩,
    ⟨.connectTcpstream (.ip (.v4 ⟨127, 0, 0, 1⟩ 80)), .ok ()⟩, ⟨.send [0], .ok ()⟩, ⟨.copy, .ok ()⟩]

theorem sampleLog_leads : (serveWebsocket sampleId sampleRequest (.ok ⟨["rust-websocket"]⟩)
    "00000000000000000000000000000007").Leads sampleLog (.done (.ok ())) :=
  .cons _ _ _ _ _ (.cons _ _ _ _ _ (.cons _ _ _ _ _ (.cons _ _ _ _ _ (.cons _ _ _ _ _ (.nil _)))))

theorem dials_iff_sample :
    ∃ message, ⟨.intoFuture, .ok message⟩ ∈ sampleLog ∧ Authorised sampleId sampleRequest
      "00000000000000000000000000000007" message (.ip (.v4 ⟨127, 0, 0, 1⟩ 80)) :=
  (dials_iff sampleLog_leads _).mp ⟨.ok (), by simp [sampleLog]⟩

theorem relays_for_the_user_sample : ⟨.send [0], .ok ()⟩ ∈ sampleLog ∧ ∃ message addr,
    ⟨.intoFuture, .ok message⟩ ∈ sampleLog ∧ Authorised sampleId sampleRequest
      "00000000000000000000000000000007" message addr ∧
        ⟨.connectTcpstream addr, .ok ()⟩ ∈ sampleLog := by
  have hcopy : ⟨.copy, .ok ()⟩ ∈ sampleLog := by simp [sampleLog]
  exact relays_for_the_user sampleLog_leads hcopy

end Rocks.Websocket
