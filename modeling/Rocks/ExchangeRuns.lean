import Rocks.Exchange

/-! A whole client against the exchange: what its server awaits, in every history. -/
namespace Rocks
open Async Buffer Bytes
open Socks5Connected ClientM

section outgoing

variable {cfg : OutgoingConfig}

theorem obeys_perform {q : Exchange} (o : Op) {post : Outcome Error o.Res → Exchange → Prop}
    (hallow : q.Allows cfg o) (h : ∀ r, Exchange.Answers o r → post (.ok r) (q.next o r)) :
    Task.Obeys (exchange cfg) post (perform o) q := by
  rw [perform, Task.obeys_perform]
  exact ⟨hallow, h⟩

/-- How the lookup ends for a request. -/
def ResolveEnd (cfg : OutgoingConfig) (dest : Destination) (port : UInt16) :
    Outcome Error (Except Error SocketAddr) → Exchange → Prop
  | .ok (.ok addr), q =>
    q.Allows cfg (.connect addr) ∧ ∀ answer, q.next (.connect addr) answer = .dialled dest port answer
  | .ok (.error _), q => ∃ answer, q = .resolved dest port answer ∧
      q.Allows cfg (.writeAll .client (encodeReply 4 dest (dest.parsed port).port))
  | _, _ => False

theorem resolveLocal_obeys (hcfg : cfg.type = .direct) {seen : List UInt8} {dest : Destination}
    {port : UInt16} (hread : readRequest seen = .connect dest port []) :
    Task.Obeys (exchange cfg) (ResolveEnd cfg dest port)
      ((dest.parsed port).resolveLocal.attempt : Io (Except Error SocketAddr)) (.chosen seen) := by
  have hserve : ∀ req, dest.parsed port = req → Exchange.Serving cfg seen req :=
    fun req h => ⟨hcfg, dest, port, hread, h⟩
  have hip : ∀ addr, dest.parsed port = .ip addr → Task.Obeys (exchange cfg) (ResolveEnd cfg dest port)
      ((dest.parsed port).resolveLocal.attempt : Io (Except Error SocketAddr)) (.chosen seen) := by
    intro addr h
    rw [h, ReqAddr.resolveLocal, Task.obeys_attempt, Task.obeys_pure]
    refine ⟨hserve _ h, ?_⟩
    intro answer
    simp only [Exchange.next, hread, Exchange.onward]
  cases dest with
  | v4 | v6 => exact hip _ rfl
  | domain name hl =>
    have hnext : ∀ answer, (Exchange.chosen seen).next (.toSocketAddrs name port) answer =
        .resolved (.domain name hl) port answer := by
      intro answer
      simp only [Exchange.next, hread, Exchange.onward]
    rw [Destination.parsed, ReqAddr.resolveLocal, Task.obeys_attempt, Task.obeys_bind]
    apply obeys_perform (.toSocketAddrs name port)
    · exact hserve _ rfl
    intro answer _
    rw [hnext, Task.handsOver_ok, Task.obeys_bind, Task.obeys_lift]
    cases answer with
    | error e => exact ⟨_, rfl, by simp, rfl⟩
    | ok addrs =>
      rw [ofIo_ok, Task.handsOver_ok]
      cases addrs with
      | nil => exact (Task.obeys_throw _).mpr ⟨_, rfl, by simp, rfl⟩
      | cons addr addrs =>
        refine (Task.obeys_pure _).mpr ⟨⟨addr, rfl, rfl⟩, ?_⟩
        intro answer
        rfl

/-- How the outgoing side ends for a request. -/
def DialEnd (cfg : OutgoingConfig) (dest : Destination) (port : UInt16) :
    Outcome Error (Except OutgoingError TcpStream) → Exchange → Prop
  | .ok (.ok stream), q => stream = .remote ∧ q = .dialled dest port (.ok stream)
  | .ok (.error e), q =>
    q.Allows cfg (.writeAll .client (encodeReply (getReason e).code dest (dest.parsed port).port)) ∧
      ∀ buf answer, q.next (.writeAll .client buf) answer = .closed
  | _, _ => False

theorem processRequest_obeys (o : DirectOutgoing) (hcfg : cfg.type = .direct) {seen : List UInt8}
    {dest : Destination} {port : UInt16} (hread : readRequest seen = .connect dest port []) :
    Task.Obeys (exchange cfg) (DialEnd cfg dest port) (o.processRequest (dest.parsed port))
      (.chosen seen) := by
  rw [DirectOutgoing.processRequest, Task.obeys_bind]
  apply (resolveLocal_obeys hcfg hread).mono
  intro r q hr
  cases r with
  | err | panic => exact hr.elim
  | ok resolved =>
    cases resolved with
    | error e =>
      obtain ⟨answer, hq, hallow⟩ := hr
      subst hq
      refine (Task.obeys_pure _).mpr ⟨hallow, ?_⟩
      intro buf answer
      rfl
    | ok addr =>
      obtain ⟨hallow, hnext⟩ := hr
      rw [Task.handsOver_ok, Task.obeys_bind]
      apply obeys_perform (.connect addr) hallow
      intro answer hanswer
      rw [hnext, Task.handsOver_ok]
      cases answer with
      | error e =>
        refine (Task.obeys_pure _).mpr ⟨rfl, ?_⟩
        intro buf answer
        rfl
      | ok stream => exact (Task.obeys_pure _).mpr ⟨hanswer, rfl⟩

end outgoing

section client

variable {cfg : OutgoingConfig} (debugLog : Bool)

theorem bicopy_obeys :
    Task.Obeys (exchange cfg) (fun r q => r ≠ .panic ∧ q = .closed) (bicopy .client .remote) .ready := by
  have hp : ∀ (s : TcpStream) {post : Outcome Error ReqAddr → Exchange → Prop},
      (∀ e, post (.err e) .closed) → (∀ addr, post (.ok addr) .ready) →
      Task.Obeys (exchange cfg) post s.pAddr .ready := by
    intro s post herr hok
    rw [TcpStream.pAddr, Task.obeys_bind]
    apply obeys_perform (.peerAddr s)
    · trivial
    intro answer _
    rw [Task.handsOver_ok, Task.obeys_bind, Task.obeys_lift]
    cases answer with
    | error e => exact herr _
    | ok addr => exact (Task.obeys_pure _).mpr (hok _)
  have hl : ∀ (s : TcpStream) {post : Outcome Error ReqAddr → Exchange → Prop},
      (∀ e, post (.err e) .closed) → (∀ addr, post (.ok addr) .ready) →
      Task.Obeys (exchange cfg) post s.lAddr .ready := by
    intro s post herr hok
    rw [TcpStream.lAddr, Task.obeys_bind]
    apply obeys_perform (.localAddr s)
    · trivial
    intro answer _
    rw [Task.handsOver_ok, Task.obeys_bind, Task.obeys_lift]
    cases answer with
    | error e => exact herr _
    | ok addr => exact (Task.obeys_pure _).mpr (hok _)
  have hfail : ∀ {α : Type} (f : α → Io Unit) (e : Error),
      Task.handsOver (exchange cfg) f (fun r q => r ≠ .panic ∧ q = .closed) (.err e) .closed := by
    intro α f e
    rw [Task.handsOver_err]
    exact ⟨by simp, rfl⟩
  rw [bicopy, Task.obeys_bind]
  refine hp _ (hfail _) ?_
  intro _
  rw [Task.handsOver_ok, Task.obeys_bind]
  refine hl _ (hfail _) ?_
  intro _
  rw [Task.handsOver_ok, Task.obeys_bind]
  refine hl _ (hfail _) ?_
  intro _
  rw [Task.handsOver_ok, Task.obeys_bind]
  refine hp _ (hfail _) ?_
  intro _
  rw [Task.handsOver_ok, Task.obeys_bind]
  apply obeys_perform (.join ⟨⟨.client⟩, ⟨.remote⟩⟩ ⟨⟨.remote⟩, ⟨.client⟩⟩)
  · rfl
  intro answer _
  rw [Task.handsOver_ok]
  rcases answer with ⟨_ | _, _ | _⟩
  · exact (Task.obeys_throw _).mpr ⟨by simp, rfl⟩
  · exact (Task.obeys_throw _).mpr ⟨by simp, rfl⟩
  · exact (Task.obeys_throw _).mpr ⟨by simp, rfl⟩
  · exact (Task.obeys_pure _).mpr ⟨by simp, rfl⟩

/-- How a client ends. -/
def ClientEnd : Outcome Error Unit → Exchange → Prop
  | .ok _, q => q.Final
  | .err _, _ => False
  | .panic, q => q.Panics debugLog

theorem abort_obeys {q : Exchange} {e : OutgoingError} {req : ReqAddr} {dest : Destination}
    (hd : req.destination? = some dest) (hf : dest.FitsReply)
    (hallow : q.Allows cfg (.writeAll .client (encodeReply (getReason e).code dest req.port)))
    (hnext : ∀ answer, q.next (.writeAll .client (encodeReply (getReason e).code dest req.port)) answer =
      .closed) :
    Task.Obeys (exchange cfg) (ClientEnd debugLog) (abort held e req) q := by
  rw [abort, Task.obeys_bind, Task.obeys_attempt, Socks5Connected.abort, StateT.run', Task.obeys_map]
  apply obeys_sendFinalResponse hd hf hallow
  · intro e
    rw [hnext]
    exact (Task.obeys_pure _).mpr trivial
  · rw [hnext, Task.handsOver_ok, Task.obeys_pure]
    exact (Task.obeys_pure _).mpr trivial

theorem nextRequest_obeys :
    Task.Obeys (exchange cfg) (RequestEnd debugLog) ((nextRequest debugLog).run held) (.greeting []) := by
  rw [nextRequest, StateT.run_bind, Task.obeys_bind]
  apply authenticateClient_obeys.mono
  intro r q hr
  cases r with
  | ok p =>
    obtain ⟨⟨⟩, self⟩ := p
    obtain ⟨hself, hq⟩ := hr
    subst hself hq
    rw [Task.handsOver_ok]
    exact getRequest_obeys debugLog
  | err e => exact hr
  | panic => exact hr.elim

/-- The outgoing side first, then the reply, and the relay behind a success reply only. -/
theorem served_obeys (o : DirectOutgoing) (hcfg : cfg.type = .direct) {seen : List UInt8}
    {dest : Destination} {port : UInt16} (hread : readRequest seen = .connect dest port [])
    (hf : dest.FitsReply) :
    Task.Obeys (exchange cfg) (ClientEnd debugLog) (processRequest held o (dest.parsed port))
      (.chosen seen) := by
  have hd := parsed_destination dest port
  rw [processRequest, Task.obeys_bind]
  apply (processRequest_obeys o hcfg hread).mono
  intro r q hr
  cases r with
  | err | panic => exact hr.elim
  | ok dialled =>
    cases dialled with
    | error e =>
      obtain ⟨hallow, hnext⟩ := hr
      rw [Task.handsOver_ok]
      exact abort_obeys debugLog hd hf hallow (hnext _)
    | ok stream =>
      obtain ⟨hstream, hq⟩ := hr
      subst hstream hq
      simp only [Task.handsOver_ok, Task.obeys_bind, Task.obeys_attempt, readyForConnect, StateT.run_bind]
      apply obeys_sendFinalResponse hd hf
      · rfl
      · intro e
        rw [Task.handsOver_err]
        exact (Task.obeys_pure _).mpr trivial
      · rw [Task.handsOver_ok]
        -- the stream is still there to be taken
        refine (Task.obeys_pure _).mpr ?_
        change Task.Obeys (exchange cfg) (ClientEnd debugLog)
          (((bicopy .client .remote).attempt : Io (Except Error Unit)) >>= fun _ => pure ()) .ready
        rw [Task.obeys_bind, Task.obeys_attempt]
        apply (bicopy_obeys).mono
        intro r q h
        obtain ⟨hr, hq⟩ := h
        subst hq
        cases r with
        | ok | err => exact (Task.obeys_pure _).mpr trivial
        | panic => exact absurd rfl hr

theorem handleClient_obeys :
    Task.Obeys (exchange cfg) (ClientEnd debugLog) (handleClient debugLog held cfg) (.greeting []) := by
  rw [handleClient, Task.obeys_bind, Task.obeys_attempt]
  apply (nextRequest_obeys debugLog).mono
  intro r q hr
  cases r with
  | panic => exact hr
  | err e => exact (Task.obeys_pure _).mpr hr
  | ok p =>
    obtain ⟨req, self⟩ := p
    obtain ⟨hself, seen, dest, port, hq, hread, hreq, hf⟩ := hr
    subst hself hq hreq
    simp only [Outcome.attempt, Task.handsOver_ok]
    obtain ⟨type⟩ := cfg
    have hrefuse : type ≠ .direct → Task.Obeys (exchange ⟨type⟩) (ClientEnd debugLog)
        (abort held (.generalFailure (Error.fromDescription "Unsupported outgoing type"))
          (dest.parsed port)) (.chosen seen) := by
      intro ht
      apply abort_obeys debugLog (parsed_destination dest port) hf
      · simp only [Exchange.Allows, hread, Exchange.Refusal]
        exact ⟨ht, rfl⟩
      · intro answer
        cases answer <;> simp only [Exchange.next, hread]
    cases type with
    | direct => exact served_obeys debugLog .mk rfl hread hf
    | rocks | ignore => exact hrefuse (by simp)

end client

end Rocks
