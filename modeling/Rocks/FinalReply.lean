import Rocks.NextRequest

/-! What `handle_client` does with an accepted request: the outgoing side, then one final reply. -/
namespace Rocks
open Async Buffer Bytes Segments
open Socks5Connected ClientM

/-- What `resolve_local` finds. -/
def resolution (env : Env) : ReqAddr → Except Error SocketAddr
  | .ip addr => .ok addr
  | .domain name port =>
    match env.resolver name port with
    | .error e => .error (.io e)
    | .ok [] => .error (.fromDescription "Local resolve faiure")
    | .ok (addr :: _) => .ok (.new addr.ip port)

def lookups : ReqAddr → List Event
  | .ip _ => []
  | .domain name port => [.resolved name port]

/-- What the outgoing side asks of the network for a request. -/
def attempts (env : Env) (req : ReqAddr) : List Event :=
  lookups req ++ match resolution env req with
    | .ok addr => [.connected addr]
    | .error _ => []

def dialled (env : Env) (req : ReqAddr) : Except OutgoingError TcpStream :=
  match resolution env req with
  | .error e => .error (.hostUnreachable e)
  | .ok addr =>
    match env.connect addr with
    | .error e => .error (connectError e)
    | .ok () => .ok .remote

theorem dialled_eq_ok {env : Env} {req : ReqAddr} {stream : TcpStream}
    (h : dialled env req = .ok stream) : stream = .remote := by
  unfold dialled at h
  split at h
  · cases h
  · split at h
    · cases h
    · exact (Except.ok.inj h).symm

/-- How the outgoing side ends, the unsupported types included. -/
def outcome (env : Env) (cfg : OutgoingConfig) (req : ReqAddr) : Except OutgoingError TcpStream :=
  match getOutgoing cfg with
  | .error e => .error (.generalFailure e)
  | .ok _ => dialled env req

def tried (env : Env) (cfg : OutgoingConfig) (req : ReqAddr) : List Event :=
  match getOutgoing cfg with
  | .error _ => []
  | .ok _ => attempts env req

/-- The code of the final reply. -/
def reason (env : Env) (cfg : OutgoingConfig) (req : ReqAddr) : Socks5Error :=
  match outcome env cfg req with
  | .error e => getReason e
  | .ok _ => .success

section run

variable {ι : Type} (pull : ℕ → ι → Option (List UInt8) × ι) (env : Env) (w : World ι)

theorem run_resolveLocal (req : ReqAddr) :
    Task.run (handler pull env) (req.resolveLocal.attempt : Io (Except Error SocketAddr)) w =
      (.ok (resolution env req), w.logs (lookups req)) := by
  cases req with
  | ip addr => simp [ReqAddr.resolveLocal, resolution, lookups]
  | domain name port =>
    have hr : handler pull env (.toSocketAddrs name port) w =
      (env.resolver name port, w.logs [.resolved name port]) := rfl
    cases hs : env.resolver name port with
    | error e => simp [ReqAddr.resolveLocal, resolution, lookups, hr, hs]
    | ok sas => cases sas <;> simp [ReqAddr.resolveLocal, resolution, lookups, hr, hs]

theorem run_directOutgoing (o : DirectOutgoing) (req : ReqAddr) :
    Task.run (handler pull env) (o.processRequest req) w =
      (.ok (dialled env req), w.logs (attempts env req)) := by
  have hc : ∀ (addr : SocketAddr) (w : World ι), handler pull env (.connect addr) w =
    ((env.connect addr).map (fun _ => .remote), w.logs [.connected addr]) := fun _ _ => rfl
  simp only [DirectOutgoing.processRequest, Task.run_bind, run_resolveLocal, Task.andThen_ok, dialled,
    attempts]
  cases resolution env req with
  | error e => simp
  | ok addr => cases h : env.connect addr <;> simp [hc, h, Except.map]

theorem run_pAddr (s : TcpStream) :
    Task.run (handler pull env) s.pAddr w = (ofIo (env.peerAddr s) >>= fun a => pure (.fromAddr a), w) := by
  have hp : handler pull env (.peerAddr s) w = (env.peerAddr s, w) := rfl
  cases h : env.peerAddr s <;> simp [TcpStream.pAddr, hp, h]

theorem run_lAddr (s : TcpStream) :
    Task.run (handler pull env) s.lAddr w = (ofIo (env.localAddr s) >>= fun a => pure (.fromAddr a), w) := by
  have hl : handler pull env (.localAddr s) w = (env.localAddr s, w) := rfl
  cases h : env.localAddr s <;> simp [TcpStream.lAddr, hl, h]

/-- `bicopy` starts the relay or fails before it. -/
theorem run_bicopy (incoming outgoing : TcpStream) :
    ∃ r es, Task.run (handler pull env) (bicopy incoming outgoing) w = (r, w.logs es) ∧ r ≠ .panic ∧
      (es = [] ∧ r ≠ .ok () ∨ es = [relayBetween incoming outgoing]) := by
  -- each of the four addresses can fail, in the order in which they are asked for
  cases hp : env.peerAddr incoming with
  | error e => exact ⟨.err (.io e), [], by simp [bicopy, run_pAddr, hp], by simp, by simp⟩
  | ok pi =>
  cases hl : env.localAddr outgoing with
  | error e => exact ⟨.err (.io e), [], by simp [bicopy, run_pAddr, run_lAddr, hp, hl], by simp, by simp⟩
  | ok lo =>
  cases hl' : env.localAddr incoming with
  | error e =>
    exact ⟨.err (.io e), [], by simp [bicopy, run_pAddr, run_lAddr, hp, hl, hl'], by simp, by simp⟩
  | ok li =>
  cases hp' : env.peerAddr outgoing with
  | error e =>
    exact ⟨.err (.io e), [], by simp [bicopy, run_pAddr, run_lAddr, hp, hl, hl', hp'], by simp, by simp⟩
  | ok po =>
  have hj : ∀ a b, handler pull env (.join a b) w = (env.joined, w.logs [.relayed a b]) := fun _ _ => rfl
  have hrun : ∃ r, r ≠ .panic ∧ Task.run (handler pull env) (bicopy incoming outgoing) w =
      (r, w.logs [relayBetween incoming outgoing]) := by
    simp only [bicopy, relayBetween, run_pAddr, run_lAddr, hp, hl, hl', hp', TcpStream.split,
      Task.run_bind, ofIo_ok, Outcome.ok_bind, Outcome.pure_eq, Task.andThen_ok, run_join, hj]
    rcases env.joined with ⟨_ | _, _ | _⟩ <;> simp
  obtain ⟨r, hr, hrun⟩ := hrun
  exact ⟨r, _, hrun, hr, Or.inr rfl⟩

theorem run_sendFinalResponse_fits (err : Socks5Error) {req : ReqAddr} {dest : Destination}
    (hd : req.destination? = some dest) (hf : dest.FitsReply) :
    Task.run (handler pull env) ((sendFinalResponse err req).run held) w =
      holding (written env w (encodeReply err.code dest req.port)) := by
  have hl : dest.encode.length ≤ 256 := by
    rcases dest.encode_length_cases with h | h
    · exact h.2
    · exact absurd hf h.1
  rw [run_sendFinalResponse, finalResponse_eq_encode err req dest hd hl, Task.andThen_ok,
    run_client_writeAll]

/-- `abort` sends its reply as far as it goes and swallows a failed write. -/
theorem run_abort (err : OutgoingError) {req : ReqAddr} {dest : Destination}
    (hd : req.destination? = some dest) (hf : dest.FitsReply) :
    Task.run (handler pull env) (abort held err req) w =
      (.ok (), (written env w (encodeReply (getReason err).code dest req.port)).2) := by
  have hrun := run_sendFinalResponse_fits pull env w (getReason err) hd hf
  rw [StateT.run] at hrun
  rcases hw : written env w (encodeReply (getReason err).code dest req.port) with ⟨_ | _ | _, w'⟩
  · simp [abort, Socks5Connected.abort, StateT.run', hrun, hw]
  · simp [abort, Socks5Connected.abort, StateT.run', hrun, hw]
  · exact absurd (congrArg Prod.fst hw) (written_ne_panic env w _)

section handleClient

variable (debugLog : Bool) (cfg : OutgoingConfig)

theorem run_handleClient_err {e : Error} {w1 : World ι}
    (hn : Task.run (handler pull env) ((nextRequest debugLog).run held) w = (.err e, w1)) :
    Task.run (handler pull env) (handleClient debugLog held cfg) w = (.ok (), w1) := by
  simp [handleClient, hn]

theorem run_handleClient_panic
    (hn : (Task.run (handler pull env) ((nextRequest debugLog).run held) w).1 = .panic) :
    (Task.run (handler pull env) (handleClient debugLog held cfg) w).1 = .panic := by
  generalize hr : Task.run (handler pull env) ((nextRequest debugLog).run held) w = p at hn
  obtain ⟨_, w1⟩ := p
  subst hn
  simp [handleClient, hr]

/-- The final reply to an accepted request. -/
def finalReply (env : Env) (cfg : OutgoingConfig) (req : ReqAddr) (dest : Destination) : List UInt8 :=
  encodeReply (reason env cfg req).code dest req.port

/-- The client after its final reply, as far as its socket takes it. -/
def replyOut (dest : Destination) (req : ReqAddr) : World ι :=
  (written env (w.logs (tried env cfg req)) (finalReply env cfg req dest)).2

/-- An accepted request gets one reply, once the outgoing side has ended. Only a complete
reply that reports success is followed by the relay. -/
theorem run_handleClient_ok {req : ReqAddr} {dest : Destination} {w1 : World ι}
    (hn : Task.run (handler pull env) ((nextRequest debugLog).run held) w = (.ok (req, held), w1))
    (hd : req.destination? = some dest) (hf : dest.FitsReply) :
    ∃ es, Task.run (handler pull env) (handleClient debugLog held cfg) w =
        (.ok (), (replyOut env w1 cfg dest req).logs es) ∧
      (es = [] ∨ es = [relayBetween .client .remote] ∧ outcome env cfg req = .ok .remote ∧
        accepted (w1.room .client) (finalReply env cfg req dest).length =
          (finalReply env cfg req dest).length) := by
  have habort := fun (es : List Event) (err : OutgoingError) =>
    run_abort pull env (w1.logs es) err hd hf
  simp only [handleClient, Task.run_bind, Task.run_attempt, hn, Task.settle_ok, Task.andThen_ok, replyOut,
    finalReply, reason, outcome, tried]
  -- unsupported type, failed outgoing side, reply refused, relay: in this order
  cases hg : getOutgoing cfg with
  | error e => exact ⟨[], by simpa using habort [] (.generalFailure e), Or.inl rfl⟩
  | ok o =>
    simp only [processRequest, Task.run_bind, run_directOutgoing, Task.andThen_ok]
    cases ho : dialled env req with
    | error e => exact ⟨[], by simpa using habort (attempts env req) e, Or.inl rfl⟩
    | ok stream =>
      obtain rfl := dialled_eq_ok ho
      have hready : Task.run (handler pull env) ((readyForConnect req).run held)
          (w1.logs (attempts env req)) = Task.andThen (written env (w1.logs (attempts env req))
            (encodeReply 0 dest req.port)) (fun _ w => (.ok (.client, ⟨none⟩), w)) := by
        simp [readyForConnect, run_sendFinalResponse_fits pull env _ .success hd hf]
        rfl
      -- `ready_for_connect` hands the stream over only if the whole reply was written
      by_cases hroom : accepted (w1.room .client) (encodeReply 0 dest req.port).length =
          (encodeReply 0 dest req.port).length
      · obtain ⟨r, es, hbi, hr, hes⟩ := run_bicopy pull env ((w1.logs (attempts env req)).deliver
          .client (encodeReply 0 dest req.port) (encodeReply 0 dest req.port).length) .client .remote
        refine ⟨es, ?_, hes.imp And.left (fun h => ⟨h, rfl, hroom⟩)⟩
        simp only [Task.run_bind, Task.run_attempt, hready, written, World.logs_room, hroom, ↓reduceIte,
          Task.settle_ok, Task.andThen_ok, hbi, Socks5Error.code]
        cases r with
        | ok | err => rfl
        | panic => exact absurd rfl hr
      · refine ⟨[], ?_, Or.inl rfl⟩
        simp [hready, written, hroom, Socks5Error.code]

end handleClient

end run

theorem parsed_destination (dest : Destination) (port : UInt16) :
    (dest.parsed port).destination? = some dest := by
  cases dest with
  | v4 | v6 => rfl
  | domain name h => simp [Destination.parsed, ReqAddr.destination?, h]

theorem Destination.FitsRequest.fitsReply {dest : Destination} (h : dest.FitsRequest) : dest.FitsReply := by
  cases dest with
  | v4 | v6 => trivial
  | domain name hl =>
    simp only [Destination.FitsRequest] at h
    simp only [Destination.FitsReply]
    omega

/-- A name that was read into the buffer also fits into the reply. -/
theorem fitsReply_of_connect {request rest : List UInt8} {dest : Destination} {port : UInt16}
    (hr : readRequest request = .connect dest port rest) (ho : ¬OversizedName request) :
    dest.FitsReply := by
  obtain ⟨rsv, rfl⟩ := readRequest_eq_connect hr
  rw [oversizedName_encode_iff, not_not] at ho
  exact ho.fitsReply

/-- Lookups and connection attempts, at least one if requests are served at all. -/
def Tried (cfg : OutgoingConfig) (es : List Event) : Prop :=
  (∀ e ∈ es, (∃ name port, e = .resolved name port) ∨ ∃ addr, e = .connected addr) ∧
    (cfg.type = .direct → es ≠ [])

theorem tried_spec (env : Env) (cfg : OutgoingConfig) (req : ReqAddr) :
    Tried cfg (tried env cfg req) := by
  obtain ⟨type⟩ := cfg
  cases type with
  | rocks | ignore => simp [Tried, tried, getOutgoing]
  | direct =>
    cases req with
    | ip addr => simp [Tried, tried, getOutgoing, attempts, lookups, resolution]
    | domain name port =>
      cases h : resolution env (.domain name port) <;>
        simp [Tried, tried, getOutgoing, attempts, lookups, h]

/-- `bs` on its way to the client. -/
def sentToClient (bs : List UInt8) : List Event := bs.map (.sent .client)

@[simp] theorem sentTo_sentToClient (bs : List UInt8) : sentTo .client (sentToClient bs) = bs :=
  sentTo_sent .client bs

theorem sentTo_tried (env : Env) (cfg : OutgoingConfig) (req : ReqAddr) (s : TcpStream) :
    sentTo s (tried env cfg req) = [] := by
  apply sentTo_eq_nil s
  intro e he b hb
  rcases (tried_spec env cfg req).1 e he with ⟨_, _, h⟩ | ⟨_, h⟩ <;> simp [h] at hb

section

variable (env : Env) (debugLog : Bool) (cfg : OutgoingConfig) (w : CutWire)

/-- An accepted client is sent the greeting's answer and one reply. -/
theorem handleClient_sentTo_client {req : ReqAddr} {self : Socks5Connected} {w1 : CutWire}
    (hn : Task.run (cutWire env) ((nextRequest debugLog).run held) w = (.ok (req, self), w1))
    (hroom : w.room .client = none) (htrace : w.trace = []) :
    ∃ dest, sentTo .client (Task.run (cutWire env) (handleClient debugLog held cfg) w).2.trace =
      [5, 0] ++ encodeReply (reason env cfg req).code dest req.port := by
  have hcut := run_cutWire env ((nextRequest debugLog).run held) w
  rw [hn] at hcut
  obtain ⟨rest, dest, port, rest', -, -, hr, ho, rfl, rfl, hw1⟩ :=
    run_nextRequest_eq_ok env debugLog w.uncut hcut
  have hfit := fitsReply_of_connect hr ho
  have hroom1 : w1.room .client = none := by
    have h := congrArg (fun w : Wire => w.room .client) hw1
    simpa [greeted, World.deliver, roomLeft, hroom] using h
  have htrace1 : w1.trace = sentToClient [5, 0] := by
    have h := congrArg World.trace hw1
    simpa [greeted, htrace, sentToClient] using h
  obtain ⟨es, hrun, hes⟩ := run_handleClient_ok pullExact env w debugLog cfg hn
    (parsed_destination dest port) hfit
  -- the relay is one event of the run, not bytes to the client
  have hes0 : sentTo .client es = [] := by rcases hes with rfl | ⟨rfl, -⟩ <;> rfl
  refine ⟨dest, ?_⟩
  have hroom2 : (w1.logs (tried env cfg (dest.parsed port))).room .client = none := hroom1
  simp only [cutWire, hrun, replyOut, finalReply, written_of_none env hroom2, World.logs_trace,
    World.deliver_trace, List.take_length, htrace1, sentTo_append, sentTo_sentToClient, sentTo_tried,
    sentTo_sent, hes0, List.append_nil]

end

end Rocks
