import Rocks.Idle

/-! The two directions of a relay: one whose stream ends and whose target takes everything is
carried over in full, whatever becomes of the other. -/
namespace Rocks
open Async Quiescence Segments
open Socks5Connected ClientM

/-- The stream that a relay copies to `t`. -/
def TcpStream.other : TcpStream → TcpStream
  | .client => .remote
  | .remote => .client

/-- The half of a relay has not failed. -/
def Copy.Unfailed (c : Copy) : Prop := ∀ e, c.result ≠ some (.error e)

section room

variable {env : Env} {α : Type} {n n' : Net} {t : TcpStream}

theorem deliver_room (s : TcpStream) (buf : List UInt8) (hn : (n.sock t).room = none) :
    ((n.deliver s buf).sock t).room = none := by
  have hw := congrFun (congrArg World.room (Net.deliver_wire n s buf)) t
  have hr : n.wire.room t = none := hn
  calc ((n.deliver s buf).sock t).room = (n.deliver s buf).wire.room t := rfl
    _ = (n.wire.deliver s buf buf.length).room t := hw
    _ = none := by
      simp only [World.deliver, Function.update_apply]
      split_ifs with hs
      · rw [← hs, hr]
        rfl
      · exact hr

theorem take_room (s : TcpStream) (k : ℕ) (hn : (n.sock t).room = none) :
    ((n.take s k).sock t).room = none :=
  (Net.modify_keeps Sock.room (by intro; rfl) t).trans hn

theorem copies_room {c c' : Copy} (h : Copies env (n, c) (n', c')) (hn : (n.sock t).room = none) :
    (n'.sock t).room = none := by
  cases h with
  | read => exact take_room _ _ hn
  | write => exact deliver_room _ _ hn
  | readEnd | readError | writeError | done => exact hn

/-- A socket that takes everything goes on taking everything, as long as it is not shut. -/
theorem step_room {a b : Sys α} (h : Step env a b) (hopen : a.phase.KeepsOpen)
    (ha : (a.net.sock t).room = none) : (b.net.sock t).room = none := by
  cases h with
  | arrives p h => exact (congrFun (congrArg World.room (arrives_wire h)) t).trans ha
  | polls h =>
    cases h with
    | read => exact take_room _ _ ha
    | write => exact deliver_room _ _ ha
    | shutdown => cases (Task.awaits_await.mp hopen).1
    | filled | cutOff | written | refused | toSocketAddrs | connect | peerAddr | localAddr => exact ha
  | first _ _ h | second _ _ h => exact copies_room h ha
  | joins | joined | drops => exact ha

theorem copies_unfailed {c c' : Copy} (h : Copies env (n, c) (n', c'))
    (hn : (n.sock c.target).room = none) (he : env.ending c.source = .eof) (hc : c.Unfailed) :
    c'.Unfailed := by
  intro e
  cases h with
  | read | readEnd | write => exact hc e
  | readError _ _ _ _ _ _ _ _ hr =>
    rw [he] at hr
    cases hr
  | writeError _ _ _ _ hr =>
    rw [hn] at hr
    cases hr
  | done => simp

theorem arrives_trace (h : Arrives n n') : n'.trace = n.trace :=
  congrArg World.trace (arrives_wire h)

end room

section clear

variable {env : Env} {α : Type} {t : TcpStream} {F : Outcome Error α × Wire}

/-- If the run that ends in `F` has a relay, then all that it is to carry to `t` has been
delivered. -/
def Carried (F : Outcome Error α × Wire) (t : TcpStream) (n : Net) : Prop :=
  ∀ w a b, F.2 = World.log w (.relayed a b) → n.delivered t = sentTo t w.trace ++ w.input t.other

/-- What a phase can show when nothing goes wrong on the way to `t`. -/
def Phase.Clear (F : Outcome Error α × Wire) (t : TcpStream) (n : Net) : Phase α → Prop
  | .awaiting (.done _) => Carried F t n
  | .awaiting (.await _ _) => True
  | .joining c d _ => (c.target = t → c.Unfailed) ∧ (d.target = t → d.Unfailed)

theorem Phase.Clear.of_trace {n n' : Net} {p : Phase α} (hp : p.Clear F t n)
    (h : n'.trace = n.trace) : p.Clear F t n' := by
  cases p with
  | joining => exact hp
  | awaiting task =>
    cases task with
    | await => trivial
    | done r =>
      intro w a b hF
      rw [Net.delivered, h]
      exact hp w a b hF

/-- A half that rests and has not failed has carried all that there is. -/
theorem carried_of_rests {n : Net} {c : Copy} {w : Wire} (hc : CopyInv env w n c) (hr : c.Rests n)
    (hu : c.Unfailed) : n.delivered c.target = sentTo c.target w.trace ++ w.input c.source := by
  rcases hr with hr | ⟨hbuf, hun⟩
  · obtain ⟨r, hr⟩ := Option.ne_none_iff_exists'.mp hr
    cases r with
    | ok k => exact (copied_all hc hr).1
    | error e => exact absurd hr (hu e)
  · obtain ⟨bytes, h1, h2⟩ := hc.data
    rw [h1, h2, hbuf, hun, List.append_nil, List.append_nil]

/-- So the half of a crossed relay that writes to `t` has, if both rest. -/
theorem carried_of_relay (hX : Crossed F) {n : Net} {c d : Copy} {w : Wire}
    (hF : F.2 = w.log (.relayed c.args d.args)) (hc : CopyInv env w n c) (hd : CopyInv env w n d)
    (hr : c.Rests n) (hr' : d.Rests n)
    (hu : (c.target = t → c.Unfailed) ∧ (d.target = t → d.Unfailed)) : Carried F t n := by
  intro w2 a b hF2
  obtain ⟨rfl, -⟩ := World.log_inj (hF.symm.trans hF2)
  have hrel := relaying_of_crossed (hX w _ _ hF) hc hd
  cases t with
  | remote =>
    have hup := carried_of_rests hc hr (hu.1 hrel.up.2)
    rwa [hrel.up.1, hrel.up.2] at hup
  | client =>
    have hdown := carried_of_rests hd hr' (hu.2 hrel.down.2)
    rwa [hrel.down.1, hrel.down.2] at hdown

theorem crossed_other (hX : Crossed F) {w : Wire} {c d : Copy}
    (hF : F.2 = w.log (.relayed c.args d.args)) :
    c.source = c.target.other ∧ d.source = d.target.other := by
  have h := hX w _ _ hF
  simp only [relayBetween, Event.relayed.injEq] at h
  simp [Copy.source, Copy.target, TcpStream.other, h]

/-- The half that writes to `t` does not fail at its own steps. -/
theorem clear_half {n n' : Net} {c c' : Copy} (h : Copies env (n, c) (n', c'))
    (hs : c.source = c.target.other) (hn : (n.sock t).room = none) (he : env.ending t.other = .eof)
    (hc : c.target = t → c.Unfailed) : c'.target = t → c'.Unfailed := by
  intro ht
  have ht' : c.target = t := (congrArg (fun a : CopyArgs => a.writer.of) (copies_args h)).symm.trans ht
  apply copies_unfailed h
  · rw [ht', hn]
  · rw [hs, ht', he]
  · exact hc ht'

/-- A run that adds nothing to what has happened before any relay shows none in `F`. -/
theorem carried_of_before {n : Net} (hF : F.2.trace = n.trace)
    (hn : ∀ c d, Event.relayed c d ∉ n.trace) : Carried F t n := by
  intro w a b hrelayed
  rw [hrelayed, World.log_trace] at hF
  exact absurd (by rw [← hF]; simp) (hn a b)

theorem trace_of_done {n : Net} {r : Outcome Error α}
    (hrun : (Task.done r : Io α).run (wire env) n.wire = F) : F.2.trace = n.trace := by
  rw [← hrun]
  rfl

/-- A served client on whose way to `t` nothing fails. -/
structure Clear (env : Env) (g : Except IoError ℕ × Except IoError ℕ → Outcome Error α)
    (F : Outcome Error α × Wire) (t : TcpStream) (s : Sys α) : Prop where
  running : Running env g F s
  keepsOpen : s.phase.KeepsOpen
  givesUp : s.phase.GivesUp
  room : (s.net.sock t).room = none
  relayless : ∀ c d, Event.relayed c d ∉ s.net.trace
  phase : s.phase.Clear F t s.net

variable {g : Except IoError ℕ × Except IoError ℕ → Outcome Error α}

/-- The step lemma: a half that fails is the one that writes to the other socket. -/
theorem clear_step (hX : Crossed F) (he : env.ending t.other = .eof) {a b : Sys α}
    (ha : Clear env g F t a) (h : Step env a b) : Clear env g F t b := by
  have hrun := running_step env g F hX ha.running h
  have hrel := step_relayless h ha.relayless
  refine ⟨hrun, step_keepsOpen h ha.keepsOpen, step_givesUp h ha.givesUp,
    step_room h ha.keepsOpen ha.room, hrel, ?_⟩
  cases h with
  | arrives p harr => exact ha.phase.of_trace (arrives_trace harr)
  | @polls n n' u u' hpoll =>
    cases u' with
    | await => trivial
    | done r =>
      cases ha.running with
      | before _ _ hF => exact carried_of_before (trace_of_done ((polls_run hpoll).trans hF)) hrel
      | after => cases hpoll
  | joins => exact ⟨fun _ e => by simp [Copy.new], fun _ e => by simp [Copy.new]⟩
  | first d k hcopy =>
    cases ha.running with
    | during n c d k w hF hc hd hk =>
      exact ⟨clear_half hcopy (crossed_other hX hF).1 ha.room he ha.phase.1, ha.phase.2⟩
  | second c k hcopy =>
    cases ha.running with
    | during n c d k w hF hc hd hk =>
      exact ⟨ha.phase.1, clear_half hcopy (crossed_other hX hF).2 ha.room he ha.phase.2⟩
  | joined n c d k hr hr' =>
    cases ha.running with
    | during n c d k w hF hc hd hk =>
      rw [hk]
      exact carried_of_relay hX hF hc hd (Or.inl (by simp [hr])) (Or.inl (by simp [hr'])) ha.phase
  | drops n r => exact ha.phase.of_trace rfl

/-- The run lemma. -/
theorem clear_of_reaches (hX : Crossed F) (he : env.ending t.other = .eof) {n : Net} {u : Io α}
    {sys : Sys α} (hrun : u.run (wire env) n.wire = F) (hu : u.EndsWith (relayLast g))
    (hopen : KeepsOpen u) (hgives : u.EndsOn ReadFails (fun _ => True)) (hroom : (n.sock t).room = none)
    (htrace : n.trace = []) (h : Reaches env ⟨n, .awaiting u⟩ sys) : Clear env g F t sys := by
  have hrel : ∀ c d, Event.relayed c d ∉ n.trace := by simp [htrace]
  apply keeps_of_reaches (fun a b hstep ha => clear_step hX he ha hstep) h
  refine ⟨.before n u hrun hu, hopen, hgives, hroom, hrel, ?_⟩
  cases u with
  | done r => exact carried_of_before (trace_of_done hrun) hrel
  | await => trivial

/-- An idle client has carried to `t` all that there is. -/
theorem carried_of_idle (hX : Crossed F) {s : Sys α} (hs : Clear env g F t s) (hq : Idle env s) :
    Carried F t s.net := by
  cases hs.running with
  | before n u hrun =>
    cases u with
    | done r => exact carried_of_before (trace_of_done hrun) hs.relayless
    | await o k =>
      obtain ⟨i, len, rfl, h0, ha, -⟩ := idle_awaiting hq
      have htrace := run_of_reading env hs.givesUp h0 (unread_of_idle hq ha)
      rw [hrun] at htrace
      exact carried_of_before htrace hs.relayless
  | during n c d k w hF hc hd =>
    obtain ⟨hwait, hwait', -⟩ := idle_joining hq
    exact carried_of_relay hX hF hc hd (rests_of_idle hq hwait) (rests_of_idle hq hwait') hs.phase
  | after => exact hs.phase

end clear

section full

variable (env : Env) (debugLog : Bool) (cfg : OutgoingConfig)

/-- Both sockets can tell their addresses. -/
def Env.Named (env : Env) : Prop :=
  ∀ s, (∃ addr, env.peerAddr s = .ok addr) ∧ ∃ addr, env.localAddr s = .ok addr

theorem run_bicopy_named {env : Env} (hnames : env.Named) (w : Wire) (incoming outgoing : TcpStream) :
    ∃ r, Task.run (wire env) ((bicopy incoming outgoing).attempt : Io (Except Error Unit)) w =
      (.ok r, w.logs [relayBetween incoming outgoing]) := by
  obtain ⟨⟨pi, hp⟩, li, hl⟩ := hnames incoming
  obtain ⟨⟨po, hp'⟩, lo, hl'⟩ := hnames outgoing
  have hj : ∀ a b, wire env (.join a b) w = (env.joined, w.logs [.relayed a b]) := fun _ _ => rfl
  simp only [bicopy, relayBetween, Task.run_attempt, run_pAddr, run_lAddr, hp, hl, hp', hl',
    TcpStream.split, Task.run_bind, ofIo_ok, Outcome.ok_bind, Outcome.pure_eq, Task.andThen_ok, run_join, hj]
  rcases env.joined with ⟨_ | _, _ | _⟩ <;> simp

/-- The whole reply goes out. -/
abbrev Fits (room : Option ℕ) (reply : List UInt8) : Prop := accepted room reply.length = reply.length

theorem run_readyForConnect {req : ReqAddr} {dest : Destination} (hd : req.destination? = some dest)
    (hf : dest.FitsReply) {w : Wire} (hfit : Fits (w.room .client) (encodeReply 0 dest req.port)) :
    Task.run (wire env) ((readyForConnect req).run held) w =
      (.ok (.client, ⟨none⟩), w.deliver .client (encodeReply 0 dest req.port)
        (encodeReply 0 dest req.port).length) := by
  have hrun := run_sendFinalResponse_fits takeExact env w .success hd hf
  have hwritten : written env w (encodeReply 0 dest req.port) =
      (.ok (), w.deliver .client (encodeReply 0 dest req.port) (encodeReply 0 dest req.port).length) :=
    (written_eq_ok_iff env w _ _).mpr ⟨hfit, rfl⟩
  have hcode : Socks5Error.success.code = 0 := rfl
  rw [hcode, hwritten] at hrun
  simp only [readyForConnect, StateT.run_bind, Task.run_bind, wire, hrun, Task.andThen_ok]
  rfl

/-- With named sockets, a successful connection is relayed as soon as the reply is out. -/
theorem run_handleClient_relays {env : Env} (hnames : env.Named) {w w1 : Wire} {req : ReqAddr}
    {dest : Destination} (hn : Task.run (wire env) ((nextRequest debugLog).run held) w =
      (.ok (req, held), w1)) (hfit : Fits (w1.room .client) (encodeReply 0 dest req.port))
    (hd : req.destination? = some dest) (hf : dest.FitsReply) {stream : TcpStream}
    (ho : outcome env cfg req = .ok stream) :
    ∃ w2, (Task.run (wire env) (handleClient debugLog held cfg) w).2 =
      World.logs w2 [relayBetween .client .remote] := by
  cases hg : getOutgoing cfg with
  | error e =>
    simp only [outcome, hg] at ho
    cases ho
  | ok o =>
    simp only [outcome, hg] at ho
    obtain rfl := dialled_eq_ok ho
    have hfit' : Fits ((w1.logs (attempts env req)).room .client) (encodeReply 0 dest req.port) := hfit
    have hready := run_readyForConnect env hd hf hfit'
    obtain ⟨r, hbi⟩ := run_bicopy_named hnames ((w1.logs (attempts env req)).deliver .client
      (encodeReply 0 dest req.port) (encodeReply 0 dest req.port).length) .client .remote
    have hdial := run_directOutgoing takeExact env w1 o req
    rw [ho] at hdial
    refine ⟨(w1.logs (attempts env req)).deliver .client (encodeReply 0 dest req.port)
      (encodeReply 0 dest req.port).length, ?_⟩
    simp only [handleClient, processRequest, Task.run_bind, Task.run_attempt, hn, Task.settle_ok,
      Task.andThen_ok, hg, wire, hdial, hready]
    rw [Task.run_attempt] at hbi
    simp only [wire] at hbi
    rw [hbi]
    rfl

section accepted

variable {env} {debugLog} {w w1 : Wire} {req : ReqAddr} {self : Socks5Connected}
  (hn : Task.run (wire env) ((nextRequest debugLog).run held) w = (.ok (req, self), w1))

include hn

theorem nextRequest_held : Task.run (wire env) ((nextRequest debugLog).run held) w = (.ok (req, held), w1) := by
  obtain ⟨_, _, _, _, -, -, -, -, -, rfl, -⟩ := run_nextRequest_eq_ok env debugLog w hn
  exact hn

theorem nextRequest_room : w1.room .client = roomLeft (w.room .client) 2 := by
  obtain ⟨_, _, _, _, -, -, -, -, -, -, rfl⟩ := run_nextRequest_eq_ok env debugLog w hn
  simp [greeted, World.deliver]

theorem nextRequest_fitsReply {dest : Destination} (hd : req.destination? = some dest) : dest.FitsReply := by
  obtain ⟨_, dest', port, _, -, -, hr, ho, rfl, -, -⟩ := run_nextRequest_eq_ok env debugLog w hn
  obtain rfl : dest' = dest := Option.some.inj ((parsed_destination dest' port).symm.trans hd)
  exact fitsReply_of_connect hr ho

end accepted

variable (streams : TcpStream → List UInt8) (room : TcpStream → Option ℕ)

section rest

variable {streams room} {req : ReqAddr} {self : Socks5Connected} {w1 : Wire} {dest : Destination}
  {payload : List UInt8} {w' : Wire} {es : List Event}

theorem finalReply_of_ok {stream : TcpStream} (ho : outcome env cfg req = .ok stream) :
    finalReply env cfg req dest = encodeReply 0 dest req.port := by
  simp [finalReply, reason, ho, Socks5Error.code]

/-- The one run of a client that is connected and told so has its relay. -/
theorem served_relays (hnames : env.Named)
    (hn : Task.run (wire env) ((nextRequest debugLog).run held) ⟨streams, room, []⟩ =
      (.ok (req, self), w1)) (hs : Served env cfg ⟨streams, room, []⟩ req dest payload w')
    (hrun : Task.run (wire env) (handleClient debugLog held cfg) ⟨streams, room, []⟩ =
      (.ok (), w'.logs es)) (hes : es = [] ∨ es = [relayBetween .client .remote])
    (hfit : Fits (roomLeft (room .client) 2) (encodeReply 0 dest req.port)) {stream : TcpStream}
    (ho : outcome env cfg req = .ok stream) : es = [relayBetween .client .remote] := by
  rcases hes with rfl | rfl
  · have hfit' : Fits (w1.room .client) (encodeReply 0 dest req.port) := by
      rw [nextRequest_room hn]
      exact hfit
    obtain ⟨w2, hw2⟩ := run_handleClient_relays debugLog cfg hnames (nextRequest_held hn) hfit'
      hs.destination (nextRequest_fitsReply hn hs.destination) ho
    rw [hrun, World.logs_nil] at hw2
    have hw : w' = w2.logs [relayBetween .client .remote] := hw2
    exact absurd (by rw [hw]; simp [relayBetween])
      (hs.relayless ⟨⟨.client⟩, ⟨.remote⟩⟩ ⟨⟨.remote⟩, ⟨.client⟩⟩)
  · rfl

/-- What a way on which nothing fails has delivered when the client is idle. -/
theorem delivered_when_idle (hs : Served env cfg ⟨streams, room, []⟩ req dest payload w')
    (hrun : Task.run (wire env) (handleClient debugLog held cfg) ⟨streams, room, []⟩ =
      (.ok (), w'.logs [relayBetween .client .remote])) {sys : Sys Unit}
    (hreach : Serves env debugLog cfg streams room sys) (hq : Idle env sys) {t : TcpStream}
    (hroom : room t = none) (he : env.ending t.other = .eof) :
    sys.net.delivered t = sentTo t w'.trace ++ w'.input t.other := by
  have hX : Crossed ((.ok (), w'.logs [relayBetween .client .remote]) : Outcome Error Unit × Wire) :=
    fun w2 a b h => (served_crossed hs (Or.inr rfl) h).2.2
  have hrun' : Task.run (wire env) (handleClient debugLog held cfg) (Net.fresh streams room).wire =
      (.ok (), w'.logs [relayBetween .client .remote]) := by
    rw [fresh_wire]
    exact hrun
  have hclear := clear_of_reaches hX he hrun' (handleClient_endsWith debugLog held cfg)
    (handleClient_keepsOpen debugLog held cfg) (handleClient_givesUp debugLog held cfg) hroom rfl hreach
  exact carried_of_idle hX hclear hq w' _ _ rfl

end rest

/-- A direction of the relay fails alone: once the client has been told of success, and where both
sockets can tell their addresses, a way whose source ends its stream and whose target takes
everything is carried over in full, whatever becomes of the other way. -/
theorem directions_fail_alone {req : ReqAddr} {self : Socks5Connected} {w1 : Wire} (hnames : env.Named)
    (hn : Task.run (wire env) ((nextRequest debugLog).run held) ⟨streams, room, []⟩ =
      (.ok (req, self), w1)) {stream : TcpStream} (ho : outcome env cfg req = .ok stream) :
    ∃ dest, req.destination? = some dest ∧
      (Fits (roomLeft (room .client) 2) (encodeReply 0 dest req.port) →
        ∀ sys, Serves env debugLog cfg streams room sys → Quiet (Step env) sys →
          (room .client = none → env.ending .remote = .eof → sys.net.delivered .client =
            [5, 0] ++ encodeReply 0 dest req.port ++ streams .remote) ∧
          (room .remote = none → env.ending .client = .eof →
            sys.net.delivered .remote = w1.input .client)) := by
  obtain ⟨dest, w', es, hs, hrun, hes⟩ :=
    run_handleClient_served env debugLog cfg ⟨streams, room, []⟩ hn rfl
  refine ⟨dest, hs.destination, ?_⟩
  intro hfit sys hreach hq
  obtain rfl := served_relays env debugLog cfg hnames hn hs hrun (hes.imp_right And.left) hfit ho
  have hrest := fun t => delivered_when_idle env debugLog cfg hs hrun hreach (idle_of_quiet hq) (t := t)
  constructor
  · intro hroom he
    have hreplied := hs.replied
    rw [finalReply_of_ok env cfg ho, hfit, List.take_length] at hreplied
    have hremote : w'.input TcpStream.client.other = streams .remote := hs.remote
    rw [hrest .client hroom he, hreplied, hremote]
  · intro hroom he
    have hclient : w'.input TcpStream.remote.other = w1.input .client := hs.client
    rw [hrest .remote hroom he, hs.silent, List.nil_append, hclient]

/-- The remote takes one byte only, and the connection of the client breaks behind its request. -/
def abandoned : Env :=
  { named with ending := fun
    | .client => .reset (.simple .connectionReset "connection reset")
    | .remote => .eof }

/-- The answer of the remote still comes through in full. -/
theorem directions_fail_alone_v6 :
    ∃ dest, (ReqAddr.ip (.v6 ⟨0, 0, 0, 0, 0, 0, 0, 1⟩ 80 0 0)).destination? = some dest ∧
      ∀ sys, Serves abandoned false ⟨.direct⟩ (fun
        | .client => encodeHello [0] 0 (.v6 ⟨0, 0, 0, 0, 0, 0, 0, 1⟩) 80 ++ [71, 69, 84]
        | .remote => [52, 48, 52]) (fun
        | .client => none
        | .remote => some 1) sys → Quiet (Step abandoned) sys →
        sys.net.delivered .client = [5, 0] ++ encodeReply 0 dest 80 ++ [52, 48, 52] := by
  have hrun : (Task.run (wire abandoned) ((nextRequest false).run held) ⟨(fun
      | .client => encodeHello [0] 0 (.v6 ⟨0, 0, 0, 0, 0, 0, 0, 1⟩) 80 ++ [71, 69, 84]
      | .remote => [52, 48, 52]), (fun
      | .client => none
      | .remote => some 1), []⟩).1 =
        .ok (.ip (.v6 ⟨0, 0, 0, 0, 0, 0, 0, 1⟩ 80 0 0), held) := by decide +kernel
  have hnames : abandoned.Named := fun _ => ⟨⟨_, rfl⟩, _, rfl⟩
  have ho : outcome abandoned ⟨.direct⟩ (.ip (.v6 ⟨0, 0, 0, 0, 0, 0, 0, 1⟩ 80 0 0)) = .ok .remote := by rfl
  obtain ⟨dest, hdest, hall⟩ :=
    directions_fail_alone abandoned false ⟨.direct⟩ _ _ hnames (Task.eq_of_fst hrun) ho
  refine ⟨dest, hdest, ?_⟩
  intro sys hreach hq
  exact (hall rfl sys hreach hq).1 rfl rfl

section full

variable {streams} {req : ReqAddr} {self : Socks5Connected} {w1 : Wire} {dest : Destination}
  {payload : List UInt8} {w' : Wire} {es : List Event}
  (hn : Task.run (wire env) ((nextRequest debugLog).run held) ⟨streams, fun _ => none, []⟩ =
    (.ok (req, self), w1))
  (hs : Served env cfg ⟨streams, fun _ => none, []⟩ req dest payload w')
  (hrun : Task.run (wire env) (handleClient debugLog held cfg) ⟨streams, fun _ => none, []⟩ =
    (.ok (), w'.logs es))

include hs in
/-- A client whose socket takes everything gets its reply as a whole. -/
theorem replied_in_full : sentTo .client w'.trace = [5, 0] ++ finalReply env cfg req dest := by
  rw [hs.replied]
  simp [roomLeft, accepted]

include hn hs hrun in
/-- Once the outgoing side is reached, both directions are carried to their ends. -/
theorem full_of_ok (hnames : env.Named) (he : ∀ s, env.ending s = .eof)
    (hes : es = [] ∨ es = [relayBetween .client .remote]) {stream : TcpStream}
    (hout : outcome env cfg req = .ok stream) {sys : Sys Unit}
    (hreach : Serves env debugLog cfg streams (fun _ => none) sys) (hq : Idle env sys) :
    sys.net.delivered .client = [5, 0] ++ encodeReply 0 dest req.port ++ streams .remote ∧
      sys.net.delivered .remote = payload := by
  obtain rfl := served_relays env debugLog cfg hnames hn hs hrun hes rfl hout
  have hdown := delivered_when_idle env debugLog cfg hs hrun hreach hq (t := .client) rfl (he _)
  have hup := delivered_when_idle env debugLog cfg hs hrun hreach hq (t := .remote) rfl (he _)
  rw [replied_in_full env cfg hs, finalReply_of_ok env cfg hout] at hdown
  rw [hs.silent, List.nil_append] at hup
  exact ⟨hdown.trans (congrArg _ hs.remote), hup.trans hs.client⟩

include hs hrun in
/-- If it is not, the one run ends without a relay, and all that goes out is the error reply. -/
theorem full_of_error (hes : es = [] ∨ es = [relayBetween .client .remote] ∧
      outcome env cfg req = .ok .remote) {e : OutgoingError}
    (hout : outcome env cfg req = .error e) {sys : Sys Unit}
    (hreach : Serves env debugLog cfg streams (fun _ => none) sys) (hq : Idle env sys) :
    sys.net.delivered .client = [5, 0] ++ encodeReply (getReason e).code dest req.port ∧
      sys.net.delivered .remote = [] := by
  obtain rfl : es = [] := by
    rcases hes with h | ⟨-, hok⟩
    · exact h
    · rw [hout] at hok
      cases hok
  rw [World.logs_nil] at hrun
  have hX : Crossed ((.ok (), w') : Outcome Error Unit × Wire) := by
    intro w a b h
    have hw : w' = w.log (.relayed a b) := h
    exact absurd (by rw [hw]; simp) (hs.relayless a b)
  have hrun' : Task.run (wire env) (handleClient debugLog held cfg) (Net.fresh streams (fun _ => none)).wire =
      (.ok (), w') := by
    rw [fresh_wire]
    exact hrun
  have hrunning := running_of_reaches env (fun _ => .ok ()) _ hX hrun'
    (handleClient_endsWith debugLog held cfg) hreach
  have hreply : finalReply env cfg req dest = encodeReply (getReason e).code dest req.port := by
    simp [finalReply, reason, hout]
  have hgives : sys.phase.GivesUp :=
    givesUp_of_reaches hreach (handleClient_givesUp debugLog held cfg)
  have hlate : ∀ {w : Wire} {c d : Copy}, w' ≠ w.log (.relayed c.args d.args) := by
    intro w c d hw
    exact absurd (by rw [hw]; simp) (hs.relayless c.args d.args)
  have htrace : sys.net.trace = w'.trace := by
    cases hrunning with
    | before n u hF =>
      cases u with
      | done r => exact (trace_of_done hF).symm
      | await o k =>
        obtain ⟨i, len, rfl, h0, ha, -⟩ := idle_awaiting hq
        have hread := run_of_reading env hgives h0 (unread_of_idle hq ha)
        rw [hF] at hread
        exact hread.symm
    | during n c d k w hF => exact absurd hF hlate
    | after n c d r r' w hF => exact absurd hF hlate
  simp only [Net.delivered, htrace, replied_in_full env cfg hs, hreply, hs.silent, and_self]

end full

/-- Between peers that are not cut off and sockets that take everything at once, a client whose
request is accepted has got all that there is for it whenever it is idle. -/
theorem full_when_idle {req : ReqAddr} {self : Socks5Connected} {w1 : Wire} (hnames : env.Named)
    (he : ∀ s, env.ending s = .eof)
    (hn : Task.run (wire env) ((nextRequest debugLog).run held) ⟨streams, fun _ => none, []⟩ =
      (.ok (req, self), w1)) :
    ∃ dest, req.destination? = some dest ∧
      ∀ sys, Serves env debugLog cfg streams (fun _ => none) sys → Idle env sys →
        match outcome env cfg req with
        | .ok _ => sys.net.delivered .client = [5, 0] ++ encodeReply 0 dest req.port ++ streams .remote ∧
            sys.net.delivered .remote = w1.input .client
        | .error e => sys.net.delivered .client =
              [5, 0] ++ encodeReply (getReason e).code dest req.port ∧
            sys.net.delivered .remote = [] := by
  obtain ⟨dest, w', es, hs, hrun, hes⟩ :=
    run_handleClient_served env debugLog cfg ⟨streams, fun _ => none, []⟩ hn rfl
  refine ⟨dest, hs.destination, ?_⟩
  intro sys hreach hq
  cases hout : outcome env cfg req with
  | ok stream =>
    exact full_of_ok env debugLog cfg hn hs hrun hnames he (hes.imp_right And.left) hout hreach hq
  | error e =>
    have hes' := hes.imp_right (fun h => And.intro h.1 h.2.1)
    exact full_of_error env debugLog cfg hs hrun hes' hout hreach hq

/-- Between peers that close in the end and sockets that take everything at once, a client whose
request is accepted is served in full: at rest, both directions have carried every byte if the
outgoing side was reached, and nothing but the error reply has gone out if it was not. -/
theorem served_in_full {req : ReqAddr} {self : Socks5Connected} {w1 : Wire} (hnames : env.Named)
    (he : ∀ s, env.ending s = .eof)
    (hn : Task.run (wire env) ((nextRequest debugLog).run held) ⟨streams, fun _ => none, []⟩ =
      (.ok (req, self), w1)) :
    ∃ dest, req.destination? = some dest ∧
      ∀ sys, Serves env debugLog cfg streams (fun _ => none) sys → Quiet (Step env) sys →
        match outcome env cfg req with
        | .ok _ => sys.net.delivered .client = [5, 0] ++ encodeReply 0 dest req.port ++ streams .remote ∧
            sys.net.delivered .remote = w1.input .client
        | .error e => sys.net.delivered .client =
              [5, 0] ++ encodeReply (getReason e).code dest req.port ∧
            sys.net.delivered .remote = [] := by
  obtain ⟨dest, hdest, hfull⟩ := full_when_idle env debugLog cfg streams hnames he hn
  exact ⟨dest, hdest, fun sys hreach hq => hfull sys hreach (idle_of_quiet hq)⟩

/-- Three bytes behind the request and one byte of answer, each way in full. -/
theorem served_in_full_v6 : ∃ dest, (ReqAddr.ip (.v6 ⟨0, 0, 0, 0, 0, 0, 0, 1⟩ 80 0 0)).destination? = some dest ∧
    ∀ sys, Serves named false ⟨.direct⟩ (fun
      | .client => encodeHello [0] 0 (.v6 ⟨0, 0, 0, 0, 0, 0, 0, 1⟩) 80 ++ [71, 69, 84]
      | .remote => [52]) (fun _ => none) sys → Quiet (Step named) sys →
      sys.net.delivered .client = [5, 0] ++ encodeReply 0 dest 80 ++ [52] ∧
        sys.net.delivered .remote = [71, 69, 84] := by
  have hrun : (Task.run (wire named) ((nextRequest false).run held) ⟨(fun
      | .client => encodeHello [0] 0 (.v6 ⟨0, 0, 0, 0, 0, 0, 0, 1⟩) 80 ++ [71, 69, 84]
      | .remote => [52]), fun _ => none, []⟩).1 =
        .ok (.ip (.v6 ⟨0, 0, 0, 0, 0, 0, 0, 1⟩ 80 0 0), held) := by decide +kernel
  have hrest : (Task.run (wire named) ((nextRequest false).run held) ⟨(fun
      | .client => encodeHello [0] 0 (.v6 ⟨0, 0, 0, 0, 0, 0, 0, 1⟩) 80 ++ [71, 69, 84]
      | .remote => [52]), fun _ => none, []⟩).2.input .client = [71, 69, 84] := by decide +kernel
  have hnames : named.Named := fun _ => ⟨⟨_, rfl⟩, _, rfl⟩
  obtain ⟨dest, hdest, hall⟩ :=
    served_in_full named false ⟨.direct⟩ _ hnames (fun _ => rfl) (Task.eq_of_fst hrun)
  rw [hrest] at hall
  exact ⟨dest, hdest, fun sys hreach hq => hall sys hreach hq⟩

end full

end Rocks
