import Rocks.Running
import Rocks.Schedule

/-! The tunnel between a client and a remote, in every state that any interleaving reaches. -/
namespace Rocks
open Async Segments
open Socks5Connected ClientM

section accepted

variable (env : Env) (debugLog : Bool) (cfg : OutgoingConfig) (w : Wire)

/-- How the one run of an accepted client ends, apart from its relay. -/
structure Served (req : ReqAddr) (dest : Destination) (payload : List UInt8) (w' : Wire) : Prop where
  destination : req.destination? = some dest
  client : w'.input .client = payload
  remote : w'.input .remote = w.input .remote
  replied : sentTo .client w'.trace = [5, 0] ++ (finalReply env cfg req dest).take
    (accepted (roomLeft (w.room .client) 2) (finalReply env cfg req dest).length)
  silent : sentTo .remote w'.trace = []
  relayless : ∀ a b, Event.relayed a b ∉ w'.trace

theorem run_handleClient_served {req : ReqAddr} {self : Socks5Connected} {w1 : Wire}
    (hn : Task.run (wire env) ((nextRequest debugLog).run held) w = (.ok (req, self), w1))
    (htrace : w.trace = []) :
    ∃ dest w' es, Served env cfg w req dest (w1.input .client) w' ∧
      Task.run (wire env) (handleClient debugLog held cfg) w = (.ok (), w'.logs es) ∧
      (es = [] ∨ es = [relayBetween .client .remote] ∧ outcome env cfg req = .ok .remote ∧
        accepted (roomLeft (w.room .client) 2) (finalReply env cfg req dest).length =
          (finalReply env cfg req dest).length) := by
  obtain ⟨rest, dest, port, rest', -, -, hr, ho, rfl, rfl, hw1⟩ := run_nextRequest_eq_ok env debugLog w hn
  have hfit := fitsReply_of_connect hr ho
  have hroom1 : w1.room .client = roomLeft (w.room .client) 2 := by simp [hw1, greeted, World.deliver]
  have htrace1 : w1.trace = sentToClient [5, 0] := by simp [hw1, greeted, htrace, sentToClient]
  obtain ⟨es, hrun, hes⟩ := run_handleClient_ok takeExact env w debugLog cfg hn
    (parsed_destination dest port) hfit
  rw [hroom1] at hes
  have ht : (replyOut env w1 cfg dest (dest.parsed port)).trace = sentToClient [5, 0] ++
      tried env cfg (dest.parsed port) ++ sentToClient ((finalReply env cfg (dest.parsed port) dest).take
        (accepted (roomLeft (w.room .client) 2) (finalReply env cfg (dest.parsed port) dest).length)) := by
    simp [replyOut, written, htrace1, hroom1, sentToClient]
  -- up to the relay, everything that is sent goes to the client
  have hsilent : ∀ bs, sentTo .remote (sentToClient bs) = [] := fun bs =>
    sentTo_eq_nil .remote (fun e he b hb => by
      obtain ⟨_, -, rfl⟩ := List.mem_map.mp he
      cases hb)
  refine ⟨dest, replyOut env w1 cfg dest (dest.parsed port), es,
    ⟨parsed_destination dest port, rfl, ?_, ?_, ?_, ?_⟩, hrun, hes⟩
  · simp [replyOut, written, hw1, greeted, World.consume, World.logs]
  · rw [ht, sentTo_append, sentTo_append, sentTo_tried, sentTo_sentToClient, sentTo_sentToClient,
      List.append_nil]
  · rw [ht, sentTo_append, sentTo_append, sentTo_tried, hsilent, hsilent, List.append_nil,
      List.append_nil]
  · intro a b hmem
    rw [ht, List.mem_append, List.mem_append] at hmem
    rcases hmem with (hmem | hmem) | hmem
    · obtain ⟨_, -, h⟩ := List.mem_map.mp hmem
      cases h
    · rcases (tried_spec env cfg (dest.parsed port)).1 _ hmem with ⟨_, _, h⟩ | ⟨_, h⟩ <;> cases h
    · obtain ⟨_, -, h⟩ := List.mem_map.mp hmem
      cases h

variable {env cfg w}

theorem sentTo_relay {es : List Event} (hes : es = [] ∨ es = [relayBetween .client .remote])
    (s : TcpStream) : sentTo s es = [] := by
  rcases hes with rfl | rfl <;> rfl

/-- The one run of an accepted client shows no relay but the crossed one. -/
theorem served_crossed {req : ReqAddr} {dest : Destination} {payload : List UInt8} {w' : Wire}
    (hs : Served env cfg w req dest payload w') {es : List Event}
    (hes : es = [] ∨ es = [relayBetween .client .remote]) {w2 : Wire} {a b : CopyArgs}
    (h : w'.logs es = w2.log (.relayed a b)) :
    w' = w2 ∧ es = [relayBetween .client .remote] ∧
      Event.relayed a b = relayBetween .client .remote := by
  rcases hes with rfl | rfl
  · rw [World.logs_nil] at h
    exact absurd (by rw [h]; simp) (hs.relayless a b)
  · obtain ⟨hw, hev⟩ := World.log_inj h
    exact ⟨hw, rfl, hev.symm⟩

/-- Before the relay, the remote is left alone. -/
theorem before_relay {req : ReqAddr} {dest : Destination} {payload : List UInt8} {w' : Wire}
    (hs : Served env cfg w req dest payload w') {es : List Event}
    (hes : es = [] ∨ es = [relayBetween .client .remote]) {n : Net} {t : Io Unit}
    (hrun : t.run (wire env) n.wire = (.ok (), w'.logs es))
    (hstream : n.stream .remote = w.input .remote) :
    n.delivered .client <+: [5, 0] ++ finalReply env cfg req dest ∧ n.delivered .remote = [] ∧
      (n.sock .remote).taken = [] := by
  have hpre : ∀ s, n.delivered s <+: sentTo s w'.trace := by
    intro s
    have h := sentTo_prefix s (run_trace_grows takeExact env t n.wire)
    rw [← wire, hrun, World.logs_trace, sentTo_append, sentTo_relay hes, List.append_nil] at h
    exact h
  -- all of the remote's stream is left at the end of the run, so the steps so far took none of it
  have hsuf := (run_input_suffix env t n.wire .remote).length_le
  rw [hrun] at hsuf
  have hin : (w'.logs es).input .remote = w.input .remote := hs.remote
  have hunread : n.wire.input .remote = (n.sock .remote).unread := rfl
  rw [hin, hunread, ← hstream, Net.stream, List.length_append] at hsuf
  refine ⟨?_, ?_, List.length_eq_zero_iff.mp (by omega)⟩
  · refine (hpre .client).trans ?_
    rw [hs.replied]
    apply (List.prefix_append_right_inj _).mpr
    exact List.take_prefix _ _
  · have h := hpre .remote
    rw [hs.silent] at h
    exact List.prefix_nil.mp h

/-- During the relay and after it, the reply is out and each side gets what the other sends. -/
theorem in_relay {req : ReqAddr} {dest : Destination} {payload : List UInt8} {w' : Wire}
    (hs : Served env cfg w req dest payload w')
    (hfull : accepted (roomLeft (w.room .client) 2) (finalReply env cfg req dest).length =
      (finalReply env cfg req dest).length) {n : Net} {c d : Copy}
    (hr : Relaying env w' n c d) :
    n.delivered .remote <+: payload ∧
      n.delivered .client <+: [5, 0] ++ finalReply env cfg req dest ++ w.input .remote ∧
        [5, 0] ++ finalReply env cfg req dest <+: n.delivered .client := by
  obtain ⟨hcs, hct⟩ := hr.up
  obtain ⟨hds, hdt⟩ := hr.down
  -- the invariant of each half, with the reply in front of the download
  obtain ⟨up, hup, hin⟩ := hr.upInv.data
  obtain ⟨down, hdown, hin'⟩ := hr.downInv.data
  rw [hct, hs.silent, List.nil_append] at hup
  rw [hcs, hs.client] at hin
  rw [hdt, hs.replied, hfull, List.take_length] at hdown
  rw [hds, hs.remote] at hin'
  refine ⟨?_, ?_, ?_⟩
  · rw [hup, hin, List.append_assoc]
    exact List.prefix_append _ _
  · rw [hdown, hin', List.append_assoc down]
    exact (List.prefix_append_right_inj _).mpr (List.prefix_append _ _)
  · rw [hdown]
    exact List.prefix_append _ _

end accepted

theorem fresh_wire (streams : TcpStream → List UInt8) (room : TcpStream → Option ℕ) :
    (Net.fresh streams room).wire = ⟨streams, room, []⟩ := rfl

/-- A state of one client served from fresh connections. -/
abbrev Serves (env : Env) (debugLog : Bool) (cfg : OutgoingConfig) (streams : TcpStream → List UInt8)
    (room : TcpStream → Option ℕ) (sys : Sys Unit) : Prop :=
  Reaches env ⟨.fresh streams room, .awaiting (handleClient debugLog held cfg)⟩ sys

section tunnel

variable (env : Env) (debugLog : Bool) (cfg : OutgoingConfig) (streams : TcpStream → List UInt8)
  (room : TcpStream → Option ℕ)

/-- All that a reachable state of an accepted client can show. -/
theorem serves_spec {req : ReqAddr} {self : Socks5Connected} {w1 : Wire}
    (hn : Task.run (wire env) ((nextRequest debugLog).run held) ⟨streams, room, []⟩ =
      (.ok (req, self), w1)) :
    ∃ dest, req.destination? = some dest ∧ ∀ sys, Serves env debugLog cfg streams room sys →
      (sys.net.delivered .client <+: [5, 0] ++ finalReply env cfg req dest ∧
        sys.net.delivered .remote = [] ∧ (sys.net.sock .remote).taken = []) ∨
      (outcome env cfg req = .ok .remote ∧ sys.net.delivered .remote <+: w1.input .client ∧
        sys.net.delivered .client <+: [5, 0] ++ finalReply env cfg req dest ++ streams .remote ∧
        [5, 0] ++ finalReply env cfg req dest <+: sys.net.delivered .client) := by
  obtain ⟨dest, w', es, hs, hrun, hes⟩ :=
    run_handleClient_served env debugLog cfg ⟨streams, room, []⟩ hn rfl
  have hes' : es = [] ∨ es = [relayBetween .client .remote] := hes.imp_right And.left
  refine ⟨dest, hs.destination, ?_⟩
  intro sys hreach
  have hX : Crossed ((.ok (), w'.logs es) : Outcome Error Unit × Wire) :=
    fun w2 a b h => (served_crossed hs hes' h).2.2
  have hrun' : Task.run (wire env) (handleClient debugLog held cfg) (Net.fresh streams room).wire =
      (.ok (), w'.logs es) := by
    rw [fresh_wire]
    exact hrun
  have hstream := stream_of_reaches env hreach
  have hinv := running_of_reaches env (fun _ => .ok ()) _ hX hrun'
    (handleClient_endsWith debugLog held cfg) hreach
  have hrelay : ∀ {c d : Copy} {w2 : Wire}, w'.logs es = w2.log (.relayed c.args d.args) →
      w' = w2 ∧ outcome env cfg req = .ok .remote ∧
        accepted (roomLeft (room .client) 2) (finalReply env cfg req dest).length =
          (finalReply env cfg req dest).length ∧
        Event.relayed c.args d.args = relayBetween .client .remote := by
    intro c d w2 h
    obtain ⟨hw, rfl, hev⟩ := served_crossed hs hes' h
    rcases hes with h | ⟨-, hout, hfull⟩
    · cases h
    · exact ⟨hw, hout, hfull, hev⟩
  cases hinv with
  | before n t hrun ht =>
    exact Or.inl (before_relay hs hes' hrun (congrFun hstream .remote))
  | during n c d k w2 hF hc hd hk =>
    obtain ⟨rfl, hout, hfull, hev⟩ := hrelay hF
    exact Or.inr ⟨hout, in_relay hs hfull (relaying_of_crossed hev hc hd)⟩
  | after n c d r r' w2 hF hc hd hr hr' =>
    obtain ⟨rfl, hout, hfull, hev⟩ := hrelay hF
    exact Or.inr ⟨hout, in_relay hs hfull (relaying_of_crossed hev hc hd)⟩

/-- `bicopy` ends in `Ok` only when both peers have closed and got all of each other's bytes. -/
theorem bicopy_ok (sock : TcpStream → Sock) {sys : Sys Unit}
    (hreach : Reaches env ⟨⟨sock, []⟩, .awaiting (bicopy .client .remote)⟩ sys)
    (hok : sys.phase = .awaiting (.done (.ok ()))) :
    sys.net.delivered .remote = (sock .client).unread ∧
      sys.net.delivered .client = (sock .remote).unread ∧
      ∀ s, env.ending s = .eof ∧ (sys.net.sock s).coming = none ∧ (sys.net.sock s).unread = [] := by
  have hstate := bicopy_states env sock hreach
  cases hstate with
  | before n t ht => exact absurd (Phase.awaiting.inj hok) ht
  | during => cases hok
  | after n c d x y hr hx hy =>
    have hg : bicopyResult (x, y) = .ok () := Task.done.inj (Phase.awaiting.inj hok)
    obtain ⟨⟨k, rfl⟩, k', rfl⟩ := bicopyResult_eq_ok hg
    have hup := copied_all hr.upInv hx
    have hdown := copied_all hr.downInv hy
    rw [hr.up.1, hr.up.2] at hup
    rw [hr.down.1, hr.down.2] at hdown
    refine ⟨hup.1, hdown.1, ?_⟩
    intro s
    cases s
    · exact hup.2
    · exact hdown.2

/-- The tunnel is transparent, opens only behind a complete reply, and stays shut when the
outgoing side fails. -/
theorem tunnel_transparent {req : ReqAddr} {self : Socks5Connected} {w1 : Wire}
    (hn : Task.run (wire env) ((nextRequest debugLog).run held) ⟨streams, room, []⟩ =
      (.ok (req, self), w1)) :
    (∃ dest, req.destination? = some dest ∧
      (∀ stream, outcome env cfg req = .ok stream →
        ∀ sys, Serves env debugLog cfg streams room sys →
          sys.net.delivered .remote <+: w1.input .client ∧
          sys.net.delivered .client <+: [5, 0] ++ encodeReply 0 dest req.port ++ streams .remote ∧
          (sys.net.delivered .remote ≠ [] ∨ (sys.net.sock .remote).taken ≠ [] →
            [5, 0] ++ encodeReply 0 dest req.port <+: sys.net.delivered .client)) ∧
      (∀ e, outcome env cfg req = .error e → ∃ rep, rep ≠ 0 ∧
        ∀ sys, Serves env debugLog cfg streams room sys →
          sys.net.delivered .client <+: [5, 0] ++ encodeReply rep dest req.port ∧
          sys.net.delivered .remote = [] ∧ (sys.net.sock .remote).taken = [])) ∧
    ∀ (sock : TcpStream → Sock) (sys : Sys Unit),
      Reaches env ⟨⟨sock, []⟩, .awaiting (bicopy .client .remote)⟩ sys →
      sys.phase = .awaiting (.done (.ok ())) →
        sys.net.delivered .remote = (sock .client).unread ∧
        sys.net.delivered .client = (sock .remote).unread ∧
        ∀ s, env.ending s = .eof ∧ (sys.net.sock s).coming = none ∧ (sys.net.sock s).unread = [] := by
  refine ⟨?_, fun sock sys hreach hok => bicopy_ok env sock hreach hok⟩
  obtain ⟨dest, hdest, hall⟩ := serves_spec env debugLog cfg streams room hn
  refine ⟨dest, hdest, ?_, ?_⟩
  · intro stream hout sys hreach
    have hreply : finalReply env cfg req dest = encodeReply 0 dest req.port := by
      simp [finalReply, reason, hout, Socks5Error.code]
    -- before the relay nothing has crossed; in it the reply is out already
    rcases hall sys hreach with ⟨hc, hr, ht⟩ | ⟨-, hr, hc, hpre⟩
    · rw [hreply] at hc
      refine ⟨by rw [hr]; exact List.nil_prefix, hc.trans (List.prefix_append _ _), ?_⟩
      rintro (h | h)
      · exact absurd hr h
      · exact absurd ht h
    · rw [hreply] at hc hpre
      exact ⟨hr, hc, fun _ => hpre⟩
  · intro e hout
    have hreply : finalReply env cfg req dest = encodeReply (getReason e).code dest req.port := by
      simp [finalReply, reason, hout]
    refine ⟨(getReason e).code, by cases e <;> simp [getReason, Socks5Error.code], ?_⟩
    intro sys hreach
    rcases hall sys hreach with h | ⟨h, -⟩
    · rwa [hreply] at h
    · rw [hout] at h
      cases h

/-- A client that sends three bytes behind its request, and a remote that answers with one. -/
def visit : TcpStream → List UInt8
  | .client => encodeHello [0] 0 (.v6 ⟨0, 0, 0, 0, 0, 0, 0, 1⟩) 80 ++ [71, 69, 84]
  | .remote => [52]

/-- The bytes cross both ways behind the reply, and no state shows more; a relay of its own that
ends well has brought over both streams. -/
theorem tunnel_transparent_v6 :
    (∃ dest, (ReqAddr.ip (.v6 ⟨0, 0, 0, 0, 0, 0, 0, 1⟩ 80 0 0)).destination? = some dest ∧
      (∀ sys, Serves named false ⟨.direct⟩ visit (fun _ => none) sys →
        sys.net.delivered .remote <+: [71, 69, 84] ∧
          sys.net.delivered .client <+: [5, 0] ++ encodeReply 0 dest 80 ++ [52]) ∧
      ∃ sys, Serves named false ⟨.direct⟩ visit (fun _ => none) sys ∧
        sys.net.delivered .remote = [71, 69, 84] ∧
        sys.net.delivered .client = [5, 0] ++ encodeReply 0 dest 80 ++ [52]) ∧
    ∃ sys, Reaches named ⟨.fresh visit (fun _ => none), .awaiting (bicopy .client .remote)⟩ sys ∧
      sys.net.delivered .remote = visit .client ∧ sys.net.delivered .client = [52] := by
  have hrun : (Task.run (wire named) ((nextRequest false).run held) ⟨visit, fun _ => none, []⟩).1 =
      .ok (.ip (.v6 ⟨0, 0, 0, 0, 0, 0, 0, 1⟩ 80 0 0), held) := by decide +kernel
  have hrest : (Task.run (wire named) ((nextRequest false).run held)
      ⟨visit, fun _ => none, []⟩).2.input .client = [71, 69, 84] := by decide +kernel
  obtain ⟨⟨dest, hdest, hok, -⟩, hbicopy⟩ :=
    tunnel_transparent named false ⟨.direct⟩ visit (fun _ => none) (Task.eq_of_fst hrun)
  rw [hrest] at hok
  constructor
  · refine ⟨dest, hdest, ?_, ?_⟩
    · intro sys hreach
      have hbounds := hok .remote rfl sys hreach
      exact ⟨hbounds.1, hbounds.2.1⟩
    · obtain rfl := Option.some.inj hdest
      refine ⟨_, reaches_after named 30 _, ?_, ?_⟩ <;> decide +kernel
  · have hdone : (Sys.after named 30
        ⟨.fresh visit (fun _ => none), .awaiting (bicopy .client .remote)⟩).phase =
          .awaiting (.done (.ok ())) := by rfl
    have hall := hbicopy _ _ (reaches_after named 30 _) hdone
    exact ⟨_, reaches_after named 30 _, hall.1, hall.2.1⟩

end tunnel

end Rocks
