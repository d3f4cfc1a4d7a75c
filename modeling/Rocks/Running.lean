import Rocks.FinalReply
import Rocks.Relay

/-! What every state reached by any interleaving has to do with the one run of its task. -/
namespace Rocks
open Async Segments
open Socks5Connected ClientM

/-- What a peer sends in all: read by the program, arrived, or still to come. -/
def Net.stream (n : Net) (s : TcpStream) : List UInt8 := (n.sock s).taken ++ (n.sock s).unread

section stream

theorem take_stream (n : Net) (s : TcpStream) (k : ℕ) (h : k ≤ (n.sock s).arrived.length) :
    (n.take s k).stream = n.stream := by
  funext s'
  by_cases hs : s' = s
  · subst hs
    have ht : ((n.take s' k).sock s').taken = (n.sock s').taken ++ (n.sock s').arrived.take k := by
      simp [Net.take, Net.modify_sock]
    calc (n.take s' k).stream s'
        = (n.sock s').taken ++ ((n.sock s').arrived.take k ++ ((n.take s' k).sock s').unread) := by
          rw [Net.stream, ht, List.append_assoc]
      _ = n.stream s' := by rw [← Net.take_unread_self n s' k h, Net.stream]
  · rw [Net.stream, Net.stream, Net.take_sock_of_ne n s s' k hs]

theorem deliver_stream (n : Net) (s : TcpStream) (buf : List UInt8) :
    (n.deliver s buf).stream = n.stream := by
  funext s'
  have ht : ((n.deliver s buf).sock s').taken = (n.sock s').taken :=
    Net.deliver_keeps Sock.taken n s buf (by intros; rfl) s'
  rw [Net.stream, Net.stream, ht, Net.deliver_unread]

theorem shutDown_stream (n : Net) (s : TcpStream) : (n.shutDown s).stream = n.stream := by
  funext s'
  exact Net.modify_keeps (fun sock => sock.taken ++ sock.unread)
    (f := fun sock => { sock with room := some 0, shut := true }) (by intro; rfl) s'

theorem arrives_stream {n n' : Net} (h : Arrives n n') : n'.stream = n.stream := by
  funext s'
  cases h with
  | bytes s k =>
    have ht : ((n.arrive s k).sock s').taken = (n.sock s').taken :=
      Net.modify_keeps Sock.taken (by intro; rfl) s'
    rw [Net.stream, Net.stream, ht, Net.arrive_unread]
  | ending s hs =>
    have ht : ((n.finish s).sock s').taken = (n.sock s').taken :=
      Net.modify_keeps Sock.taken (by intro; rfl) s'
    rw [Net.stream, Net.stream, ht, Net.finish_unread n s s' hs]

theorem arrives_wire {n n' : Net} (h : Arrives n n') : n'.wire = n.wire := by
  cases h with
  | bytes s k => exact Net.arrive_wire n s k
  | ending s hs => exact Net.finish_wire n s hs

/-- No step loses or repeats a byte that a peer sends. -/
theorem step_stream {env : Env} {α : Type} {a b : Sys α} (h : Step env a b) :
    b.net.stream = a.net.stream := by
  cases h with
  | arrives p h => exact arrives_stream h
  | polls h =>
    cases h with
    | read _ s len m k h0 hl ha => exact take_stream _ _ _ ha
    | write => exact deliver_stream _ _ _
    | shutdown => exact shutDown_stream _ _
    | filled | cutOff | written | refused | toSocketAddrs | connect | peerAddr | localAddr => rfl
  | first d k h =>
    cases h with
    | read _ _ m _ _ _ _ ha => exact take_stream _ _ _ ha
    | write => exact deliver_stream _ _ _
    | readEnd | readError | writeError | done => rfl
  | second c k h =>
    cases h with
    | read _ _ m _ _ _ _ ha => exact take_stream _ _ _ ha
    | write => exact deliver_stream _ _ _
    | readEnd | readError | writeError | done => rfl
  | joins | joined | drops => rfl

/-- No step puts a relay into the trace: only the one run does, in place of the relay's steps. -/
theorem step_relayless {env : Env} {α : Type} {a b : Sys α} (h : Step env a b)
    (ha : ∀ c d, Event.relayed c d ∉ a.net.trace) (c d : CopyArgs) : Event.relayed c d ∉ b.net.trace := by
  have hdel : ∀ (n : Net) (s : TcpStream) (buf : List UInt8), (Event.relayed c d ∉ n.trace) →
      Event.relayed c d ∉ (n.deliver s buf).trace := by
    intro n s buf hn
    simp [Net.deliver, hn]
  cases h with
  | arrives p h => cases h <;> exact ha c d
  | polls h =>
    cases h with
    | write => exact hdel _ _ _ (ha c d)
    | toSocketAddrs | connect => simpa [Net.log] using ha c d
    | shutdown => simpa [Net.shutDown] using ha c d
    | read | filled | cutOff | written | refused | peerAddr | localAddr => exact ha c d
  | first _ _ h | second _ _ h =>
    cases h with
    | write => exact hdel _ _ _ (ha c d)
    | read | readEnd | readError | writeError | done => exact ha c d
  | joins | joined | drops => exact ha c d

/-- A task at this phase shuts no write half any more. -/
def Phase.KeepsOpen {α : Type} : Phase α → Prop
  | .awaiting t => Rocks.KeepsOpen t
  | .joining _ _ k => ∀ r, Rocks.KeepsOpen (k r)

theorem polls_keepsOpen {env : Env} {α : Type} {n n' : Net} {t t' : Io α}
    (h : Polls env (n, t) (n', t')) (ht : KeepsOpen t) : KeepsOpen t' := by
  cases h with
  | read _ s len m k => exact .await _ _ rfl (fun r => (Task.awaits_await.mp ht).2 _)
  | write _ s buf m k => exact .await _ _ rfl (Task.awaits_await.mp ht).2
  | filled | cutOff | written | refused | toSocketAddrs | connect | peerAddr | localAddr | shutdown =>
    exact (Task.awaits_await.mp ht).2 _

theorem step_keepsOpen {env : Env} {α : Type} {a b : Sys α} (h : Step env a b)
    (ha : a.phase.KeepsOpen) : b.phase.KeepsOpen := by
  cases h with
  | polls h => exact polls_keepsOpen h ha
  | joins => exact (Task.awaits_await.mp ha).2
  | joined => exact ha _
  | arrives | first | second | drops => exact ha

end stream

section running

variable {α : Type} (env : Env) (g : Except IoError ℕ × Except IoError ℕ → Outcome Error α)
  (F : Outcome Error α × Wire)

/-- A task whose one run ends in `F`: before its relay, during it, and after it. -/
inductive Running : Sys α → Prop
  | before (n : Net) (t : Io α) (hrun : t.run (wire env) n.wire = F)
      (ht : t.EndsWith (relayLast g)) : Running ⟨n, .awaiting t⟩
  | during (n : Net) (c d : Copy) (k : Except IoError ℕ × Except IoError ℕ → Io α) (w : Wire)
      (hF : F.2 = w.log (.relayed c.args d.args)) (hc : CopyInv env w n c) (hd : CopyInv env w n d)
      (hk : ∀ r, k r = .done (g r)) : Running ⟨n, .joining c d k⟩
  | after (n : Net) (c d : Copy) (r r' : Except IoError ℕ) (w : Wire)
      (hF : F.2 = w.log (.relayed c.args d.args)) (hc : CopyInv env w n c) (hd : CopyInv env w n d)
      (hr : c.result = some r) (hr' : d.result = some r') :
      Running ⟨n, .awaiting (.done (g (r, r')))⟩

theorem copyInv_dropped {env : Env} {w : Wire} {n : Net} {c : Copy} (h : CopyInv env w n c) :
    CopyInv env w n.dropped c := ⟨h.data, h.atEnd, h.finished⟩

/-- The relay of `F`, if it has one, is crossed between the two streams. -/
def Crossed : Prop :=
  ∀ w a b, F.2 = World.log w (.relayed a b) → Event.relayed a b = relayBetween .client .remote

theorem crossed_ne {F : Outcome Error α × Wire} (hX : Crossed F) {w : Wire} {c d : Copy}
    (hF : F.2 = w.log (.relayed c.args d.args)) : c.source ≠ d.source ∧ c.target ≠ d.target := by
  have h := hX w _ _ hF
  simp only [relayBetween, Event.relayed.injEq] at h
  simp [Copy.source, Copy.target, h]

/-- The step lemma. -/
theorem running_step (hX : Crossed F) {a b : Sys α} (ha : Running env g F a) (h : Step env a b) :
    Running env g F b := by
  cases h with
  -- what has arrived does not show in `wire`, so the rest of the run is the same
  | arrives p harr =>
    cases ha with
    | before n t hrun ht => exact .before _ t (by rw [arrives_wire harr, hrun]) ht
    | during n c d k w hF hc hd hk =>
      exact .during _ c d k w hF (hc.of_arrives harr) (hd.of_arrives harr) hk
    | after n c d r r' w hF hc hd hr hr' =>
      exact .after _ c d r r' w hF (hc.of_arrives harr) (hd.of_arrives harr) hr hr'
  | polls hpoll =>
    cases ha with
    | before n t hrun ht => exact .before _ _ ((polls_run hpoll).trans hrun) (polls_endsWith hpoll ht)
    | after => cases hpoll
  | joins n a b k =>
    cases ha with
    | before n t hrun ht =>
      -- the one run takes the relay as its last operation, so `F` shows the state before it
      have hk : ∀ r, k r = .done (g r) := fun r => ht.of_last rfl r
      rw [Task.run_await, hk, Task.run_done] at hrun
      refine .during n (.new a) (.new b) k n.wire ?_ (copyInv_new n a) (copyInv_new n b) hk
      rw [← hrun]
      rfl
  -- the step of one half is a step elsewhere for the other
  | first d k hcopy =>
    cases ha with
    | during n c d k w hF hc hd hk =>
      obtain ⟨hs, ht⟩ := crossed_ne hX hF
      refine .during _ _ d k w ?_ (hc.of_copies hcopy) (hd.of_other hcopy hs.symm ht.symm) hk
      rw [copies_args hcopy, hF]
  | second c k hcopy =>
    cases ha with
    | during n c d k w hF hc hd hk =>
      obtain ⟨hs, ht⟩ := crossed_ne hX hF
      refine .during _ c _ k w ?_ (hc.of_other hcopy hs ht) (hd.of_copies hcopy) hk
      rw [copies_args hcopy, hF]
  | joined n c d k hr hr' =>
    cases ha with
    | during n c d k w hF hc hd hk =>
      rw [hk]
      exact .after n c d _ _ w hF hc hd hr hr'
  | drops n r =>
    cases ha with
    | before n t hrun ht => exact .before _ _ hrun ht
    | after n c d r r' w hF hc hd hr hr' =>
      exact .after _ c d r r' w hF (copyInv_dropped hc) (copyInv_dropped hd) hr hr'

/-- The run lemma: every state that is reached is one of the three kinds. -/
theorem running_of_reaches (hX : Crossed F) {n : Net} {t : Io α} {sys : Sys α}
    (hrun : t.run (wire env) n.wire = F) (ht : t.EndsWith (relayLast g))
    (h : Reaches env ⟨n, .awaiting t⟩ sys) : Running env g F sys := by
  induction h with
  | refl => exact .before n t hrun ht
  | tail _ hstep ih => exact running_step env g F hX ih hstep

theorem stream_of_reaches {a b : Sys α} (h : Reaches env a b) : b.net.stream = a.net.stream := by
  induction h with
  | refl => rfl
  | tail _ hstep ih => exact (step_stream hstep).trans ih

theorem relayless_of_reaches {a b : Sys α} (h : Reaches env a b)
    (ha : ∀ c d, Event.relayed c d ∉ a.net.trace) : ∀ c d, Event.relayed c d ∉ b.net.trace := by
  induction h with
  | refl => exact ha
  | tail _ hstep ih => exact step_relayless hstep ih

end running

/-- A half that has ended in `Ok` has brought over the whole stream of its source. -/
theorem copied_all {env : Env} {w : Wire} {n : Net} {c : Copy} (hc : CopyInv env w n c) {k : ℕ}
    (hr : c.result = some (.ok k)) :
    n.delivered c.target = sentTo c.target w.trace ++ w.input c.source ∧
      env.ending c.source = .eof ∧ (n.sock c.source).coming = none ∧ (n.sock c.source).unread = [] := by
  obtain ⟨hdone, hbuf⟩ := hc.finished k hr
  obtain ⟨he, hn, hu⟩ := hc.atEnd hdone
  obtain ⟨bytes, h1, h2⟩ := hc.data
  rw [hbuf, hu, List.append_nil, List.append_nil] at h2
  exact ⟨by rw [h1, h2], he, hn, hu⟩

/-- Both halves of a relay between the client and the remote that began in `w`. -/
structure Relaying (env : Env) (w : Wire) (n : Net) (c d : Copy) : Prop where
  up : c.source = .client ∧ c.target = .remote
  down : d.source = .remote ∧ d.target = .client
  upInv : CopyInv env w n c
  downInv : CopyInv env w n d

theorem relaying_of_crossed {env : Env} {w : Wire} {n : Net} {c d : Copy}
    (hev : Event.relayed c.args d.args = relayBetween .client .remote) (hc : CopyInv env w n c)
    (hd : CopyInv env w n d) : Relaying env w n c d := by
  simp only [relayBetween, Event.relayed.injEq] at hev
  refine ⟨?_, ?_, hc, hd⟩ <;> simp [Copy.source, Copy.target, hev]

section bicopy

variable (env : Env) (sock : TcpStream → Sock) {sys : Sys Unit}

/-- The states of `bicopy`: on the way to its relay, in it, and behind it. -/
inductive BicopyState : Sys Unit → Prop
  | before (n : Net) (t : Io Unit) (ht : t ≠ .done (.ok ())) : BicopyState ⟨n, .awaiting t⟩
  | during (n : Net) (c d : Copy) (k : Except IoError ℕ × Except IoError ℕ → Io Unit)
      (h : Relaying env (Net.wire ⟨sock, []⟩) n c d) : BicopyState ⟨n, .joining c d k⟩
  | after (n : Net) (c d : Copy) (x y : Except IoError ℕ) (h : Relaying env (Net.wire ⟨sock, []⟩) n c d)
      (hx : c.result = some x) (hy : d.result = some y) :
      BicopyState ⟨n, .awaiting (.done (bicopyResult (x, y)))⟩

theorem bicopy_states (hreach : Reaches env ⟨⟨sock, []⟩, .awaiting (bicopy .client .remote)⟩ sys) :
    BicopyState env sock sys := by
  obtain ⟨r, es, hrun, -, hes⟩ := run_bicopy takeExact env (Net.wire ⟨sock, []⟩) .client .remote
  -- the start has an empty trace, so the only relay in the one run is the crossed one
  have hrelay : ∀ {w : Wire} {a b : CopyArgs}, (Net.wire ⟨sock, []⟩).logs es = w.log (.relayed a b) →
      Net.wire ⟨sock, []⟩ = w ∧ Event.relayed a b = relayBetween .client .remote := by
    intro w a b h
    rcases hes with ⟨rfl, -⟩ | rfl
    · have ht : [] = w.trace ++ [.relayed a b] := congrArg World.trace h
      simp at ht
    · obtain ⟨hw, hev⟩ := World.log_inj h
      exact ⟨hw, hev.symm⟩
  have hX : Crossed ((r, (Net.wire ⟨sock, []⟩).logs es) : Outcome Error Unit × Wire) :=
    fun w a b h => (hrelay h).2
  have hinv := running_of_reaches env bicopyResult _ hX hrun (bicopy_endsWith .client .remote) hreach
  have hnone := relayless_of_reaches env hreach (by simp)
  cases hinv with
  | before n t hrun' =>
    refine .before n t ?_
    intro ht
    rw [ht, Task.run_done] at hrun'
    obtain ⟨hr, hw⟩ := Prod.mk.inj hrun'
    rcases hes with ⟨-, hne⟩ | rfl
    · exact absurd hr.symm hne
    · have ht : n.trace = [relayBetween .client .remote] := congrArg World.trace hw
      -- ending in `Ok` without having joined would put the relay into the trace
      have hmem : relayBetween .client .remote ∈ n.trace := by rw [ht]; exact List.mem_singleton_self _
      exact absurd hmem (hnone _ _)
  | during n c d k w hF hc hd hk =>
    obtain ⟨rfl, hev⟩ := hrelay hF
    exact .during n c d k (relaying_of_crossed hev hc hd)
  | after n c d x y w hF hc hd hx hy =>
    obtain ⟨rfl, hev⟩ := hrelay hF
    exact .after n c d x y (relaying_of_crossed hev hc hd) hx hy

end bicopy

end Rocks
