import Rocks.Network

/-! What the task of a client awaits: the relay last, nothing behind a read that fails, and no
shutdown. -/
namespace Rocks
open Async Buffer
open Socks5Connected ClientM

def Op.isJoin : Op → Bool
  | .join _ _ => true
  | _ => false

def Op.isShutdown : Op → Bool
  | .shutdown _ => true
  | _ => false

def Op.isRead : Op → Bool
  | .readExact _ _ => true
  | _ => false

/-- A read that fails. -/
def ReadFails : (o : Op) → o.Res → Prop
  | .readExact _ _, .error _ => True
  | _, _ => False

/-- No operation of a task is the relay or shuts a write half. -/
abbrev Calm {α : Type} (t : Io α) : Prop :=
  t.Awaits (fun o => o.isJoin = false ∧ o.isShutdown = false)

/-- A task that never shuts a write half. -/
abbrev KeepsOpen {α : Type} (t : Io α) : Prop := t.Awaits (fun o => o.isShutdown = false)

/-- A calm task that reads nothing. -/
abbrev Deaf {α : Type} (t : Io α) : Prop :=
  t.Awaits (fun o => (o.isJoin = false ∧ o.isShutdown = false) ∧ o.isRead = false)

/-- A calm task that gives up when it cannot read. -/
structure Reads {α : Type} (t : Io α) : Prop where
  calm : Calm t
  givesUp : t.EndsOn ReadFails Outcome.NoValue

/-- Only the relay is a last operation, and `g` is how a task ends after it. -/
def relayLast {α : Type} (g : Except IoError ℕ × Except IoError ℕ → Outcome Error α) :
    (o : Op) → Option (o.Res → Outcome Error α)
  | .join _ _ => some g
  | .readExact _ _ | .writeAll _ _ | .toSocketAddrs _ _ | .connect _ | .peerAddr _ | .localAddr _
  | .shutdown _ => none

theorem relayLast_of_calm {α : Type} {g : Except IoError ℕ × Except IoError ℕ → Outcome Error α}
    (o : Op) (h : o.isJoin = false ∧ o.isShutdown = false) : relayLast g o = none := by
  cases o with
  | join => cases h.1
  | readExact | writeAll | toSocketAddrs | connect | peerAddr | localAddr | shutdown => rfl

theorem relayLast_eq_none {α β : Type} {g : Except IoError ℕ × Except IoError ℕ → Outcome Error α}
    {g' : Except IoError ℕ × Except IoError ℕ → Outcome Error β} (o : Op) (h : relayLast g o = none) :
    relayLast g' o = none := by
  cases o with
  | join => cases h
  | readExact | writeAll | toSocketAddrs | connect | peerAddr | localAddr | shutdown => rfl

theorem readFails_of_isRead (o : Op) (r : o.Res) (h : o.isRead = false) : ¬ReadFails o r := by
  cases o with
  | readExact => cases h
  | writeAll | toSocketAddrs | connect | peerAddr | localAddr | join | shutdown => exact not_false

theorem Deaf.calm {α : Type} {t : Io α} (h : Deaf t) : Calm t := h.mono (fun _ ho => ho.1)

theorem Deaf.reads {α : Type} {t : Io α} (h : Deaf t) : Reads t :=
  ⟨h.calm, h.endsOn (fun o r ho => readFails_of_isRead o r ho.2)⟩

theorem Reads.done {α : Type} (r : Outcome Error α) : Reads (.done r : Io α) := ⟨.done r, .done r⟩

theorem Reads.bind {α β : Type} {t : Io α} {f : α → Io β} (ht : Reads t) (hf : ∀ a, Reads (f a)) :
    Reads (t >>= f) :=
  ⟨ht.calm.bind (fun a => (hf a).calm), ht.givesUp.bind (fun a => (hf a).givesUp)⟩

section reads

variable (self : Socks5Connected) (debugLog : Bool)

theorem sync_deaf {α : Type} (r : Outcome Error α) : Deaf ((sync r).run self) := by
  cases r <;> exact .done _

theorem sync_reads {α : Type} (r : Outcome Error α) : Reads ((sync r).run self) := (sync_deaf self r).reads

theorem readExact_reads (buf : List UInt8) (a b : ℕ) : Reads ((readExact buf a b).run self) := by
  simp only [readExact, StateT.run_bind, StateT.run_get, Task.pure_bind]
  apply (sync_reads self _).bind
  intro p
  obtain ⟨target, ⟨_ | stream⟩⟩ := p
  · exact .done _
  -- the answer decides, and an error goes through `?`
  constructor
  · refine .await _ _ ⟨rfl, rfl⟩ ?_
    intro r
    cases r <;> exact .done _
  · refine .await _ _ ?_ ?_
    · intro r hr
      cases r with
      | ok bytes => exact hr.elim
      | error e => exact ⟨_, rfl, trivial⟩
    · intro r
      cases r <;> exact .done _

theorem writeAll_deaf (buf : List UInt8) : Deaf ((writeAll buf).run self) := by
  simp only [writeAll, StateT.run_bind, StateT.run_get, Task.pure_bind]
  obtain ⟨_ | stream⟩ := self
  · exact .done _
  · refine .bind (.bind (Task.awaits_perform ⟨⟨rfl, rfl⟩, rfl⟩) (fun _ => .done _)) ?_
    exact fun p => sync_deaf p.2 _

theorem sendFinalResponse_deaf (err : Socks5Error) (addr : ReqAddr) :
    Deaf ((sendFinalResponse err addr).run self) := by
  rw [sendFinalResponse, StateT.run_bind]
  exact (sync_deaf self _).bind (fun p => writeAll_deaf p.2 p.1)

theorem authenticateClient_reads : Reads (authenticateClient.run self) := by
  simp only [authenticateClient, StateT.run_bind]
  refine (readExact_reads self _ _ _).bind (fun p => (sync_reads p.2 _).bind (fun q => ?_))
  split
  · exact .done _
  simp only [StateT.run_bind]
  refine (sync_reads q.2 _).bind (fun p => (readExact_reads p.2 _ _ _).bind (fun q =>
    (sync_reads q.2 _).bind (fun r => ?_)))
  split
  · exact (writeAll_deaf r.2 _).reads.bind (fun _ => .done _)
  · exact (writeAll_deaf r.2 _).reads

theorem readAddr_reads (buf : List UInt8) (atyp b0 : UInt8) :
    Reads ((readAddr debugLog buf atyp b0).run self) := by
  unfold readAddr
  split <;> simp only [StateT.run_bind]
  · exact (readExact_reads self _ _ _).bind (fun p => (sync_reads p.2 _).bind (fun q => sync_reads q.2 _))
  · exact (readExact_reads self _ _ _).bind (fun p => (sync_reads p.2 _).bind (fun q => sync_reads q.2 _))
  · refine (readExact_reads self _ _ _).bind (fun p => (sync_reads p.2 _).bind (fun q =>
      (sync_reads q.2 _).bind (fun r => ?_)))
    split
    · rw [StateT.run_bind]
      exact (sync_reads r.2 _).bind (fun _ => .done _)
    · exact .done _
  · exact (sendFinalResponse_deaf self _ _).reads.bind (fun _ => .done _)

theorem getRequest_reads : Reads ((getRequest debugLog).run self) := by
  simp only [getRequest, StateT.run_bind]
  refine (readExact_reads self _ _ _).bind (fun p => (sync_reads p.2 _).bind (fun q => ?_))
  split
  · exact .done _
  simp only [StateT.run_bind]
  apply (sync_reads q.2 _).bind
  intro p
  split <;> simp only [StateT.run_bind]
  · exact (sendFinalResponse_deaf p.2 _ _).reads.bind (fun _ => .done _)
  refine (sync_reads p.2 _).bind (fun p => (sync_reads p.2 _).bind (fun q =>
    (readAddr_reads q.2 debugLog _ _ _).bind (fun r => ?_)))
  split
  · rw [StateT.run_bind]
    exact (sendFinalResponse_deaf r.2 _ _).reads.bind (fun p => sync_reads p.2 _)
  · exact sync_reads r.2 _

theorem nextRequest_reads : Reads ((nextRequest debugLog).run self) := by
  rw [nextRequest, StateT.run_bind]
  exact (authenticateClient_reads self).bind (fun p => getRequest_reads p.2 debugLog)

theorem readyForConnect_deaf (req : ReqAddr) : Deaf ((readyForConnect req).run self) := by
  simp only [readyForConnect, StateT.run_bind, StateT.run_get, StateT.run_set, Task.pure_bind]
  apply (sendFinalResponse_deaf self _ _).bind
  intro p
  split
  · exact .done _
  · exact sync_deaf _ _

theorem abort_deaf (err : OutgoingError) (req : ReqAddr) : Deaf (abort self err req) :=
  .bind (.attempt (.map _ (sendFinalResponse_deaf self _ _))) (fun _ => .done _)

theorem resolveLocal_deaf (req : ReqAddr) : Deaf req.resolveLocal := by
  cases req with
  | ip addr => exact .done _
  | domain name port =>
    refine .bind (Task.awaits_perform ⟨⟨rfl, rfl⟩, rfl⟩) (fun r =>
      .bind (Task.awaits_lift _) (fun sas => ?_))
    split <;> exact .done _

theorem directOutgoing_deaf (o : DirectOutgoing) (req : ReqAddr) : Deaf (o.processRequest req) := by
  refine .bind (.attempt (resolveLocal_deaf req)) ?_
  intro r
  split
  · exact .done _
  · refine .bind (Task.awaits_perform ⟨⟨rfl, rfl⟩, rfl⟩) ?_
    intro r
    split <;> exact .done _

theorem lAddr_deaf (s : TcpStream) : Deaf s.lAddr :=
  .bind (Task.awaits_perform ⟨⟨rfl, rfl⟩, rfl⟩) (fun _ => .bind (Task.awaits_lift _) (fun _ => .done _))

theorem pAddr_deaf (s : TcpStream) : Deaf s.pAddr :=
  .bind (Task.awaits_perform ⟨⟨rfl, rfl⟩, rfl⟩) (fun _ => .bind (Task.awaits_lift _) (fun _ => .done _))

end reads

/-- What `bicopy` makes of its two results. -/
def bicopyResult : Except IoError ℕ × Except IoError ℕ → Outcome Error Unit
  | (.ok _, .ok _) => .ok ()
  | (.error e, .ok _) => .err (.fromDescription s!"copy error first half: {e.text}")
  | (_, .error e) => .err (.fromDescription s!"copy error second half: {e.text}")

theorem bicopyResult_eq_ok {x y : Except IoError ℕ} (h : bicopyResult (x, y) = .ok ()) :
    (∃ k, x = .ok k) ∧ ∃ k, y = .ok k := by
  cases x <;> cases y <;> simp [bicopyResult] at h ⊢

theorem relayLast_bicopyResult (o : Op) (g : o.Res → Outcome Error Unit)
    (h : relayLast bicopyResult o = some g) :
    relayLast (fun _ => .ok ()) o = some (fun _ => (.ok () : Outcome Error Unit)) ∧ ∀ r, g r ≠ .panic := by
  cases o with
  | join a b =>
    obtain rfl := Option.some.inj h
    refine ⟨rfl, ?_⟩
    intro r
    rcases r with ⟨_ | _, _ | _⟩ <;> simp [bicopyResult]
  | readExact | writeAll | toSocketAddrs | connect | peerAddr | localAddr | shutdown => cases h

theorem bicopy_endsWith (incoming outgoing : TcpStream) :
    (bicopy incoming outgoing).EndsWith (relayLast bicopyResult) := by
  refine (pAddr_deaf incoming).calm.bind_endsWith relayLast_of_calm (fun _ =>
    (lAddr_deaf outgoing).calm.bind_endsWith relayLast_of_calm (fun _ =>
    (lAddr_deaf incoming).calm.bind_endsWith relayLast_of_calm (fun _ =>
    (pAddr_deaf outgoing).calm.bind_endsWith relayLast_of_calm (fun _ => ?_))))
  -- past the four addresses comes `join!`, and its results decide
  refine .last _ _ bicopyResult rfl ?_
  intro r
  rcases r with ⟨_ | _, _ | _⟩ <;> rfl

/-- Nothing follows the relay of a client. -/
theorem handleClient_endsWith (debugLog : Bool) (self : Socks5Connected) (cfg : OutgoingConfig) :
    (handleClient debugLog self cfg).EndsWith (relayLast (fun _ => .ok ())) := by
  apply (nextRequest_reads self debugLog).calm.attempt.bind_endsWith relayLast_of_calm
  intro r
  split
  · next req client =>
    split
    · apply (directOutgoing_deaf _ req).calm.bind_endsWith relayLast_of_calm
      intro r
      split
      · next o =>
        apply (readyForConnect_deaf client req).calm.attempt.bind_endsWith relayLast_of_calm
        intro r
        split
        -- the only branch with a relay, and nothing is awaited behind it
        · next i _ =>
          exact (bicopy_endsWith i o).attempt_bind () relayLast_eq_none relayLast_bicopyResult
        · exact .done _
      · exact (abort_deaf client _ req).calm.endsWith relayLast_of_calm
    · exact (abort_deaf client _ req).calm.endsWith relayLast_of_calm
  · exact .done _

section handleClient

theorem Calm.keepsOpen {α : Type} {t : Io α} (h : Calm t) : KeepsOpen t := h.mono (fun _ ho => ho.2)

theorem Deaf.relays {α : Type} {t : Io α} (h : Deaf t) :
    t.Awaits (fun o => o.isShutdown = false ∧ o.isRead = false) := h.mono (fun _ ho => ⟨ho.1.2, ho.2⟩)

/-- Besides its relay, `bicopy` neither reads nor shuts a write half. -/
theorem bicopy_relays (incoming outgoing : TcpStream) :
    (bicopy incoming outgoing).Awaits (fun o => o.isShutdown = false ∧ o.isRead = false) := by
  refine (pAddr_deaf incoming).relays.bind (fun _ => (lAddr_deaf outgoing).relays.bind (fun _ =>
    (lAddr_deaf incoming).relays.bind (fun _ => (pAddr_deaf outgoing).relays.bind (fun _ => ?_))))
  refine .await _ _ ⟨rfl, rfl⟩ ?_
  intro r
  rcases r with ⟨_ | _, _ | _⟩ <;> exact .done _

theorem bicopy_keepsOpen (incoming outgoing : TcpStream) : KeepsOpen (bicopy incoming outgoing) :=
  (bicopy_relays incoming outgoing).mono (fun _ ho => ho.1)

variable (debugLog : Bool) (self : Socks5Connected) (cfg : OutgoingConfig)

/-- What follows an accepted request neither reads nor shuts a write half. -/
theorem processRequest_relays (o : DirectOutgoing) (req : ReqAddr) :
    (processRequest self o req).Awaits (fun o => o.isShutdown = false ∧ o.isRead = false) := by
  apply (directOutgoing_deaf _ req).relays.bind
  intro r
  split
  · next o =>
    apply (readyForConnect_deaf self req).relays.attempt.bind
    intro r
    split
    · next i _ => exact (bicopy_relays i o).attempt.bind (fun _ => .done _)
    · exact .done _
  · exact (abort_deaf self _ req).relays

/-- Nothing in the life of a client shuts a write half: its sockets are only dropped. -/
theorem handleClient_keepsOpen : KeepsOpen (handleClient debugLog self cfg) := by
  apply (nextRequest_reads self debugLog).calm.keepsOpen.attempt.bind
  intro r
  split
  · split
    · exact (processRequest_relays _ _ _).mono (fun _ ho => ho.1)
    · exact (abort_deaf _ _ _).calm.keepsOpen
  · exact .done _

/-- A client that cannot be read from is given up at once. -/
theorem handleClient_givesUp :
    (handleClient debugLog self cfg).EndsOn ReadFails (fun _ => True) := by
  refine (nextRequest_reads self debugLog).givesUp.attempt_bind (fun e => ⟨_, rfl⟩) ?_
  rintro ⟨req, client⟩
  have hread : ∀ o r, o.isShutdown = false ∧ o.isRead = false → ¬ReadFails o r :=
    fun o r ho => readFails_of_isRead o r ho.2
  simp only
  split
  · exact (processRequest_relays _ _ _).endsOn hread
  · exact (abort_deaf _ _ _).relays.endsOn hread

end handleClient

end Rocks
