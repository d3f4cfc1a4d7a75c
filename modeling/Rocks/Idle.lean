import Rocks.Settling

/-! A client between peers that may stay silent for ever. It is idle when nothing can change before
one of them ends its stream, and then its task is done, or waits for bytes that do not come. -/
namespace Rocks
open Async Quiescence
open Socks5Connected ClientM

/-- A step at which no peer ends its stream. -/
def OpenStep (env : Env) {α : Type} (a b : Sys α) : Prop :=
  Step env a b ∧ ∀ s, (b.net.sock s).coming = none → (a.net.sock s).coming = none

/-- Nothing can change before a peer ends its stream. -/
abbrev Idle (env : Env) {α : Type} (s : Sys α) : Prop := Quiet (OpenStep env) s

/-- At this phase a read that fails ends the task. -/
def Phase.GivesUp {α : Type} : Phase α → Prop
  | .awaiting t => t.EndsOn ReadFails (fun _ => True)
  | .joining _ _ k => ∀ r, (k r).EndsOn ReadFails (fun _ => True)

/-- A half of the relay that has nothing to carry: it has ended, or its source has brought no more. -/
def Copy.Rests (n : Net) (c : Copy) : Prop :=
  c.result ≠ none ∨ c.buf = [] ∧ (n.sock c.source).unread = []

section givesUp

variable {env : Env} {α : Type}

theorem polls_givesUp {n n' : Net} {t t' : Io α} (h : Polls env (n, t) (n', t'))
    (ht : t.EndsOn ReadFails (fun _ => True)) : t'.EndsOn ReadFails (fun _ => True) := by
  obtain ⟨o, k, rfl⟩ : ∃ o k, t = .await o k := by cases h <;> exact ⟨_, _, rfl⟩
  obtain ⟨hfail, hk⟩ := Task.endsOn_await.mp ht
  cases h with
  | read _ s len m =>
    refine .await _ _ ?_ (fun r => hk _)
    intro r hr
    cases r with
    | ok bytes => exact hr.elim
    | error e => exact hfail (.error e) trivial
  | write => exact .await _ _ (fun r hr => hr.elim) hk
  | filled | cutOff | written | refused | toSocketAddrs | connect | peerAddr | localAddr | shutdown =>
    exact hk _

theorem step_givesUp {a b : Sys α} (h : Step env a b) (ha : a.phase.GivesUp) : b.phase.GivesUp := by
  cases h with
  | polls h => exact polls_givesUp h ha
  | joins => exact (Task.endsOn_await.mp ha).2
  | joined => exact ha _
  | arrives | first | second | drops => exact ha

theorem givesUp_of_reaches {a b : Sys α} (h : Reaches env a b) (ha : a.phase.GivesUp) : b.phase.GivesUp :=
  keeps_of_reaches (I := fun s : Sys α => s.phase.GivesUp) (fun _ _ => step_givesUp) h ha

variable (env) in
/-- A task whose read waits for good is the one that gives up there: its run shows no more than
has happened so far. -/
theorem run_of_reading {n : Net} {s : TcpStream} {len : ℕ} {k : Except IoError (List UInt8) → Io α}
    (ht : (Task.await (.readExact s len) k : Io α).EndsOn ReadFails (fun _ => True)) (h0 : 0 < len)
    (hn : (n.sock s).unread = []) :
    (Task.run (wire env) (.await (.readExact s len) k) n.wire).2.trace = n.trace := by
  have hinput : n.wire.input s = [] := hn
  have hfails : wire env (.readExact s len) n.wire =
      (.error (env.ending s).readExactError, n.wire.consume s []) := by
    have hlen : ¬len ≤ 0 := by omega
    simp [handler, Segments.takeExact, hinput, hlen]
  obtain ⟨out, hout, -⟩ := (Task.endsOn_await.mp ht).1 (.error (env.ending s).readExactError) trivial
  rw [Task.run_await, hfails]
  simp only [hout, Task.run_done]
  rfl

end givesUp

section idle

variable {env : Env} {α : Type}

theorem polls_coming {n n' : Net} {t t' : Io α} (h : Polls env (n, t) (n', t')) (s : TcpStream) :
    (n'.sock s).coming = (n.sock s).coming := by
  cases h with
  | read => exact Net.modify_keeps Sock.coming (by intro; rfl) s
  | write => exact Net.deliver_keeps Sock.coming _ _ _ (by intros; rfl) s
  | shutdown =>
    exact Net.modify_keeps Sock.coming (f := fun sock => { sock with room := some 0, shut := true })
      (by intro; rfl) s
  | filled | cutOff | written | refused | toSocketAddrs | connect | peerAddr | localAddr => rfl

theorem copies_coming {n n' : Net} {c c' : Copy} (h : Copies env (n, c) (n', c')) (s : TcpStream) :
    (n'.sock s).coming = (n.sock s).coming := by
  cases h with
  | read => exact Net.modify_keeps Sock.coming (by intro; rfl) s
  | write => exact Net.deliver_keeps Sock.coming _ _ _ (by intros; rfl) s
  | readEnd | readError | writeError | done => rfl

theorem idle_of_quiet {s : Sys α} (h : Quiet (Step env) s) : Idle env s := fun b hb => h b hb.1

/-- All that a peer has sent has arrived, and perhaps its end. -/
theorem idle_coming {s : Sys α} (hq : Idle env s) (i : TcpStream) :
    (s.net.sock i).coming.getD [] = [] := by
  obtain ⟨n, p⟩ := s
  cases hc : (n.sock i).coming with
  | none => rfl
  | some bs =>
    cases bs with
    | nil => rfl
    | cons b bs =>
      have hopen : OpenStep env ⟨n, p⟩ ⟨n.arrive i 1, p⟩ := by
        refine ⟨.arrives p (.bytes n i 1), ?_⟩
        intro s hs
        simp only [Net.arrive, Net.modify_sock] at hs
        split_ifs at hs with hsi
        · subst hsi
          simpa using hs
        · exact hs
      have hsame := (Sys.mk.inj (hq _ hopen)).1
      have h := congrArg (fun n => (Net.sock n i).coming) hsame
      simp [Net.arrive, Net.modify_sock, hc] at h

theorem unread_of_idle {s : Sys α} (hq : Idle env s) {i : TcpStream} (ha : (s.net.sock i).arrived = []) :
    (s.net.sock i).unread = [] := by
  rw [Sock.unread, ha, idle_coming hq i, List.nil_append]

/-- An idle task waits in a read for bytes that do not come. -/
theorem idle_awaiting {n : Net} {o : Op} {k : o.Res → Io α} (hq : Idle env ⟨n, .awaiting (.await o k)⟩) :
    ∃ s len, o = .readExact s len ∧ 0 < len ∧ (n.sock s).arrived = [] ∧ (n.sock s).coming ≠ none := by
  by_cases hj : o.isJoin = false
  · rcases polls_progress env n o hj k with ⟨n', t', h⟩ | ⟨s, len, rfl, h0, ha, hc⟩
    · have hopen : OpenStep env ⟨n, .awaiting (.await o k)⟩ ⟨n', .awaiting t'⟩ :=
        ⟨.polls h, fun s hs => (polls_coming h s).symm.trans hs⟩
      exact absurd (hq _ hopen) (polls_moves h)
    · exact ⟨s, len, rfl, h0, ha, hc⟩
  · cases o with
    | join a b => cases hq _ ⟨.joins n a b k, fun s hs => hs⟩
    | readExact | writeAll | toSocketAddrs | connect | peerAddr | localAddr | shutdown =>
      exact absurd rfl hj

variable (env) in
/-- A half that does not move has ended, or waits for bytes that do not come. -/
theorem ended_or_waiting {n : Net} {c : Copy} (hc : ∀ n' c', ¬Copies env (n, c) (n', c')) :
    c.result ≠ none ∨ Waiting n c := by
  by_cases hr : c.result = none
  · rcases copies_progress env n c hr with ⟨n', c', h⟩ | hw
    · exact absurd h (hc n' c')
    · exact Or.inr hw
  · exact Or.inl hr

theorem idle_joining {n : Net} {c d : Copy} {k : Except IoError ℕ × Except IoError ℕ → Io α}
    (hq : Idle env ⟨n, .joining c d k⟩) : (c.result ≠ none ∨ Waiting n c) ∧
      (d.result ≠ none ∨ Waiting n d) ∧ (c.result = none ∨ d.result = none) := by
  refine ⟨ended_or_waiting env ?_, ended_or_waiting env ?_, ?_⟩
  · intro n' c' h
    obtain ⟨hnet, hp⟩ := Sys.mk.inj (hq _ ⟨.first d k h, fun s hs => (copies_coming h s).symm.trans hs⟩)
    exact copies_moves h ⟨hnet, (Phase.joining.inj hp).1⟩
  · intro n' d' h
    obtain ⟨hnet, hp⟩ := Sys.mk.inj (hq _ ⟨.second c k h, fun s hs => (copies_coming h s).symm.trans hs⟩)
    exact copies_moves h ⟨hnet, (Phase.joining.inj hp).2.1⟩
  · by_contra hboth
    obtain ⟨hc, hd⟩ := not_or.mp hboth
    obtain ⟨r, hr⟩ := Option.ne_none_iff_exists'.mp hc
    obtain ⟨r', hr'⟩ := Option.ne_none_iff_exists'.mp hd
    cases hq _ ⟨.joined n c d k hr hr', fun s hs => hs⟩

/-- Where all that was sent has arrived, what has ended or waits has nothing to carry. -/
theorem rests_of_idle {s : Sys α} (hq : Idle env s) {c : Copy} (hc : c.result ≠ none ∨ Waiting s.net c) :
    c.Rests s.net :=
  hc.imp_right (fun hw => ⟨hw.buf, unread_of_idle hq hw.arrived⟩)

theorem idle_done {n : Net} {r : Outcome Error α} (hq : Idle env ⟨n, .awaiting (.done r)⟩) (s : TcpStream) :
    (n.sock s).shut = true := by
  have hsame := (Sys.mk.inj (hq _ ⟨.drops n r, fun s hs => hs⟩)).1
  exact (congrArg (fun n => (Net.sock n s).shut) hsame).symm

/-- A half that has ended, or waits, takes no step. -/
theorem not_copies {n n' : Net} {c c' : Copy} (hc : c.result ≠ none ∨ Waiting n c) :
    ¬Copies env (n, c) (n', c') := by
  intro h
  have hr : c.result = none := by cases h <;> assumption
  have hw : Waiting n c := hc.resolve_left (fun hne => hne hr)
  cases h with
  | read _ _ m _ _ _ h0 ha =>
    rw [hw.arrived] at ha
    exact absurd h0 (Nat.not_lt.mpr ha)
  | readEnd _ _ _ _ _ _ hn => exact hw.coming hn
  | readError _ _ _ _ _ _ _ hn => exact hw.coming hn
  | write _ _ m _ h0 hl =>
    rw [hw.buf] at hl
    exact absurd h0 (Nat.not_lt.mpr hl)
  | writeError _ _ _ hb => exact hb hw.buf
  | done _ _ _ _ hd =>
    rw [hw.reading] at hd
    cases hd

/-- What a client can be idle at: all that was sent has arrived, and its task is done with both
sockets shut, or waits for bytes in a read or in a half of the relay. -/
theorem idle_iff (n : Net) (p : Phase α) : Idle env ⟨n, p⟩ ↔
    (∀ s, (n.sock s).coming.getD [] = []) ∧ match p with
      | .awaiting (.done _) => ∀ s, (n.sock s).shut = true
      | .awaiting (.await o _) => ∃ s len, o = .readExact s len ∧ 0 < len ∧ (n.sock s).arrived = [] ∧
          (n.sock s).coming ≠ none
      | .joining c d _ => (c.result ≠ none ∨ Waiting n c) ∧ (d.result ≠ none ∨ Waiting n d) ∧
          (c.result = none ∨ d.result = none) := by
  constructor
  · intro hq
    refine ⟨idle_coming hq, ?_⟩
    cases p with
    | joining c d k => exact idle_joining hq
    | awaiting t =>
      cases t with
      | done r => exact idle_done hq
      | await o k => exact idle_awaiting hq
  · rintro ⟨hsent, hp⟩ b ⟨h, hopen⟩
    cases h with
    | arrives p h =>
      cases h with
      | bytes s k =>
        -- nothing is left to arrive
        have hsame : n.arrive s k = n := by
          have hs := hsent s
          apply Net.modify_eq_self
          cases hn : n.sock s with
          | mk taken arrived coming room shut =>
            rw [hn] at hs
            cases coming with
            | none => simp
            | some bs =>
              obtain rfl : bs = [] := hs
              simp
        rw [hsame]
      | ending s hs =>
        have hfin : ((n.finish s).sock s).coming = none := by simp [Net.finish, Net.modify_sock]
        cases hs.symm.trans (hopen s hfin)
    | polls h =>
      cases h with
      | read _ s len m k h0 hl ha =>
        obtain ⟨_, _, ho, -, harr, -⟩ := hp
        obtain ⟨rfl, rfl⟩ := Op.readExact.inj ho
        rw [harr] at ha
        exact absurd h0 (Nat.not_lt.mpr ha)
      | filled _ s k =>
        obtain ⟨_, _, ho, h0, -⟩ := hp
        obtain ⟨-, rfl⟩ := Op.readExact.inj ho
        exact absurd h0 (Nat.lt_irrefl 0)
      | cutOff _ s len k _ _ hc =>
        obtain ⟨_, _, ho, -, -, hn⟩ := hp
        obtain ⟨rfl, -⟩ := Op.readExact.inj ho
        exact absurd hc hn
      | write | written | refused | toSocketAddrs | connect | peerAddr | localAddr | shutdown =>
        obtain ⟨_, _, ho, -⟩ := hp
        cases ho
    | joins =>
      obtain ⟨_, _, ho, -⟩ := hp
      cases ho
    | first d k h => exact absurd h (not_copies hp.1)
    | second c k h => exact absurd h (not_copies hp.2.1)
    | joined _ c d k hc hd =>
      rcases hp.2.2 with h | h
      · cases hc.symm.trans h
      · cases hd.symm.trans h
    | drops _ r => rw [dropped_eq_self n hp]

variable (env) in
/-- A client can always be brought to where it is idle without any peer ending its stream. -/
theorem exists_idle (a : Sys α) (ha : ∀ s, (a.net.sock s).coming ≠ none) :
    ∃ b, Reaches env a b ∧ (∀ s, (b.net.sock s).coming ≠ none) ∧ Idle env b := by
  have hs : Settles (OpenStep env) a := by
    have hstep : Settles (Step env) (id a) := sys_settles a
    refine Settles.of_map (I := fun _ => True) id ?_ trivial hstep
    rintro a b - ⟨h, hne⟩
    exact Or.inr ⟨trivial, h.1, hne⟩
  obtain ⟨b, hab, hidle⟩ := hs.exists_quiet
  refine ⟨b, hab.lift id (fun _ _ h => h.1), ?_, hidle⟩
  apply keeps_of_reaches (I := fun c : Sys α => ∀ s, (c.net.sock s).coming ≠ none) _ hab ha
  intro c d h hc s hd
  exact hc s (h.2 s hd)

end idle

end Rocks
