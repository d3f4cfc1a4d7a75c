import Rocks.Directions
import Rocks.Server

/-! Runs of the whole program that leave no task as it is forever: each client gets what is sent to
it, however many others keep coming, and whether or not its peers ever end their streams. -/
namespace Rocks
open Async Quiescence SideBySide
open Socks5Connected ClientM

def Spawned.net : Spawned → Net
  | running sys => sys.net
  | dropped net => net

/-- A step of a task at which no peer ends its stream. -/
def Spawned.OpenStep (p : Peers) (accepting : Bool) (a b : Spawned) : Prop :=
  Spawned.Step p accepting a b ∧ ∀ s, (b.net.sock s).coming = none → (a.net.sock s).coming = none

section fairness

variable (conns : ℕ → Peers) (debugLog : Bool) (conf : RocksConfig)

/-- Task `i` is not left as it is forever while it can change. -/
def Server.Fair (run : ℕ → Server) (i : ℕ) : Prop :=
  ∀ n t, (run n).spawned[i]? = some t → ¬Quiet (Spawned.Step (conns i) (run n).accepting) t →
    ∃ m, n ≤ m ∧ (run m).spawned[i]? ≠ some t

/-- Task `i` is not left as it is forever while it can change before a peer ends its stream. -/
def Server.FairOpen (run : ℕ → Server) (i : ℕ) : Prop :=
  ∀ n t, (run n).spawned[i]? = some t → ¬Quiet (Spawned.OpenStep (conns i) (run n).accepting) t →
    ∃ m, n ≤ m ∧ (run m).spawned[i]? ≠ some t

variable {conns debugLog conf}

/-- Whoever sees to the ends of the streams too is fair without them. -/
theorem Server.Fair.fairOpen {run : ℕ → Server} {i : ℕ} (h : Server.Fair conns run i) :
    Server.FairOpen conns run i := by
  intro n t ht hq
  exact h n t ht (fun hquiet => hq (fun b hb => hquiet b hb.1))

theorem idle_of_spawned {p : Peers} {accepting : Bool} {sys : Sys Unit}
    (hq : Quiet (Spawned.OpenStep p accepting) (.running sys)) : Idle p.env sys :=
  fun b hb => Spawned.running.inj (hq (.running b) ⟨.goes hb.1, hb.2⟩)

/-- A task that is at rest by itself is so in a program that goes on accepting. -/
theorem spawned_quiet {p : Peers} {sys : Sys Unit} (hq : Quiet (Rocks.Step p.env) sys) :
    Quiet (Spawned.Step p true) (.running sys) := by
  intro b hb
  cases hb with
  | goes h => rw [hq _ h]
  | drops _ h => cases h

theorem spawned_idle {p : Peers} {sys : Sys Unit} (hq : Idle p.env sys) :
    Quiet (Spawned.OpenStep p true) (.running sys) := by
  rintro b ⟨hb, hopen⟩
  cases hb with
  | goes h => rw [hq _ ⟨h, hopen⟩]
  | drops _ h => cases h

section run

variable {run : ℕ → Server} (hrun : ∀ n, Server.Step conns debugLog conf (run n) (run (n+1)))

include hrun

theorem accepting_after {n m : ℕ} (hn : (run n).accepting = false) (hm : n ≤ m) :
    (run m).accepting = false := by
  induction m, hm using Nat.le_induction with
  | base => exact hn
  | succ m _ ih => exact server_step_accepting (hrun m) ih

/-- From some point on, `main` is in its loop for good, or has left it. -/
theorem accepting_constant (n : ℕ) : ∃ m, n ≤ m ∧ ∀ k, m ≤ k → (run k).accepting = (run m).accepting := by
  by_cases h : ∃ j, (run j).accepting = false
  · obtain ⟨j, hj⟩ := h
    refine ⟨max n j, le_max_left n j, ?_⟩
    intro k hk
    rw [accepting_after hrun hj (le_max_right n j),
      accepting_after hrun hj ((le_max_right n j).trans hk)]
  · refine ⟨n, le_rfl, ?_⟩
    have hall : ∀ k, (run k).accepting = true := by
      intro k
      by_contra hk
      exact h ⟨k, by simpa using hk⟩
    intro k _
    rw [hall k, hall n]

theorem reaches_of_run {s : Server} (h0 : run 0 = s) (n : ℕ) :
    Server.Reaches conns debugLog conf s (run n) := by
  induction n with
  | zero => rw [h0]
  | succ n ih => exact ih.tail (hrun n)

theorem task_stays {i n : ℕ} (hi : i < (run n).spawned.length) (m : ℕ) :
    ∃ t, (run (n+m)).spawned[i]? = some t := by
  induction m with
  | zero => exact ⟨_, List.getElem?_eq_getElem hi⟩
  | succ m ih =>
    obtain ⟨t, ht⟩ := ih
    obtain ⟨t', ht', -⟩ := server_step_task (hrun (n+m)) ht
    exact ⟨t', ht'⟩

/-- A task comes to rest in every run that is fair to it: its own steps settle, and those of the
others leave it as it is. -/
theorem fair_task_rests {i : ℕ} (hfair : Server.FairOpen conns run i) {n₀ : ℕ}
    (hi : i < (run n₀).spawned.length) :
    ∃ n t, ∀ m, n ≤ m → (run m).spawned[i]? = some t ∧
      Quiet (Spawned.OpenStep (conns i) (run m).accepting) t := by
  obtain ⟨N, hN, hacc⟩ := accepting_constant hrun n₀
  have htask : ∀ m, ∃ t, (run (N+m)).spawned[i]? = some t := by
    intro m
    have ht := task_stays hrun hi (N-n₀+m)
    rwa [show n₀+(N-n₀+m) = N+m by omega] at ht
  choose c hc using htask
  -- from here on the task takes its own steps, with pauses while the others move
  have hstep : ∀ m, c (m+1) = c m ∨ Spawned.Step (conns i) (run N).accepting (c m) (c (m+1)) := by
    intro m
    obtain ⟨t', ht', ht⟩ := server_step_task (hrun (N+m)) (hc m)
    obtain rfl := Option.some.inj (ht'.symm.trans (hc (m+1)))
    rwa [hacc (N+m) (by omega)] at ht
  have hs : Settles (Spawned.Step (conns i) (run N).accepting) (c 0) := spawned_settles (c 0)
  obtain ⟨k, hk⟩ := hs.stands_still hstep
  have hrest : ∀ m, N+k ≤ m → (run m).spawned[i]? = some (c k) := by
    intro m hm
    have h := hc (m-N)
    rw [show N+(m-N) = m by omega] at h
    rw [h, hk (m-N) (by omega)]
  refine ⟨N+k, c k, ?_⟩
  intro m hm
  refine ⟨hrest m hm, ?_⟩
  -- if it could still change it would
  by_contra hq
  obtain ⟨m', hm', hne⟩ := hfair m (c k) (hrest m hm) hq
  exact hne (hrest m' (hm.trans hm'))

end run

variable (conns debugLog conf)

section carried

variable {run : ℕ → Server} (h0 : run 0 = .start)
  (hrun : ∀ n, Server.Step conns debugLog conf (run n) (run (n+1)))
  (hacc : ∀ n, (run n).accepting = true) {i n₀ : ℕ} (hi : i < (run n₀).spawned.length)
  (hroom : (conns i).room = fun _ => none)

include h0 hrun hacc hi hroom

/-- A program that is fair to a client and goes on accepting leaves the client idle. -/
theorem fair_client_idles (hfair : Server.FairOpen conns run i) : ∃ n sys,
    (∀ m, n ≤ m → (run m).spawned[i]? = some (.running sys)) ∧
      Serves (conns i).env debugLog conf.outgoing (conns i).streams (fun _ => none) sys ∧
        Idle (conns i).env sys := by
  obtain ⟨n, t, ht⟩ := fair_task_rests hrun hfair hi
  have hown := server_own conns debugLog conf (reaches_of_run hrun h0 n) i t (ht n le_rfl).1
  cases t with
  | dropped net => cases hown.1.symm.trans (hacc n)
  | running sys =>
    refine ⟨n, sys, fun m hm => (ht m hm).1, ?_, idle_of_spawned (ht n le_rfl).2⟩
    rw [← hroom]
    exact hown

end carried

/-- Nobody has to close: in a run that is fair to a client, between peers that fall silent when they
have sent what they have to send, or end their streams, and sockets that take everything at once,
a client whose request is accepted gets all that is sent to it, and its remote what it sends, as
long as `main` stays in its loop, whoever else comes. -/
theorem fair_clients_carried {run : ℕ → Server} (h0 : run 0 = .start)
    (hrun : ∀ n, Server.Step conns debugLog conf (run n) (run (n+1)))
    (hacc : ∀ n, (run n).accepting = true) {i n₀ : ℕ} (hi : i < (run n₀).spawned.length)
    (hfair : Server.FairOpen conns run i) (hroom : (conns i).room = fun _ => none)
    (hnames : (conns i).env.Named) (he : ∀ s, (conns i).env.ending s = .eof)
    {req : ReqAddr} {self : Socks5Connected} {w1 : Wire}
    (hn : Task.run (wire (conns i).env) ((nextRequest debugLog).run held)
      ⟨(conns i).streams, fun _ => none, []⟩ = (.ok (req, self), w1)) :
    ∃ dest, req.destination? = some dest ∧ ∃ n sys,
      (∀ m, n ≤ m → (run m).spawned[i]? = some (.running sys)) ∧
      match outcome (conns i).env conf.outgoing req with
      | .ok _ => sys.net.delivered .client =
            [5, 0] ++ encodeReply 0 dest req.port ++ (conns i).streams .remote ∧
          sys.net.delivered .remote = w1.input .client
      | .error e => sys.net.delivered .client =
            [5, 0] ++ encodeReply (getReason e).code dest req.port ∧
          sys.net.delivered .remote = [] := by
  obtain ⟨dest, hdest, hfull⟩ :=
    full_when_idle (conns i).env debugLog conf.outgoing (conns i).streams hnames he hn
  obtain ⟨n, sys, hsys, hserves, hidle⟩ :=
    fair_client_idles conns debugLog conf h0 hrun hacc hi hroom hfair
  exact ⟨dest, hdest, n, sys, hsys, hfull sys hserves hidle⟩

/-- The whole program is correct for each of its clients: in a run that is fair to a client, between
peers that end their streams and sockets that take everything at once, a client whose request is
accepted is served in full as long as `main` stays in its loop, whoever else comes. -/
theorem fair_clients_served {run : ℕ → Server} (h0 : run 0 = .start)
    (hrun : ∀ n, Server.Step conns debugLog conf (run n) (run (n+1)))
    (hacc : ∀ n, (run n).accepting = true) {i n₀ : ℕ} (hi : i < (run n₀).spawned.length)
    (hfair : Server.Fair conns run i) (hroom : (conns i).room = fun _ => none)
    (hnames : (conns i).env.Named) (he : ∀ s, (conns i).env.ending s = .eof)
    {req : ReqAddr} {self : Socks5Connected} {w1 : Wire}
    (hn : Task.run (wire (conns i).env) ((nextRequest debugLog).run held)
      ⟨(conns i).streams, fun _ => none, []⟩ = (.ok (req, self), w1)) :
    ∃ dest, req.destination? = some dest ∧ ∃ n sys,
      (∀ m, n ≤ m → (run m).spawned[i]? = some (.running sys)) ∧
      match outcome (conns i).env conf.outgoing req with
      | .ok _ => sys.net.delivered .client =
            [5, 0] ++ encodeReply 0 dest req.port ++ (conns i).streams .remote ∧
          sys.net.delivered .remote = w1.input .client
      | .error e => sys.net.delivered .client =
            [5, 0] ++ encodeReply (getReason e).code dest req.port ∧
          sys.net.delivered .remote = [] := by
  obtain ⟨dest, hdest, hfull⟩ :=
    full_when_idle (conns i).env debugLog conf.outgoing (conns i).streams hnames he hn
  obtain ⟨n, sys, hsys, hserves, hidle⟩ :=
    fair_client_idles conns debugLog conf h0 hrun hacc hi hroom hfair.fairOpen
  exact ⟨dest, hdest, n, sys, hsys, hfull sys hserves hidle⟩

/-- The program can bring a client to any state that its task can come to, leave it there, and go on
accepting others. -/
theorem exists_run_to (i : ℕ) {last : Sys Unit}
    (hlast : Serves (conns i).env debugLog conf.outgoing (conns i).streams (conns i).room last) :
    ∃ run : ℕ → Server, run 0 = .start ∧ (∀ n, Server.Step conns debugLog conf (run n) (run (n+1))) ∧
      (∀ n, (run n).accepting = true) ∧
      ∃ k, ∀ n, k ≤ n → (run n).spawned[i]? = some (.running last) := by
  obtain ⟨l, hl, hget, hreach⟩ := accepts_many conns debugLog conf (i+1)
  have hi : l[i]? = some ((conns i).spawn debugLog conf) := hget i (by omega)
  -- from then on there is always somebody else to accept
  let Rests : Server → Prop := fun s => s.accepting = true ∧ s.spawned[i]? = some (.running last)
  have hrests : ∀ s, Rests s → ∃ s', Server.Step conns debugLog conf s s' ∧ Rests s' := by
    rintro ⟨_, l⟩ ⟨rfl, ht⟩
    refine ⟨_, .accepts l, rfl, ?_⟩
    exact (List.getElem?_append_left (List.getElem?_eq_some_iff.mp ht).1).trans ht
  have hset : (l.set i (.running last))[i]? = some (.running last) := List.getElem?_set_self (by omega)
  have hpath := hreach.trans (advances_alone conns debugLog conf hi hlast)
  obtain ⟨run, h0, hrun, k, hk⟩ := exists_run hrests hpath ⟨rfl, hset⟩
  refine ⟨run, h0, hrun, ?_, k, fun n hn => (hk n hn).2⟩
  intro n
  by_contra hn
  -- a loop that is left before point `k` would still be left behind it
  have hlater := accepting_after hrun (by simpa using hn) (le_max_right k n)
  cases hlater.symm.trans (hk _ (le_max_left k n)).1

end fairness

theorem asking_accepted : (Task.run (wire (askingConns 2).env) ((nextRequest false).run held)
    ⟨(askingConns 2).streams, fun _ => none, []⟩).1 =
      .ok (.ip (.v6 ⟨0, 0, 0, 0, 0, 0, 0, 1⟩ 80 0 0), held) := by decide +kernel

/-- The third of the clients that ask for the same gets its answer. -/
theorem fair_clients_served_third : ∃ run : ℕ → Server, run 0 = .start ∧
    (∀ n, Server.Step askingConns false loopback (run n) (run (n+1))) ∧
    ∃ dest, (ReqAddr.ip (.v6 ⟨0, 0, 0, 0, 0, 0, 0, 1⟩ 80 0 0)).destination? = some dest ∧ ∃ n sys,
      (∀ m, n ≤ m → (run m).spawned[2]? = some (.running sys)) ∧
      sys.net.delivered .client = [5, 0] ++ encodeReply 0 dest 80 ++ [52, 48, 52] := by
  have hsettles : Settles (Rocks.Step named) askingSys := sys_settles askingSys
  obtain ⟨last, hlast, hquiet⟩ := hsettles.exists_quiet
  obtain ⟨run, h0, hrun, hacc, k, hk⟩ := exists_run_to askingConns false loopback 2 hlast
  have hfair : Server.Fair askingConns run 2 := by
    intro n t _ hn
    refine ⟨max k n, le_max_right k n, ?_⟩
    intro ht
    obtain rfl := Option.some.inj ((hk _ (le_max_left k n)).symm.trans ht)
    rw [hacc n] at hn
    exact hn (spawned_quiet hquiet)
  have hnames : named.Named := fun _ => ⟨⟨_, rfl⟩, _, rfl⟩
  obtain ⟨dest, hdest, n, sys, hsys, hout⟩ := fair_clients_served askingConns false loopback h0 hrun hacc
    (List.getElem?_eq_some_iff.mp (hk k le_rfl)).1 hfair rfl hnames (fun _ => rfl) (Task.eq_of_fst asking_accepted)
  exact ⟨run, h0, hrun, dest, hdest, n, sys, hsys, hout.1⟩

/-- A client and a remote that never close: the third client still gets its answer. -/
theorem fair_clients_carried_third : ∃ run : ℕ → Server, run 0 = .start ∧
    (∀ n, Server.Step askingConns false loopback (run n) (run (n+1))) ∧
    ∃ dest, (ReqAddr.ip (.v6 ⟨0, 0, 0, 0, 0, 0, 0, 1⟩ 80 0 0)).destination? = some dest ∧ ∃ n sys,
      (∀ m, n ≤ m → (run m).spawned[2]? = some (.running sys)) ∧
      (∀ s, (sys.net.sock s).coming ≠ none) ∧
      sys.net.delivered .client = [5, 0] ++ encodeReply 0 dest 80 ++ [52, 48, 52] ∧
      sys.net.delivered .remote = [71, 69, 84] := by
  obtain ⟨last, hlast, hopen, hidle⟩ := exists_idle named askingSys (by intro s hs; cases hs)
  obtain ⟨run, h0, hrun, hacc, k, hk⟩ := exists_run_to askingConns false loopback 2 hlast
  have hfair : Server.FairOpen askingConns run 2 := by
    intro n t _ hn
    refine ⟨max k n, le_max_right k n, ?_⟩
    intro ht
    obtain rfl := Option.some.inj ((hk _ (le_max_left k n)).symm.trans ht)
    rw [hacc n] at hn
    exact hn (spawned_idle hidle)
  have hnext : (Task.run (wire named) ((nextRequest false).run held)
      ⟨(askingConns 2).streams, fun _ => none, []⟩).1 =
        .ok (.ip (.v6 ⟨0, 0, 0, 0, 0, 0, 0, 1⟩ 80 0 0), held) := by decide +kernel
  have hrest : (Task.run (wire (askingConns 2).env) ((nextRequest false).run held)
      ⟨(askingConns 2).streams, fun _ => none, []⟩).2.input .client = [71, 69, 84] := by decide +kernel
  have hnames : named.Named := fun _ => ⟨⟨_, rfl⟩, _, rfl⟩
  obtain ⟨dest, hdest, n, sys, hsys, hdown, hup⟩ := fair_clients_carried askingConns false loopback h0
    hrun hacc (List.getElem?_eq_some_iff.mp (hk k le_rfl)).1 hfair rfl hnames (fun _ => rfl)
    (Task.eq_of_fst asking_accepted)
  rw [hrest] at hup
  refine ⟨run, h0, hrun, dest, hdest, n, sys, hsys, ?_, hdown, hup⟩
  have hsame := (hk _ (le_max_left k n)).symm.trans (hsys _ (le_max_right k n))
  obtain rfl := Spawned.running.inj (Option.some.inj hsame)
  exact hopen

end Rocks
