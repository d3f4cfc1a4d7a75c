import Rocks.Config
import Rocks.Settling
import Rocks.SideBySide

/-! The whole program: `main` accepts clients in a loop and spawns a task for each of them. -/
namespace Rocks
open Async Quiescence SideBySide
open Socks5Connected ClientM

/-- What lies outside one accepted connection: its network, and what its two peers will send. -/
structure Peers where
  env : Env
  streams : TcpStream → List UInt8
  room : TcpStream → Option ℕ

/-- A spawned `handle_client`: being polled, or dropped with its runtime. -/
inductive Spawned
  | running (sys : Sys Unit)
  | dropped (net : Net)

/-- The runtime has ended. -/
def Spawned.drop : Spawned → Spawned
  | running sys => dropped sys.net.dropped
  | dropped net => dropped net

/-- `accepting` tells whether `main` is still in its loop. -/
structure Server where
  accepting : Bool
  spawned : List Spawned

namespace Server

/-- `main` once it has its listener. -/
def start : Server := ⟨true, []⟩

end Server

/-- `main` up to its loop, with a configuration that it has read. -/
def main (parse : String → Option IpAddr) (conf : RocksConfig) : StartIo Server := do
  let _ ← getIncoming parse conf.incoming
  return .start

/-- `main` comes to its loop if its configuration is a SOCKS5 one with an address that it can bind,
and it binds nothing else. -/
theorem main_eq_ok_iff (parse : String → Option IpAddr) (env : StartEnv) (conf : RocksConfig)
    (bound : List SocketAddr) (s : Server) (bound' : List SocketAddr) :
    Task.run env.handler (main parse conf) bound = (.ok s, bound') ↔
      s = .start ∧ conf.incoming.type = .socks5 ∧ ∃ addr,
        conf.incoming.listenAddr.meant parse env = some addr ∧ env.bind addr = .ok () ∧
          bound' = bound ++ [addr] := by
  have hlisten := getIncoming_eq_ok_iff parse env conf.incoming bound
  rw [main, Task.run_bind]
  cases hr : Task.run env.handler (getIncoming parse conf.incoming) bound with
  | mk r bound2 =>
    rw [hr] at hlisten
    cases r with
    | err | panic =>
      constructor
      · intro h
        cases h
      · rintro ⟨-, hsocks, addr, hm, hbind, rfl⟩
        cases (hlisten ⟨addr⟩ _).mpr ⟨hsocks, hm, hbind, rfl⟩
    | ok incoming =>
      obtain ⟨hsocks, hm, hbind, rfl⟩ := (hlisten incoming bound2).mp rfl
      constructor
      · intro h
        obtain ⟨hs, rfl⟩ := Prod.mk.inj h
        exact ⟨(Outcome.ok.inj hs).symm, hsocks, _, hm, hbind, rfl⟩
      · rintro ⟨rfl, -, addr, hm', -, rfl⟩
        obtain rfl := Option.some.inj (hm.symm.trans hm')
        rfl

section server

variable (conns : ℕ → Peers) (debugLog : Bool) (conf : RocksConfig)

/-- `tokio::spawn(handle_client(c, o_conf))` for a connection with the given peers. -/
def Peers.spawn (p : Peers) : Spawned :=
  .running ⟨.fresh p.streams p.room, .awaiting (handleClient debugLog held conf.outgoing)⟩

/-- A task on its own: it goes on, or it is dropped by a runtime that has ended. -/
inductive Spawned.Step (p : Peers) (accepting : Bool) : Spawned → Spawned → Prop
  | goes {a b : Sys Unit} (h : Rocks.Step p.env a b) : Step p accepting (.running a) (.running b)
  | drops (a : Sys Unit) (h : accepting = false) :
      Step p accepting (.running a) (.dropped a.net.dropped)

/-- One step of the program: `main` goes round its loop, or leaves it on a failed `accept`, which
ends the runtime, or one of the tasks takes a step. -/
inductive Server.Step : Server → Server → Prop
  | accepts (l : List Spawned) :
      Step ⟨true, l⟩ ⟨true, l ++ [(conns l.length).spawn debugLog conf]⟩
  | acceptFails (l : List Spawned) : Step ⟨true, l⟩ ⟨false, l⟩
  | tasks (accepting : Bool) {l l' : List Spawned}
      (h : Advances (fun i => Spawned.Step (conns i) accepting) l l') :
      Step ⟨accepting, l⟩ ⟨accepting, l'⟩

/-- One turn of the loop of `main`, by what `next_client` comes to. -/
def Server.turn (s : Server) : Except Error Unit → Server
  | .ok () => { s with spawned := s.spawned ++ [(conns s.spawned.length).spawn debugLog conf] }
  | .error _ => { s with accepting := false }

abbrev Server.Reaches : Server → Server → Prop :=
  Relation.ReflTransGen (Server.Step conns debugLog conf)

/-- What a task can have come to by itself. -/
def Spawned.Own (p : Peers) (accepting : Bool) : Spawned → Prop
  | .running sys => Serves p.env debugLog conf.outgoing p.streams p.room sys
  | .dropped net => accepting = false ∧ ∃ sys,
      Serves p.env debugLog conf.outgoing p.streams p.room sys ∧ net = sys.net.dropped

section spawned

variable {p : Peers} {accepting : Bool} {debugLog : Bool} {conf : RocksConfig}

/-- What a task comes to: what its own steps lead to, dropped or not. -/
theorem spawned_reaches_iff (a : Sys Unit) (t : Spawned) :
    Relation.ReflTransGen (Spawned.Step p accepting) (.running a) t ↔ match t with
      | .running b => Rocks.Reaches p.env a b
      | .dropped net => accepting = false ∧ ∃ b, Rocks.Reaches p.env a b ∧ net = b.net.dropped := by
  constructor
  · intro h
    induction h with
    | refl => exact .refl
    | tail _ hlast ih =>
      cases hlast with
      | goes hgo => exact Relation.ReflTransGen.tail ih hgo
      | drops b hacc => exact ⟨hacc, b, ih, rfl⟩
  · intro ht
    have hrun : ∀ b, Rocks.Reaches p.env a b →
        Relation.ReflTransGen (Spawned.Step p accepting) (.running a) (.running b) :=
      fun b hb => hb.lift Spawned.running (fun _ _ h => .goes h)
    cases t with
    | running b => exact hrun b ht
    | dropped net =>
      obtain ⟨hacc, b, hb, rfl⟩ := ht
      exact (hrun b hb).tail (.drops b hacc)

/-- What a task can have come to is what its own steps lead to. -/
theorem own_iff (t : Spawned) : t.Own debugLog conf p accepting ↔
    Relation.ReflTransGen (Spawned.Step p accepting) (p.spawn debugLog conf) t := by
  rw [Peers.spawn, spawned_reaches_iff]
  cases t <;> rfl

theorem own_step {t t' : Spawned} (ht : t.Own debugLog conf p accepting)
    (h : Spawned.Step p accepting t t') : t'.Own debugLog conf p accepting := by
  rw [own_iff] at ht ⊢
  exact ht.tail h

theorem spawned_settles (t : Spawned) : Settles (Spawned.Step p accepting) t := by
  have hdropped : ∀ net, Settles (Spawned.Step p accepting) (.dropped net) := by
    intro net
    constructor
    rintro b ⟨h, -⟩
    cases h
  cases t with
  | dropped net => exact hdropped net
  | running sys =>
    let f : Spawned → Sys Unit := fun | .running sys => sys | .dropped net => ⟨net, .awaiting (.done .panic)⟩
    have hs : Settles (Rocks.Step p.env) (f (.running sys)) := sys_settles sys
    refine Settles.of_map (I := fun t => ∃ sys, t = .running sys) f ?_ ⟨sys, rfl⟩ hs
    rintro _ b ⟨a, rfl⟩ ⟨h, hne⟩
    cases h with
    | @goes _ b h => exact Or.inr ⟨⟨b, rfl⟩, h, fun he => hne (congrArg Spawned.running he)⟩
    | drops => exact Or.inl (hdropped _)

end spawned

/-- The tasks after `n` rounds of the loop, before any of them is polled. -/
theorem accepts_many (n : ℕ) : ∃ l : List Spawned, l.length = n ∧
    (∀ i < n, l[i]? = some ((conns i).spawn debugLog conf)) ∧
    Server.Reaches conns debugLog conf .start ⟨true, l⟩ := by
  induction n with
  | zero => exact ⟨[], rfl, fun i hi => absurd hi (by omega), .refl⟩
  | succ n ih =>
    obtain ⟨l, hl, hget, hreach⟩ := ih
    refine ⟨l ++ [(conns l.length).spawn debugLog conf], by simp [hl], ?_, hreach.tail (.accepts l)⟩
    intro i hi
    by_cases hn : i = n
    · subst hn
      rw [← hl]
      exact List.getElem?_concat_length
    · rw [List.getElem?_append_left (by omega)]
      exact hget i (by omega)

variable {conns debugLog conf}

theorem tasks_reach (accepting : Bool) {l l' : List Spawned}
    (h : Relation.ReflTransGen (Advances (fun i => Spawned.Step (conns i) accepting)) l l') :
    Server.Reaches conns debugLog conf ⟨accepting, l⟩ ⟨accepting, l'⟩ :=
  h.lift (fun l => Server.mk accepting l) (fun _ _ h => Server.Step.tasks accepting h)

/-- What a step of the program does to one task. -/
theorem server_step_task {s s' : Server} (h : Server.Step conns debugLog conf s s') {i : ℕ} {t : Spawned}
    (ht : s.spawned[i]? = some t) :
    ∃ t', s'.spawned[i]? = some t' ∧ (t' = t ∨ Spawned.Step (conns i) s.accepting t t') := by
  have hi : i < s.spawned.length := (List.getElem?_eq_some_iff.mp ht).1
  cases h with
  | accepts l => exact ⟨t, (List.getElem?_append_left hi).trans ht, Or.inl rfl⟩
  | acceptFails l => exact ⟨t, ht, Or.inl rfl⟩
  | @tasks accepting l _ hadv =>
    cases hadv with
    | one j a b ha hab =>
      by_cases hij : j = i
      · subst hij
        obtain rfl := Option.some.inj (ha.symm.trans ht)
        exact ⟨b, List.getElem?_set_self hi, Or.inr hab⟩
      · exact ⟨t, (List.getElem?_set_ne hij).trans ht, Or.inl rfl⟩

/-- A task that was not there before has just been spawned. -/
theorem server_step_new {s s' : Server} (h : Server.Step conns debugLog conf s s') {i : ℕ} {t : Spawned}
    (hs : s.spawned[i]? = none) (ht : s'.spawned[i]? = some t) : t = (conns i).spawn debugLog conf := by
  have hi : s.spawned.length ≤ i := List.getElem?_eq_none_iff.mp hs
  have hi' : i < s'.spawned.length := (List.getElem?_eq_some_iff.mp ht).1
  cases h with
  | accepts l =>
    have hlen : (l ++ [(conns l.length).spawn debugLog conf]).length = l.length+1 := by simp
    have hil : i = l.length := by
      simp only at hi hi'
      omega
    subst hil
    exact (Option.some.inj (List.getElem?_concat_length.symm.trans ht)).symm
  | acceptFails l => exact absurd hi' (by simpa using hi)
  | tasks _ hadv => exact absurd hi' (by simpa [advances_length hadv] using hi)

/-- `main` does not come back to its loop. -/
theorem server_step_accepting {s s' : Server} (h : Server.Step conns debugLog conf s s')
    (hs : s.accepting = false) : s'.accepting = false := by
  cases h with
  | accepts l => exact hs
  | acceptFails l => rfl
  | tasks accepting hadv => exact hs

theorem Spawned.Own.mono {p : Peers} {a a' : Bool} {t : Spawned} (ht : t.Own debugLog conf p a)
    (ha : a = false → a' = false) : t.Own debugLog conf p a' := by
  cases t with
  | running sys => exact ht
  | dropped net => exact ⟨ha ht.1, ht.2⟩

variable (conns debugLog conf)

/-- The run lemma: each task stays what it can have come to by itself. -/
theorem server_own {s : Server} (h : Server.Reaches conns debugLog conf .start s) (i : ℕ) (t : Spawned)
    (ht : s.spawned[i]? = some t) : t.Own debugLog conf (conns i) s.accepting := by
  have hinv : ∀ (i : ℕ) (t : Spawned), s.spawned[i]? = some t → t.Own debugLog conf (conns i) s.accepting := by
    apply keeps_of_reaches (I := fun s : Server =>
      ∀ (i : ℕ) (t : Spawned), s.spawned[i]? = some t → t.Own debugLog conf (conns i) s.accepting) _ h
    · intro i t ht
      cases ht
    intro s s' hstep hs i t ht
    cases hi : s.spawned[i]? with
    | none =>
      -- the new task is as it was spawned
      rw [server_step_new hstep hi ht]
      exact (own_iff _).mpr .refl
    | some before =>
      have hbefore := hs i before hi
      obtain ⟨t', ht', hmove⟩ := server_step_task hstep hi
      obtain rfl := Option.some.inj (ht'.symm.trans ht)
      have hown : t'.Own debugLog conf (conns i) s.accepting := by
        rcases hmove with rfl | hmove
        · exact hbefore
        · exact own_step hbefore hmove
      exact hown.mono (server_step_accepting hstep)
  exact hinv i t ht

/-- The clients of a server do not see each other: the states that the program reaches are exactly
the combinations of what each client can have come to on its own connections, and a task is
dropped unfinished only after `main` has left its loop. -/
theorem server_reaches_iff (s : Server) : Server.Reaches conns debugLog conf .start s ↔
    ∀ (i : ℕ) (t : Spawned), s.spawned[i]? = some t → match t with
      | .running sys =>
        Serves (conns i).env debugLog conf.outgoing (conns i).streams (conns i).room sys
      | .dropped net => s.accepting = false ∧ ∃ sys,
        Serves (conns i).env debugLog conf.outgoing (conns i).streams (conns i).room sys ∧
          net = sys.net.dropped := by
  have hown : (∀ (i : ℕ) (t : Spawned), s.spawned[i]? = some t → match t with
      | .running sys =>
        Serves (conns i).env debugLog conf.outgoing (conns i).streams (conns i).room sys
      | .dropped net => s.accepting = false ∧ ∃ sys,
        Serves (conns i).env debugLog conf.outgoing (conns i).streams (conns i).room sys ∧
          net = sys.net.dropped) ↔
      ∀ (i : ℕ) (t : Spawned), s.spawned[i]? = some t → t.Own debugLog conf (conns i) s.accepting := by
    apply forall_congr'
    intro i
    apply forall_congr'
    intro t
    cases t <;> rfl
  rw [hown]
  constructor
  · exact server_own conns debugLog conf
  · intro hs
    obtain ⟨accepting, l'⟩ := s
    -- all clients are accepted first, then each task runs by itself
    obtain ⟨l, hl, hget, hreach⟩ := accepts_many conns debugLog conf l'.length
    have hrun : Relation.ReflTransGen (Advances (fun i => Spawned.Step (conns i) accepting)) l l' := by
      rw [reaches_iff]
      refine ⟨hl.symm, ?_⟩
      intro i a b ha hb
      have hi : i < l'.length := (List.getElem?_eq_some_iff.mp hb).1
      obtain rfl := Option.some.inj ((hget i hi).symm.trans ha)
      exact (own_iff b).mp (hs i b hb)
    cases accepting with
    | true => exact hreach.trans (tasks_reach true hrun)
    | false => exact (hreach.tail (.acceptFails l)).trans (tasks_reach false hrun)

/-- Once `main` has left its loop, nothing but tasks can move. -/
theorem ended_step {l : List Spawned} {s : Server} (h : Server.Step conns debugLog conf ⟨false, l⟩ s) :
    ∃ l', Advances (fun i => Spawned.Step (conns i) false) l l' ∧ s = ⟨false, l'⟩ := by
  cases h with
  | tasks _ hadv => exact ⟨_, hadv, rfl⟩

theorem ended_reaches {l : List Spawned} {s : Server}
    (h : Server.Reaches conns debugLog conf ⟨false, l⟩ s) :
    ∃ l', Relation.ReflTransGen (Advances (fun i => Spawned.Step (conns i) false)) l l' ∧
      s = ⟨false, l'⟩ := by
  apply keeps_of_reaches (I := fun s : Server => ∃ l',
    Relation.ReflTransGen (Advances (fun i => Spawned.Step (conns i) false)) l l' ∧ s = ⟨false, l'⟩) _ h
    ⟨l, .refl, rfl⟩
  rintro _ s' hstep ⟨l', hl', rfl⟩
  obtain ⟨l'', hadv, rfl⟩ := ended_step conns debugLog conf hstep
  exact ⟨l'', hl'.tail hadv, rfl⟩

/-- A step of the program is a turn of the loop, or a step of one of the tasks. -/
theorem server_step_iff (s s' : Server) : Server.Step conns debugLog conf s s' ↔
    (s.accepting = true ∧ ∃ r, s' = s.turn conns debugLog conf r) ∨
      s'.accepting = s.accepting ∧
        Advances (fun i => Spawned.Step (conns i) s.accepting) s.spawned s'.spawned := by
  obtain ⟨accepting, l⟩ := s
  constructor
  · intro h
    cases h with
    | accepts l => exact Or.inl ⟨rfl, .ok (), rfl⟩
    | acceptFails l => exact Or.inl ⟨rfl, .error .notConnected, rfl⟩
    | tasks _ hadv => exact Or.inr ⟨rfl, hadv⟩
  · rintro (⟨hacc, r, rfl⟩ | ⟨hacc, hadv⟩)
    · obtain rfl : accepting = true := hacc
      cases r with
      | ok u => exact .accepts l
      | error e => exact .acceptFails l
    · obtain ⟨_, l'⟩ := s'
      obtain rfl := hacc
      exact .tasks _ hadv

/-- As long as `main` is in its loop, no task has been dropped. -/
theorem accepting_running {s : Server} (hs : Server.Reaches conns debugLog conf .start s)
    (hacc : s.accepting = true) {i : ℕ} {t : Spawned} (ht : s.spawned[i]? = some t) :
    ∃ a, t = .running a := by
  have hown := server_own conns debugLog conf hs i t ht
  cases t with
  | running a => exact ⟨a, rfl⟩
  | dropped net => cases hacc.symm.trans hown.1

/-- All tasks can be dropped as they are. -/
theorem drops_all (l : List Spawned) :
    Server.Reaches conns debugLog conf ⟨false, l⟩ ⟨false, l.map Spawned.drop⟩ := by
  apply tasks_reach
  rw [reaches_iff]
  refine ⟨List.length_map _, ?_⟩
  intro i t t' ht ht'
  rw [List.getElem?_map, ht] at ht'
  obtain rfl := Option.some.inj ht'
  cases t with
  | running a => exact .single (.drops a rfl)
  | dropped net => exact .refl

/-- Nothing moves any more once all tasks are dropped. -/
theorem all_dropped_stays {l : List Spawned} {s : Server}
    (h : Server.Step conns debugLog conf ⟨false, l.map Spawned.drop⟩ s) :
    s = ⟨false, l.map Spawned.drop⟩ := by
  obtain ⟨l', hadv, rfl⟩ := ended_step conns debugLog conf h
  cases hadv with
  | one i a b ha hab =>
    obtain ⟨t, -, rfl⟩ := List.mem_map.mp (List.mem_of_getElem? ha)
    cases t <;> cases hab

/-- One failed `accept` ends every tunnel: no client is accepted after it, and each task comes to
anything that it can come to by itself, and is dropped there. It is at rest only when all have been
dropped, which can happen at once, whatever they had still to carry. -/
theorem accept_error_ends_all {s : Server} (hs : Server.Reaches conns debugLog conf .start s)
    (hacc : s.accepting = true) (e : Error) (s' : Server) :
    Server.Step conns debugLog conf s (s.turn conns debugLog conf (.error e)) ∧
    (Server.Reaches conns debugLog conf (s.turn conns debugLog conf (.error e)) s' ↔
      s'.accepting = false ∧ s'.spawned.length = s.spawned.length ∧
      ∀ (i : ℕ) (t t' : Spawned), s.spawned[i]? = some t → s'.spawned[i]? = some t' →
        ∃ a b, t = .running a ∧ Rocks.Reaches (conns i).env a b ∧
          (t' = .running b ∨ t' = .dropped b.net.dropped)) ∧
    (Server.Reaches conns debugLog conf (s.turn conns debugLog conf (.error e)) s' →
      Server.Reaches conns debugLog conf s' ⟨false, s'.spawned.map Spawned.drop⟩ ∧
      (Quiet (Server.Step conns debugLog conf) s' ↔ s' = ⟨false, s'.spawned.map Spawned.drop⟩)) := by
  have hturn : s.turn conns debugLog conf (.error e) = ⟨false, s.spawned⟩ := rfl
  have hends : Server.Reaches conns debugLog conf ⟨false, s.spawned⟩ s' →
      s' = ⟨false, s'.spawned⟩ ∧
        Relation.ReflTransGen (Advances (fun i => Spawned.Step (conns i) false)) s.spawned s'.spawned := by
    intro h
    obtain ⟨l', hl', rfl⟩ := ended_reaches conns debugLog conf h
    exact ⟨rfl, hl'⟩
  refine ⟨(server_step_iff conns debugLog conf _ _).mpr (Or.inl ⟨hacc, _, rfl⟩), ?_⟩
  rw [hturn]
  refine ⟨⟨?_, ?_⟩, ?_⟩
  · intro h
    obtain ⟨hs', hadv⟩ := hends h
    obtain ⟨hlen, hcomp⟩ := reaches_component hadv
    refine ⟨congrArg Server.accepting hs', hlen, ?_⟩
    intro i t t' ht ht'
    obtain ⟨a, rfl⟩ := accepting_running conns debugLog conf hs hacc ht
    have hreach := (spawned_reaches_iff a t').mp (hcomp i _ t' ht ht')
    cases t' with
    | running b => exact ⟨a, b, rfl, hreach, Or.inl rfl⟩
    | dropped net =>
      obtain ⟨-, b, hb, rfl⟩ := hreach
      exact ⟨a, b, rfl, hb, Or.inr rfl⟩
  · rintro ⟨hacc', hlen, hcomp⟩
    obtain ⟨_, l'⟩ := s'
    subst hacc'
    apply tasks_reach
    rw [reaches_iff]
    refine ⟨hlen, ?_⟩
    intro i t t' ht ht'
    obtain ⟨a, b, rfl, hb, rfl | rfl⟩ := hcomp i t t' ht ht'
    · exact (spawned_reaches_iff a _).mpr hb
    · exact (spawned_reaches_iff a _).mpr ⟨rfl, b, hb, rfl⟩
  · intro h
    obtain ⟨hs', -⟩ := hends h
    have hdrop : Server.Reaches conns debugLog conf s' ⟨false, s'.spawned.map Spawned.drop⟩ := by
      rw [hs']
      exact drops_all conns debugLog conf _
    refine ⟨hdrop, ?_, ?_⟩
    · intro hq
      exact (quiet_reaches hq hdrop).symm
    · intro hall s'' hstep
      rw [hall] at hstep ⊢
      exact all_dropped_stays conns debugLog conf hstep

/-- What a task can do by itself, it can do in the program while all the others stand still. -/
theorem advances_alone {accepting : Bool} {l : List Spawned} {i : ℕ} {a b : Sys Unit}
    (hi : l[i]? = some (.running a)) (h : Rocks.Reaches (conns i).env a b) :
    Server.Reaches conns debugLog conf ⟨accepting, l⟩ ⟨accepting, l.set i (.running b)⟩ := by
  have hil : i < l.length := (List.getElem?_eq_some_iff.mp hi).1
  induction h with
  | refl =>
    have hsame : l.set i (.running a) = l := by
      obtain ⟨_, hget⟩ := List.getElem?_eq_some_iff.mp hi
      rw [← hget]
      exact List.set_getElem_self hil
    rw [hsame]
  | @tail b c _ hlast ih =>
    have hb : (l.set i (.running b))[i]? = some (.running b) := List.getElem?_set_self hil
    have hadv : Advances (fun i => Spawned.Step (conns i) accepting) (l.set i (.running b))
        ((l.set i (.running b)).set i (.running c)) := .one _ i _ _ hb (.goes hlast)
    rw [List.set_set] at hadv
    exact ih.tail (.tasks accepting hadv)

/-- A SOCKS5 listener that connects directly. -/
def loopback : RocksConfig := ⟨⟨.socks5, ⟨some "127.0.0.1", none, 4080⟩⟩, ⟨.direct⟩⟩

/-- Clients that all ask for the same and get it. -/
def askingConns : ℕ → Peers := fun _ => ⟨named, (fun
  | .client => encodeHello [0] 0 (.v6 ⟨0, 0, 0, 0, 0, 0, 0, 1⟩) 80 ++ [71, 69, 84]
  | .remote => [52, 48, 52]), fun _ => none⟩

/-- One of them as it is spawned. -/
def askingSys : Sys Unit :=
  ⟨.fresh (askingConns 0).streams (askingConns 0).room, .awaiting (handleClient false held loopback.outgoing)⟩

/-- `EMFILE` as `accept` reports it. -/
def tooManyFiles : IoError :=
  ⟨.uncategorized, some 24, "Too many open files", by
    intro c h
    obtain rfl := Option.some.inj h
    decide⟩

/-- The first client has got its reply, and the remote what the client sent behind its request; then
an `accept` fails, and the answer of the remote is not carried over any more. -/
theorem accept_error_ends_all_answer : ∃ s, Server.Reaches askingConns false loopback .start s ∧
    s.accepting = true ∧ ∃ net,
      Server.Reaches askingConns false loopback
        (s.turn askingConns false loopback (.error (.io tooManyFiles))) ⟨false, [.dropped net]⟩ ∧
      Quiet (Server.Step askingConns false loopback) ⟨false, [.dropped net]⟩ ∧
      net.delivered .remote = [71, 69, 84] ∧
      net.delivered .client = [5, 0] ++ encodeReply 0 (.v6 ⟨0, 0, 0, 0, 0, 0, 0, 1⟩) 80 := by
  have hserved : Server.Reaches askingConns false loopback .start
      ⟨true, [.running (askingSys.after named 24)]⟩ :=
    (Relation.ReflTransGen.single (.accepts [])).trans
      (advances_alone askingConns false loopback (l := [.running askingSys]) (i := 0) rfl
        (reaches_after named 24 askingSys))
  have hends := accept_error_ends_all askingConns false loopback hserved rfl (.io tooManyFiles)
    ⟨false, [.dropped (askingSys.after named 24).net.dropped]⟩
  have hreach := hends.2.1.mpr (by
    refine ⟨rfl, rfl, ?_⟩
    intro i t t' ht ht'
    cases i with
    | zero =>
      obtain rfl := Option.some.inj ht
      obtain rfl := Option.some.inj ht'
      exact ⟨_, _, rfl, .refl, Or.inr rfl⟩
    | succ i => cases ht)
  refine ⟨_, hserved, rfl, _, hreach, (hends.2.2 hreach).2.mpr rfl, ?_, ?_⟩ <;> decide +kernel

end server

end Rocks
