import Rocks.Locking

/-! The connections that requests hand to each other under an id. Any number of threads add and
get them through one `ConnectionManager`. -/
namespace Rocks.ConnectionManager
open Async Locking

variable {Id Conn ι : Type}

/-- The accesses to the map behind the lock. -/
inductive MapOp (Id Conn : Type)
  | containsKey (id : Id)
  | remove (id : Id)
  | insert (id : Id) (conn : Conn)

@[reducible] def MapOp.Res : MapOp Id Conn → Type
  | containsKey _ => Bool
  | remove _ => Option Conn
  | insert _ _ => Option Conn

/-- `HashMap<Uuid, Box<dyn Connection>>` -/
abbrev Conns (Id Conn : Type) := Id → Option Conn

/-- `HashMap::new()` -/
def empty : Conns Id Conn := fun _ => none

def access [DecidableEq Id] : (o : MapOp Id Conn) → Conns Id Conn → o.Res × Conns Id Conn
  | .containsKey id, conns => ((conns id).isSome, conns)
  | .remove id, conns => (conns id, Function.update conns id none)
  | .insert id conn, conns => (conns id, Function.update conns id (some conn))

/-- Code that holds the lock. -/
abbrev MapIo (Id Conn : Type) : Type → Type := Task (MapOp Id Conn) MapOp.Res String

def containsKey (id : Id) : MapIo Id Conn Bool := Task.perform (MapOp.containsKey id : MapOp Id Conn)

def remove (id : Id) : MapIo Id Conn (Option Conn) := Task.perform (MapOp.remove id : MapOp Id Conn)

def insert (id : Id) (conn : Conn) : MapIo Id Conn (Option Conn) := Task.perform (MapOp.insert id conn : MapOp Id Conn)

def getConnection (poisoned : Bool) (connId : Id) : MapIo Id Conn Conn := do
  if poisoned then
    throw "Mutex poisoned"
  else if ← containsKey connId then
    match ← remove connId with
    | some conn => return conn
    | none => throw "No connections found"
  else
    throw "Not implemented"

def addConnection (poisoned : Bool) (connId : Id) (conn : Conn) : MapIo Id Conn Unit := do
  if poisoned then
    throw "Mutex poisoned"
  else if ← containsKey connId then
    throw "Connection exists"
  else
    let _ ← insert connId conn
    return ()

inductive Call (Id Conn : Type)
  | get (connId : Id)
  | add (connId : Id) (conn : Conn)

/-- What a call can give back. -/
inductive Reply (Conn : Type)
  | conn (conn : Conn)
  | added
deriving DecidableEq

def body (poisoned : Bool) : Call Id Conn → MapIo Id Conn (Reply Conn)
  | .get connId => .conn <$> getConnection poisoned connId
  | .add connId conn => (fun _ => .added) <$> addConnection poisoned connId conn

/-- Finished calls, in the order in which they had the lock. -/
abbrev Log (ι Id Conn : Type) := List (Entry ι (Call Id Conn) String (Reply Conn))

section log

variable [DecidableEq Id]

/-- The connections that were added under an id. -/
def added (id : Id) (log : Log ι Id Conn) : List Conn :=
  log.filterMap fun e => match e.call, e.result with
    | .add connId conn, .ok _ => if connId = id then some conn else none
    | _, _ => none

/-- The connections that were handed out under an id. -/
def taken (id : Id) (log : Log ι Id Conn) : List Conn :=
  log.filterMap fun e => match e.call, e.result with
    | .get connId, .ok (.conn conn) => if connId = id then some conn else none
    | _, _ => none

/-- What was added and has not been taken. -/
def held (log : Log ι Id Conn) (id : Id) : Option Conn := (added id log)[(taken id log).length]?

/-- What a call has to give back. -/
def Call.meant (held : Id → Option Conn) : Call Id Conn → Outcome String (Reply Conn)
  | .get connId => match held connId with
    | some conn => .ok (.conn conn)
    | none => .err "Not implemented"
  | .add connId _ => match held connId with
    | some _ => .err "Connection exists"
    | none => .ok .added

/-- What a call leaves behind. -/
def Call.leaves (conns : Conns Id Conn) : Call Id Conn → Conns Id Conn
  | .get connId => match conns connId with
    | some _ => Function.update conns connId none
    | none => conns
  | .add connId conn => match conns connId with
    | some _ => conns
    | none => Function.update conns connId (some conn)

end log

section turn

variable [DecidableEq Id]

/-- A whole call: `remove` finds what `contains_key` has found, and nothing panics. -/
theorem turn_eq (c : Call Id Conn) (conns : Conns Id Conn) :
    turn access body c (.new conns) = (c.meant conns, .new (c.leaves conns)) := by
  cases c with
  | get connId =>
    cases hc : conns connId with
    | none => 
      simp [turn, Mutex.new, body, getConnection, containsKey, access, hc, Call.meant, Call.leaves, Mutex.unlock]
    | some conn =>
      simp [turn, Mutex.new, body, getConnection, containsKey, remove, access, hc, Call.meant, Call.leaves, Mutex.unlock]
  | add connId conn =>
    cases hc : conns connId with
    | none =>
      simp [turn, Mutex.new, body, addConnection, containsKey, insert, access, hc, Call.meant, Call.leaves, Mutex.unlock]
    | some other =>
      simp [turn, Mutex.new, body, addConnection, containsKey, access, hc, Call.meant, Call.leaves, Mutex.unlock]

end turn

section history

variable [DecidableEq Id] {log : Log ι Id Conn} {conns : Conns Id Conn}

/-- What is in the map is what was added and has not been taken, and no call has panicked. -/
def Accounts (log : Log ι Id Conn) (m : Mutex (Conns Id Conn)) : Prop :=
  m.poisoned = false ∧ ∀ id, added id log = taken id log ++ (m.value id).toList

theorem Accounts.held_eq {m : Mutex (Conns Id Conn)} (h : Accounts log m) : m = .new (held log) := by
  have hv : m.value = held log := by
    funext id
    rw [held, h.2 id, List.getElem?_append_right (Nat.le_refl _), Nat.sub_self]
    cases m.value id <;> rfl
  obtain ⟨value, poisoned⟩ := m
  obtain rfl : poisoned = false := h.1
  rw [Mutex.new, ← hv]

theorem added_snoc (id : Id) (e : Entry ι (Call Id Conn) String (Reply Conn)) :
    added id (log ++ [e]) = added id log ++ added id [e] := List.filterMap_append ..

theorem taken_snoc (id : Id) (e : Entry ι (Call Id Conn) String (Reply Conn)) :
    taken id (log ++ [e]) = taken id log ++ taken id [e] := List.filterMap_append ..

/-- The step lemma. -/
theorem Accounts.snoc (h : Accounts log (.new conns)) (i : ι) (c : Call Id Conn) :
    Accounts (log ++ [⟨i, c, c.meant conns⟩]) (.new (c.leaves conns)) := by
  refine ⟨rfl, ?_⟩
  intro id
  have hid : added id log = taken id log ++ (conns id).toList := h.2 id
  rw [added_snoc, taken_snoc, hid]
  cases c with
  | get connId =>
    cases hc : conns connId with
    | none => simp [added, taken, Call.meant, Call.leaves, Mutex.new, hc]
    | some conn =>
      by_cases he : connId = id
      · subst he
        simp [added, taken, Call.meant, Call.leaves, Mutex.new, hc]
      · have hne : id ≠ connId := fun h => he h.symm
        simp [added, taken, Call.meant, Call.leaves, Mutex.new, hc, he, Function.update_of_ne hne]
  | add connId conn =>
    cases hc : conns connId with
    | some other => simp [added, taken, Call.meant, Call.leaves, Mutex.new, hc]
    | none =>
      by_cases he : connId = id
      · subst he
        simp [added, taken, Call.meant, Call.leaves, Mutex.new, hc]
      · have hne : id ≠ connId := fun h => he h.symm
        simp [added, taken, Call.meant, Call.leaves, Mutex.new, hc, he, Function.update_of_ne hne]

/-- The run lemma. -/
theorem accounts_of_sequential {m : Mutex (Conns Id Conn)}
    (h : Sequential access body (.new empty) log m) : Accounts log m := by
  induction h with
  | nil => exact ⟨rfl, fun _ => rfl⟩
  | snoc m' log i c hlog ih =>
    have hm' := ih.held_eq
    rw [hm'] at ih
    rw [hm', turn_eq]
    exact ih.snoc i c

variable [DecidableEq ι]

/-- However many threads use one manager in whatever order: every call gives back what the calls
before it left under its id, the connections taken under an id are those added under it, in
order, with at most one of them still held, and exactly the held ones are in the map. -/
theorem connections_conserved
    {s : Threads (MapOp Id Conn) MapOp.Res (Conns Id Conn) String (Reply Conn) ι (Call Id Conn)}
    (h : Threads.Reaches access body (.start (.new empty)) s) :
    (∀ before e after, s.log = before ++ e :: after → e.result = e.call.meant (held before)) ∧
      (∀ id, added id s.log = taken id s.log ++ (held s.log id).toList) ∧
        (s.holder = none → s.mutex = .new (held s.log)) := by
  obtain ⟨m, hlog, hfree⟩ := reaches_sequential h
  have hacc := accounts_of_sequential hlog
  refine ⟨?_, ?_, ?_⟩
  · intro before e after he
    obtain ⟨m', hbefore, hresult⟩ := hlog.entry he
    rw [hresult, (accounts_of_sequential hbefore).held_eq, turn_eq]
  · intro id
    have hid := hacc.2 id
    rw [hacc.held_eq] at hid
    exact hid
  · intro hh
    rw [← hfree hh]
    exact hacc.held_eq

end history

/-- Two threads, of which one adds the number 1 as a connection and one waits to get it. -/
abbrev TwoThreads := Threads (MapOp ℕ ℕ) MapOp.Res (Conns ℕ ℕ) String (Reply ℕ) Bool (Call ℕ ℕ)

/-- The second thread calls while the first is about to take the lock. -/
theorem handed_over : ∃ s : TwoThreads, Threads.Reaches access body (.start (.new empty)) s ∧
    s.log = [⟨false, .add 7 1, .ok .added⟩, ⟨true, .get 7, .ok (.conn 1)⟩] ∧ s.holder = none := by
  refine ⟨_, .head (.call _ false (.add 7 1) rfl) <| .head (.call _ true (.get 7) rfl) <|
    .head (.acquire _ false (.add 7 1) rfl rfl) <| .head (.access _ false (.add 7 1) _ _ rfl) <|
    .head (.access _ false (.add 7 1) _ _ rfl) <| .head (.release _ false (.add 7 1) _ rfl) <|
    .head (.acquire _ true (.get 7) rfl rfl) <| .head (.access _ true (.get 7) _ _ rfl) <|
    .head (.access _ true (.get 7) _ _ rfl) <| .head (.release _ true (.get 7) _ rfl) .refl, ?_, ?_⟩
  · rfl
  · rfl

theorem connections_conserved_handed_over : ∃ s : TwoThreads,
    s.log = [⟨false, .add 7 1, .ok .added⟩, ⟨true, .get 7, .ok (.conn 1)⟩] ∧
      s.mutex = .new (held s.log) := by
  obtain ⟨s, hr, hlog, hfree⟩ := handed_over
  exact ⟨s, hlog, (connections_conserved hr).2.2 hfree⟩

end Rocks.ConnectionManager
