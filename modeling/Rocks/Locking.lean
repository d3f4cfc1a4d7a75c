import Mathlib.Logic.Function.Basic
import Rocks.Async

/-! Threads that share a value behind a `Mutex`. A call takes the lock, accesses the value one
operation at a time and lets the lock go; a panic inside poisons it. However the threads are
interleaved, their calls form one sequential history. -/
namespace Locking
open Async

/-- A value behind a lock, and whether a holder has panicked. -/
structure Mutex (σ : Type) where
  value : σ
  poisoned : Bool

namespace Mutex

variable {σ : Type}

def new (value : σ) : Mutex σ := ⟨value, false⟩

/-- A guard is dropped, in a panic or not. -/
def unlock {ε α : Type} (m : Mutex σ) : Outcome ε α → Mutex σ
  | .panic => { m with poisoned := true }
  | _ => m

end Mutex

section

variable {Op : Type} {Res : Op → Type} {σ ε α ι Call : Type}

/-- What the calls do once they have the lock, given whether it was poisoned. -/
abbrev Bodies (Op : Type) (Res : Op → Type) (ε α Call : Type) := Bool → Call → Task Op Res ε α

/-- A whole call without anybody else. -/
def turn (h : (o : Op) → σ → Res o × σ) (body : Bodies Op Res ε α Call) (c : Call) (m : Mutex σ) :
    Outcome ε α × Mutex σ :=
  let p := (body m.poisoned c).run h m.value
  (p.1, (Mutex.mk p.2 m.poisoned).unlock p.1)

/-- A finished call: who made it, and how it ended. -/
structure Entry (ι Call ε α : Type) where
  thread : ι
  call : Call
  result : Outcome ε α

/-- Calls one after the other. -/
inductive Sequential (h : (o : Op) → σ → Res o × σ) (body : Bodies Op Res ε α Call) :
    Mutex σ → List (Entry ι Call ε α) → Mutex σ → Prop
  | nil (m : Mutex σ) : Sequential h body m [] m
  | snoc (m m' : Mutex σ) (log : List (Entry ι Call ε α)) (i : ι) (c : Call)
      (hlog : Sequential h body m log m') :
      Sequential h body m (log ++ [⟨i, c, (turn h body c m').1⟩]) (turn h body c m').2

/-- Where a thread is. -/
inductive Place (Op : Type) (Res : Op → Type) (ε α Call : Type)
  | away
  | waiting (c : Call)
  | inside (c : Call) (rest : Task Op Res ε α)

namespace Place

/-- Behind the lock. -/
def IsInside : Place Op Res ε α Call → Prop
  | inside _ _ => True
  | _ => False

end Place

structure Threads (Op : Type) (Res : Op → Type) (σ ε α ι Call : Type) where
  mutex : Mutex σ
  holder : Option ι
  place : ι → Place Op Res ε α Call
  log : List (Entry ι Call ε α)

namespace Threads

def start (m : Mutex σ) : Threads Op Res σ ε α ι Call := ⟨m, none, fun _ => .away, []⟩

variable [DecidableEq ι]

def move (s : Threads Op Res σ ε α ι Call) (i : ι) (p : Place Op Res ε α Call) :
    Threads Op Res σ ε α ι Call :=
  { s with place := Function.update s.place i p }

/-- One thread calls, takes the lock, makes its next access, or lets the lock go and returns. -/
inductive Step (h : (o : Op) → σ → Res o × σ) (body : Bodies Op Res ε α Call) :
    Threads Op Res σ ε α ι Call → Threads Op Res σ ε α ι Call → Prop
  | call (s : Threads Op Res σ ε α ι Call) (i : ι) (c : Call) (hi : s.place i = .away) :
      Step h body s (s.move i (.waiting c))
  | acquire (s : Threads Op Res σ ε α ι Call) (i : ι) (c : Call) (hi : s.place i = .waiting c)
      (hfree : s.holder = none) :
      Step h body s { s.move i (.inside c (body s.mutex.poisoned c)) with holder := some i }
  | access (s : Threads Op Res σ ε α ι Call) (i : ι) (c : Call) (o : Op) (k : Res o → Task Op Res ε α)
      (hi : s.place i = .inside c (.await o k)) :
      Step h body s { s.move i (.inside c (k (h o s.mutex.value).1)) with
        mutex := { s.mutex with value := (h o s.mutex.value).2 } }
  | release (s : Threads Op Res σ ε α ι Call) (i : ι) (c : Call) (r : Outcome ε α)
      (hi : s.place i = .inside c (.done r)) :
      Step h body s { s.move i .away with
        holder := none
        mutex := s.mutex.unlock r
        log := s.log ++ [⟨i, c, r⟩] }

/-- Any number of steps of any threads in any order. -/
abbrev Reaches (h : (o : Op) → σ → Res o × σ) (body : Bodies Op Res ε α Call) :
    Threads Op Res σ ε α ι Call → Threads Op Res σ ε α ι Call → Prop :=
  Relation.ReflTransGen (Step h body)

section move

variable (s : Threads Op Res σ ε α ι Call) (i : ι) (p : Place Op Res ε α Call)

@[simp] theorem move_place_self : (s.move i p).place i = p := Function.update_self ..

theorem move_place_of_ne {j : ι} (h : j ≠ i) : (s.move i p).place j = s.place j :=
  Function.update_of_ne h ..

end move

end Threads

end

section serial

variable {Op : Type} {Res : Op → Type} {σ ε α ι Call : Type} [DecidableEq ι]
  {h : (o : Op) → σ → Res o × σ} {body : Bodies Op Res ε α Call} {m : Mutex σ}

/-- The finished calls stand in a sequential history, and the holder is alone inside, somewhere
in a call that began where the history ends. -/
structure Serial (h : (o : Op) → σ → Res o × σ) (body : Bodies Op Res ε α Call) (m : Mutex σ)
    (s : Threads Op Res σ ε α ι Call) : Prop where
  free : s.holder = none → Sequential h body m s.log s.mutex
  held : ∀ i, s.holder = some i → ∃ c rest m', s.place i = .inside c rest ∧
    Sequential h body m s.log m' ∧ m'.poisoned = s.mutex.poisoned ∧
      rest.run h s.mutex.value = (body m'.poisoned c).run h m'.value
  alone : ∀ i, (s.place i).IsInside → s.holder = some i

omit [DecidableEq ι] in
theorem serial_start (m : Mutex σ) :
    Serial h body m (Threads.start m : Threads Op Res σ ε α ι Call) := by
  refine ⟨fun _ => .nil m, ?_, ?_⟩
  · intro i hi
    cases hi
  · intro i hi
    exact hi.elim

omit [DecidableEq ι] in
/-- Only the holder is inside. -/
theorem Serial.not_inside {s : Threads Op Res σ ε α ι Call} (hs : Serial h body m s) {i j : ι}
    (hi : s.holder = some i) (hji : j ≠ i) : ¬(s.place j).IsInside := by
  intro hj
  have hj := hs.alone j hj
  rw [hi] at hj
  exact hji (Option.some.inj hj).symm

/-- The step lemma. -/
theorem Serial.step {s s' : Threads Op Res σ ε α ι Call} (hstep : Threads.Step h body s s')
    (hs : Serial h body m s) : Serial h body m s' := by
  cases hstep with
  | call i c hi =>
    refine ⟨hs.free, ?_, ?_⟩
    · intro j hj
      obtain ⟨c', rest, m', hplace, hrest⟩ := hs.held j hj
      have hne : j ≠ i := by
        intro hji
        rw [hji, hi] at hplace
        cases hplace
      refine ⟨c', rest, m', ?_, hrest⟩
      rw [Threads.move_place_of_ne _ _ _ hne, hplace]
    · intro j hj
      by_cases hji : j = i
      · rw [hji, Threads.move_place_self] at hj
        exact hj.elim
      · rw [Threads.move_place_of_ne _ _ _ hji] at hj
        exact hs.alone j hj
  | acquire i c hi hfree =>
    refine ⟨?_, ?_, ?_⟩
    · intro hnone
      cases hnone
    · intro j hj
      obtain rfl := Option.some.inj hj
      exact ⟨c, _, s.mutex, Threads.move_place_self .., hs.free hfree, rfl, rfl⟩
    · intro j hj
      by_cases hji : j = i
      · rw [hji]
      · change ((s.move i _).place j).IsInside at hj
        rw [Threads.move_place_of_ne _ _ _ hji] at hj
        rw [hs.alone j hj] at hfree
        cases hfree
  | access i c o k hi =>
    have hholder : s.holder = some i := hs.alone i (by rw [hi]; trivial)
    obtain ⟨c', rest, m', hplace, hlog, hpois, hrun⟩ := hs.held i hholder
    rw [hi] at hplace
    obtain ⟨rfl, rfl⟩ := Place.inside.inj hplace
    refine ⟨?_, ?_, ?_⟩
    · intro hnone
      cases hholder.symm.trans hnone
    · intro j hj
      obtain rfl : i = j := Option.some.inj (hholder.symm.trans hj)
      exact ⟨c, _, m', Threads.move_place_self .., hlog, hpois, hrun⟩
    · intro j hj
      by_cases hji : j = i
      · rw [hji]
        exact hholder
      · change ((s.move i _).place j).IsInside at hj
        rw [Threads.move_place_of_ne _ _ _ hji] at hj
        exact hs.alone j hj
  | release i c r hi =>
    have hholder : s.holder = some i := hs.alone i (by rw [hi]; trivial)
    obtain ⟨c', rest, m', hplace, hlog, hpois, hrun⟩ := hs.held i hholder
    rw [hi] at hplace
    obtain ⟨rfl, rfl⟩ := Place.inside.inj hplace
    have hturn : turn h body c m' = (r, s.mutex.unlock r) := by
      rw [Task.run_done, hpois] at hrun
      simp only [turn, hpois, ← hrun]
    refine ⟨?_, ?_, ?_⟩
    · intro _
      have hnext := Sequential.snoc m m' s.log i c hlog
      rw [hturn] at hnext
      exact hnext
    · intro j hj
      cases hj
    · intro j hj
      by_cases hji : j = i
      · change ((s.move i .away).place j).IsInside at hj
        rw [hji, Threads.move_place_self] at hj
        exact hj.elim
      · change ((s.move i .away).place j).IsInside at hj
        rw [Threads.move_place_of_ne _ _ _ hji] at hj
        exact absurd hj (hs.not_inside hholder hji)

omit [DecidableEq ι] in
/-- Every entry of a sequential history is the whole call at its place in it. -/
theorem Sequential.entry {m' : Mutex σ} {log before after : List (Entry ι Call ε α)}
    {e : Entry ι Call ε α} (hs : Sequential h body m log m') (hlog : log = before ++ e :: after) :
    ∃ m'', Sequential h body m before m'' ∧ e.result = (turn h body e.call m'').1 := by
  induction hs generalizing after with
  | nil => simp at hlog
  | snoc m' log i c hs ih =>
    rcases List.eq_nil_or_concat after with rfl | ⟨after, last, rfl⟩
    · obtain ⟨rfl, rfl⟩ := List.append_singleton_inj.mp hlog
      exact ⟨m', hs, rfl⟩
    · rw [List.concat_eq_append, ← List.cons_append, ← List.append_assoc] at hlog
      exact ih (List.append_singleton_inj.mp hlog).1

/-- The run lemma. -/
theorem serial {s : Threads Op Res σ ε α ι Call} (hr : Threads.Reaches h body (.start m) s) :
    Serial h body m s := by
  refine keeps_of_reaches (I := Serial h body m) ?_ hr (serial_start m)
  intro s s' hstep hs
  exact hs.step hstep

/-- The finished calls are sequential at every moment, and reach the value behind a free lock. -/
theorem reaches_sequential {s : Threads Op Res σ ε α ι Call}
    (hr : Threads.Reaches h body (.start m) s) :
    ∃ m', Sequential h body m s.log m' ∧ (s.holder = none → m' = s.mutex) := by
  have hs := serial hr
  cases hh : s.holder with
  | none => exact ⟨s.mutex, hs.free hh, fun _ => rfl⟩
  | some i =>
    obtain ⟨c, rest, m', -, hlog, -⟩ := hs.held i hh
    exact ⟨m', hlog, fun hn => by cases hn⟩

end serial

end Locking
