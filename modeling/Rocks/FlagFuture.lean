import Rocks.Async
import Rocks.Polling
import Mathlib.Logic.Function.Basic

/-! The clones of one `FlagFuture`, polled and set from many tasks, one atomic access at a time. -/
namespace Rocks.FutureExt
open Async Polling

variable {ι : Type}

/-- The accesses to what the clones share, and what a `Context` would offer besides. -/
inductive FlagOp (ι : Type)
  | load
  | store (val : Bool)
  | wake (task : ι)

@[reducible] def FlagOp.Res : FlagOp ι → Type
  | load => Bool
  | store _ => Unit
  | wake _ => Unit

abbrev FlagIo (ι : Type) : Type → Type := Task (FlagOp ι) FlagOp.Res Empty

def FlagOp.perform (o : FlagOp ι) : FlagIo ι o.Res := Task.perform o

namespace FlagFuture

def isSet : FlagIo ι Bool := FlagOp.load.perform

def set : FlagIo ι Unit := (FlagOp.store true).perform

/-- The context is not looked at. -/
def poll (_ : ι) : FlagIo ι (Poll Unit) := do
  if ← isSet then
    return .ready ()
  else
    return .pending

end FlagFuture

/-- What is left of a call. -/
inductive Call (ι : Type)
  | poll (rest : FlagIo ι (Poll Unit))
  | set (rest : FlagIo ι Unit)

/-- The flag, what the most recent poll of each task returned, if it has returned, whether the
task has been woken since that poll began, and the call it is in. -/
structure Clones (ι : Type) where
  flag : Bool
  last : ι → Option (Poll Unit)
  woken : ι → Bool
  calls : ι → Option (Call ι)

namespace Clones

/-- `FlagFuture::default()` and its clones. -/
def default : Clones ι := ⟨false, fun _ => none, fun _ => false, fun _ => none⟩

variable [DecidableEq ι]

def access : (o : FlagOp ι) → Clones ι → o.Res × Clones ι
  | .load, s => (s.flag, s)
  | .store val, s => ((), { s with flag := val })
  | .wake task, s => ((), { s with woken := Function.update s.woken task true })

def inCall (s : Clones ι) (i : ι) (c : Option (Call ι)) : Clones ι :=
  { s with calls := Function.update s.calls i c }

/-- Task `i` begins a poll. -/
def beginPoll (s : Clones ι) (i : ι) : Clones ι :=
  { s.inCall i (some (.poll (FlagFuture.poll i))) with
    last := Function.update s.last i none
    woken := Function.update s.woken i false }

/-- The poll of task `i` returns. -/
def endPoll (s : Clones ι) (i : ι) (r : Poll Unit) : Clones ι :=
  { s.inCall i none with last := Function.update s.last i (some r) }

/-- One step of one task: it begins a call, makes its next access, or returns. -/
inductive Step : Clones ι → Clones ι → Prop
  | beginPoll (s : Clones ι) (i : ι) (h : s.calls i = none) : Step s (s.beginPoll i)
  | beginSet (s : Clones ι) (i : ι) (h : s.calls i = none) :
      Step s (s.inCall i (some (.set FlagFuture.set)))
  | poll (s : Clones ι) (i : ι) (o : FlagOp ι) (k : o.Res → FlagIo ι (Poll Unit))
      (h : s.calls i = some (.poll (.await o k))) :
      Step s ((access o s).2.inCall i (some (.poll (k (access o s).1))))
  | set (s : Clones ι) (i : ι) (o : FlagOp ι) (k : o.Res → FlagIo ι Unit)
      (h : s.calls i = some (.set (.await o k))) :
      Step s ((access o s).2.inCall i (some (.set (k (access o s).1))))
  | endPoll (s : Clones ι) (i : ι) (r : Poll Unit) (h : s.calls i = some (.poll (.done (.ok r)))) :
      Step s (s.endPoll i r)
  | endSet (s : Clones ι) (i : ι) (h : s.calls i = some (.set (.done (.ok ())))) :
      Step s (s.inCall i none)

/-- Any number of steps of any tasks in any order. -/
abbrev Reaches : Clones ι → Clones ι → Prop := Relation.ReflTransGen Step

end Clones

/-- An access that wakes nobody and does not clear the flag. -/
def FlagOp.Silent : FlagOp ι → Prop
  | load => True
  | store val => val = true
  | wake _ => False

def Call.Silent : Call ι → Prop
  | poll rest => rest.Awaits FlagOp.Silent
  | set rest => rest.Awaits FlagOp.Silent

namespace FlagFuture

theorem poll_eq (i : ι) :
    poll i = .await .load (fun isSet => .done (.ok (if isSet then .ready () else .pending))) := by
  change Task.await _ _ = _
  congr 1
  funext isSet
  cases isSet with
  | true => rfl
  | false => rfl

theorem poll_silent (i : ι) : (poll i).Awaits FlagOp.Silent := by
  have hload : (FlagOp.load : FlagOp ι).Silent := trivial
  apply Task.Awaits.bind (Task.awaits_perform hload)
  intro isSet
  cases isSet with
  | true => exact Task.awaits_pure _
  | false => exact Task.awaits_pure _

theorem set_silent : (set : FlagIo ι Unit).Awaits FlagOp.Silent := by
  have hstore : (FlagOp.store true : FlagOp ι).Silent := rfl
  exact Task.awaits_perform hstore

end FlagFuture

namespace Clones

/-- Nobody has been woken, and no call is about to wake anybody or to clear the flag. -/
structure Quiet (s : Clones ι) : Prop where
  woken : ∀ i, s.woken i = false
  calls : ∀ i c, s.calls i = some c → c.Silent

theorem quiet_default : Quiet (default : Clones ι) :=
  ⟨fun _ => rfl, fun _ _ h => by cases h⟩

variable [DecidableEq ι]

theorem Quiet.inCall {s : Clones ι} (hs : Quiet s) (i : ι) {c : Option (Call ι)}
    (hc : ∀ c', c = some c' → c'.Silent) : Quiet (s.inCall i c) := by
  refine ⟨hs.woken, ?_⟩
  intro j c' h
  simp only [Clones.inCall, Function.update_apply] at h
  split at h
  · exact hc c' h
  · exact hs.calls j c' h

theorem Quiet.access {s : Clones ι} (hs : Quiet s) {o : FlagOp ι} (ho : o.Silent) :
    Quiet (access o s).2 := by
  cases o with
  | load => exact hs
  | store val => exact ⟨hs.woken, hs.calls⟩
  | wake task => cases ho

theorem access_flag {s : Clones ι} {o : FlagOp ι} (ho : o.Silent) (hf : s.flag = true) :
    (access o s).2.flag = true := by
  cases o with
  | load => exact hf
  | store val => exact ho
  | wake task => cases ho

/-- The step lemma. -/
theorem Quiet.step {s s' : Clones ι} (hs : Quiet s) (h : Step s s') : Quiet s' := by
  cases h with
  | beginPoll i hi =>
    -- the task of a fresh poll counts as not woken again
    have hq := hs.inCall i (c := some (.poll (FlagFuture.poll i))) (by
      rintro c' ⟨⟩
      exact FlagFuture.poll_silent i)
    refine ⟨fun j => ?_, hq.calls⟩
    simp only [Clones.beginPoll, Function.update_apply]
    split
    · rfl
    · exact hs.woken j
  | beginSet i hi =>
    apply hs.inCall
    rintro c' ⟨⟩
    exact FlagFuture.set_silent
  | poll i o k hi =>
    -- the access is silent, and so is what is left of the call behind it
    obtain ⟨ho, hk⟩ := Task.awaits_await.mp (hs.calls i _ hi)
    apply (hs.access ho).inCall
    rintro c' ⟨⟩
    exact hk _
  | set i o k hi =>
    obtain ⟨ho, hk⟩ := Task.awaits_await.mp (hs.calls i _ hi)
    apply (hs.access ho).inCall
    rintro c' ⟨⟩
    exact hk _
  | endPoll i r hi =>
    have hq := hs.inCall i (c := none) (by simp)
    exact ⟨hq.woken, hq.calls⟩
  | endSet i hi =>
    apply hs.inCall
    simp

/-- The run lemma. -/
theorem Quiet.reaches {s s' : Clones ι} (hs : Quiet s) (h : Reaches s s') : Quiet s' := by
  induction h with
  | refl => exact hs
  | tail _ hstep ih => exact ih.step hstep

/-- The flag is set, and the most recent poll of task `i` began after that. -/
structure Sees (i : ι) (s : Clones ι) : Prop where
  flag : s.flag = true
  rest : ∀ t, s.calls i = some (.poll t) → t = FlagFuture.poll i ∨ t = .done (.ok (.ready ()))
  last : ∀ r, s.last i = some r → r = .ready ()

theorem sees_beginPoll {s : Clones ι} (hf : s.flag = true) (i : ι) : Sees i (s.beginPoll i) where
  flag := hf
  rest t h := by
    simp only [Clones.beginPoll, Clones.inCall, Function.update_self, Option.some.injEq,
      Call.poll.injEq] at h
    exact .inl h.symm
  last r h := by simp [Clones.beginPoll] at h

theorem Sees.inCall {i : ι} {s : Clones ι} (hs : Sees i s) (j : ι) {c : Option (Call ι)}
    (hc : i = j → ∀ t, c = some (.poll t) → t = FlagFuture.poll i ∨ t = .done (.ok (.ready ()))) :
    Sees i (s.inCall j c) := by
  refine ⟨hs.flag, fun t h => ?_, hs.last⟩
  simp only [Clones.inCall, Function.update_apply] at h
  split at h
  · next hij => exact hc hij t h
  · exact hs.rest t h

theorem Sees.access {i : ι} {s : Clones ι} (hs : Sees i s) {o : FlagOp ι} (ho : o.Silent) :
    Sees i (access o s).2 := by
  have hf := access_flag ho hs.flag
  cases o with
  | load => exact hs
  | store val => exact ⟨hf, hs.rest, hs.last⟩
  | wake task => cases ho

theorem Sees.step {i : ι} {s s' : Clones ι} (hq : Quiet s) (hs : Sees i s) (h : Step s s') : Sees i s' := by
  cases h with
  | beginPoll j hj =>
    by_cases hij : i = j
    · -- the next poll of the same task finds the flag set as well
      subst hij
      exact sees_beginPoll hs.flag i
    · have hin := hs.inCall j (c := some (.poll (FlagFuture.poll j))) (fun h => absurd h hij)
      refine ⟨hin.flag, hin.rest, fun r hr => hs.last r ?_⟩
      simpa [Clones.beginPoll, hij] using hr
  | beginSet j hj => exact hs.inCall j (by simp)
  | poll j o k hj =>
    have ho := (Task.awaits_await.mp (hq.calls j _ hj)).1
    apply (hs.access ho).inCall
    rintro rfl t ⟨⟩
    -- the access of a poll is the load, which finds the flag set
    rcases hs.rest _ hj with hrest | hrest
    · obtain ⟨rfl, hk⟩ := Task.await.inj (hrest.trans (FlagFuture.poll_eq i))
      rw [eq_of_heq hk]
      exact .inr (by simp [Clones.access, hs.flag])
    · cases hrest
  | set j o k hj =>
    -- a call of `set` leaves the flag set
    have ho := (Task.awaits_await.mp (hq.calls j _ hj)).1
    exact (hs.access ho).inCall j (by simp)
  | endPoll j r hj =>
    have hin := hs.inCall j (c := none) (by simp)
    refine ⟨hin.flag, hin.rest, ?_⟩
    intro r' hr'
    by_cases hij : i = j
    · subst hij
      obtain rfl : r = r' := by simpa [Clones.endPoll] using hr'
      -- a poll that has not made its access yet cannot return
      rcases hs.rest _ hj with hrest | hrest
      · cases hrest.trans (FlagFuture.poll_eq i)
      · cases hrest
        rfl
    · exact hs.last r' (by simpa [Clones.endPoll, hij] using hr')
  | endSet j hj => exact hs.inCall j (by simp)

theorem Sees.reaches {i : ι} {s s' : Clones ι} (hq : Quiet s) (hs : Sees i s) (h : Reaches s s') :
    Sees i s' := by
  induction h with
  | refl => exact hs
  | tail hreach hstep ih => exact ih.step (hq.reaches hreach) hstep

/-- A poll that is let run finds the flag as it is. -/
theorem run_poll (s : Clones ι) (i : ι) :
    Task.run access (FlagFuture.poll i) s = (.ok (if s.flag then .ready () else .pending), s) := by
  rw [FlagFuture.poll_eq]
  rfl

/-- Once the flag is set every poll that begins returns `Ready`, but no task is woken for it:
one whose most recent poll returned `Pending` stays parked until something else polls it. -/
theorem flag_seen_unwoken {s : Clones ι} (h : Reaches default s) (hf : s.flag = true) :
    (∀ i, s.last i = some .pending → s.woken i = false) ∧
    (∀ i, Task.run access (FlagFuture.poll i) s = (.ok (.ready ()), s)) ∧
    ∀ i s', s.calls i = none → Reaches (s.beginPoll i) s' → ∀ r, s'.last i = some r → r = .ready () := by
  have hq := quiet_default.reaches h
  refine ⟨?_, ?_, ?_⟩
  · intro i _
    exact hq.woken i
  · intro i
    rw [run_poll, hf]
    rfl
  · intro i s' hi hreach
    have hq' := hq.step (.beginPoll s i hi)
    exact ((sees_beginPoll hf i).reaches hq' hreach).last

/-- Task `i` polls, and then `j` sets the flag. -/
theorem reaches_parked (i j : ι) : ∃ s, Reaches default s ∧ s.flag = true ∧ s.last i = some .pending ∧
    s.woken i = false := by
  let polling := (default : Clones ι).beginPoll i
  have hpolling : polling.calls i = some (.poll (FlagFuture.poll i)) := Function.update_self ..
  rw [FlagFuture.poll_eq] at hpolling
  -- the load finds the flag unset, so the poll will return `Pending`
  let loaded := polling.inCall i (some (.poll (.done (.ok .pending))))
  have hloaded : loaded.calls i = some (.poll (.done (.ok .pending))) := Function.update_self ..
  -- nobody is in a call when `j` begins its own, not even when `j` is `i`
  let parked := loaded.endPoll i .pending
  have hparked : parked.calls j = none := by
    simp [parked, loaded, polling, Clones.endPoll, Clones.inCall, Clones.beginPoll, default]
  let setting := parked.inCall j (some (.set FlagFuture.set))
  have hsetting : setting.calls j = some (.set FlagFuture.set) := Function.update_self ..
  have hrun : Reaches default setting := by
    apply Relation.ReflTransGen.head (Step.beginPoll default i rfl)
    apply Relation.ReflTransGen.head (Step.poll polling i .load _ hpolling)
    apply Relation.ReflTransGen.head (Step.endPoll loaded i .pending hloaded)
    exact .single (Step.beginSet parked j hparked)
  -- the store is the last step: it touches neither what the poll returned nor who is woken
  refine ⟨_, hrun.tail (Step.set setting j (.store true) _ hsetting), rfl, ?_, ?_⟩
  · exact Function.update_self ..
  · exact Function.update_self ..

/-- A poll that returned `Pending` before the flag was set. -/
theorem pending_before_set :
    ¬∀ s : Clones Bool, Reaches default s → s.flag = true →
      ∀ i, s.last i = some .pending → s.woken i = true := by
  intro h
  obtain ⟨s, hreach, hf, hlast, hwoken⟩ := reaches_parked false true
  have hwoken' := h s hreach hf false hlast
  rw [hwoken] at hwoken'
  cases hwoken'

theorem flag_seen_unwoken_parked :
    ∃ s : Clones Bool, (s.last false = some .pending ∧ s.woken false = false) ∧
      Task.run access (FlagFuture.poll true) s = (.ok (.ready ()), s) := by
  obtain ⟨s, hreach, hf, hlast, -⟩ := reaches_parked false true
  obtain ⟨hwoken, hpoll, -⟩ := flag_seen_unwoken hreach hf
  exact ⟨s, ⟨hlast, hwoken false hlast⟩, hpoll true⟩

end Clones

end Rocks.FutureExt
