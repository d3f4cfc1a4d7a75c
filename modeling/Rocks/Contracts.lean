import Mathlib.Algebra.GroupWithZero.Nat
import Mathlib.Data.List.Induction
import Rocks.Async

/-! Contracts between a task and the outside. A contract is followed along the operations of a
task: the task may await only what is allowed, and the outside answers only as agreed. The rules
prove that a task keeps its side against every outside that keeps the other one. -/
namespace Async

/-- What both sides agreed on, by the state that they have reached. -/
structure Contract (Op : Type) (Res : Op → Type) (Q : Type) where
  allows : Q → Op → Prop
  answers : Q → (o : Op) → Res o → Prop
  next : Q → (o : Op) → Res o → Q

namespace Task

variable {Op : Type} {Res : Op → Type} {Q ε ε' α β : Type}

/-- From `q` on the task awaits only what the contract allows, and it ends in `post`. -/
def Obeys (c : Contract Op Res Q) (post : Outcome ε α → Q → Prop) : Task Op Res ε α → Q → Prop
  | done r, q => post r q
  | await o k, q => c.allows q o ∧ ∀ r, c.answers q o r → (k r).Obeys c post (c.next q o r)

/-- What has to hold where one task hands over to the next. -/
def handsOver (c : Contract Op Res Q) (f : α → Task Op Res ε β) (post : Outcome ε β → Q → Prop) :
    Outcome ε α → Q → Prop
  | .ok a, q => (f a).Obeys c post q
  | .err e, q => post (.err e) q
  | .panic, q => post .panic q

section rules

variable {c : Contract Op Res Q} {q : Q}

@[simp] theorem obeys_done {post : Outcome ε α → Q → Prop} (r : Outcome ε α) :
    (done r : Task Op Res ε α).Obeys c post q ↔ post r q := Iff.rfl

@[simp] theorem obeys_await {post : Outcome ε α → Q → Prop} (o : Op) (k : Res o → Task Op Res ε α) :
    (await o k).Obeys c post q ↔
      c.allows q o ∧ ∀ r, c.answers q o r → (k r).Obeys c post (c.next q o r) := Iff.rfl

@[simp] theorem obeys_pure {post : Outcome ε α → Q → Prop} (a : α) :
    (pure a : Task Op Res ε α).Obeys c post q ↔ post (.ok a) q := Iff.rfl

@[simp] theorem obeys_throw {post : Outcome ε α → Q → Prop} (e : ε) :
    (throw e : Task Op Res ε α).Obeys c post q ↔ post (.err e) q := Iff.rfl

@[simp] theorem obeys_lift {post : Outcome ε α → Q → Prop} (r : Outcome ε α) :
    (liftM r : Task Op Res ε α).Obeys c post q ↔ post r q := Iff.rfl

@[simp] theorem obeys_perform (o : Op) {post : Outcome ε (Res o) → Q → Prop} :
    (perform o : Task Op Res ε (Res o)).Obeys c post q ↔
      c.allows q o ∧ ∀ r, c.answers q o r → post (.ok r) (c.next q o r) := Iff.rfl

/-- The rule of consequence. -/
theorem Obeys.mono {post post' : Outcome ε α → Q → Prop} {t : Task Op Res ε α}
    (h : t.Obeys c post q) (himp : ∀ r q, post r q → post' r q) : t.Obeys c post' q := by
  induction t generalizing q with
  | done r => exact himp r q h
  | await o k ih => exact ⟨h.1, fun r hr => ih r (h.2 r hr)⟩

/-- The rule of composition. -/
@[simp] theorem obeys_bind {post : Outcome ε β → Q → Prop} (t : Task Op Res ε α)
    (f : α → Task Op Res ε β) :
    (t >>= f).Obeys c post q ↔ t.Obeys c (handsOver c f post) q := by
  induction t generalizing q with
  | done r => cases r <;> rfl
  | await o k ih =>
    constructor
    · rintro ⟨ho, hk⟩
      exact ⟨ho, fun r hr => (ih r).mp (hk r hr)⟩
    · rintro ⟨ho, hk⟩
      exact ⟨ho, fun r hr => (ih r).mpr (hk r hr)⟩

@[simp] theorem obeys_map {post : Outcome ε β → Q → Prop} (f : α → β) (t : Task Op Res ε α) :
    (f <$> t).Obeys c post q ↔ t.Obeys c (handsOver c (fun a => pure (f a)) post) q :=
  obeys_bind t fun a => pure (f a)

/-- The rule for a call without `?`. -/
@[simp] theorem obeys_attempt {post : Outcome ε' (Except ε α) → Q → Prop} (t : Task Op Res ε α) :
    (t.attempt : Task Op Res ε' (Except ε α)).Obeys c post q ↔
      t.Obeys c (fun r q => post r.attempt q) q := by
  induction t generalizing q with
  | done r => cases r <;> rfl
  | await o k ih =>
    constructor
    · rintro ⟨ho, hk⟩
      exact ⟨ho, fun r hr => (ih r).mp (hk r hr)⟩
    · rintro ⟨ho, hk⟩
      exact ⟨ho, fun r hr => (ih r).mpr (hk r hr)⟩

section handsOver

variable {f : α → Task Op Res ε β} {post : Outcome ε β → Q → Prop}

@[simp] theorem handsOver_ok (a : α) : handsOver c f post (.ok a) q ↔ (f a).Obeys c post q := Iff.rfl

@[simp] theorem handsOver_err (e : ε) : handsOver c f post (.err e) q ↔ post (.err e) q := Iff.rfl

@[simp] theorem handsOver_panic : handsOver c f post .panic q ↔ post .panic q := Iff.rfl

end handsOver

end rules

/-- `t` has had the operations of a history answered, and `u` is what is left of it. -/
inductive Leads : Task Op Res ε α → List (Σ o, Res o) → Task Op Res ε α → Prop
  | nil (t : Task Op Res ε α) : Leads t [] t
  | cons (o : Op) (k : Res o → Task Op Res ε α) (r : Res o) (log : List (Σ o, Res o))
      (u : Task Op Res ε α) (h : Leads (k r) log u) : Leads (await o k) (⟨o, r⟩ :: log) u

/-- What a run awaits, with the answers that it gets. -/
def history {σ : Type} (h : (o : Op) → σ → Res o × σ) : Task Op Res ε α → σ → List (Σ o, Res o)
  | done _, _ => []
  | await o k, s => ⟨o, (h o s).1⟩ :: (k (h o s).1).history h (h o s).2

theorem leads_history {σ : Type} (h : (o : Op) → σ → Res o × σ) (t : Task Op Res ε α) (s : σ) :
    t.Leads (t.history h s) (.done (t.run h s).1) := by
  induction t generalizing s with
  | done r => exact .nil _
  | await o k ih => exact .cons o k _ _ _ (ih _ _)

/-- What a history leaves of a task, if the task awaits its operations. -/
def follow [DecidableEq Op] : Task Op Res ε α → List (Σ o, Res o) → Option (Task Op Res ε α)
  | t, [] => some t
  | done _, _ :: _ => none
  | await o k, ⟨o', r⟩ :: log => if h : o' = o then (k (h ▸ r)).follow log else none

theorem leads_of_follow [DecidableEq Op] {t u : Task Op Res ε α} {log : List (Σ o, Res o)}
    (h : t.follow log = some u) : t.Leads log u := by
  induction log generalizing t with
  | nil =>
    have ht : t = u := by simpa [follow] using h
    rw [ht]
    exact .nil u
  | cons e log ih =>
    cases t with
    | done r => simp [follow] at h
    | await o k =>
      obtain ⟨o', r⟩ := e
      by_cases ho : o' = o
      · subst ho
        rw [follow, dif_pos rfl] at h
        exact .cons o' k r log u (ih h)
      · rw [follow, dif_neg ho] at h
        cases h

end Task

namespace Contract

variable {Op : Type} {Res : Op → Type} {Q ε α : Type} (c : Contract Op Res Q)

/-- Where a history leads. -/
def after (q : Q) (log : List (Σ o, Res o)) : Q := log.foldl (fun q e => c.next q e.1 e.2) q

/-- The outside has kept its side of the contract. -/
def Honest : Q → List (Σ o, Res o) → Prop
  | _, [] => True
  | q, e :: log => c.answers q e.1 e.2 ∧ Honest (c.next q e.1 e.2) log

/-- The task has kept its side of the contract. -/
def Kept : Q → List (Σ o, Res o) → Prop
  | _, [] => True
  | q, e :: log => c.allows q e.1 ∧ Kept (c.next q e.1 e.2) log

variable {c}

/-- A task that obeys a contract keeps it in every history in which the outside does, and what is
left of it goes on obeying. -/
theorem kept_of_obeys {post : Outcome ε α → Q → Prop} {t u : Task Op Res ε α}
    {log : List (Σ o, Res o)} {q : Q} (ht : t.Obeys c post q) (hlog : t.Leads log u)
    (hh : c.Honest q log) : c.Kept q log ∧ u.Obeys c post (c.after q log) := by
  induction hlog generalizing q with
  | nil t => exact ⟨trivial, ht⟩
  | cons o k r log u _ ih =>
    obtain ⟨ho, hk⟩ := ht
    obtain ⟨hr, hh⟩ := hh
    obtain ⟨hkept, hu⟩ := ih (hk r hr) hh
    exact ⟨⟨ho, hkept⟩, hu⟩

/-- What a run awaits is answered as agreed if its handler answers so. -/
theorem honest_history {σ : Type} {h : (o : Op) → σ → Res o × σ} (hh : ∀ q o s, c.answers q o (h o s).1)
    (t : Task Op Res ε α) (s : σ) (q : Q) : c.Honest q (t.history h s) := by
  induction t generalizing s q with
  | done r => trivial
  | await o k ih => exact ⟨hh q o s, ih _ _ _⟩

/-- Against a handler that answers as agreed, a run keeps the contract and ends as it says. -/
theorem run_keeps {σ : Type} {h : (o : Op) → σ → Res o × σ} {post : Outcome ε α → Q → Prop}
    {t : Task Op Res ε α} {q : Q} (ht : t.Obeys c post q) (hh : ∀ q o s, c.answers q o (h o s).1)
    (s : σ) : c.Kept q (t.history h s) ∧ post (t.run h s).1 (c.after q (t.history h s)) := by
  have hhonest := honest_history hh t s q
  obtain ⟨hkept, hend⟩ := kept_of_obeys ht (Task.leads_history h t s) hhonest
  rw [Task.obeys_done] at hend
  exact ⟨hkept, hend⟩

/-- The budget rule: what pays for every allowed operation bounds what a history costs. -/
theorem cost_le (price : Op → ℕ) (budget : Q → ℕ)
    (hpay : ∀ q o r, c.allows q o → c.answers q o r → budget (c.next q o r)+price o ≤ budget q)
    {log : List (Σ o, Res o)} {q : Q} (hk : c.Kept q log) (hh : c.Honest q log) :
    (log.map (fun e => price e.1)).sum ≤ budget q := by
  induction log generalizing q with
  | nil => simp
  | cons e log ih =>
    have hrest := ih hk.2 hh.2
    have hp := hpay q e.1 e.2 hk.1 hh.1
    rw [List.map_cons, List.sum_cons]
    omega

theorem kept_append (log log' : List (Σ o, Res o)) (q : Q) :
    c.Kept q (log ++ log') ↔ c.Kept q log ∧ c.Kept (c.after q log) log' := by
  induction log generalizing q with
  | nil => simp [Kept, after]
  | cons e log ih =>
    simp only [List.cons_append, Kept, ih, and_assoc]
    rfl

theorem honest_append (log log' : List (Σ o, Res o)) (q : Q) :
    c.Honest q (log ++ log') ↔ c.Honest q log ∧ c.Honest (c.after q log) log' := by
  induction log generalizing q with
  | nil => simp [Honest, after]
  | cons e log ih =>
    simp only [List.cons_append, Honest, ih, and_assoc]
    rfl

/-- The invariant rule: what every allowed and agreed operation keeps, every history keeps. -/
theorem after_keeps {I : List (Σ o, Res o) → Q → Prop}
    (hkeep : ∀ log q o r, I log q → c.allows q o → c.answers q o r →
      I (log ++ [⟨o, r⟩]) (c.next q o r))
    {log : List (Σ o, Res o)} {q : Q} (hq : I [] q) (hk : c.Kept q log) (hh : c.Honest q log) :
    I log (c.after q log) := by
  induction log using List.reverseRecOn with
  | nil => exact hq
  | append_singleton log e ih =>
    rw [kept_append] at hk
    rw [honest_append] at hh
    have hlast := hkeep log _ e.1 e.2 (ih hk.1 hh.1) hk.2.1 hh.2.1
    rw [after, List.foldl_append]
    exact hlast

end Contract

-- from here on by the rules only
attribute [irreducible] Task.Obeys

end Async
