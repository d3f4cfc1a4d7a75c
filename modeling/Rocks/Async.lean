import Mathlib.Logic.Relation
import Mathlib.Tactic.Common

/-! Async functions as trees of awaited operations. A handler answers the
operations; two handlers that agree through an abstraction give equal runs. -/
namespace Async

/-- How a function ends: with `Ok`, with `Err`, or in a panic. -/
inductive Outcome (ε α : Type)
  | ok (a : α)
  | err (e : ε)
  | panic
deriving DecidableEq, Repr

namespace Outcome

variable {ε α β : Type}

def bind : Outcome ε α → (α → Outcome ε β) → Outcome ε β
  | ok a, f => f a
  | err e, _ => err e
  | panic, _ => panic

instance : Monad (Outcome ε) where
  pure := ok
  bind := bind

instance : MonadExceptOf ε (Outcome ε) where
  throw := err
  tryCatch x f := match x with
    | err e => f e
    | x => x

@[simp] theorem pure_eq (a : α) : (pure a : Outcome ε α) = ok a := rfl
@[simp] theorem throw_eq (e : ε) : (throw e : Outcome ε α) = err e := rfl
@[simp] theorem ok_bind (a : α) (f : α → Outcome ε β) : (ok a >>= f) = f a := rfl
@[simp] theorem err_bind (e : ε) (f : α → Outcome ε β) : (err e >>= f) = err e := rfl
@[simp] theorem panic_bind (f : α → Outcome ε β) : (panic >>= f) = panic := rfl

/-- A call without `?`: the `Result` itself is the value. A panic stays a panic. -/
def attempt {ε' : Type} : Outcome ε α → Outcome ε' (Except ε α)
  | ok a => ok (.ok a)
  | err e => ok (.error e)
  | panic => panic

/-- It gives no value. -/
def NoValue : Outcome ε α → Prop
  | ok _ => False
  | err _ | panic => True

/-- `unwrap()` -/
def unwrap {ε' : Type} : Except ε α → Outcome ε' α
  | .ok a => ok a
  | .error _ => panic

/-- `?` -/
def ofExcept : Except ε α → Outcome ε α
  | .ok a => ok a
  | .error e => err e

end Outcome

/-- An async function: either finished, or waiting for the answer to an
operation of `Op`, whose answers have the type `Res o`. -/
inductive Task (Op : Type) (Res : Op → Type) (ε α : Type)
  | done (r : Outcome ε α)
  | await (o : Op) (k : Res o → Task Op Res ε α)

namespace Task

variable {Op : Type} {Res : Op → Type} {ε ε' α β σ τ : Type}

def bind : Task Op Res ε α → (α → Task Op Res ε β) → Task Op Res ε β
  | done (.ok a), f => f a
  | done (.err e), _ => done (.err e)
  | done .panic, _ => done .panic
  | await o k, f => await o (fun r => (k r).bind f)

instance : Monad (Task Op Res ε) where
  pure a := done (.ok a)
  bind := bind

instance : MonadExceptOf ε (Task Op Res ε) where
  throw e := done (.err e)
  tryCatch x f := match x with
    | done (.err e) => f e
    | x => x

instance : MonadLift (Outcome ε) (Task Op Res ε) where
  monadLift r := done r

@[simp] theorem pure_bind (a : α) (f : α → Task Op Res ε β) :
    (pure a : Task Op Res ε α) >>= f = f a := rfl

/-- Await one operation. -/
def perform (o : Op) : Task Op Res ε (Res o) := await o (fun r => done (.ok r))

/-- `f().await` without `?`: the `Result` itself is the value. A panic stays a panic. -/
def attempt : Task Op Res ε α → Task Op Res ε' (Except ε α)
  | done (.ok a) => done (.ok (.ok a))
  | done (.err e) => done (.ok (.error e))
  | done .panic => done .panic
  | await o k => await o (fun r => (k r).attempt)

/-- Answer every operation with `h`, threading the state. -/
def run (h : (o : Op) → σ → Res o × σ) : Task Op Res ε α → σ → Outcome ε α × σ
  | done r, s => (r, s)
  | await o k, s => run h (k (h o s).1) (h o s).2

/-- Continue a run with its value, unless it ended in `Err` or in a panic. -/
def andThen : Outcome ε α × σ → (α → σ → Outcome ε β × σ) → Outcome ε β × σ
  | (.ok a, s), f => f a s
  | (.err e, s), _ => (.err e, s)
  | (.panic, s), _ => (.panic, s)

/-- A run whose result is known, with the state it leaves behind. -/
theorem eq_of_fst {p : Outcome ε α × σ} {r : Outcome ε α} (h : p.1 = r) : p = (r, p.2) := by
  rw [← h]

/-- The `Result` of a run as a value. -/
def settle : Outcome ε α × σ → Outcome ε' (Except ε α) × σ
  | (.ok a, s) => (.ok (.ok a), s)
  | (.err e, s) => (.ok (.error e), s)
  | (.panic, s) => (.panic, s)

section andThen

variable (a : α) (e : ε) (s : σ) (f : α → σ → Outcome ε β × σ)

@[simp] theorem andThen_ok : andThen (.ok a, s) f = f a s := rfl
@[simp] theorem andThen_err : andThen (.err e, s) f = (.err e, s) := rfl
@[simp] theorem andThen_panic : andThen (.panic, s) f = (.panic, s) := rfl
@[simp] theorem settle_ok :
    (settle ((.ok a : Outcome ε α), s) : Outcome ε' (Except ε α) × σ) = (.ok (.ok a), s) := rfl
@[simp] theorem settle_err :
    (settle ((.err e : Outcome ε α), s) : Outcome ε' (Except ε α) × σ) = (.ok (.error e), s) := rfl
@[simp] theorem settle_panic :
    (settle ((.panic : Outcome ε α), s) : Outcome ε' (Except ε α) × σ) = (.panic, s) := rfl

@[simp] theorem andThen_andThen {γ : Type} (p : Outcome ε α × σ) (f : α → σ → Outcome ε β × σ)
    (g : β → σ → Outcome ε γ × σ) :
    andThen (andThen p f) g = andThen p (fun a s => andThen (f a s) g) := by
  obtain ⟨r, s⟩ := p
  cases r <;> rfl

theorem andThen_eq_ok_iff (p : Outcome ε α × σ) (b : β) (s : σ) :
    andThen p f = (.ok b, s) ↔ ∃ a s', p = (.ok a, s') ∧ f a s' = (.ok b, s) := by
  obtain ⟨r, s'⟩ := p
  cases r <;> simp

theorem andThen_fst_eq_panic_iff (p : Outcome ε α × σ) :
    (andThen p f).1 = .panic ↔ p.1 = .panic ∨ ∃ a s', p = (.ok a, s') ∧ (f a s').1 = .panic := by
  obtain ⟨r, s'⟩ := p
  cases r <;> simp

end andThen

section run

variable (h : (o : Op) → σ → Res o × σ) (s : σ)

@[simp] theorem run_done (r : Outcome ε α) : run h (done r) s = (r, s) := rfl

@[simp] theorem run_await (o : Op) (k : Res o → Task Op Res ε α) :
    run h (await o k) s = run h (k (h o s).1) (h o s).2 := rfl

@[simp] theorem run_pure (a : α) : run h (pure a : Task Op Res ε α) s = (.ok a, s) := rfl

@[simp] theorem run_throw (e : ε) : run h (throw e : Task Op Res ε α) s = (.err e, s) := rfl

@[simp] theorem run_lift (r : Outcome ε α) :
    run h (liftM r : Task Op Res ε α) s = (r, s) := rfl

@[simp] theorem run_perform (o : Op) :
    run h (perform o : Task Op Res ε (Res o)) s = (.ok (h o s).1, (h o s).2) := rfl

@[simp] theorem run_bind (t : Task Op Res ε α) (f : α → Task Op Res ε β) :
    run h (t >>= f) s = andThen (run h t s) (fun a s => run h (f a) s) := by
  induction t generalizing s with
  | done r => cases r <;> rfl
  | await o k ih => exact ih _ _

@[simp] theorem run_map (f : α → β) (t : Task Op Res ε α) :
    run h (f <$> t) s = andThen (run h t s) (fun a s => (.ok (f a), s)) :=
  run_bind h s t (fun a => pure (f a))

@[simp] theorem run_attempt (t : Task Op Res ε α) :
    run h (t.attempt : Task Op Res ε' (Except ε α)) s = settle (run h t s) := by
  induction t generalizing s with
  | done r => cases r <;> rfl
  | await o k ih => exact ih _ _

end run

section Awaits

/-- Every operation that a task can await satisfies `P`. -/
inductive Awaits (P : Op → Prop) : Task Op Res ε α → Prop
  | done (r : Outcome ε α) : Awaits P (done r)
  | await (o : Op) (k : Res o → Task Op Res ε α) (ho : P o) (hk : ∀ r, Awaits P (k r)) :
      Awaits P (await o k)

variable {P : Op → Prop}

@[simp] theorem awaits_pure (a : α) : (pure a : Task Op Res ε α).Awaits P := .done _

@[simp] theorem awaits_throw (e : ε) : (throw e : Task Op Res ε α).Awaits P := .done _

@[simp] theorem awaits_lift (r : Outcome ε α) : (liftM r : Task Op Res ε α).Awaits P := .done _

theorem awaits_await {o : Op} {k : Res o → Task Op Res ε α} :
    (Task.await o k).Awaits P ↔ P o ∧ ∀ r, (k r).Awaits P := by
  constructor
  · intro h
    cases h with
    | await _ _ ho hk => exact ⟨ho, hk⟩
  · rintro ⟨ho, hk⟩
    exact .await o k ho hk

theorem awaits_perform {o : Op} (h : P o) : (perform o : Task Op Res ε (Res o)).Awaits P :=
  .await o _ h (fun _ => .done _)

theorem Awaits.bind {t : Task Op Res ε α} {f : α → Task Op Res ε β} (ht : t.Awaits P)
    (hf : ∀ a, (f a).Awaits P) : (t >>= f).Awaits P := by
  induction ht with
  | done r =>
    cases r with
    | ok a => exact hf a
    | err | panic => exact .done _
  | await o k ho _ ih => exact .await o _ ho ih

theorem Awaits.mono {P' : Op → Prop} {t : Task Op Res ε α} (ht : t.Awaits P) (hP : ∀ o, P o → P' o) :
    t.Awaits P' := by
  induction ht with
  | done r => exact .done r
  | await o k ho _ ih => exact .await o k (hP o ho) ih

theorem Awaits.map {t : Task Op Res ε α} (f : α → β) (ht : t.Awaits P) : (f <$> t).Awaits P :=
  ht.bind (fun _ => .done _)

theorem Awaits.attempt {t : Task Op Res ε α} (ht : t.Awaits P) :
    (t.attempt : Task Op Res ε' (Except ε α)).Awaits P := by
  induction ht with
  | done r => cases r <;> exact .done _
  | await o k ho _ ih => exact .await o _ ho ih

/-- An answer in `fails` ends the task at once, as `post` says. -/
inductive EndsOn (fails : (o : Op) → Res o → Prop) (post : Outcome ε α → Prop) :
    Task Op Res ε α → Prop
  | done (r : Outcome ε α) : EndsOn fails post (done r)
  | await (o : Op) (k : Res o → Task Op Res ε α)
      (hfail : ∀ r, fails o r → ∃ out, k r = Task.done out ∧ post out)
      (hk : ∀ r, EndsOn fails post (k r)) : EndsOn fails post (await o k)

variable {fails : (o : Op) → Res o → Prop}

theorem endsOn_await {post : Outcome ε α → Prop} {o : Op} {k : Res o → Task Op Res ε α} :
    (Task.await o k).EndsOn fails post ↔
      (∀ r, fails o r → ∃ out, k r = Task.done out ∧ post out) ∧ ∀ r, (k r).EndsOn fails post := by
  constructor
  · intro h
    cases h with
    | await _ _ hfail hk => exact ⟨hfail, hk⟩
  · rintro ⟨hfail, hk⟩
    exact .await o k hfail hk

theorem Awaits.endsOn {post : Outcome ε α → Prop} {t : Task Op Res ε α} (ht : t.Awaits P)
    (hP : ∀ o r, P o → ¬fails o r) : t.EndsOn fails post := by
  induction ht with
  | done r => exact .done r
  | await o k ho _ ih => exact .await o k (fun r hr => absurd hr (hP o r ho)) ih

/-- With `?` behind the task. -/
theorem EndsOn.bind {t : Task Op Res ε α} {f : α → Task Op Res ε β}
    (ht : t.EndsOn fails Outcome.NoValue) (hf : ∀ a, (f a).EndsOn fails Outcome.NoValue) :
    (t >>= f).EndsOn fails Outcome.NoValue := by
  induction ht with
  | done r =>
    cases r with
    | ok a => exact hf a
    | err | panic => exact .done _
  | await o k hfail _ ih =>
    refine .await o _ ?_ ih
    intro r hr
    obtain ⟨out, hk, hout⟩ := hfail r hr
    cases out with
    | ok a => exact hout.elim
    | err e => exact ⟨.err e, congrArg (fun t => t.bind f) hk, trivial⟩
    | panic => exact ⟨.panic, congrArg (fun t => t.bind f) hk, trivial⟩

/-- Without `?`, where nothing is awaited behind an error. -/
theorem EndsOn.attempt_bind {t : Task Op Res ε α} {f : Except ε α → Task Op Res ε' β}
    (ht : t.EndsOn fails Outcome.NoValue) (herr : ∀ e, ∃ out, f (.error e) = Task.done out)
    (hf : ∀ a, (f (.ok a)).EndsOn fails (fun _ => True)) :
    ((t.attempt : Task Op Res ε' (Except ε α)) >>= f).EndsOn fails (fun _ => True) := by
  induction ht with
  | done r =>
    cases r with
    | ok a => exact hf a
    | err e =>
      obtain ⟨out, hout⟩ := herr e
      change (f (.error e)).EndsOn fails _
      rw [hout]
      exact .done out
    | panic => exact .done _
  | await o k hfail _ ih =>
    refine .await o _ ?_ ih
    intro r hr
    obtain ⟨out, hk, hout⟩ := hfail r hr
    have hrest : ((k r).attempt : Task Op Res ε' (Except ε α)).bind f =
        (Task.done out : Task Op Res ε α).attempt.bind f := congrArg (fun t => t.attempt.bind f) hk
    cases out with
    | ok a => exact hout.elim
    | err e =>
      obtain ⟨out, hout⟩ := herr e
      exact ⟨out, hrest.trans hout, trivial⟩
    | panic => exact ⟨.panic, hrest, trivial⟩

/-- Operations with a value in `last` are the last ones awaited: the value tells how the
task ends on their answer. -/
inductive EndsWith (last : (o : Op) → Option (Res o → Outcome ε α)) : Task Op Res ε α → Prop
  | done (r : Outcome ε α) : EndsWith last (done r)
  | last (o : Op) (k : Res o → Task Op Res ε α) (g : Res o → Outcome ε α) (ho : last o = some g)
      (hk : ∀ r, k r = done (g r)) : EndsWith last (await o k)
  | await (o : Op) (k : Res o → Task Op Res ε α) (ho : last o = none)
      (hk : ∀ r, EndsWith last (k r)) : EndsWith last (await o k)

variable {last : (o : Op) → Option (Res o → Outcome ε α)}

theorem EndsWith.of_await {o : Op} {k : Res o → Task Op Res ε α} (h : (Task.await o k).EndsWith last)
    (ho : last o = none) (r : Res o) : (k r).EndsWith last := by
  cases h with
  | last _ _ g hg => rw [ho] at hg; cases hg
  | await _ _ _ hk => exact hk r

theorem EndsWith.of_last {o : Op} {k : Res o → Task Op Res ε α} {g : Res o → Outcome ε α}
    (h : (Task.await o k).EndsWith last) (ho : last o = some g) (r : Res o) : k r = Task.done (g r) := by
  cases h with
  | last _ _ g' hg hk =>
    obtain rfl := Option.some.inj (ho.symm.trans hg)
    exact hk r
  | await _ _ hn => rw [ho] at hn; cases hn

theorem Awaits.bind_endsWith {t : Task Op Res ε β} {f : β → Task Op Res ε α} (ht : t.Awaits P)
    (hP : ∀ o, P o → last o = none) (hf : ∀ a, (f a).EndsWith last) : (t >>= f).EndsWith last := by
  induction ht with
  | done r =>
    cases r with
    | ok a => exact hf a
    | err | panic => exact .done _
  | await o k ho _ ih => exact .await o _ (hP o ho) ih

theorem Awaits.endsWith {t : Task Op Res ε α} (ht : t.Awaits P) (hP : ∀ o, P o → last o = none) :
    t.EndsWith last := by
  induction ht with
  | done r => exact .done _
  | await o k ho _ ih => exact .await o _ (hP o ho) ih

/-- Dropping the `Result` of a task that cannot panic in the end. -/
theorem EndsWith.attempt_bind {t : Task Op Res ε α} (ht : t.EndsWith last) (b : β)
    {last' : (o : Op) → Option (Res o → Outcome ε' β)} (hnone : ∀ o, last o = none → last' o = none)
    (hsome : ∀ o g, last o = some g → last' o = some (fun _ => .ok b) ∧ ∀ r, g r ≠ .panic) :
    ((t.attempt : Task Op Res ε' (Except ε α)) >>= fun _ => pure b).EndsWith last' := by
  induction ht with
  | done r => cases r <;> exact .done _
  | last o k g ho hk =>
    obtain ⟨hl, hg⟩ := hsome o g ho
    refine .last o _ _ hl ?_
    intro r
    change ((k r).attempt.bind fun _ => pure b) = _
    rw [hk r]
    cases hgr : g r with
    | ok | err => rfl
    | panic => exact absurd hgr (hg r)
  | await o k ho _ ih => exact .await o _ (hnone o ho) ih

end Awaits

/-- If `abs` carries every answer of `h` to the same answer of `h'`, it carries
every run of `h` to the run of `h'`. -/
theorem run_abstraction (h : (o : Op) → σ → Res o × σ) (h' : (o : Op) → τ → Res o × τ)
    (abs : σ → τ) (hstep : ∀ o s, h' o (abs s) = ((h o s).1, abs (h o s).2))
    (t : Task Op Res ε α) (s : σ) :
    run h' t (abs s) = ((run h t s).1, abs (run h t s).2) := by
  induction t generalizing s with
  | done r => rfl
  | await o k ih =>
    rw [run_await, hstep]
    exact ih _ _

end Task

/-- The run rule: what every step keeps, every run keeps. -/
theorem keeps_of_reaches {σ : Type} {step : σ → σ → Prop} {I : σ → Prop}
    (hstep : ∀ s s', step s s' → I s → I s') {s s' : σ} (h : Relation.ReflTransGen step s s')
    (hs : I s) : I s' := by
  induction h with
  | refl => exact hs
  | tail _ hlast ih => exact hstep _ _ hlast ih

end Async
