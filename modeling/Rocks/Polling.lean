import Mathlib.Tactic.Common

/-! Futures that are polled until they are ready, and a rule for combinators of them. -/
namespace Polling

/-- `core::task::Poll` -/
inductive Poll (α : Type)
  | pending
  | ready (v : α)
deriving DecidableEq, Repr

/-- The value, if there is one. -/
def Poll.value {α : Type} : Poll α → Option α
  | .pending => none
  | .ready v => some v

/-- What can be polled. `none` stands for a panic. -/
class Future (F : Type) (T : outParam Type) where
  poll : F → Option (Poll T × F)

export Future (poll)

variable {F T : Type} [Future F T]

/-- Poll `n` times: the answers, and what the future is after them. -/
def polls : ℕ → F → Option (List (Poll T) × F)
  | 0, f => some ([], f)
  | n+1, f => do
    let (r, f) ← poll f
    let (rs, f) ← polls n f
    return (r :: rs, f)

/-- The answers of a future that is `Pending` `d` times and then `Ready` with `v`. -/
def pendingThen (d : ℕ) (v : T) : List (Poll T) := List.replicate d .pending ++ [.ready v]

/-- `f` is `Pending` `d` times and then `Ready` with `v`. What it would do after that is open. -/
inductive Yields : F → ℕ → T → Prop
  | ready (f f' : F) (v : T) (h : poll f = some (.ready v, f')) : Yields f 0 v
  | pending (f f' : F) (d : ℕ) (v : T) (h : poll f = some (.pending, f')) (hf : Yields f' d v) :
      Yields f (d+1) v

/-- A future that also keeps every answer it gave. -/
structure Logged (F T : Type) where
  fut : F
  answers : List (Poll T)

def Logged.new (f : F) : Logged F T := ⟨f, []⟩

instance : Future (Logged F T) T where
  poll c := do
    let (r, fut) ← poll c.fut
    return (r, ⟨fut, c.answers ++ [r]⟩)

/-- A future that gives the listed answers, and panics when polled once more. -/
structure Scripted (T : Type) where
  script : List (Poll T)

instance : Future (Scripted T) T where
  poll f := match f.script with
    | [] => none
    | r :: rs => some (r, ⟨rs⟩)

section polls

variable {f f' f'' : F} {r : Poll T} {rs : List (Poll T)} {n : ℕ}

theorem polls_cons (h : poll f = some (r, f')) (hs : polls n f' = some (rs, f'')) :
    polls (n+1) f = some (r :: rs, f'') := by
  simp [polls, h, hs]

theorem polls_concat (hs : polls n f = some (rs, f')) (h : poll f' = some (r, f'')) :
    polls (n+1) f = some (rs ++ [r], f'') := by
  induction n generalizing f rs with
  | zero =>
    obtain ⟨rfl, rfl⟩ := Prod.mk.inj (Option.some.inj hs)
    exact polls_cons h rfl
  | succ n ih =>
    -- the first of the `n+1` polls comes apart, the last one joins the other `n`
    simp only [polls, Option.bind_eq_bind, Option.pure_def, Option.bind_eq_some_iff,
      Option.some.injEq, Prod.mk.injEq, Prod.exists] at hs
    obtain ⟨r₀, f₀, h₀, rs', g, hs', rfl, rfl⟩ := hs
    exact polls_cons h₀ (ih hs')

theorem polls_succ_iff : polls (n+1) f = some (rs, f'') ↔
    ∃ r f' rs', poll f = some (r, f') ∧ polls n f' = some (rs', f'') ∧ rs = r :: rs' := by
  simp only [polls, Option.bind_eq_bind, Option.pure_def, Option.bind_eq_some_iff, Option.some.injEq,
    Prod.mk.injEq, Prod.exists]
  constructor
  · rintro ⟨r, f', h, rs', g, hs, rfl, rfl⟩
    exact ⟨r, f', rs', h, hs, rfl⟩
  · rintro ⟨r, f', rs', h, hs, rfl⟩
    exact ⟨r, f', h, rs', f'', hs, rfl, rfl⟩

/-- A run of polls comes apart into its last poll and the run before it. -/
theorem polls_concat_iff : polls (n+1) f = some (rs ++ [r], f'') ↔
    ∃ f', polls n f = some (rs, f') ∧ poll f' = some (r, f'') := by
  constructor
  · induction n generalizing f rs with
    | zero =>
      intro h
      obtain ⟨r', f', rs', hpoll, hs, hrs⟩ := polls_succ_iff.mp h
      obtain ⟨rfl, rfl⟩ := Prod.mk.inj (Option.some.inj hs)
      have hnil : rs ++ [r] = [] ++ [r'] := hrs
      obtain ⟨rfl, hr⟩ := List.append_inj' hnil rfl
      obtain rfl := List.singleton_inj.mp hr
      exact ⟨f, rfl, hpoll⟩
    | succ n ih =>
      intro h
      obtain ⟨r₀, f₀, rs', h₀, hs, hrs⟩ := polls_succ_iff.mp h
      cases rs with
      | nil =>
        -- a run of `n+2` polls has more than one answer
        obtain rfl : rs' = [] := (List.cons.inj hrs).2.symm
        obtain ⟨_, _, _, _, _, hne⟩ := polls_succ_iff.mp hs
        cases hne
      | cons r₁ rs =>
        obtain ⟨rfl, rfl⟩ := List.cons.inj hrs
        obtain ⟨f', hs', hlast⟩ := ih hs
        exact ⟨f', polls_cons h₀ hs', hlast⟩
  · rintro ⟨f', hs, h⟩
    exact polls_concat hs h

theorem poll_logged (h : poll f = some (r, f')) (log : List (Poll T)) :
    poll (⟨f, log⟩ : Logged F T) = some (r, ⟨f', log ++ [r]⟩) := by
  simp [poll, h]

end polls

section pendingThen

variable {d k : ℕ} (v : T)

theorem pendingThen_length : (pendingThen d v).length = d+1 := by
  simp [pendingThen]

theorem pendingThen_take_pending (hk : k < d) :
    (pendingThen d v).take (k+1) = (pendingThen d v).take k ++ [.pending] := by
  rw [List.take_add_one]
  -- answer number `k` lies in the part that is pending
  have hget : (pendingThen d v)[k]? = some .pending := by
    rw [pendingThen, List.getElem?_append_left (by simpa using hk)]
    simp [hk]
  rw [hget, Option.toList_some]

theorem pendingThen_take_ready : (pendingThen d v).take (d+1) = (pendingThen d v).take d ++ [.ready v] := by
  rw [List.take_of_length_le (Nat.le_of_eq (pendingThen_length v))]
  simp [pendingThen]

theorem pendingThen_take_all (hk : d < k) : (pendingThen d v).take k = pendingThen d v :=
  List.take_of_length_le (by rw [pendingThen_length]; exact hk)

end pendingThen

theorem Yields.polls_all {f : F} {d : ℕ} {v : T} (h : Yields f d v) :
    ∃ f', polls (d+1) f = some (pendingThen d v, f') := by
  induction h with
  | ready f f' v hpoll => exact ⟨f', polls_cons hpoll rfl⟩
  | pending f f' d v hpoll hf ih =>
    obtain ⟨f'', hpolls⟩ := ih
    exact ⟨f'', polls_cons hpoll hpolls⟩

/-- Futures that answer the next poll alike have the same future. -/
theorem Yields.of_poll_eq {f g : F} {d : ℕ} {v : T} (hg : Yields g d v) (h : poll f = poll g) :
    Yields f d v := by
  cases hg with
  | ready _ g' _ hpoll => exact .ready f g' v (h.trans hpoll)
  | pending _ g' d _ hpoll hg' => exact .pending f g' d v (h.trans hpoll) hg'

theorem polls_of_poll_eq {f g : F} {n : ℕ} (h : poll f = poll g) : polls (n+1) f = polls (n+1) g := by
  rw [polls, polls, h]

theorem yields_scripted (d : ℕ) (v : T) : Yields (⟨pendingThen d v⟩ : Scripted T) d v := by
  induction d with
  | zero => exact .ready _ ⟨[]⟩ v rfl
  | succ d ih => exact .pending _ ⟨pendingThen d v⟩ d v rfl ih

/-- A run of polls that ends in the first `Ready` gives the delay and the value. -/
theorem yields_of_polls {d : ℕ} {f f' : F} {v : T} (h : polls (d+1) f = some (pendingThen d v, f')) :
    Yields f d v := by
  induction d generalizing f with
  | zero =>
    simp only [polls, Option.bind_eq_bind, Option.pure_def, Option.bind_some, Option.bind_eq_some_iff,
      Option.some.injEq, Prod.mk.injEq, Prod.exists] at h
    -- the only answer is the `Ready`
    obtain ⟨r, g, hpoll, hr, -⟩ := h
    obtain rfl : r = .ready v := (List.cons.inj hr).1
    exact .ready f g v hpoll
  | succ d ih =>
    rw [polls] at h
    simp only [Option.bind_eq_bind, Option.pure_def, Option.bind_eq_some_iff, Option.some.injEq,
      Prod.mk.injEq, Prod.exists] at h
    -- the first answer is a `Pending`, and a shorter run of the same kind is behind it
    obtain ⟨r, g, hpoll, rs, g', hpolls, hr, rfl⟩ := h
    obtain ⟨rfl, rfl⟩ : r = .pending ∧ rs = pendingThen d v := List.cons.inj hr
    exact .pending f g d v hpoll (ih hpolls)

/-- `P k` holds of a future that has been polled at each of the first `k` polls of a combinator,
until it was `Ready`. -/
structure Ripens (P : ℕ → F → Prop) (d : ℕ) (v : T) : Prop where
  waits : ∀ k f, k < d → P k f → ∃ f', poll f = some (.pending, f') ∧ P (k+1) f'
  ripens : ∀ f, P d f → ∃ f', poll f = some (.ready v, f') ∧ P (d+1) f'
  rests : ∀ k f, d < k → P k f → P (k+1) f

/-- What is left of the delay after `k` polls. -/
def Left (d : ℕ) (v : T) (k : ℕ) (f : F) : Prop := k ≤ d → Yields f (d-k) v

theorem left_ripens (d : ℕ) (v : T) : Ripens (Left (F := F) d v) d v where
  waits k f hk h := by
    -- at least one `Pending` is left, and it is the answer to this poll
    have hleft := h (Nat.le_of_lt hk)
    rw [show d-k = (d-(k+1))+1 by omega] at hleft
    cases hleft with
    | pending _ f' _ _ hpoll hf => exact ⟨f', hpoll, fun _ => hf⟩
  ripens f h := by
    -- the delay is used up
    have hleft := h (Nat.le_refl d)
    rw [Nat.sub_self] at hleft
    cases hleft with
    | ready _ f' _ hpoll => exact ⟨f', hpoll, fun hk => absurd hk (by omega)⟩
  rests k f hk _ := fun hk' => absurd hk' (by omega)

/-- After `k` polls of the combinator a logged future has given its first `k` answers. -/
structure Logged.After (d : ℕ) (v : T) (k : ℕ) (c : Logged F T) : Prop where
  left : Left d v k c.fut
  answers : c.answers = (pendingThen d v).take k

theorem Logged.ripens (d : ℕ) (v : T) : Ripens (Logged.After (F := F) d v) d v where
  waits k c hk h := by
    obtain ⟨f', hpoll, hleft⟩ := (left_ripens d v).waits k c.fut hk h.left
    refine ⟨_, poll_logged hpoll c.answers, hleft, ?_⟩
    rw [pendingThen_take_pending v hk, h.answers]
  ripens c h := by
    obtain ⟨f', hpoll, hleft⟩ := (left_ripens d v).ripens c.fut h.left
    refine ⟨_, poll_logged hpoll c.answers, hleft, ?_⟩
    rw [pendingThen_take_ready, h.answers]
  rests k c hk h := by
    -- nothing is added to a log that has its `Ready`
    refine ⟨(left_ripens d v).rests k c.fut hk h.left, ?_⟩
    rw [h.answers, pendingThen_take_all v hk, pendingThen_take_all v (by omega)]

theorem Logged.After.new {d : ℕ} {v : T} {f : F} (h : Yields f d v) :
    Logged.After d v 0 (Logged.new f) :=
  ⟨fun _ => h, rfl⟩

/-- The run rule: a future that is `Pending` as long as `k < m`. -/
theorem polls_pending {At : ℕ → F → Prop} {m : ℕ}
    (hstep : ∀ k f, k < m → At k f → ∃ f', poll f = some (.pending, f') ∧ At (k+1) f')
    {f : F} (h0 : At 0 f) {k : ℕ} (hk : k ≤ m) :
    ∃ f', polls k f = some (List.replicate k .pending, f') ∧ At k f' := by
  induction k with
  | zero => exact ⟨f, rfl, h0⟩
  | succ k ih =>
    obtain ⟨f', hpolls, hat⟩ := ih (by omega)
    -- one more `Pending` behind the first `k`
    obtain ⟨f'', hpoll, hat'⟩ := hstep k f' (by omega) hat
    refine ⟨f'', ?_, hat'⟩
    rw [List.replicate_succ']
    exact polls_concat hpolls hpoll

end Polling
