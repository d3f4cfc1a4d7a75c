import Rocks.Polling

/-! The future combinators `alt`, `join` and `join_on_ok`. -/
namespace Rocks.FutureExt
open Polling

variable {T1 T2 E1 E2 F1 F2 : Type}

/-- The future of `alt`. -/
structure Alt.AltFuture (F1 F2 : Type) where
  f1 : F1
  f2 : F2

def Alt.AltFuture.poll [Future F1 T1] [Future F2 T2] (this : AltFuture F1 F2) :
    Option (Poll (Option T1 × Option T2) × AltFuture F1 F2) := do
  let (r1, f1) ← Future.poll this.f1
  let (r2, f2) ← Future.poll this.f2
  match r1, r2 with
  | .pending, .pending => return (.pending, ⟨f1, f2⟩)
  | .pending, .ready v2 => return (.ready (none, some v2), ⟨f1, f2⟩)
  | .ready v1, .pending => return (.ready (some v1, none), ⟨f1, f2⟩)
  | .ready v1, .ready v2 => return (.ready (some v1, some v2), ⟨f1, f2⟩)

instance [Future F1 T1] [Future F2 T2] :
    Future (Alt.AltFuture F1 F2) (Option T1 × Option T2) := ⟨Alt.AltFuture.poll⟩

def alt [Future F1 T1] [Future F2 T2] (f1 : F1) (f2 : F2) : Alt.AltFuture F1 F2 := ⟨f1, f2⟩

/-- The future of `join`: the two children and the slots for their values. -/
structure Join.JoinFuture (T1 T2 F1 F2 : Type) where
  f1 : F1
  f2 : F2
  v1 : Option T1
  v2 : Option T2

def Join.JoinFuture.poll [Future F1 T1] [Future F2 T2] (this : JoinFuture T1 T2 F1 F2) :
    Option (Poll (T1 × T2) × JoinFuture T1 T2 F1 F2) :=
  match this.v1, this.v2 with
  | some _, some _ => none -- `unreachable!()`
  | some _, _ => do
    let (r, f2) ← Future.poll this.f2
    match r with
    | .ready v2 =>
      let v1 ← this.v1 -- `take().unwrap()`
      return (.ready (v1, v2), { this with f2, v1 := none })
    | _ => return (.pending, { this with f2 })
  | _, some _ => do
    let (r, f1) ← Future.poll this.f1
    match r with
    | .ready v1 =>
      let v2 ← this.v2
      return (.ready (v1, v2), { this with f1, v2 := none })
    | _ => return (.pending, { this with f1 })
  | _, _ => do
    let (r1, f1) ← Future.poll this.f1
    let (r2, f2) ← Future.poll this.f2
    match r1, r2 with
    | .ready v1, .ready v2 => return (.ready (v1, v2), { this with f1, f2 })
    | .ready v1, _ => return (.pending, { this with f1, f2, v1 := some v1 })
    | _, .ready v2 => return (.pending, { this with f1, f2, v2 := some v2 })
    | _, _ => return (.pending, { this with f1, f2 })

instance [Future F1 T1] [Future F2 T2] : Future (Join.JoinFuture T1 T2 F1 F2) (T1 × T2) :=
  ⟨Join.JoinFuture.poll⟩

def join [Future F1 T1] [Future F2 T2] (f1 : F1) (f2 : F2) : Join.JoinFuture T1 T2 F1 F2 :=
  ⟨f1, f2, none, none⟩

/-- The future of `join_on_ok`: only an `Ok` value is kept in a slot. -/
structure JoinOnOk.JoinFuture (T1 T2 F1 F2 : Type) where
  f1 : F1
  f2 : F2
  v1 : Option T1
  v2 : Option T2

def JoinOnOk.JoinFuture.poll [Future F1 (Except E1 T1)] [Future F2 (Except E2 T2)]
    (this : JoinFuture T1 T2 F1 F2) :
    Option (Poll (Option (Except E1 T1) × Option (Except E2 T2)) × JoinFuture T1 T2 F1 F2) :=
  match this.v1, this.v2 with
  | some _, some _ => none -- `unreachable!()`
  | some _, _ => do
    let (r, f2) ← Future.poll this.f2
    match r with
    | .ready v2 =>
      let v1 ← this.v1 -- `take().unwrap()`
      return (.ready (some (.ok v1), some v2), { this with f2, v1 := none })
    | _ => return (.pending, { this with f2 })
  | _, some _ => do
    let (r, f1) ← Future.poll this.f1
    match r with
    | .ready v1 =>
      let v2 ← this.v2
      return (.ready (some v1, some (.ok v2)), { this with f1, v2 := none })
    | _ => return (.pending, { this with f1 })
  | _, _ => do
    let (r1, f1) ← Future.poll this.f1
    let (r2, f2) ← Future.poll this.f2
    match r1, r2 with
    | .ready v1, .ready v2 => return (.ready (some v1, some v2), { this with f1, f2 })
    | .ready (.ok v1), .pending => return (.pending, { this with f1, f2, v1 := some v1 })
    | .ready (.error e1), _ => return (.ready (some (.error e1), none), { this with f1, f2 })
    | .pending, .ready (.ok v2) => return (.pending, { this with f1, f2, v2 := some v2 })
    | _, .ready (.error e2) => return (.ready (none, some (.error e2)), { this with f1, f2 })
    | _, _ => return (.pending, { this with f1, f2 })

instance [Future F1 (Except E1 T1)] [Future F2 (Except E2 T2)] :
    Future (JoinOnOk.JoinFuture T1 T2 F1 F2) (Option (Except E1 T1) × Option (Except E2 T2)) :=
  ⟨JoinOnOk.JoinFuture.poll⟩

def joinOnOk [Future F1 (Except E1 T1)] [Future F2 (Except E2 T2)] (f1 : F1) (f2 : F2) :
    JoinOnOk.JoinFuture T1 T2 F1 F2 :=
  ⟨f1, f2, none, none⟩

end Rocks.FutureExt
