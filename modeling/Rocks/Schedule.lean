import Rocks.Network

/-! One schedule of a client, which can be run: what a peer sends arrives as soon as it can, and
reads and writes are as long as they can be. -/
namespace Rocks
open Async

/-- What the socket takes of a buffer it takes at once. -/
theorem accepted_accepted (room : Option ℕ) (n : ℕ) : accepted room (accepted room n) = accepted room n := by
  cases room with
  | none => rfl
  | some r => simp only [accepted]; omega

theorem accepted_le (room : Option ℕ) (n : ℕ) : accepted room n ≤ n := by
  cases room with
  | none => exact Nat.le_refl n
  | some r => exact Nat.min_le_left n r

theorem accepted_eq_zero {room : Option ℕ} {n : ℕ} (hn : 0 < n) (h : accepted room n = 0) : room = some 0 := by
  cases room with
  | none => exact absurd h (by simp only [accepted]; omega)
  | some r =>
    simp only [accepted] at h
    rw [show r = 0 by omega]

section schedule

variable (env : Env) {α : Type}

/-- The rest of a stream arrives, and then its end. -/
def Net.arriveNext (n : Net) (s : TcpStream) : Option Net :=
  match (n.sock s).coming with
  | none => none
  | some [] => some (n.finish s)
  | some (b :: bs) => some (n.arrive s (b :: bs).length)

/-- The poll of a task that can go on without the peers. -/
def Net.pollNext (n : Net) : Io α → Option (Net × Io α)
  | .done _ => none
  | .await (.readExact s len) k =>
    match len with
    | 0 => some (n, k (.ok []))
    | len+1 =>
      let m := min (len+1) (n.sock s).arrived.length
      if 0 < m then
        some (n.take s m, .await (.readExact s (len+1-m)) (fun r : Except IoError (List UInt8) =>
          k (r.map ((n.sock s).arrived.take m ++ ·))))
      else if (n.sock s).coming.isNone then some (n, k (.error (env.ending s).readExactError))
      else none
  | .await (.writeAll s buf) k =>
    match buf with
    | [] => some (n, k (.ok ()))
    | b :: bs =>
      let m := accepted (n.sock s).room (b :: bs).length
      if 0 < m then some (n.deliver s ((b :: bs).take m), .await (.writeAll s ((b :: bs).drop m)) k)
      else some (n, k (.error (env.writeError s)))
  | .await (.toSocketAddrs domain port) k =>
    some (n.log (.resolved domain port), k (env.resolver domain port))
  | .await (.connect addr) k =>
    some (n.log (.connected addr), k ((env.connect addr).map (fun _ => .remote)))
  | .await (.peerAddr s) k => some (n, k (env.peerAddr s))
  | .await (.localAddr s) k => some (n, k (env.localAddr s))
  | .await (.join _ _) _ => none
  | .await (.shutdown s) k => some (n.shutDown s, k (.ok ()))

/-- The step of a half of the relay that can go on without the peers. -/
def Copy.next (n : Net) (c : Copy) : Option (Net × Copy) :=
  match c.result, c.buf, c.readDone with
  | some _, _, _ => none
  | none, [], true => some (n, { c with result := some (.ok c.amt) })
  | none, [], false =>
    match (n.sock c.source).arrived, (n.sock c.source).coming with
    | [], none => match env.ending c.source with
      | .eof => some (n, { c with readDone := true })
      | .reset e => some (n, { c with result := some (.error e) })
    | [], some _ => none
    | b :: bs, _ => some (n.take c.source (b :: bs).length, { c with buf := b :: bs })
  | none, b :: bs, _ =>
    let m := accepted (n.sock c.target).room (b :: bs).length
    if 0 < m then
      some (n.deliver c.target ((b :: bs).take m),
        { c with buf := (b :: bs).drop m, amt := c.amt+m })
    else some (n, { c with result := some (.error (env.writeError c.target)) })

/-- The task, or one half of its relay, or at last the dropping of its sockets. -/
def Sys.taskNext : Sys α → Option (Sys α)
  | ⟨n, .awaiting (.done r)⟩ =>
    if (n.sock .client).shut && (n.sock .remote).shut then none else some ⟨n.dropped, .awaiting (.done r)⟩
  | ⟨n, .awaiting (.await (.join a b) k)⟩ => some ⟨n, .joining (.new a) (.new b) k⟩
  | ⟨n, .awaiting t⟩ => (n.pollNext env t).map (fun p => ⟨p.1, .awaiting p.2⟩)
  | ⟨n, .joining c d k⟩ =>
    match c.next env n, d.next env n, c.result, d.result with
    | some p, _, _, _ => some ⟨p.1, .joining p.2 d k⟩
    | none, some p, _, _ => some ⟨p.1, .joining c p.2 k⟩
    | none, none, some r, some r' => some ⟨n, .awaiting (k (r, r'))⟩
    | none, none, _, _ => none

/-- Arrivals come first. -/
def Sys.next (s : Sys α) : Option (Sys α) :=
  match s.net.arriveNext .client, s.net.arriveNext .remote with
  | some n, _ => some ⟨n, s.phase⟩
  | none, some n => some ⟨n, s.phase⟩
  | none, none => s.taskNext env

/-- The state after at most `k` steps of the schedule. -/
def Sys.after : ℕ → Sys α → Sys α
  | 0, s => s
  | k+1, s => match s.next env with
    | some s' => s'.after k
    | none => s

end schedule

section sound

variable {env : Env} {α : Type} {n n' : Net}

theorem arriveNext_arrives {s : TcpStream} (h : n.arriveNext s = some n') : Arrives n n' := by
  unfold Net.arriveNext at h
  split at h
  · cases h
  · next hc =>
    obtain rfl := Option.some.inj h
    exact .ending n s hc
  · obtain rfl := Option.some.inj h
    exact .bytes n s _

theorem pollNext_polls {t t' : Io α} (h : n.pollNext env t = some (n', t')) :
    Polls env (n, t) (n', t') := by
  cases t with
  | done r => cases h
  | await o k =>
    cases o with
    | readExact s len =>
      cases len with
      | zero =>
        cases h
        exact .filled n s k
      | succ len =>
        simp only [Net.pollNext] at h
        split_ifs at h with hm hc
        · cases h
          exact .read n s (len+1) _ k hm (Nat.min_le_left _ _) (Nat.min_le_right _ _)
        · cases h
          have harr : (n.sock s).arrived = [] := by
            apply List.length_eq_zero_iff.mp
            omega
          exact .cutOff n s (len+1) k (Nat.succ_pos len) harr (Option.isNone_iff_eq_none.mp hc)
    | writeAll s buf =>
      cases buf with
      | nil =>
        cases h
        exact .written n s k
      | cons b bs =>
        simp only [Net.pollNext] at h
        split_ifs at h with hm
        · cases h
          exact .write n s (b :: bs) _ k hm (accepted_le _ _) (accepted_accepted _ _)
        · cases h
          have hroom : (n.sock s).room = some 0 :=
            accepted_eq_zero (Nat.succ_pos bs.length) (Nat.eq_zero_of_not_pos hm)
          exact .refused n s (b :: bs) k (List.cons_ne_nil b bs) hroom
    | toSocketAddrs domain port => cases h; exact .toSocketAddrs n domain port k
    | connect addr => cases h; exact .connect n addr k
    | peerAddr s => cases h; exact .peerAddr n s k
    | localAddr s => cases h; exact .localAddr n s k
    | join => cases h
    | shutdown s => cases h; exact .shutdown n s k

theorem next_copies {c c' : Copy} (h : c.next env n = some (n', c')) : Copies env (n, c) (n', c') := by
  unfold Copy.next at h
  split at h
  · cases h
  · next hc hb hd =>
    cases h
    exact .done n c hc hb hd
  · next hc hb hd =>
    split at h
    · next ha hn =>
      split at h
      · next he =>
        cases h
        exact .readEnd n c hc hb hd ha hn he
      · next e he =>
        cases h
        exact .readError n c e hc hb hd ha hn he
    · cases h
    · next _ b bs ha =>
      cases h
      have hread : Copies env (n, c) (n.take c.source (b :: bs).length,
          { c with buf := (n.sock c.source).arrived.take (b :: bs).length }) :=
        .read n c _ hc hb hd (Nat.succ_pos bs.length) (by simp [ha])
      rwa [ha, List.take_length] at hread
  · next b bs _ hc hb =>
    simp only [← hb] at h
    have hlen : 0 < c.buf.length := by simp [hb]
    split_ifs at h with hm
    · cases h
      exact .write n c _ hc hm (accepted_le _ _) (accepted_accepted _ _)
    · cases h
      refine .writeError n c hc (List.length_pos_iff.mp hlen) ?_
      exact accepted_eq_zero hlen (Nat.eq_zero_of_not_pos hm)

theorem taskNext_step {s s' : Sys α} (h : s.taskNext env = some s') : Step env s s' := by
  unfold Sys.taskNext at h
  split at h
  · next n r =>
    split_ifs at h
    cases h
    exact .drops n r
  · next n a b k =>
    cases h
    exact .joins n a b k
  · next n t _ _ =>
    obtain ⟨⟨n', t'⟩, hp, rfl⟩ := Option.map_eq_some_iff.mp h
    exact .polls (pollNext_polls hp)
  · next n c d k =>
    split at h
    · next p hc =>
      cases h
      exact .first d k (next_copies hc)
    · next p _ hd =>
      cases h
      exact .second c k (next_copies hd)
    · next r r' _ _ hc hd =>
      cases h
      exact .joined n c d k hc hd
    · cases h

theorem next_step {s s' : Sys α} (h : s.next env = some s') : Step env s s' := by
  unfold Sys.next at h
  split at h
  · next n hn =>
    cases h
    exact .arrives s.phase (arriveNext_arrives hn)
  · next n _ hn =>
    cases h
    exact .arrives s.phase (arriveNext_arrives hn)
  · exact taskNext_step h

variable (env) in
/-- What the schedule comes to is one of the states that the program reaches. -/
theorem reaches_after (k : ℕ) (s : Sys α) : Reaches env s (s.after env k) := by
  induction k generalizing s with
  | zero => exact .refl
  | succ k ih =>
    rw [Sys.after]
    split
    · next s' h => exact .head (next_step h) (ih s')
    · exact .refl

end sound

end Rocks
