import Rocks.Quiescence
import Rocks.HalfClose
import Rocks.Tunnel

/-! What a client can still do gets less with every step that changes anything. -/
namespace Rocks
open Async Quiescence Segments
open Socks5Connected ClientM

/-- What can still happen to a socket: arrivals count more than bytes that are there. -/
def Sock.weight (s : Sock) : ℕ :=
  3*(match s.coming with | some bs => bs.length+1 | none => 0)+2*s.arrived.length+
    if s.shut then 0 else 1

def Net.weight (n : Net) : ℕ := (n.sock .client).weight+(n.sock .remote).weight

def Copy.weight (c : Copy) : ℕ :=
  c.buf.length+(if c.readDone then 0 else 1)+if c.result.isNone then 1 else 0

/-- What the task can still do without getting on to another operation. -/
def Phase.weight {α : Type} : Phase α → ℕ
  | .awaiting (.await (.readExact _ len) _) => len
  | .awaiting (.await (.writeAll _ buf) _) => buf.length
  | .awaiting (.await (.join _ _) _) => 5
  | .awaiting _ => 0
  | .joining c d _ => c.weight+d.weight

def Sys.weight {α : Type} (s : Sys α) : ℕ := s.net.weight+s.phase.weight

/-- `t` is what a phase goes on with once its operation is answered. -/
def Phase.Resumes {α : Type} : Phase α → Io α → Prop
  | .awaiting (.done _), _ => False
  | .awaiting (.await _ k), t => ∃ r, t = k r
  | .joining _ _ k, t => ∃ r, t = k r

section weight

variable (n : Net) (s : TcpStream)

theorem Net.weight_modify (f : Sock → Sock) :
    (n.modify s f).weight + (n.sock s).weight = n.weight + (f (n.sock s)).weight := by
  cases s <;> simp only [weight, modify_sock, reduceCtorEq, if_true, if_false] <;> omega

theorem Net.weight_modify_of_eq {f : Sock → Sock} (h : (f (n.sock s)).weight = (n.sock s).weight) :
    (n.modify s f).weight = n.weight := by
  have hw := n.weight_modify s f
  omega

theorem Net.weight_take (k : ℕ) (h : k ≤ (n.sock s).arrived.length) :
    (n.take s k).weight+2*k = n.weight := by
  have hw := n.weight_modify s (fun sock => { sock with
    taken := sock.taken ++ sock.arrived.take k
    arrived := sock.arrived.drop k })
  simp only [Sock.weight, List.length_drop] at hw
  rw [take]
  omega

theorem Net.weight_deliver (buf : List UInt8) : (n.deliver s buf).weight = n.weight := by
  have hw : (n.modify s (fun sock => { sock with room := roomLeft sock.room buf.length })).weight =
      n.weight := n.weight_modify_of_eq s rfl
  exact hw

/-- An update that leaves its socket as it is. -/
theorem Net.modify_eq_self {f : Sock → Sock} (h : f (n.sock s) = n.sock s) : n.modify s f = n := by
  rw [modify, h, Function.update_eq_self]

/-- An arrival that brings anything makes less to come. -/
theorem arrives_weight {n n' : Net} (h : Arrives n n') : n' = n ∨ n'.weight < n.weight := by
  cases h with
  | bytes s k =>
    have hw := n.weight_modify s (fun sock => { sock with
      arrived := sock.arrived ++ (sock.coming.getD []).take k
      coming := sock.coming.map (·.drop k) })
    cases hc : (n.sock s).coming with
    | none =>
      left
      apply Net.modify_eq_self
      cases hs : n.sock s
      rw [hs] at hc
      simp only at hc
      simp [hc]
    | some bs =>
      by_cases hb : bs.take k = []
      · left
        apply Net.modify_eq_self
        cases hs : n.sock s
        rw [hs] at hc
        simp only at hc
        have hd : bs.drop k = bs := by
          have ht := List.take_append_drop k bs
          rwa [hb, List.nil_append] at ht
        simp [hc, hb, hd]
      · right
        have hl : 0 < (bs.take k).length := List.length_pos_iff.mpr hb
        simp only [Sock.weight, hc, Option.getD_some, Option.map_some, List.length_append,
          List.length_take, List.length_drop] at hw hl
        rw [Net.arrive]
        omega
  | ending s hs =>
    right
    have hw := n.weight_modify s (fun sock => { sock with coming := none })
    simp only [Sock.weight, hs, List.length_nil] at hw
    rw [Net.finish]
    omega

theorem dropped_eq_self (hs : ∀ s, (n.sock s).shut = true) : n.dropped = n := by
  have hsock : (fun s => { n.sock s with shut := true }) = n.sock := by
    funext s
    have h := hs s
    cases hn : n.sock s
    rw [hn] at h
    simp only at h
    simp [h]
  rw [Net.dropped, hsock]

/-- Dropping the sockets shuts them, which happens once. -/
theorem dropped_weight : n.dropped = n ∨ n.dropped.weight < n.weight := by
  by_cases hs : ∀ s, (n.sock s).shut = true
  · exact Or.inl (dropped_eq_self n hs)
  · right
    let f : Sock → Sock := fun sock => { sock with shut := true }
    have hle : ∀ s, (f (n.sock s)).weight ≤ (n.sock s).weight := by
      intro s
      simp [f, Sock.weight]
    obtain ⟨s, hs⟩ := not_forall.mp hs
    have hlt : (f (n.sock s)).weight < (n.sock s).weight := by
      simp [f, Sock.weight, hs]
    have h1 := hle .client
    have h2 := hle .remote
    have hd : n.dropped.weight = (f (n.sock .client)).weight+(f (n.sock .remote)).weight := rfl
    rw [hd, Net.weight]
    cases s <;> omega

/-- A socket with room takes a byte. -/
theorem accepted_one {room : Option ℕ} (h : room ≠ some 0) : accepted room 1 = 1 := by
  cases room with
  | none => rfl
  | some r =>
    have hr : r ≠ 0 := fun h0 => h (by rw [h0])
    simp only [accepted]
    omega

/-- Bytes on their way through a half of the relay get lighter. -/
theorem copies_weight {env : Env} {n n' : Net} {c c' : Copy} (h : Copies env (n, c) (n', c')) :
    n'.weight+c'.weight < n.weight+c.weight := by
  cases h with
  | read _ _ m hc hb hd h0 ha =>
    have hw := n.weight_take c.source m ha
    simp only [Copy.weight, hb, List.length_nil, List.length_take]
    omega
  | readEnd _ _ hc hb hd => simp [Copy.weight, hd]
  | readError _ _ e hc => simp [Copy.weight, hc]
  | write _ _ m hc h0 hl =>
    rw [Net.weight_deliver]
    simp only [Copy.weight, List.length_drop]
    omega
  | writeError _ _ hc => simp [Copy.weight, hc]
  | done _ _ hc => simp [Copy.weight, hc]

end weight

section settling

variable {env : Env} {α : Type}

/-- A poll either gets on with its operation or answers it. -/
theorem polls_weight {n n' : Net} {t t' : Io α} (h : Polls env (n, t) (n', t')) :
    (n'.weight+(Phase.awaiting t').weight < n.weight+(Phase.awaiting t).weight ∧
      ∀ u, (Phase.awaiting t').Resumes u → (Phase.awaiting t).Resumes u) ∨
      (Phase.awaiting t).Resumes t' := by
  cases h with
  | read _ s len m k h0 hl ha =>
    left
    have hw := n.weight_take s m ha
    refine ⟨by simp only [Phase.weight]; omega, ?_⟩
    rintro u ⟨r, rfl⟩
    exact ⟨_, rfl⟩
  | write _ s buf m k h0 hl =>
    left
    have hw := n.weight_deliver s (buf.take m)
    refine ⟨by simp only [Phase.weight, List.length_drop]; omega, ?_⟩
    rintro u ⟨r, rfl⟩
    exact ⟨r, rfl⟩
  | filled | cutOff | written | refused | toSocketAddrs | connect | peerAddr | localAddr | shutdown =>
    exact Or.inr ⟨_, rfl⟩

/-- The step lemma: a step changes nothing, or makes the rest lighter, or answers the operation. -/
theorem step_weight {a b : Sys α} (h : Step env a b) :
    b = a ∨ (b.weight < a.weight ∧ ∀ u, b.phase.Resumes u → a.phase.Resumes u) ∨
      ∃ u, a.phase.Resumes u ∧ b.phase = .awaiting u := by
  cases h with
  | arrives p h =>
    rcases arrives_weight h with rfl | hlt
    · exact Or.inl rfl
    · exact Or.inr (Or.inl ⟨by simp only [Sys.weight]; omega, fun _ hu => hu⟩)
  | polls h =>
    rcases polls_weight h with hlt | hr
    · exact Or.inr (Or.inl hlt)
    · exact Or.inr (Or.inr ⟨_, hr, rfl⟩)
  | joins n a b k =>
    refine Or.inr (Or.inl ⟨?_, fun _ hu => hu⟩)
    simp [Sys.weight, Phase.weight, Copy.weight, Copy.new]
  | first d k h =>
    have hlt := copies_weight h
    refine Or.inr (Or.inl ⟨?_, fun _ hu => hu⟩)
    simp only [Sys.weight, Phase.weight]
    omega
  | second c k h =>
    have hlt := copies_weight h
    refine Or.inr (Or.inl ⟨?_, fun _ hu => hu⟩)
    simp only [Sys.weight, Phase.weight]
    omega
  | joined n c d k => exact Or.inr (Or.inr ⟨_, ⟨_, rfl⟩, rfl⟩)
  | drops n r =>
    rcases dropped_weight n with he | hlt
    · left
      rw [he]
    · exact Or.inr (Or.inl ⟨by simp only [Sys.weight]; omega, fun _ hu => hu⟩)

theorem settles_of_resumes {a : Sys α}
    (ha : ∀ u, a.phase.Resumes u → ∀ n, Settles (Step env) ⟨n, .awaiting u⟩) :
    Settles (Step env) a := by
  -- between two operations the weight falls
  apply Settles.of_rank (I := fun a : Sys α =>
    ∀ u, a.phase.Resumes u → ∀ n, Settles (Step env) ⟨n, .awaiting u⟩) Sys.weight _ ha
  intro a b ha hab
  rcases step_weight hab.1 with he | ⟨hlt, hu⟩ | ⟨u, hu, hb⟩
  · exact absurd he hab.2
  · exact Or.inr ⟨fun u hbu => ha u (hu u hbu), hlt⟩
  · left
    obtain ⟨n, p⟩ := b
    subst hb
    exact ha u hu n

theorem task_settles (t : Io α) (n : Net) : Settles (Step env) ⟨n, .awaiting t⟩ := by
  induction t generalizing n with
  | done r =>
    apply settles_of_resumes
    intro u hu
    exact absurd hu not_false
  | await o k ih =>
    apply settles_of_resumes
    rintro u ⟨r, rfl⟩
    exact ih r

theorem sys_settles (s : Sys α) : Settles (Step env) s := by
  apply settles_of_resumes
  intro u _
  exact task_settles u

/-- A task is never its own continuation. -/
theorem await_ne_resumed {Op : Type} {Res : Op → Type} {ε β : Type} (o : Op)
    (k : Res o → Task Op Res ε β) (r : Res o) : k r ≠ .await o k := by
  have hne : ∀ t : Task Op Res ε β, ∀ o k (r : Res o), t = .await o k → k r ≠ t := by
    intro t
    induction t with
    | done => intro o k r h; cases h
    | await o' k' ih =>
      intro o k r h hk
      obtain ⟨rfl, hkk⟩ := Task.await.inj h
      obtain rfl := eq_of_heq hkk
      -- a continuation that is the task itself would be its own continuation too
      exact ih r o' k' r hk rfl
  exact hne _ o k r rfl

theorem resumes_ne {t u : Io α} (h : (Phase.awaiting t).Resumes u) : u ≠ t := by
  cases t with
  | done => exact absurd h not_false
  | await o k =>
    obtain ⟨r, rfl⟩ := h
    exact await_ne_resumed o k r

/-- A poll changes something. -/
theorem polls_moves {n n' : Net} {t t' : Io α} (h : Polls env (n, t) (n', t')) :
    (⟨n', .awaiting t'⟩ : Sys α) ≠ ⟨n, .awaiting t⟩ := by
  intro he
  obtain ⟨rfl, hp⟩ := Sys.mk.inj he
  obtain rfl := Phase.awaiting.inj hp
  rcases polls_weight h with ⟨hlt, -⟩ | hr
  · omega
  · exact absurd rfl (resumes_ne hr)

/-- So does a step of a half of the relay. -/
theorem copies_moves {n n' : Net} {c c' : Copy} (h : Copies env (n, c) (n', c')) :
    ¬(n' = n ∧ c' = c) := by
  rintro ⟨rfl, rfl⟩
  have hlt := copies_weight h
  omega

variable (env) in
/-- An operation other than the relay gets on or is answered, unless it is a read that waits for
its peer. -/
theorem polls_progress (n : Net) (o : Op) (hj : o.isJoin = false) (k : o.Res → Io α) :
    (∃ n' t', Polls env (n, .await o k) (n', t')) ∨ ∃ s len, o = .readExact s len ∧ 0 < len ∧
      (n.sock s).arrived = [] ∧ (n.sock s).coming ≠ none := by
  cases o with
  | readExact s len =>
    rcases Nat.eq_zero_or_pos len with rfl | h0
    · exact Or.inl ⟨_, _, .filled n s k⟩
    by_cases ha : (n.sock s).arrived = []
    · by_cases hn : (n.sock s).coming = none
      · exact Or.inl ⟨_, _, .cutOff n s len k h0 ha hn⟩
      · exact Or.inr ⟨s, len, rfl, h0, ha, hn⟩
    · have hl : 0 < (n.sock s).arrived.length := List.length_pos_iff.mpr ha
      exact Or.inl ⟨_, _, .read n s len 1 k (by omega) h0 hl⟩
  | writeAll s buf =>
    left
    by_cases hb : buf = []
    · subst hb
      exact ⟨_, _, .written n s k⟩
    · have hl : 0 < buf.length := List.length_pos_iff.mpr hb
      by_cases hr : (n.sock s).room = some 0
      · exact ⟨_, _, .refused n s buf k hb hr⟩
      · refine ⟨_, _, .write n s buf 1 k (by omega) hl ?_⟩
        exact accepted_one hr
  | toSocketAddrs domain port => exact Or.inl ⟨_, _, .toSocketAddrs n domain port k⟩
  | connect addr => exact Or.inl ⟨_, _, .connect n addr k⟩
  | peerAddr s => exact Or.inl ⟨_, _, .peerAddr n s k⟩
  | localAddr s => exact Or.inl ⟨_, _, .localAddr n s k⟩
  | shutdown s => exact Or.inl ⟨_, _, .shutdown n s k⟩
  | join => cases hj

variable (env) in
/-- A half of the relay that has not ended gets on, unless it waits for its peer. -/
theorem copies_progress (n : Net) (c : Copy) (hc : c.result = none) :
    (∃ n' c', Copies env (n, c) (n', c')) ∨ Waiting n c := by
  by_cases hb : c.buf = []
  · cases hd : c.readDone with
    | true => exact Or.inl ⟨_, _, .done n c hc hb hd⟩
    | false =>
      by_cases ha : (n.sock c.source).arrived = []
      · by_cases hn : (n.sock c.source).coming = none
        · left
          cases he : env.ending c.source with
          | eof => exact ⟨_, _, .readEnd n c hc hb hd ha hn he⟩
          | reset e => exact ⟨_, _, .readError n c e hc hb hd ha hn he⟩
        · exact Or.inr ⟨hc, hb, hd, ha, hn⟩
      · have hl : 0 < (n.sock c.source).arrived.length := List.length_pos_iff.mpr ha
        exact Or.inl ⟨_, _, .read n c 1 hc hb hd (by omega) hl⟩
  · left
    by_cases hr : (n.sock c.target).room = some 0
    · exact ⟨_, _, .writeError n c hc hb hr⟩
    · have hl : 0 < c.buf.length := List.length_pos_iff.mpr hb
      exact ⟨_, _, .write n c 1 hc (by omega) hl (accepted_one hr)⟩

end settling

end Rocks
