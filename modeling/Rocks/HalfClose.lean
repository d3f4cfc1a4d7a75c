import Rocks.Running

/-! A half of the relay that ends at its source's end of stream leaves its target open. -/
namespace Rocks
open Async

section shut

variable {env : Env} {α : Type}

/-- Write halves are shut only behind a task that has ended, and it will shut none itself. -/
structure ShutLast (sys : Sys α) : Prop where
  shut : (∀ s, (sys.net.sock s).shut = false) ∨ ∃ r, sys.phase = .awaiting (.done r)
  keepsOpen : sys.phase.KeepsOpen

theorem take_shut (n : Net) (s : TcpStream) (k : ℕ) (s' : TcpStream) :
    ((n.take s k).sock s').shut = (n.sock s').shut :=
  Net.modify_keeps Sock.shut (by intro; rfl) s'

theorem arrives_shut {n n' : Net} (h : Arrives n n') (s : TcpStream) :
    (n'.sock s).shut = (n.sock s).shut := by
  cases h with
  | bytes => exact Net.modify_keeps Sock.shut (by intro; rfl) s
  | ending => exact Net.modify_keeps Sock.shut (by intro; rfl) s

theorem copies_shut {n n' : Net} {c c' : Copy} (h : Copies env (n, c) (n', c')) (s : TcpStream) :
    (n'.sock s).shut = (n.sock s).shut := by
  cases h with
  | read => exact take_shut _ _ _ s
  | write => exact Net.deliver_keeps Sock.shut _ _ _ (by intros; rfl) s
  | readEnd | readError | writeError | done => rfl

theorem polls_shut {n n' : Net} {t t' : Io α} (h : Polls env (n, t) (n', t')) (ht : KeepsOpen t)
    (s : TcpStream) : (n'.sock s).shut = (n.sock s).shut := by
  cases h with
  | read => exact take_shut _ _ _ s
  | write => exact Net.deliver_keeps Sock.shut _ _ _ (by intros; rfl) s
  -- the one operation that shuts is one that such a task does not await
  | shutdown => cases (Task.awaits_await.mp ht).1
  | filled | cutOff | written | refused | toSocketAddrs | connect | peerAddr | localAddr => rfl

theorem step_shutLast {a b : Sys α} (h : Step env a b) (ha : ShutLast a) : ShutLast b := by
  refine ⟨?_, step_keepsOpen h ha.keepsOpen⟩
  -- apart from `drops`, which needs a task that is done, no step shuts
  obtain ⟨ha | ⟨r, hr⟩, hopen⟩ := ha
  · cases h with
    | arrives p h =>
      left
      intro s
      exact (arrives_shut h s).trans (ha s)
    | polls h =>
      left
      intro s
      exact (polls_shut h hopen s).trans (ha s)
    | first d k h => exact Or.inl (fun s => (copies_shut h s).trans (ha s))
    | second c k h => exact Or.inl (fun s => (copies_shut h s).trans (ha s))
    | joins | joined => exact Or.inl ha
    | drops n r => exact Or.inr ⟨r, rfl⟩
  · right
    cases h with
    | arrives p h => exact ⟨r, hr⟩
    | polls h =>
      obtain rfl := Phase.awaiting.inj hr
      cases h
    | drops n r' => exact ⟨r', rfl⟩
    | joins => cases hr
    | first | second | joined => cases hr

theorem ShutLast.done {sys : Sys α} (h : ShutLast sys) {s : TcpStream}
    (hs : (sys.net.sock s).shut = true) : ∃ r, sys.phase = .awaiting (.done r) := by
  rcases h.shut with hopen | hdone
  · exact absurd ((hopen s).symm.trans hs) (by decide)
  · exact hdone

theorem shutLast_of_reaches {a b : Sys α} (h : Reaches env a b) (ha : ShutLast a) : ShutLast b := by
  induction h with
  | refl => exact ha
  | tail _ hstep ih => exact step_shutLast hstep ih

end shut

/-- In no state of a client whose task is still there is one of its sockets shut. -/
theorem client_stays_open (env : Env) (debugLog : Bool) (cfg : OutgoingConfig)
    (sock : TcpStream → Sock) (hopen : ∀ s, (sock s).shut = false) {sys : Sys Unit}
    (hreach : Reaches env ⟨⟨sock, []⟩, .awaiting (handleClient debugLog held cfg)⟩ sys) (s : TcpStream)
    (hs : (sys.net.sock s).shut = true) : ∃ r, sys.phase = .awaiting (.done r) := by
  have hkeeps : KeepsOpen (handleClient debugLog held cfg) := handleClient_keepsOpen debugLog held cfg
  exact (shutLast_of_reaches hreach ⟨Or.inl hopen, hkeeps⟩).done hs

/-- A half that waits for a peer that neither sends nor closes. -/
structure Waiting (n : Net) (c : Copy) : Prop where
  result : c.result = none
  buf : c.buf = []
  reading : c.readDone = false
  arrived : (n.sock c.source).arrived = []
  coming : (n.sock c.source).coming ≠ none

theorem not_copies_of_waiting {env : Env} {n n' : Net} {c c' : Copy} (hw : Waiting n c) :
    ¬Copies env (n, c) (n', c') := by
  intro h
  cases h with
  | read _ _ m hc hb hd h0 ha => rw [hw.arrived, List.length_nil] at ha; omega
  | readEnd _ _ _ _ _ _ hn => exact hw.coming hn
  | readError _ _ _ _ _ _ _ hn => exact hw.coming hn
  | write _ _ m _ h0 hl => rw [hw.buf, List.length_nil] at hl; omega
  | writeError _ _ _ hb => exact hb hw.buf
  | done _ _ _ _ hd => exact absurd (hw.reading.symm.trans hd) (by decide)

theorem not_copies_of_ended {env : Env} {n n' : Net} {c c' : Copy} (hc : c.result ≠ none) :
    ¬Copies env (n, c) (n', c') := by
  intro h
  cases h with
  | read _ _ _ h | readEnd _ _ h | readError _ _ _ h | write _ _ _ h | writeError _ _ h | done _ _ h =>
    exact hc h

/-- With one half ended and the other waiting, only the peers can do anything. -/
theorem stuck {env : Env} {α : Type} {n : Net} {c d : Copy}
    {k : Except IoError ℕ × Except IoError ℕ → Io α} {sys : Sys α}
    (hcd : c.result ≠ none ∧ Waiting n d ∨ d.result ≠ none ∧ Waiting n c)
    (h : Step env ⟨n, .joining c d k⟩ sys) : ∃ n', Arrives n n' ∧ sys = ⟨n', .joining c d k⟩ := by
  cases h with
  | arrives p h => exact ⟨_, h, rfl⟩
  | first d k h =>
    rcases hcd with ⟨hc, -⟩ | ⟨-, hw⟩
    · exact absurd h (not_copies_of_ended hc)
    · exact absurd h (not_copies_of_waiting hw)
  | second c k h =>
    rcases hcd with ⟨-, hw⟩ | ⟨hd, -⟩
    · exact absurd h (not_copies_of_waiting hw)
    · exact absurd h (not_copies_of_ended hd)
  -- joining needs both results, and the waiting half has none
  | joined n c d k hr hr' =>
    rcases hcd with ⟨-, hw⟩ | ⟨-, hw⟩
    · rw [hw.result] at hr'; cases hr'
    · rw [hw.result] at hr; cases hr

/-- What the relay does at the end of one direction: `x` has ended, `y` is the other half. -/
structure EndsOpen (env : Env) (sock : TcpStream → Sock) (sys : Sys Unit) (x y : Copy) : Prop where
  delivered : sys.net.delivered x.target = (sock x.source).unread
  closed : env.ending x.source = .eof ∧ (sys.net.sock x.source).coming = none
  writable : (sys.net.sock x.target).shut = false
  stuck : Waiting sys.net y → ∀ sys', Step env sys sys' →
    ∃ n', Arrives sys.net n' ∧ sys' = ⟨n', sys.phase⟩

theorem endsOpen_of_copied {env : Env} {sock : TcpStream → Sock} {n : Net} {phase : Phase Unit}
    {x y : Copy} {m : ℕ} (hx : CopyInv env (Net.wire ⟨sock, []⟩) n x) (hm : x.result = some (.ok m))
    (hopen : ∀ s, (n.sock s).shut = false)
    (hstuck : Waiting n y → ∀ sys', Step env ⟨n, phase⟩ sys' →
      ∃ n', Arrives n n' ∧ sys' = ⟨n', phase⟩) : EndsOpen env sock ⟨n, phase⟩ x y := by
  obtain ⟨hall, he, hn, -⟩ := copied_all hx hm
  exact ⟨hall, ⟨he, hn⟩, hopen x.target, hstuck⟩

/-- A direction that has ended has brought over every byte of its source, but its target stays
open until the task is done; meanwhile a silent peer in the other direction blocks the relay. -/
theorem half_closed_stays_open (env : Env) (sock : TcpStream → Sock) (hopen : ∀ s, (sock s).shut = false)
    {sys : Sys Unit} (hreach : Reaches env ⟨⟨sock, []⟩, .awaiting (bicopy .client .remote)⟩ sys) :
    (∀ s, (sys.net.sock s).shut = true → ∃ r, sys.phase = .awaiting (.done r)) ∧
    ∀ c d k, sys.phase = .joining c d k →
      (∀ m, c.result = some (.ok m) → EndsOpen env sock sys c d) ∧
      (∀ m, d.result = some (.ok m) → EndsOpen env sock sys d c) := by
  have hlast := shutLast_of_reaches hreach ⟨Or.inl hopen, bicopy_keepsOpen _ _⟩
  refine ⟨fun s hs => hlast.done hs, ?_⟩
  intro c d k hphase
  have hopen' : ∀ s, (sys.net.sock s).shut = false := by
    rcases hlast.shut with h | ⟨r, h⟩
    · exact h
    · rw [hphase] at h
      cases h
  have hstate := bicopy_states env sock hreach
  obtain ⟨n, phase⟩ := sys
  subst hphase
  cases hstate with
  | during n c d k hr =>
    constructor
    · intro m hm
      have hne : c.result ≠ none := by rw [hm]; simp
      exact endsOpen_of_copied hr.upInv hm hopen' (fun hw sys' h => stuck (Or.inl ⟨hne, hw⟩) h)
    · intro m hm
      have hne : d.result ≠ none := by rw [hm]; simp
      exact endsOpen_of_copied hr.downInv hm hopen' (fun hw sys' h => stuck (Or.inr ⟨hne, hw⟩) h)

section silent

/-- A client that has sent one byte and closed, and a remote that sends nothing. -/
def oneByte : Net := ⟨fun
  | .client => ⟨[], [1], none, none, false⟩
  | .remote => ⟨[], [], some [], none, false⟩, []⟩

/-- The byte has gone through. -/
def oneByteSent : Net := (oneByte.take .client 1).deliver .remote [1]

def upload : CopyArgs := ⟨⟨.client⟩, ⟨.remote⟩⟩

def download : CopyArgs := ⟨⟨.remote⟩, ⟨.client⟩⟩

theorem oneByte_joins : ∃ k, Reaches named ⟨oneByte, .awaiting (bicopy .client .remote)⟩
    ⟨oneByte, .joining (.new upload) (.new download) k⟩ :=
  ⟨_, .head (.polls (.peerAddr _ .client _)) (.head (.polls (.localAddr _ .remote _))
    (.head (.polls (.localAddr _ .client _)) (.head (.polls (.peerAddr _ .remote _))
      (.head (.joins _ _ _ _) .refl))))⟩

/-- The upload reads the byte, writes it, finds the end of stream and ends. -/
theorem oneByte_uploads : ∃ k, Reaches named ⟨oneByte, .awaiting (bicopy .client .remote)⟩
    ⟨oneByteSent, .joining ⟨upload, [], 1, true, some (.ok 1)⟩ (.new download) k⟩ := by
  obtain ⟨k, hjoins⟩ := oneByte_joins
  have hread : Copies named (oneByte, .new upload)
      (oneByte.take .client 1, ⟨upload, [1], 0, false, none⟩) :=
    .read _ _ 1 rfl rfl rfl (by decide) (by decide)
  have hwrite : Copies named (oneByte.take .client 1, ⟨upload, [1], 0, false, none⟩)
      (oneByteSent, ⟨upload, [], 1, false, none⟩) :=
    .write _ _ 1 rfl (by decide) (by decide) rfl
  have hend : Copies named (oneByteSent, ⟨upload, [], 1, false, none⟩)
      (oneByteSent, ⟨upload, [], 1, true, none⟩) :=
    .readEnd _ _ rfl rfl rfl rfl rfl rfl
  have hdone : Copies named (oneByteSent, ⟨upload, [], 1, true, none⟩)
      (oneByteSent, ⟨upload, [], 1, true, some (.ok 1)⟩) :=
    .done _ _ rfl rfl rfl
  exact ⟨k, (((hjoins.tail (.first _ k hread)).tail (.first _ k hwrite)).tail (.first _ k hend)).tail
    (.first _ k hdone)⟩

theorem waiting_download : Waiting oneByteSent (.new download) :=
  ⟨rfl, rfl, rfl, rfl, by decide⟩

/-- The client has closed and its byte is through, but the remote is not told. -/
theorem closed_client_unseen : ∃ sys c d k,
    Reaches named ⟨oneByte, .awaiting (bicopy .client .remote)⟩ sys ∧
    sys.phase = .joining c d k ∧ c.result = some (.ok 1) ∧ (sys.net.sock .client).coming = none ∧
    sys.net.delivered .remote = [1] ∧ (sys.net.sock .remote).shut = false ∧ Waiting sys.net d := by
  obtain ⟨k, hreach⟩ := oneByte_uploads
  exact ⟨_, _, _, k, hreach, rfl, rfl, rfl, rfl, rfl, waiting_download⟩

theorem half_closed_stays_open_silent : ∃ sys,
    Reaches named ⟨oneByte, .awaiting (bicopy .client .remote)⟩ sys ∧
    (sys.net.sock .remote).shut = false ∧
    ∀ sys', Step named sys sys' → ∃ n', Arrives sys.net n' ∧ sys' = ⟨n', sys.phase⟩ := by
  obtain ⟨k, hreach⟩ := oneByte_uploads
  have hopen : ∀ s, (oneByte.sock s).shut = false := by
    intro s
    cases s <;> rfl
  have h := ((half_closed_stays_open named oneByte.sock hopen hreach).2 _ _ k rfl).1 1 rfl
  exact ⟨_, hreach, h.writable, h.stuck waiting_download⟩

end silent

end Rocks
