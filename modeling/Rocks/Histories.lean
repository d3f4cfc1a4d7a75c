import Rocks.ExchangeRuns

/-! What a history of one client shows at any moment: the server has connected only where the
client asked, and relays only behind a complete reply of success. -/
namespace Rocks
open Async Buffer Bytes Segments
open Socks5Connected ClientM

/-- Operations with their answers, in order. -/
abbrev History := List (Σ o : Op, o.Res)

namespace History

/-- What one operation has read from the client. -/
def readBy : (Σ o : Op, o.Res) → List UInt8
  | ⟨.readExact .client _, .ok bs⟩ => bs
  | _ => []

/-- Everything read from the client. -/
def read (log : History) : List UInt8 := log.flatMap readBy

/-- The client has sent a greeting and a request for `dest`, and nothing else has been read. -/
def Requested (log : History) (dest : Destination) (port : UInt16) : Prop :=
  ∃ methods rsv, 0 ∈ methods ∧ methods.length ≤ 255 ∧ log.read = encodeHello methods rsv dest port

/-- `addr` is what `dest` names, or the first address that its name was resolved to. -/
def Names (log : History) (dest : Destination) (port : UInt16) (addr : SocketAddr) : Prop :=
  dest.parsed port = .ip addr ∨ ∃ name a addrs, dest.parsed port = .domain name port ∧
    ⟨.toSocketAddrs name port, .ok (a :: addrs)⟩ ∈ log ∧ addr = .new a.ip port

/-- The reply that announces the relay. -/
def welcome (dest : Destination) (port : UInt16) : List UInt8 :=
  encodeReply 0 dest (dest.parsed port).port

theorem read_concat (log : History) (o : Op) (r : o.Res) :
    read (log ++ [⟨o, r⟩]) = log.read ++ readBy ⟨o, r⟩ := by
  simp [read]

section concat

variable {log : History} {dest : Destination} {port : UInt16} {o : Op} (r : o.Res)

theorem Requested.concat (h : log.Requested dest port) (hr : readBy ⟨o, r⟩ = []) :
    Requested (log ++ [⟨o, r⟩]) dest port := by
  obtain ⟨methods, rsv, h0, hl, hread⟩ := h
  refine ⟨methods, rsv, h0, hl, ?_⟩
  rw [read_concat, hr, List.append_nil, hread]

theorem Names.concat {addr : SocketAddr} (h : log.Names dest port addr) :
    Names (log ++ [⟨o, r⟩]) dest port addr := by
  rcases h with h | ⟨name, a, addrs, hn, hmem, ha⟩
  · exact Or.inl h
  · exact Or.inr ⟨name, a, addrs, hn, List.mem_append_left _ hmem, ha⟩

end concat

/-- How a history explains the exchange that it has led to. -/
def Explains (cfg : OutgoingConfig) (log : History) : Exchange → Prop
  | .greeting seen => log.read = seen
  | .chosen seen => ∃ hello, readGreeting hello = .accepted [] ∧ log.read = hello ++ seen
  | .resolved dest port answer => cfg.type = .direct ∧ log.Requested dest port ∧
      ∃ name, dest.parsed port = .domain name port ∧ ⟨.toSocketAddrs name port, answer⟩ ∈ log
  | .dialled dest port answer => cfg.type = .direct ∧ log.Requested dest port ∧
      ∃ addr, log.Names dest port addr ∧ ⟨.connect addr, answer⟩ ∈ log ∧
        ∀ stream, answer = .ok stream → stream = .remote
  | .ready => cfg.type = .direct ∧ ∃ dest port addr, log.Requested dest port ∧
      log.Names dest port addr ∧ ⟨.connect addr, .ok .remote⟩ ∈ log ∧
        ⟨.writeAll .client (welcome dest port), .ok ()⟩ ∈ log
  | .repeating | .closed => True

/-- What is left of a request once it is complete. -/
theorem Explains.requested {cfg : OutgoingConfig} {log : History} {seen : List UInt8}
    {dest : Destination} {port : UInt16} (h : log.Explains cfg (.chosen seen))
    (hread : readRequest seen = .connect dest port []) : log.Requested dest port := by
  obtain ⟨hello, hg, hl⟩ := h
  obtain ⟨methods, h0, hm, hhello⟩ := readGreeting_eq_accepted hg
  obtain ⟨rsv, hseen⟩ := readRequest_eq_connect hread
  refine ⟨methods, rsv, h0, hm, ?_⟩
  rw [hl, hhello, hseen, List.append_nil, List.append_nil]
  rfl

section step

variable {cfg : OutgoingConfig} {log : History}

theorem explains_greeting {seen : List UInt8} {o : Op} (r : o.Res) (h : log.Explains cfg (.greeting seen))
    (ho : (Exchange.greeting seen).Allows cfg o) :
    Explains cfg (log ++ [⟨o, r⟩]) ((Exchange.greeting seen).next o r) := by
  simp only [Explains] at h
  cases o with
  | readExact s n =>
    cases s with
    | remote => exact ho.elim
    | client =>
      cases r with
      | error e => trivial
      | ok bs =>
        change read _ = _
        rw [read_concat, h]
        rfl
  | writeAll s buf =>
    cases s with
    | remote => exact ho.elim
    | client =>
      cases r with
      | error e => trivial
      | ok u =>
        rcases ho with ⟨hg, -⟩ | ⟨hg, -⟩
        · simp only [Exchange.next, hg]
          refine ⟨seen, hg, ?_⟩
          rw [read_concat, h]
          rfl
        · simp only [Exchange.next, hg]
          trivial
  | toSocketAddrs | connect | peerAddr | localAddr | join | shutdown => exact ho.elim

theorem explains_chosen {seen : List UInt8} {o : Op} (r : o.Res) (h : log.Explains cfg (.chosen seen))
    (ho : (Exchange.chosen seen).Allows cfg o) (hr : Exchange.Answers o r) :
    Explains cfg (log ++ [⟨o, r⟩]) ((Exchange.chosen seen).next o r) := by
  cases o with
  | readExact s n =>
    cases s with
    | remote => exact ho.elim
    | client =>
      obtain ⟨hello, hg, hl⟩ := h
      cases r with
      | error e => trivial
      | ok bs =>
        refine ⟨hello, hg, ?_⟩
        rw [read_concat, hl, List.append_assoc]
        rfl
  | writeAll s buf =>
    cases s with
    | remote => exact ho.elim
    | client =>
      cases r with
      | error e => trivial
      | ok u =>
        rw [Exchange.next]
        split <;> trivial
  | toSocketAddrs name port =>
    obtain ⟨hcfg, dest, port', hread, hdest⟩ := ho
    have hreq := (h.requested hread).concat r (rfl : readBy ⟨.toSocketAddrs name port, r⟩ = [])
    simp only [Exchange.next, hread, Exchange.onward]
    obtain rfl : port = port' := by
      cases dest with
      | v4 | v6 => cases hdest
      | domain name' hl => exact (ReqAddr.domain.inj hdest).2.symm
    exact ⟨hcfg, hreq, name, hdest, by simp⟩
  | connect addr =>
    obtain ⟨hcfg, dest, port', hread, hdest⟩ := ho
    have hreq := (h.requested hread).concat r (rfl : readBy ⟨.connect addr, r⟩ = [])
    simp only [Exchange.next, hread, Exchange.onward]
    refine ⟨hcfg, hreq, addr, Or.inl hdest, by simp, ?_⟩
    intro stream hs
    subst hs
    exact hr
  | peerAddr | localAddr | join | shutdown => exact ho.elim

theorem explains_resolved {dest : Destination} {port : UInt16} {answer : Except IoError (List SocketAddr)}
    {o : Op} (r : o.Res) (h : log.Explains cfg (.resolved dest port answer))
    (ho : (Exchange.resolved dest port answer).Allows cfg o) (hr : Exchange.Answers o r) :
    Explains cfg (log ++ [⟨o, r⟩]) ((Exchange.resolved dest port answer).next o r) := by
  cases o with
  | connect addr =>
    cases answer with
    | error e => exact ho.elim
    | ok addrs =>
      obtain ⟨hcfg, hreq, name, hn, hmem⟩ := h
      obtain ⟨a, ha, rfl⟩ := ho
      obtain ⟨addrs, rfl⟩ := List.head?_eq_some_iff.mp ha
      refine ⟨hcfg, hreq.concat r rfl, _, Or.inr ⟨name, a, addrs, hn, ?_, rfl⟩, by simp, ?_⟩
      · exact List.mem_append_left _ hmem
      · intro stream hs
        subst hs
        exact hr
  | writeAll => trivial
  | readExact | toSocketAddrs | peerAddr | localAddr | join | shutdown => cases answer <;> exact ho.elim

theorem explains_dialled {dest : Destination} {port : UInt16} {answer : Except IoError TcpStream}
    {o : Op} (r : o.Res) (h : log.Explains cfg (.dialled dest port answer))
    (ho : (Exchange.dialled dest port answer).Allows cfg o) :
    Explains cfg (log ++ [⟨o, r⟩]) ((Exchange.dialled dest port answer).next o r) := by
  cases o with
  | writeAll s buf =>
    cases s with
    | remote => cases answer <;> exact ho.elim
    | client =>
      cases answer with
      | error e => trivial
      | ok stream =>
        cases r with
        | error e => trivial
        | ok u =>
          obtain ⟨hcfg, hreq, addr, hn, hmem, hs⟩ := h
          obtain rfl := hs stream rfl
          have hbuf : buf = welcome dest port := ho
          subst hbuf
          refine ⟨hcfg, dest, port, addr, hreq.concat _ rfl, hn.concat _, ?_, by simp⟩
          exact List.mem_append_left _ hmem
  | readExact | toSocketAddrs | connect | peerAddr | localAddr | join | shutdown => cases answer <;> exact ho.elim

theorem explains_ready {o : Op} (r : o.Res) (h : log.Explains cfg .ready)
    (ho : Exchange.ready.Allows cfg o) :
    Explains cfg (log ++ [⟨o, r⟩]) (Exchange.ready.next o r) := by
  have hready : readBy ⟨o, r⟩ = [] → Explains cfg (log ++ [⟨o, r⟩]) .ready := by
    intro hr
    obtain ⟨hcfg, dest, port, addr, hreq, hn, hdial, hmem⟩ := h
    exact ⟨hcfg, dest, port, addr, hreq.concat r hr, hn.concat r, List.mem_append_left _ hdial,
      List.mem_append_left _ hmem⟩
  cases o with
  | peerAddr | localAddr =>
    cases r with
    | error e => trivial
    | ok addr => exact hready rfl
  | join => trivial
  | readExact | writeAll | toSocketAddrs | connect | shutdown => exact ho.elim

/-- Every allowed operation leaves the exchange explained. -/
theorem explains_step (q : Exchange) (o : Op) (r : o.Res) (h : log.Explains cfg q)
    (ho : q.Allows cfg o) (hr : Exchange.Answers o r) :
    Explains cfg (log ++ [⟨o, r⟩]) (q.next o r) := by
  cases q with
  | greeting => exact explains_greeting r h ho
  | chosen => exact explains_chosen r h ho hr
  | resolved => exact explains_resolved r h ho hr
  | dialled => exact explains_dialled r h ho
  | ready => exact explains_ready r h ho
  | repeating =>
    cases o with
    | writeAll => trivial
    | readExact | toSocketAddrs | connect | peerAddr | localAddr | join | shutdown => exact ho.elim
  | closed => cases o <;> exact ho.elim

end step

end History

/-- How many lookups, connections, relays and writes a server has left, and how many bytes it may
still read from its client and write to it. -/
structure Left where
  (lookups connects relays writes read written : ℕ)

/-- The rest of a greeting that has begun with `seen`, and the longest request. -/
def greetingRoom : List UInt8 → ℕ
  | [] => 519
  | [_, n] => n.toNat+262
  | _ => 262

/-- The rest of a request that has begun with `seen`. -/
def requestRoom : List UInt8 → ℕ
  | [] => 262
  | [_, _, _, _, _] => 257
  | _ => 0

def Exchange.left : Exchange → Left
  | greeting seen => ⟨1, 1, 1, 3, greetingRoom seen, 264⟩
  | chosen seen => ⟨1, 1, 1, 2, requestRoom seen, 262⟩
  | resolved .. => ⟨0, 1, 1, 1, 0, 262⟩
  | dialled .. => ⟨0, 0, 1, 1, 0, 262⟩
  | ready => ⟨0, 0, 1, 0, 0, 0⟩
  | repeating => ⟨0, 0, 0, 1, 0, 10⟩
  | closed => ⟨0, 0, 0, 0, 0, 0⟩

/-- What an operation takes from it. -/
def Op.cost : Op → Left
  | readExact _ n => ⟨0, 0, 0, 0, n, 0⟩
  | toSocketAddrs .. => ⟨1, 0, 0, 0, 0, 0⟩
  | connect _ => ⟨0, 1, 0, 0, 0, 0⟩
  | join .. => ⟨0, 0, 1, 0, 0, 0⟩
  | writeAll _ buf => ⟨0, 0, 0, 1, 0, buf.length⟩
  | _ => ⟨0, 0, 0, 0, 0, 0⟩

structure Left.Covers (before cost after : Left) : Prop where
  lookups : after.lookups+cost.lookups ≤ before.lookups
  connects : after.connects+cost.connects ≤ before.connects
  relays : after.relays+cost.relays ≤ before.relays
  writes : after.writes+cost.writes ≤ before.writes
  read : after.read+cost.read ≤ before.read
  written : after.written+cost.written ≤ before.written

theorem encodeReply_length_le (rep : UInt8) (dest : Destination) (port : UInt16) :
    (encodeReply rep dest port).length ≤ 262 := by
  have hl : dest.encode.length ≤ 257 := by
    rcases dest.encode_length_cases with h | h
    · exact Nat.le_succ_of_le h.2
    · exact Nat.le_of_eq h.2
  simp only [encodeReply, be16, List.length_append, List.length_cons, List.length_nil]
  omega

theorem le_greetingRoom (seen : List UInt8) : 262 ≤ greetingRoom seen := by
  unfold greetingRoom
  split <;> omega

theorem greetingRoom_append {seen bs : List UInt8} {n : ℕ} (h : greetingWants seen = some n)
    (hl : bs.length = n) : greetingRoom (seen ++ bs)+n ≤ greetingRoom seen := by
  subst hl
  unfold greetingWants at h
  split at h
  · match bs, h with
    | [v, n], _ =>
      have hn := n.toNat_lt
      change n.toNat+262+2 ≤ 519
      omega
  · next v n =>
    split_ifs at h
    have hn : n.toNat = bs.length := Option.some.inj h
    match bs with
    | [] => exact Nat.le_refl _
    | b :: bs =>
      change 262+(bs.length+1) ≤ n.toNat+262
      rw [List.length_cons] at hn
      omega
  · cases h

theorem requestRoom_append {seen bs : List UInt8} {n : ℕ} (h : requestWants seen = some n)
    (hl : bs.length = n) : requestRoom (seen ++ bs)+n ≤ requestRoom seen := by
  subst hl
  unfold requestWants at h
  split at h
  · match bs, h with
    | [_, _, _, _, _], _ => exact Nat.le_refl _
  · next v cmd rsv atyp b0 =>
    have hb := b0.toNat_lt
    have hn : 2 ≤ bs.length ∧ bs.length ≤ 257 := by
      split_ifs at h
      split at h <;> simp only [Option.some.injEq, reduceCtorEq] at h <;> omega
    match bs, hn with
    | b :: bs, hn =>
      change 0+(bs.length+1) ≤ 257
      rw [List.length_cons] at hn
      omega
  · cases h

theorem refusal_length {cfg : OutgoingConfig} {buf : List UInt8} {request : Request}
    (h : Exchange.Refusal cfg buf request) :
    buf.length ≤ 262 ∧ ∀ rest, request = .unknownAddrType rest → buf.length = 10 := by
  have hblame : ∀ rep, (Exchange.blame rep).length = 10 := fun _ => rfl
  unfold Exchange.Refusal at h
  split at h
  · rw [h, hblame]
    simp
  · rw [h, hblame]
    simp
  · rw [h, hblame]
    simp
  · rw [h.2]
    exact ⟨encodeReply_length_le _ _ _, by simp⟩
  · exact h.elim

theorem next_left (cfg : OutgoingConfig) (q : Exchange) (o : Op) (r : o.Res) (ho : q.Allows cfg o)
    (hr : Exchange.Answers o r) : q.left.Covers o.cost (q.next o r).left := by
  -- a read that fails has taken no more than it was to take
  have hzeros : ∀ n, (List.replicate n (0 : UInt8)).length = n := fun n => List.length_replicate
  cases q with
  | greeting seen =>
    have hroom := le_greetingRoom seen
    cases o with
    | readExact s n =>
      cases s with
      | remote => exact ho.elim
      | client =>
        cases r with
        | error e =>
          have hn := greetingRoom_append ho (hzeros n)
          constructor <;> simp only [Exchange.next, Exchange.left, Op.cost] <;> omega
        | ok bs =>
          have hn := greetingRoom_append ho hr
          constructor <;> simp only [Exchange.next, Exchange.left, Op.cost] <;> omega
    | writeAll s buf =>
      cases s with
      | remote => exact ho.elim
      | client =>
        have hbuf : buf.length = 2 := by rcases ho with ⟨-, rfl⟩ | ⟨-, rfl⟩ <;> rfl
        cases r with
        | error e => constructor <;> simp only [Exchange.next, Exchange.left, Op.cost] <;> omega
        | ok u =>
          have hr : requestRoom [] = 262 := rfl
          cases hg : readGreeting seen <;> constructor <;>
            simp only [Exchange.next, Exchange.left, Op.cost, hg] <;> omega
    | toSocketAddrs | connect | peerAddr | localAddr | join | shutdown => exact ho.elim
  | chosen seen =>
    cases o with
    | readExact s n =>
      cases s with
      | remote => exact ho.elim
      | client =>
        cases r with
        | error e =>
          have hn := requestRoom_append ho (hzeros n)
          constructor <;> simp only [Exchange.next, Exchange.left, Op.cost] <;> omega
        | ok bs =>
          have hn := requestRoom_append ho hr
          constructor <;> simp only [Exchange.next, Exchange.left, Op.cost] <;> omega
    | writeAll s buf =>
      cases s with
      | remote => exact ho.elim
      | client =>
        have ho : Exchange.Refusal cfg buf (readRequest seen) := ho
        obtain ⟨hbuf, hten⟩ := refusal_length ho
        cases r with
        | error e => constructor <;> simp only [Exchange.next, Exchange.left, Op.cost] <;> omega
        | ok u =>
          cases hg : readRequest seen with
          | unknownAddrType rest =>
            have hten := hten rest hg
            constructor <;> simp only [Exchange.next, Exchange.left, Op.cost, hg] <;> omega
          | truncated | notSocks5 | otherCommand | invalidName | connect =>
            constructor <;> simp only [Exchange.next, Exchange.left, Op.cost, hg] <;> omega
    | toSocketAddrs | connect =>
      cases hg : readRequest seen <;> constructor <;>
        simp only [Exchange.next, Exchange.left, Exchange.onward, Op.cost, hg] <;> omega
    | peerAddr | localAddr | join | shutdown => exact ho.elim
  | resolved dest port answer =>
    cases o with
    | connect addr => constructor <;> simp only [Exchange.next, Exchange.left, Op.cost] <;> omega
    | writeAll s buf =>
      have hbuf : buf.length ≤ 262 := by
        cases s with
        | remote => cases answer <;> exact ho.elim
        | client =>
          have ho : (∀ addrs, answer = .ok addrs → addrs = []) ∧ buf = encodeReply 4 dest port := by
            cases answer <;> exact ho
          rw [ho.2]
          exact encodeReply_length_le _ _ _
      constructor <;> simp only [Exchange.next, Exchange.left, Op.cost] <;> omega
    | readExact | toSocketAddrs | peerAddr | localAddr | join | shutdown => cases answer <;> exact ho.elim
  | dialled dest port answer =>
    cases o with
    | writeAll s buf =>
      have hbuf : buf.length ≤ 262 := by
        cases s with
        | remote => cases answer <;> exact ho.elim
        | client =>
          cases answer with
          | error e =>
            have ho : buf = encodeReply _ dest (dest.parsed port).port := ho
            rw [ho]
            exact encodeReply_length_le _ _ _
          | ok stream =>
            have ho : buf = encodeReply 0 dest (dest.parsed port).port := ho
            rw [ho]
            exact encodeReply_length_le _ _ _
      cases answer <;> cases r <;> constructor <;>
        simp only [Exchange.next, Exchange.left, Op.cost] <;> omega
    | readExact | toSocketAddrs | connect | peerAddr | localAddr | join | shutdown =>
      cases answer <;> exact ho.elim
  | ready =>
    cases o with
    | peerAddr | localAddr =>
      cases r <;> constructor <;> simp only [Exchange.next, Exchange.left, Op.cost] <;> omega
    | join => constructor <;> simp only [Exchange.next, Exchange.left, Op.cost] <;> omega
    | readExact | writeAll | toSocketAddrs | connect | shutdown => exact ho.elim
  | repeating =>
    cases o with
    | writeAll s buf =>
      cases s with
      | remote => exact ho.elim
      | client =>
        have hbuf : buf.length = 10 := by
          have ho : buf = Exchange.blame 8 := ho
          rw [ho]
          rfl
        constructor <;> simp only [Exchange.next, Exchange.left, Op.cost] <;> omega
    | readExact | toSocketAddrs | connect | peerAddr | localAddr | join | shutdown => exact ho.elim
  | closed => cases o <;> exact ho.elim

/-- A client that asks for port 80 of `10.0.0.1`, up to the end of its request. -/
def asking : History :=
  [⟨.readExact .client 2, .ok [5, 1]⟩, ⟨.readExact .client 1, .ok [0]⟩,
    ⟨.writeAll .client [5, 0], .ok ()⟩, ⟨.readExact .client 5, .ok [5, 1, 0, 1, 10]⟩,
    ⟨.readExact .client 5, .ok [0, 0, 1, 0, 80]⟩]

/-- The same client, up to the relay. The port comes back as 256. -/
def connecting : History :=
  asking ++ [⟨.connect (.v4 ⟨10, 0, 0, 1⟩ 256), .ok .remote⟩,
    ⟨.writeAll .client [5, 0, 0, 1, 10, 0, 0, 1, 1, 0], .ok ()⟩,
    ⟨.peerAddr .client, .ok (.v4 ⟨127, 0, 0, 1⟩ 40000)⟩, ⟨.localAddr .remote, .ok (.v4 ⟨10, 0, 0, 2⟩ 40001)⟩,
    ⟨.localAddr .client, .ok (.v4 ⟨127, 0, 0, 1⟩ 1080)⟩, ⟨.peerAddr .remote, .ok (.v4 ⟨10, 0, 0, 1⟩ 256)⟩]

def relaying : Σ o : Op, o.Res :=
  ⟨.join ⟨⟨.client⟩, ⟨.remote⟩⟩ ⟨⟨.remote⟩, ⟨.client⟩⟩, (.ok 0, .ok 0)⟩

/-- `log` is a history of a client on the direct outgoing side. -/
theorem leads_of_isSome (log : History)
    (h : ((handleClient false held ⟨.direct⟩).follow log).isSome) :
    ∃ u, (handleClient false held ⟨.direct⟩).Leads log u := by
  obtain ⟨u, hu⟩ := Option.isSome_iff_exists.mp h
  exact ⟨u, Task.leads_of_follow hu⟩

section histories

variable {cfg : OutgoingConfig} {debugLog : Bool} {log : History} {u : Io Unit}

/-- In every history in which the outside is honest, the server keeps to the exchange, and so
does what is left of it. -/
theorem client_keeps_exchange (hlog : (handleClient debugLog held cfg).Leads log u)
    (hh : (exchange cfg).Honest (.greeting []) log) :
    (exchange cfg).Kept (.greeting []) log ∧
      u.Obeys (exchange cfg) (ClientEnd debugLog) ((exchange cfg).after (.greeting []) log) :=
  Contract.kept_of_obeys (handleClient_obeys debugLog) hlog hh

/-- A network that cuts its streams in any way is honest. -/
theorem cutWire_answers (env : Env) (o : Op) (w : CutWire) : Exchange.Answers o (cutWire env o w).1 := by
  cases o with
  | readExact s n =>
    have hpull := congrArg Prod.fst (takeExact_joined n (w.input s))
    simp only [handler]
    cases hp : (pullExact n (w.input s)).1 with
    | none => trivial
    | some bs =>
      rw [hp, takeExact] at hpull
      split_ifs at hpull with hn
      have hbs : (joined (w.input s)).take n = bs := Option.some.inj hpull
      change bs.length = n
      rw [← hbs, List.length_take_of_le hn]
  | connect addr =>
    simp only [handler]
    cases env.connect addr with
    | error e => trivial
    | ok u => exact rfl
  | writeAll | toSocketAddrs | peerAddr | localAddr | join | shutdown => trivial

/-- The operations that a client's run awaits, with the answers that it gets, keep to the exchange
one by one, and nothing is owed to the client at their end unless its request makes the server
panic. -/
theorem client_run_is_exchange (env : Env) (w : CutWire) :
    (exchange cfg).Kept (.greeting []) ((handleClient debugLog held cfg).history (cutWire env) w) ∧
      ClientEnd debugLog (Task.run (cutWire env) (handleClient debugLog held cfg) w).1
        ((exchange cfg).after (.greeting [])
          ((handleClient debugLog held cfg).history (cutWire env) w)) := by
  have hh : ∀ (q : Exchange) (o : Op) (w : CutWire), (exchange cfg).answers q o (cutWire env o w).1 :=
    fun _ o w => cutWire_answers env o w
  exact Contract.run_keeps (handleClient_obeys debugLog) hh w

/-- What the server is about to await is allowed, and the history explains why. -/
theorem client_explained {o : Op} {r : o.Res}
    (hlog : (handleClient debugLog held cfg).Leads (log ++ [⟨o, r⟩]) u)
    (hh : (exchange cfg).Honest (.greeting []) (log ++ [⟨o, r⟩])) :
    ∃ q : Exchange, q.Allows cfg o ∧ log.Explains cfg q := by
  have hkept := (client_keeps_exchange hlog hh).1
  rw [Contract.kept_append] at hkept
  rw [Contract.honest_append] at hh
  refine ⟨_, hkept.2.1, ?_⟩
  refine Contract.after_keeps (I := History.Explains cfg) ?_ (by rfl) hkept.1 hh.1
  intro log q o r h ho hr
  exact History.explains_step q o r h ho hr

/-- The server connects only to what it parses from a request that it has got in full. -/
theorem connects_where_asked {addr : SocketAddr} {r : Except IoError TcpStream}
    (hlog : (handleClient debugLog held cfg).Leads (log ++ [⟨.connect addr, r⟩]) u)
    (hh : (exchange cfg).Honest (.greeting []) (log ++ [⟨.connect addr, r⟩])) :
    cfg.type = .direct ∧ ∃ dest port, log.Requested dest port ∧ log.Names dest port addr := by
  obtain ⟨q, ho, h⟩ := client_explained hlog hh
  cases q with
  | chosen seen =>
    obtain ⟨hcfg, dest, port, hread, hdest⟩ := ho
    exact ⟨hcfg, dest, port, h.requested hread, Or.inl hdest⟩
  | resolved dest port answer =>
    cases answer with
    | error e => exact ho.elim
    | ok addrs =>
      obtain ⟨hcfg, hreq, name, hn, hmem⟩ := h
      obtain ⟨a, ha, rfl⟩ := ho
      obtain ⟨addrs, rfl⟩ := List.head?_eq_some_iff.mp ha
      exact ⟨hcfg, dest, port, hreq, Or.inr ⟨name, a, addrs, hn, hmem, rfl⟩⟩
  | dialled dest port answer => cases answer <;> exact ho.elim
  | greeting | ready | repeating | closed => exact ho.elim

theorem connects_where_asked_v4 : OutgoingConfig.type ⟨.direct⟩ = .direct ∧
    ∃ dest port, asking.Requested dest port ∧ asking.Names dest port (.v4 ⟨10, 0, 0, 1⟩ 256) := by
  obtain ⟨u, hlog⟩ := leads_of_isSome (asking ++ [⟨.connect (.v4 ⟨10, 0, 0, 1⟩ 256), .ok .remote⟩])
    (by decide +kernel)
  exact connects_where_asked hlog (by simp [asking, Contract.Honest, Exchange.Answers])

/-- The server relays only between a client that has been told of success and the connection
that the client asked for. -/
theorem relays_what_was_asked {a b : CopyArgs} {r : Except IoError ℕ × Except IoError ℕ}
    (hlog : (handleClient debugLog held cfg).Leads (log ++ [⟨.join a b, r⟩]) u)
    (hh : (exchange cfg).Honest (.greeting []) (log ++ [⟨.join a b, r⟩])) :
    Event.relayed a b = relayBetween .client .remote ∧ ∃ dest port addr, log.Requested dest port ∧
      log.Names dest port addr ∧ ⟨.connect addr, .ok .remote⟩ ∈ log ∧
        ⟨.writeAll .client (History.welcome dest port), .ok ()⟩ ∈ log := by
  obtain ⟨q, ho, h⟩ := client_explained hlog hh
  cases q with
  | ready =>
    obtain ⟨-, dest, port, addr, hreq, hn, hdial, hmem⟩ := h
    exact ⟨ho, dest, port, addr, hreq, hn, hdial, hmem⟩
  | resolved dest port answer | dialled dest port answer => cases answer <;> exact ho.elim
  | greeting | chosen | repeating | closed => exact ho.elim

theorem relays_what_was_asked_v4 : ∃ dest port addr, connecting.Requested dest port ∧
    connecting.Names dest port addr ∧ ⟨.connect addr, .ok .remote⟩ ∈ connecting := by
  obtain ⟨u, hlog⟩ := leads_of_isSome (connecting ++ [relaying]) (by decide +kernel)
  obtain ⟨-, dest, port, addr, hreq, hn, hdial, -⟩ := relays_what_was_asked hlog (by
    simp [connecting, asking, Contract.Honest, Exchange.Answers])
  exact ⟨dest, port, addr, hreq, hn, hdial⟩

/-- At most one lookup, one connection, one relay and three writes, and before the relay at most
519 bytes read from the client and 264 written to it. -/
theorem client_asks_once (hlog : (handleClient debugLog held cfg).Leads log u)
    (hh : (exchange cfg).Honest (.greeting []) log) :
    (log.map (fun e => e.1.cost.lookups)).sum ≤ 1 ∧ (log.map (fun e => e.1.cost.connects)).sum ≤ 1 ∧
      (log.map (fun e => e.1.cost.relays)).sum ≤ 1 ∧ (log.map (fun e => e.1.cost.writes)).sum ≤ 3 ∧
        (log.map (fun e => e.1.cost.read)).sum ≤ 519 ∧
          (log.map (fun e => e.1.cost.written)).sum ≤ 264 := by
  have hk := (client_keeps_exchange hlog hh).1
  have hpay : ∀ f : Left → ℕ, (∀ q o a : Left, q.Covers o a → f a+f o ≤ f q) →
      (log.map (fun e => f e.1.cost)).sum ≤ f (Exchange.greeting []).left := by
    intro f hf
    refine Contract.cost_le (fun o => f o.cost) (fun q : Exchange => f q.left) ?_ hk hh
    intro q o r ho hr
    exact hf _ _ _ (next_left cfg q o r ho hr)
  refine ⟨?_, ?_, ?_, ?_, ?_, ?_⟩
  · exact hpay Left.lookups fun _ _ _ h => h.lookups
  · exact hpay Left.connects fun _ _ _ h => h.connects
  · exact hpay Left.relays fun _ _ _ h => h.relays
  · exact hpay Left.writes fun _ _ _ h => h.writes
  · exact hpay Left.read fun _ _ _ h => h.read
  · exact hpay Left.written fun _ _ _ h => h.written

theorem client_asks_once_v4 : (connecting.map (fun e => e.1.cost.connects)).sum ≤ 1 := by
  obtain ⟨u, hlog⟩ := leads_of_isSome connecting (by decide +kernel)
  exact (client_asks_once hlog (by simp [connecting, asking, Contract.Honest, Exchange.Answers])).2.1

end histories

end Rocks
