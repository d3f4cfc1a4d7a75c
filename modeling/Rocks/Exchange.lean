import Rocks.Contracts
import Rocks.FinalReply

/-! One client as an exchange: what the server may do next, by what it has read, sent and been told
so far. `handle_client` keeps to it against every network, resolver and client. -/
namespace Rocks
open Async Buffer Bytes
open Socks5Connected ClientM

/-- How far an exchange is. Until a request is complete it is known by the bytes read for it. -/
inductive Exchange
  | greeting (seen : List UInt8)
  | chosen (seen : List UInt8)
  | resolved (dest : Destination) (port : UInt16) (answer : Except IoError (List SocketAddr))
  | dialled (dest : Destination) (port : UInt16) (answer : Except IoError TcpStream)
  | repeating
  | ready
  | closed

/-- How many bytes of the greeting come next. -/
def greetingWants : List UInt8 → Option ℕ
  | [] => some 2
  | [version, n] => if version = 5 then some n.toNat else none
  | _ => none

/-- How many bytes of the request come next. -/
def requestWants : List UInt8 → Option ℕ
  | [] => some 5
  | [version, cmd, _, atyp, b0] =>
    if version = 5 ∧ cmd = 1 then
      match atyp with
      | 1 => some 5
      | 3 => some (b0.toNat+2)
      | 4 => some 17
      | _ => none
    else none
  | _ => none

namespace Exchange

/-- The reply to a request that names no destination. -/
def blame (rep : UInt8) : List UInt8 := encodeReply rep (.v4 ⟨127, 0, 0, 1⟩) 0

/-- The reply to a request that is refused as it stands. -/
def Refusal (cfg : OutgoingConfig) (reply : List UInt8) : Request → Prop
  | .otherCommand [] => reply = blame 7
  | .unknownAddrType [] | .invalidName [] => reply = blame 8
  | .connect dest port [] => cfg.type ≠ .direct ∧ reply = encodeReply 1 dest (dest.parsed port).port
  | _ => False

/-- The request is complete and asks for `req`, and the outgoing side serves it. -/
def Serving (cfg : OutgoingConfig) (seen : List UInt8) (req : ReqAddr) : Prop :=
  cfg.type = .direct ∧ ∃ dest port, readRequest seen = .connect dest port [] ∧ dest.parsed port = req

/-- What the server may do next. -/
def Allows (cfg : OutgoingConfig) : Exchange → Op → Prop
  | greeting seen, .readExact .client n => greetingWants seen = some n
  | greeting seen, .writeAll .client buf =>
    readGreeting seen = .accepted [] ∧ buf = [5, 0] ∨ readGreeting seen = .noMethod [] ∧ buf = [5, 0xff]
  | chosen seen, .readExact .client n => requestWants seen = some n
  | chosen seen, .writeAll .client buf => Refusal cfg buf (readRequest seen)
  | chosen seen, .toSocketAddrs name port => Serving cfg seen (.domain name port)
  | chosen seen, .connect addr => Serving cfg seen (.ip addr)
  | resolved _ port (.ok addrs), .connect addr => ∃ a, addrs.head? = some a ∧ addr = .new a.ip port
  | resolved dest port answer, .writeAll .client buf =>
    (∀ addrs, answer = .ok addrs → addrs = []) ∧ buf = encodeReply 4 dest port
  | dialled dest port (.ok _), .writeAll .client buf =>
    buf = encodeReply 0 dest (dest.parsed port).port
  | dialled dest port (.error e), .writeAll .client buf =>
    buf = encodeReply (getReason (connectError e)).code dest (dest.parsed port).port
  | repeating, .writeAll .client buf => buf = blame 8
  | ready, .peerAddr _ | ready, .localAddr _ => True
  | ready, .join a b => Event.relayed a b = relayBetween .client .remote
  | _, _ => False

/-- `read_exact` fills what it was given, and a connection is the remote stream. -/
def Answers : (o : Op) → o.Res → Prop
  | .readExact _ n, .ok bs => bs.length = n
  | .connect _, .ok stream => stream = .remote
  | _, _ => True

/-- Where a request leads that the outgoing side has been asked for. -/
def onward (f : Destination → UInt16 → Exchange) : Request → Exchange
  | .connect dest port _ => f dest port
  | _ => closed

def next : Exchange → (o : Op) → o.Res → Exchange
  | greeting seen, .readExact _ _, .ok bs => greeting (seen ++ bs)
  | greeting seen, .writeAll _ _, .ok _ => match readGreeting seen with
    | .accepted _ => chosen []
    | _ => closed
  | chosen seen, .readExact _ _, .ok bs => chosen (seen ++ bs)
  | chosen seen, .writeAll _ _, .ok _ => match readRequest seen with
    | .unknownAddrType _ => repeating
    | _ => closed
  | chosen seen, .toSocketAddrs _ _, answer =>
    onward (fun dest port => resolved dest port answer) (readRequest seen)
  | chosen seen, .connect _, answer =>
    onward (fun dest port => dialled dest port answer) (readRequest seen)
  | resolved dest port _, .connect _, answer => dialled dest port answer
  | dialled _ _ (.ok _), .writeAll _ _, .ok _ => ready
  | ready, .peerAddr _, .ok _ | ready, .localAddr _, .ok _ => ready
  | _, _, _ => closed

/-- Nothing is owed to the client any more. -/
def Final : Exchange → Prop
  | greeting seen => ∃ version, readGreeting seen = .notSocks5 version []
  | chosen seen => ∃ version, readRequest seen = .notSocks5 version []
  | closed => True
  | _ => False

/-- The requests on which the server panics. -/
def Panics (debugLog : Bool) : Exchange → Prop
  | chosen seen => OversizedName seen ∨ debugLog = true ∧ readRequest seen = .invalidName []
  | _ => False

end Exchange

def exchange (cfg : OutgoingConfig) : Contract Op Op.Res Exchange where
  allows := Exchange.Allows cfg
  answers := fun _ => Exchange.Answers
  next := Exchange.next

section rules

variable {cfg : OutgoingConfig} {q : Exchange}

@[simp] theorem exchange_allows (o : Op) : (exchange cfg).allows q o ↔ q.Allows cfg o := Iff.rfl

@[simp] theorem exchange_answers (o : Op) (r : o.Res) : (exchange cfg).answers q o r ↔ Exchange.Answers o r :=
  Iff.rfl

@[simp] theorem exchange_next (o : Op) (r : o.Res) : (exchange cfg).next q o r = q.next o r := rfl

@[simp] theorem obeys_sync {α : Type} {post : Outcome Error (α × Socks5Connected) → Exchange → Prop}
    (r : Outcome Error α) (self : Socks5Connected) :
    Task.Obeys (exchange cfg) post ((sync r).run self) q ↔
      Task.handsOver (exchange cfg) (fun a => pure (a, self)) post r q := by
  have hs : (sync r).run self = (Task.done r : Io α) >>= fun a => pure (a, self) := rfl
  rw [hs, Task.obeys_bind, Task.obeys_done]

@[simp] theorem obeys_fail {α : Type} {post : Outcome Error (α × Socks5Connected) → Exchange → Prop}
    (e : Error) (self : Socks5Connected) :
    Task.Obeys (exchange cfg) post ((throw e : ClientM α).run self) q ↔ post (.err e) q := by
  have hs : (throw e : ClientM α).run self = Task.done (.err e) := rfl
  rw [hs, Task.obeys_done]

theorem obeys_readExact {post : Outcome Error (List UInt8 × Socks5Connected) → Exchange → Prop}
    (buf : List UInt8) (a b n : ℕ) (hb : b ≤ buf.length) (ha : a+n = b)
    (hallow : q.Allows cfg (.readExact .client n))
    (herr : ∀ e, post (.err (.io e)) (q.next (.readExact .client n) (.error e)))
    (hok : ∀ bs, bs.length = n →
      post (.ok (splice buf a bs, held)) (q.next (.readExact .client n) (.ok bs))) :
    Task.Obeys (exchange cfg) post ((readExact buf a b).run held) q := by
  have hs : slice buf a b = (.ok ((buf.take b).drop a) : Outcome Error (List UInt8)) :=
    slice_eq_ok (by omega) hb
  have hl : ((buf.take b).drop a).length = n := by
    rw [List.length_drop, List.length_take]
    omega
  have hrun : (readExact buf a b).run held = (Task.await (Op.readExact .client
      ((buf.take b).drop a).length) (fun r => (sync (ofIo r)).run held >>= fun p =>
        pure (splice buf a p.1, p.2)) : Io (List UInt8 × Socks5Connected)) := by
    rw [readExact, hs]
    rfl
  rw [hrun, hl, Task.obeys_await]
  refine ⟨hallow, ?_⟩
  intro r hr
  rw [Task.obeys_bind, obeys_sync]
  cases r with
  | error e => exact herr e
  | ok bs =>
    rw [ofIo_ok, Task.handsOver_ok, Task.obeys_pure, Task.handsOver_ok, Task.obeys_pure]
    exact hok bs hr

theorem obeys_writeAll {post : Outcome Error (Unit × Socks5Connected) → Exchange → Prop}
    {buf : List UInt8} (hallow : q.Allows cfg (.writeAll .client buf))
    (herr : ∀ e, post (.err (.io e)) (q.next (.writeAll .client buf) (.error e)))
    (hok : post (.ok ((), held)) (q.next (.writeAll .client buf) (.ok ()))) :
    Task.Obeys (exchange cfg) post ((writeAll buf).run held) q := by
  have hrun : (writeAll buf).run held = Task.await (.writeAll .client buf) (fun r =>
      (Task.done (ofIo r) : Io Unit) >>= fun a => pure (a, held)) := rfl
  rw [hrun, Task.obeys_await]
  refine ⟨hallow, ?_⟩
  intro r _
  rw [Task.obeys_bind, Task.obeys_done]
  cases r with
  | error e => exact herr e
  | ok u =>
    rw [ofIo_ok, Task.handsOver_ok, Task.obeys_pure]
    exact hok

theorem obeys_sendFinalResponse {post : Outcome Error (Unit × Socks5Connected) → Exchange → Prop}
    {err : Socks5Error} {addr : ReqAddr} {dest : Destination} (hd : addr.destination? = some dest)
    (hf : dest.FitsReply) (hallow : q.Allows cfg (.writeAll .client (encodeReply err.code dest addr.port)))
    (herr : ∀ e, post (.err (.io e))
      (q.next (.writeAll .client (encodeReply err.code dest addr.port)) (.error e)))
    (hok : post (.ok ((), held)) (q.next (.writeAll .client (encodeReply err.code dest addr.port)) (.ok ()))) :
    Task.Obeys (exchange cfg) post ((sendFinalResponse err addr).run held) q := by
  have hl : dest.encode.length ≤ 256 := by
    rcases dest.encode_length_cases with h | h
    · exact h.2
    · exact absurd hf h.1
  rw [sendFinalResponse, StateT.run_bind, Task.obeys_bind, obeys_sync,
    finalResponse_eq_encode err addr dest hd hl, Task.handsOver_ok, Task.obeys_pure, Task.handsOver_ok]
  exact obeys_writeAll hallow herr hok

end rules

section greeting

variable {cfg : OutgoingConfig}

/-- How the greeting ends. -/
def GreetingEnd : Outcome Error (Unit × Socks5Connected) → Exchange → Prop
  | .ok (_, self), q => self = held ∧ q = .chosen []
  | .err _, q => q.Final
  | .panic, _ => False

theorem authenticateClient_obeys :
    Task.Obeys (exchange cfg) GreetingEnd (authenticateClient.run held) (.greeting []) := by
  rw [authenticateClient, StateT.run_bind, Task.obeys_bind]
  apply obeys_readExact (zeroed 256) 0 2 2 (by simp) (by rfl) (by rfl)
  · intro e
    trivial
  intro bs hbs
  obtain ⟨v, n, rfl⟩ := List.length_eq_two.mp hbs
  have h0 : index (filled 256 0 [v, n]) 0 = (.ok v : Outcome Error UInt8) := index_filled 0 (by simp)
  have h1 : index (filled 256 0 [v, n]) 1 = (.ok n : Outcome Error UInt8) := index_filled 1 (by simp)
  have hbuf : (filled 256 0 [v, n]).length = 256 := filled_length (by simp)
  have hn : n.toNat < 256 := n.toNat_lt
  simp only [splice_zeroed, Task.handsOver_ok, StateT.run_bind, Task.obeys_bind, obeys_sync, h0,
    Task.obeys_pure]
  by_cases hv : v = 5
  swap
  · -- another protocol
    rw [if_pos (by simpa [socks5Protocol] using hv), StateT.run_bind, Task.obeys_bind, obeys_fail]
    refine ⟨v, ?_⟩
    simp [readGreeting, hv]
  subst hv
  simp only [socks5Protocol, ne_eq, not_true_eq_false, ↓reduceIte, StateT.run_bind, Task.obeys_bind,
    Task.obeys_pure, obeys_sync, h1, Task.handsOver_ok]
  apply obeys_readExact (filled 256 0 [5, n]) 0 n.toNat n.toNat (by omega) (by omega) (by rfl)
  · intro e
    trivial
  intro methods hmethods
  have hslice : slice (splice (filled 256 0 [5, n]) 0 methods) 0 n.toNat =
      (.ok methods : Outcome Error (List UInt8)) := slice_splice _ _ hmethods.symm
  simp only [Task.handsOver_ok, Task.obeys_bind, obeys_sync, hslice, Task.obeys_pure]
  have hread : readGreeting ([] ++ [5, n] ++ methods) =
      if 0 ∈ methods then .accepted [] else .noMethod [] := by
    have ht : methods.take n.toNat = methods := List.take_of_length_le (by omega)
    have hd : methods.drop n.toNat = [] := List.drop_of_length_le (by omega)
    simp [readGreeting, ht, hd, hmethods]
  by_cases h : 0 ∈ methods
  · rw [if_pos h] at hread
    rw [if_neg (by simpa [socks5NoAuth] using h)]
    apply obeys_writeAll
    · exact Or.inl ⟨hread, rfl⟩
    · intro e
      trivial
    · simp only [Exchange.next, hread]
      exact ⟨rfl, rfl⟩
  · rw [if_neg h] at hread
    rw [if_pos (by simpa [socks5NoAuth] using h), StateT.run_bind, Task.obeys_bind]
    apply obeys_writeAll
    · exact Or.inr ⟨hread, rfl⟩
    · intro e
      trivial
    · rw [Task.handsOver_ok, StateT.run_bind, Task.obeys_bind, obeys_fail]
      simp only [Exchange.next, hread]
      trivial

end greeting

section request

variable {cfg : OutgoingConfig} (debugLog : Bool)

/-- How the address of a request ends. -/
def AddrEnd : Outcome Error (Except Error ReqAddr × Socks5Connected) → Exchange → Prop
  | .ok (.ok req, self), q =>
    self = held ∧ ∃ seen dest port, q = .chosen seen ∧ readRequest seen = .connect dest port [] ∧
      dest.parsed port = req ∧ dest.FitsReply
  | .ok (.error _, self), q =>
    self = held ∧ (q = .repeating ∨ ∃ seen, q = .chosen seen ∧ readRequest seen = .invalidName [])
  | .err _, q => q.Final
  | .panic, q => q.Panics debugLog

/-- The fixed-length forms: the first address byte is in the buffer already. -/
theorem slice_tail (h0 h1 h2 h3 a : UInt8) (bytes : List UInt8) (k : ℕ) (hk : k = 5+bytes.length)
    (hk' : k ≤ 255) :
    slice (splice (filled 255 0 [h0, h1, h2, h3, a]) 5 bytes) 4 k =
      (.ok (a :: bytes) : Outcome Error (List UInt8)) := by
  have hsp : splice (filled 255 0 [h0, h1, h2, h3, a]) 5 bytes =
      filled 255 0 ([h0, h1, h2, h3, a] ++ bytes) := splice_filled bytes
  rw [hsp, slice_filled (by simp; omega) (by omega) (by simp; omega),
    List.take_of_length_le (by simp; omega)]
  rfl

theorem exists_five : ∀ {bs : List UInt8}, bs.length = 5 → ∃ a b c d e, bs = [a, b, c, d, e]
  | [a, b, c, d, e], _ => ⟨a, b, c, d, e, rfl⟩

theorem exists_seventeen : ∀ {bs : List UInt8}, bs.length = 17 →
    ∃ a b b' c c' d d' e e' f f' g g' h h' hi lo,
      bs = [a, b, b', c, c', d, d', e, e', f, f', g, g', h, h', hi, lo]
  | [a, b, b', c, c', d, d', e, e', f, f', g, g', h, h', hi, lo], _ =>
    ⟨a, b, b', c, c', d, d', e, e', f, f', g, g', h, h', hi, lo, rfl⟩

variable (rsv b0 : UInt8)

theorem readAddr_v4_obeys :
    Task.Obeys (exchange cfg) (AddrEnd debugLog)
      ((readAddr debugLog (filled 255 0 [5, 1, rsv, 1, b0]) 1 b0).run held)
      (.chosen [5, 1, rsv, 1, b0]) := by
  have hbuf : (filled 255 0 [5, 1, rsv, 1, b0]).length = 255 := filled_length (by simp)
  simp only [readAddr, Socks5AddrType.tryFrom, StateT.run_bind, Task.obeys_bind]
  apply obeys_readExact (filled 255 0 [5, 1, rsv, 1, b0]) 5 10 5 (by omega) (by rfl) (by rfl)
  · intro e
    trivial
  intro bs hbs
  obtain ⟨b, c, d, hi, lo, rfl⟩ := exists_five hbs
  have hsl := slice_tail 5 1 rsv 1 b0 [b, c, d, hi, lo] 10 (by rfl) (by omega)
  simp only [Task.handsOver_ok, Task.obeys_bind, obeys_sync, hsl, Task.obeys_pure,
    ReqAddr.parseAddressV4_eq, Outcome.attempt]
  have hp : (word hi lo >>> 8).toUInt8 = hi := (List.cons.inj (be16_word hi lo)).1
  refine ⟨rfl, _, .v4 ⟨b0, b, c, d⟩, word hi lo, rfl, rfl, ?_, trivial⟩
  simp [Destination.parsed, hp]

theorem readAddr_v6_obeys :
    Task.Obeys (exchange cfg) (AddrEnd debugLog)
      ((readAddr debugLog (filled 255 0 [5, 1, rsv, 4, b0]) 4 b0).run held)
      (.chosen [5, 1, rsv, 4, b0]) := by
  have hbuf : (filled 255 0 [5, 1, rsv, 4, b0]).length = 255 := filled_length (by simp)
  simp only [readAddr, Socks5AddrType.tryFrom, StateT.run_bind, Task.obeys_bind]
  apply obeys_readExact (filled 255 0 [5, 1, rsv, 4, b0]) 5 22 17 (by omega) (by rfl) (by rfl)
  · intro e
    trivial
  intro bs hbs
  obtain ⟨a', b, b', c, c', d, d', e, e', f, f', g, g', h, h', hi, lo, rfl⟩ := exists_seventeen hbs
  have hsl := slice_tail 5 1 rsv 4 b0 [a', b, b', c, c', d, d', e, e', f, f', g, g', h, h', hi, lo] 22
    (by rfl) (by omega)
  simp only [Task.handsOver_ok, Task.obeys_bind, obeys_sync, hsl, Task.obeys_pure,
    ReqAddr.parseAddressV6_eq, Outcome.attempt]
  exact ⟨rfl, _, .v6 _, word hi lo, rfl, rfl, rfl, trivial⟩

theorem readAddr_domain_obeys :
    Task.Obeys (exchange cfg) (AddrEnd debugLog)
      ((readAddr debugLog (filled 255 0 [5, 1, rsv, 3, b0]) 3 b0).run held)
      (.chosen [5, 1, rsv, 3, b0]) := by
  have hbuf : (filled 255 0 [5, 1, rsv, 3, b0]).length = 255 := filled_length (by simp)
  simp only [readAddr, Socks5AddrType.tryFrom, StateT.run_bind, Task.obeys_bind]
  rcases Nat.lt_or_ge 253 b0.toNat with hl | hl
  · -- `buf[0..len + 2]` is out of range before anything is read
    have hs : slice (filled 255 0 [5, 1, rsv, 3, b0]) 0 (b0.toNat+2) =
        (.panic : Outcome Error (List UInt8)) := slice_eq_panic (by omega)
    simp only [readExact, hs, StateT.run_bind, Task.obeys_bind, obeys_sync, Task.handsOver_panic]
    exact Or.inl ⟨rsv, b0, [], rfl, by omega⟩
  apply obeys_readExact (filled 255 0 [5, 1, rsv, 3, b0]) 0 (b0.toNat+2) (b0.toNat+2) (by omega)
    (by omega) (by rfl)
  · intro e
    trivial
  intro bs hbs
  obtain ⟨name, hi, lo, rfl⟩ : ∃ name hi lo, bs = name ++ [hi, lo] := by
    have hd : (bs.drop b0.toNat).length = 2 := by simp; omega
    obtain ⟨hi, lo, hd⟩ := List.length_eq_two.mp hd
    exact ⟨bs.take b0.toNat, hi, lo, by rw [← hd, List.take_append_drop]⟩
  have hn : name.length = b0.toNat := by simpa using hbs
  have hsl : slice (splice (filled 255 0 [5, 1, rsv, 3, b0]) 0 (name ++ [hi, lo])) 0 (b0.toNat+2) =
      (.ok (name ++ [hi, lo]) : Outcome Error (List UInt8)) := slice_splice _ _ (by simp [hn])
  have hp := ReqAddr.parseDomain_eq name hi lo
  rw [hn] at hp
  have hd := decodeAddr_domain b0 (name ++ [hi, lo])
  rw [if_neg (by simp; omega), ← hn, List.take_left, List.drop_left] at hd
  simp only [Task.handsOver_ok, Task.obeys_bind, obeys_sync, hsl, Task.obeys_pure, hp]
  cases hs : fromUtf8 name with
  | none =>
    have hread : readRequest ([5, 1, rsv, 3, b0] ++ (name ++ [hi, lo])) = .invalidName [] := by
      simp [readRequest, hd, hs, decodePort]
    simp only [Outcome.attempt, Task.handsOver_ok, Task.obeys_pure]
    -- the argument of `debug!` is `r.as_ref().unwrap()`
    cases debugLog with
    | true =>
      simp only [↓reduceIte, StateT.run_bind, Task.obeys_bind, obeys_sync, Outcome.unwrap,
        Task.handsOver_panic]
      exact Or.inr ⟨rfl, hread⟩
    | false =>
      rw [if_neg (by decide)]
      refine (Task.obeys_pure _).mpr ?_
      exact ⟨rfl, Or.inr ⟨_, rfl, hread⟩⟩
  | some host =>
    have hfit : (asBytes host).length ≤ 253 := by
      rw [asBytes_of_fromUtf8 hs]
      omega
    have hle : (asBytes host).length ≤ 255 := by omega
    have hread : readRequest ([5, 1, rsv, 3, b0] ++ (name ++ [hi, lo])) =
        .connect (.domain host hle) (word hi lo) [] := by
      simp [readRequest, hd, hs, hle, decodePort]
    have hend : AddrEnd debugLog (.ok (.ok (.domain host (word hi lo)), held))
        (.chosen ([5, 1, rsv, 3, b0] ++ (name ++ [hi, lo]))) := ⟨rfl, _, .domain host hle, _, rfl, hread, rfl,
        Nat.le_succ_of_le hfit⟩
    simp only [Outcome.attempt, Task.handsOver_ok, Task.obeys_pure]
    cases debugLog with
    | true =>
      simp only [↓reduceIte, StateT.run_bind, Task.obeys_bind, obeys_sync, Outcome.unwrap,
        Task.handsOver_ok, Task.obeys_pure]
      exact (Task.obeys_pure _).mpr hend
    | false =>
      rw [if_neg (by decide)]
      exact (Task.obeys_pure _).mpr hend

/-- An error reply, which always names `127.0.0.1:0`. -/
theorem obeys_blame {q : Exchange} {post : Outcome Error (Unit × Socks5Connected) → Exchange → Prop}
    {err : Socks5Error} (hallow : q.Allows cfg (.writeAll .client (Exchange.blame err.code)))
    (herr : ∀ e, post (.err (.io e)) (q.next (.writeAll .client (Exchange.blame err.code)) (.error e)))
    (hok : post (.ok ((), held)) (q.next (.writeAll .client (Exchange.blame err.code)) (.ok ()))) :
    Task.Obeys (exchange cfg) post ((sendFinalResponse err .default).run held) q := by
  have hd : ReqAddr.default.destination? = some (.v4 ⟨127, 0, 0, 1⟩) := rfl
  exact obeys_sendFinalResponse hd trivial hallow herr hok

theorem readAddr_unknown_obeys (atyp : UInt8) (ht : atyp ≠ 1 ∧ atyp ≠ 3 ∧ atyp ≠ 4) (buf : List UInt8) :
    Task.Obeys (exchange cfg) (AddrEnd debugLog) ((readAddr debugLog buf atyp b0).run held)
      (.chosen [5, 1, rsv, atyp, b0]) := by
  have htry : Socks5AddrType.tryFrom atyp = .error .invalidSocks5AddrType := by
    unfold Socks5AddrType.tryFrom
    split <;> simp_all
  have hread : readRequest [5, 1, rsv, atyp, b0] = .unknownAddrType [] := by
    simp [readRequest, ht]
  simp only [readAddr, htry, StateT.run_bind, Task.obeys_bind]
  apply obeys_blame
  · simp only [Exchange.Allows, hread, Exchange.Refusal]
    rfl
  · intro e
    trivial
  · rw [Task.handsOver_ok]
    refine (Task.obeys_pure _).mpr ?_
    simp only [Exchange.next, hread]
    exact ⟨rfl, Or.inl rfl⟩

/-- How a request ends. -/
def RequestEnd : Outcome Error (ReqAddr × Socks5Connected) → Exchange → Prop
  | .ok (req, self), q =>
    self = held ∧ ∃ seen dest port, q = .chosen seen ∧ readRequest seen = .connect dest port [] ∧
      dest.parsed port = req ∧ dest.FitsReply
  | .err _, q => q.Final
  | .panic, q => q.Panics debugLog

theorem getRequest_obeys :
    Task.Obeys (exchange cfg) (RequestEnd debugLog) ((getRequest debugLog).run held) (.chosen []) := by
  rw [getRequest, StateT.run_bind, Task.obeys_bind]
  apply obeys_readExact (zeroed 255) 0 5 5 (by simp) (by rfl) (by rfl)
  · intro e
    trivial
  intro bs hbs
  obtain ⟨v, cmd, rsv, atyp, b0, rfl⟩ := exists_five hbs
  have h0 := index_head v cmd rsv atyp b0 0 (by simp)
  have h1 := index_head v cmd rsv atyp b0 1 (by simp)
  have h3 := index_head v cmd rsv atyp b0 3 (by simp)
  have h4 := index_head v cmd rsv atyp b0 4 (by simp)
  simp only [List.getElem_cons_zero, List.getElem_cons_succ] at h0 h1 h3 h4
  simp only [splice_zeroed, Task.handsOver_ok, StateT.run_bind, Task.obeys_bind, obeys_sync, h0,
    Task.obeys_pure]
  by_cases hv : v = 5
  swap
  · rw [if_pos (by simpa [socks5Protocol] using hv), StateT.run_bind, Task.obeys_bind, obeys_fail]
    refine ⟨v, ?_⟩
    simp [readRequest, hv]
  subst hv
  simp only [socks5Protocol, ne_eq, not_true_eq_false, ↓reduceIte, StateT.run_bind, Task.obeys_bind,
    Task.obeys_pure, obeys_sync, h1, Task.handsOver_ok]
  by_cases hc : cmd = 1
  swap
  · have hread : readRequest [5, cmd, rsv, atyp, b0] = .otherCommand [] := by simp [readRequest, hc]
    rw [if_pos (by simpa [socks5CmdConnect] using hc), StateT.run_bind, Task.obeys_bind]
    apply obeys_blame
    · simp only [Exchange.Allows, Exchange.next, List.nil_append, hread, Exchange.Refusal]
      rfl
    · intro e
      trivial
    · rw [Task.handsOver_ok, StateT.run_bind, Task.obeys_bind, obeys_fail]
      simp only [Exchange.next, List.nil_append, hread]
      trivial
  subst hc
  simp only [socks5CmdConnect, not_true_eq_false, ↓reduceIte, StateT.run_bind, Task.obeys_bind,
    Task.obeys_pure, obeys_sync, h3, h4, Task.handsOver_ok]
  have haddr : Task.Obeys (exchange cfg) (AddrEnd debugLog)
      ((readAddr debugLog (filled 255 0 [5, 1, rsv, atyp, b0]) atyp b0).run held)
      (.chosen [5, 1, rsv, atyp, b0]) := by
    by_cases ht : atyp ≠ 1 ∧ atyp ≠ 3 ∧ atyp ≠ 4
    · exact readAddr_unknown_obeys debugLog rsv b0 atyp ht _
    · have hk : atyp = 1 ∨ atyp = 3 ∨ atyp = 4 := by
        by_contra hn
        exact ht ⟨fun h => hn (Or.inl h), fun h => hn (Or.inr (Or.inl h)), fun h => hn (Or.inr (Or.inr h))⟩
      rcases hk with rfl | rfl | rfl
      · exact readAddr_v4_obeys debugLog rsv b0
      · exact readAddr_domain_obeys debugLog rsv b0
      · exact readAddr_v6_obeys debugLog rsv b0
  apply haddr.mono
  intro r q hr
  cases r with
  | ok p =>
    obtain ⟨_ | req, self⟩ := p
    · obtain ⟨hself, hq⟩ := hr
      subst hself
      simp only [Task.handsOver_ok, StateT.run_bind, Task.obeys_bind]
      -- either way `get_request` answers the error
      have hallow : q.Allows cfg (.writeAll .client (Exchange.blame 8)) := by
        rcases hq with rfl | ⟨seen, rfl, hread⟩
        · rfl
        · simp only [Exchange.Allows, hread]
          rfl
      have hclosed : q.next (.writeAll .client (Exchange.blame 8)) (.ok ()) = .closed := by
        rcases hq with rfl | ⟨seen, rfl, hread⟩
        · rfl
        · simp only [Exchange.next, hread]
      apply obeys_blame hallow
      · intro e
        rcases hq with rfl | ⟨seen, rfl, hread⟩ <;> trivial
      · change Exchange.next _ (.writeAll .client (Exchange.blame 8)) _ = _ at hclosed
        simp only [Task.handsOver_ok, obeys_sync, Outcome.ofExcept, Task.handsOver_err]
        simp only [Socks5Error.code, hclosed]
        trivial
    · obtain ⟨hself, hq⟩ := hr
      simp only [Task.handsOver_ok, Task.obeys_pure, obeys_sync, Outcome.ofExcept]
      exact ⟨hself, hq⟩
  | err e => exact hr
  | panic => exact hr

end request

end Rocks
