import Rocks.ReplyEncoding

/-! What `get_request` does on any client stream, by the kind of its bytes. -/
namespace Rocks
open Async Buffer Bytes
open Socks5Connected ClientM

/-- The address that `get_request` makes of a destination and a port. -/
def Destination.parsed : Destination → UInt16 → ReqAddr
  | .v4 ip, port => .ip (.v4 ip (word ip.d (port >>> 8).toUInt8))
  | .v6 ip, port => .ip (.v6 ip port 0 0)
  | .domain name _, port => .domain name port

/-- A CONNECT request for a name that does not fit the request buffer with its port. -/
def OversizedName (bs : List UInt8) : Prop :=
  ∃ rsv len rest, bs = 5 :: 1 :: rsv :: 3 :: len :: rest ∧ 254 ≤ len.toNat

/-- An error reply, which always names `127.0.0.1:0`. -/
def replied (env : Env) (w : Wire) (err : Socks5Error) : Outcome Error Unit × Wire :=
  written env w (encodeReply err.code (.v4 ⟨127, 0, 0, 1⟩) 0)

section

variable (env : Env) (w : Wire)

theorem run_reply (err : Socks5Error) :
    Task.run (wire env) ((sendFinalResponse err .default).run held) w =
      holding (replied env w err) := by
  rw [run_sendFinalResponse, finalResponse_eq_encode err .default (.v4 ⟨127, 0, 0, 1⟩) rfl (by simp
    [Destination.encode, Ipv4Addr.octets]), Task.andThen_ok, run_client_writeAll]
  rfl

variable (h0 h1 h2 h3 a : UInt8)

/-- The fixed-length forms: the first address byte is in the buffer already. -/
theorem run_readTail {α : Type} (bytes rest : List UInt8) (k : ℕ) (hk : k = 5+bytes.length)
    (hk' : k ≤ 255) (hw : w.input .client = bytes ++ rest) (f : List UInt8 → ClientM α) :
    Task.run (wire env) ((do
      let buf ← readExact (filled 255 0 [h0, h1, h2, h3, a]) 5 k
      let addrBytes ← sync (slice buf 4 k)
      f addrBytes).run held) w =
        Task.run (wire env) ((f (a :: bytes)).run held) (w.consume .client rest) := by
  have hb : (filled 255 0 [h0, h1, h2, h3, a]).length = 255 := filled_length (by simp)
  have hread := run_client_readExact env w (filled 255 0 [h0, h1, h2, h3, a]) bytes rest 5 k
    (by omega) hw hk.symm
  have hsp : splice (filled 255 0 [h0, h1, h2, h3, a]) 5 bytes =
      filled 255 0 ([h0, h1, h2, h3, a] ++ bytes) := splice_filled bytes
  have hsl : slice (filled 255 0 ([h0, h1, h2, h3, a] ++ bytes)) 4 k =
      (.ok (a :: bytes) : Outcome Error (List UInt8)) := by
    rw [slice_filled (by simp; omega) (by omega) (by simp; omega),
      List.take_of_length_le (by simp; omega)]
    rfl
  simp only [StateT.run_bind, Task.run_bind, hread, hsp, run_sync, hsl, Task.andThen_ok]

theorem run_readTail_short {α : Type} (k : ℕ) (hk : 5 ≤ k) (hk' : k ≤ 255)
    (hw : (w.input .client).length < k-5) (f : List UInt8 → ClientM α) :
    Task.run (wire env) ((do
      let buf ← readExact (filled 255 0 [h0, h1, h2, h3, a]) 5 k
      let addrBytes ← sync (slice buf 4 k)
      f addrBytes).run held) w =
        (.err (.io (env.ending .client).readExactError), w.consume .client []) := by
  have hb : (filled 255 0 [h0, h1, h2, h3, a]).length = 255 := filled_length (by simp)
  have hread := run_client_readExact_short env w (filled 255 0 [h0, h1, h2, h3, a]) 5 k
    (by omega) hk hw
  simp [hread]

variable (debugLog : Bool)

theorem run_readAddr_v4 (b c d hi lo : UInt8) (rest : List UInt8)
    (hw : w.input .client = b :: c :: d :: hi :: lo :: rest) :
    Task.run (wire env) ((readAddr debugLog (filled 255 0 [h0, h1, h2, 1, a]) 1 a).run held) w =
      (.ok (.ok (Destination.parsed (.v4 ⟨a, b, c, d⟩) (word hi lo)), held), w.consume .client rest) := by
  refine (run_readTail env w h0 h1 h2 1 a [b, c, d, hi, lo] rest 10 rfl (by omega) hw _).trans ?_
  have hp : (word hi lo >>> 8).toUInt8 = hi := (List.cons.inj (be16_word hi lo)).1
  simp [ReqAddr.parseAddressV4_eq, Outcome.attempt, Destination.parsed, hp]

theorem run_readAddr_v6 (a' b b' c c' d d' e e' f f' g g' h h' hi lo : UInt8) (rest : List UInt8)
    (hw : w.input .client = [a', b, b', c, c', d, d', e, e', f, f', g, g', h, h', hi, lo] ++ rest) :
    Task.run (wire env) ((readAddr debugLog (filled 255 0 [h0, h1, h2, 4, a]) 4 a).run held) w =
      (.ok (.ok (Destination.parsed (.v6 ⟨word a a', word b b', word c c', word d d', word e e',
        word f f', word g g', word h h'⟩) (word hi lo)), held), w.consume .client rest) := by
  refine (run_readTail env w h0 h1 h2 4 a _ rest 22 rfl (by omega) hw _).trans ?_
  simp [ReqAddr.parseAddressV6_eq, Outcome.attempt, Destination.parsed]

/-- The name form: the fifth byte is its length, and the name overwrites the buffer. -/
theorem run_readAddr_domain (len : UInt8) (name rest : List UInt8) (hi lo : UInt8)
    (hlen : len.toNat = name.length) (hl : len.toNat ≤ 253)
    (hw : w.input .client = name ++ [hi, lo] ++ rest) :
    Task.run (wire env) ((readAddr debugLog (filled 255 0 [h0, h1, h2, 3, len]) 3 len).run held) w =
      holding (match fromUtf8 name with
        | some s => (.ok (.ok (.domain s (word hi lo))), w.consume .client rest)
        | none => (if debugLog then .panic else .ok (.error .utf8), w.consume .client rest)) := by
  have hb : (filled 255 0 [h0, h1, h2, 3, len]).length = 255 := filled_length (by simp)
  have hread := run_client_readExact env w (filled 255 0 [h0, h1, h2, 3, len])
    (name ++ [hi, lo]) rest 0 (name.length+2) (by omega) hw (by simp)
  have hsl : slice (splice (filled 255 0 [h0, h1, h2, 3, len]) 0 (name ++ [hi, lo])) 0
      (name.length+2) = (.ok (name ++ [hi, lo]) : Outcome Error (List UInt8)) :=
    slice_splice _ _ (by simp)
  have hp := ReqAddr.parseDomain_eq name hi lo
  cases hs : fromUtf8 name <;> rw [hs] at hp <;> cases debugLog <;>
    simp [readAddr, Socks5AddrType.tryFrom, hread, hsl, hlen, hp, Outcome.attempt, Outcome.unwrap]

theorem run_readAddr_domain_short (len : UInt8) (hl : len.toNat ≤ 253)
    (hw : (w.input .client).length < len.toNat+2) :
    Task.run (wire env) ((readAddr debugLog (filled 255 0 [h0, h1, h2, 3, len]) 3 len).run held) w =
      (.err (.io (env.ending .client).readExactError), w.consume .client []) := by
  have hb : (filled 255 0 [h0, h1, h2, 3, len]).length = 255 := filled_length (by simp)
  have hread := run_client_readExact_short env w (filled 255 0 [h0, h1, h2, 3, len]) 0
    (len.toNat+2) (by omega) (by omega) hw
  simp [readAddr, Socks5AddrType.tryFrom, hread]

/-- `buf[0..len + 2]` is out of range before anything is read. -/
theorem run_readAddr_oversized (len : UInt8) (hl : 254 ≤ len.toNat) :
    Task.run (wire env) ((readAddr debugLog (filled 255 0 [h0, h1, h2, 3, len]) 3 len).run held) w =
      (.panic, w) := by
  have hb : (filled 255 0 [h0, h1, h2, 3, len]).length = 255 := filled_length (by simp)
  have hread := run_client_readExact_panic env w (filled 255 0 [h0, h1, h2, 3, len]) 0
    (len.toNat+2) (by omega)
  simp [readAddr, Socks5AddrType.tryFrom, hread]

theorem run_readAddr_unknown (atyp : UInt8) (ht : atyp ≠ 1 ∧ atyp ≠ 3 ∧ atyp ≠ 4) (buf : List UInt8) :
    Task.run (wire env) ((readAddr debugLog buf atyp a).run held) w =
      holding (Task.andThen (replied env w .addressTypeNotSupported)
        (fun _ w => (.ok (.error .invalidSocks5AddrType), w))) := by
  have htry : Socks5AddrType.tryFrom atyp = .error .invalidSocks5AddrType := by
    unfold Socks5AddrType.tryFrom
    split <;> simp_all
  simp [readAddr, htry, run_reply]

/-- How a request ends whose address type is known, given its address and port. -/
def addrOutcome (dest : Option (Option Destination × List UInt8)) :
    Outcome Error (Except Error ReqAddr) × Wire :=
  match dest with
  | none => (.err (.io (env.ending .client).readExactError), w.consume .client [])
  | some (dest, rest) =>
    match decodePort rest, dest with
    | none, _ => (.err (.io (env.ending .client).readExactError), w.consume .client [])
    | some (_, rest), none =>
      (if debugLog then .panic else .ok (.error .utf8), w.consume .client rest)
    | some (port, rest), some dest => (.ok (.ok (dest.parsed port)), w.consume .client rest)

/-- A fixed-length address that is cut off. -/
theorem addrOutcome_short (atyp b0 : UInt8) (bs : List UInt8)
    (ht : (atyp = 1 ∧ bs.length < 5) ∨ (atyp = 4 ∧ bs.length < 17)) :
    addrOutcome env w debugLog (decodeAddr atyp (b0 :: bs)) =
      (.err (.io (env.ending .client).readExactError), w.consume .client []) := by
  cases hd : decodeAddr atyp (b0 :: bs) with
  | none => rfl
  | some p =>
    obtain ⟨dest, rest⟩ := p
    have hl := decodeAddr_length hd
    simp only [List.length_cons] at hl
    -- an address that is there in full leaves too little for its port
    have hr : rest.length < 2 := by
      rcases ht with ⟨ht, hb⟩ | ⟨ht, hb⟩
      · have := hl.1 ht
        omega
      · have := hl.2 ht
        omega
    simp only [addrOutcome, decodePort_short hr]

theorem run_readAddr_v4_eq :
    Task.run (wire env) ((readAddr debugLog (filled 255 0 [h0, h1, h2, 1, a]) 1 a).run held) w =
      holding (addrOutcome env w debugLog (decodeAddr 1 (a :: w.input .client))) := by
  rcases Nat.lt_or_ge (w.input .client).length 5 with hl | hl
  · rw [addrOutcome_short env w debugLog 1 a _ (Or.inl ⟨rfl, hl⟩)]
    exact run_readTail_short env w h0 h1 h2 1 a 10 (by omega) (by omega) hl _
  · generalize hb : w.input .client = bs at hl
    match bs, hl with
    | b :: c :: d :: hi :: lo :: rest, _ =>
      exact run_readAddr_v4 env w h0 h1 h2 a debugLog b c d hi lo rest hb

theorem run_readAddr_v6_eq :
    Task.run (wire env) ((readAddr debugLog (filled 255 0 [h0, h1, h2, 4, a]) 4 a).run held) w =
      holding (addrOutcome env w debugLog (decodeAddr 4 (a :: w.input .client))) := by
  rcases Nat.lt_or_ge (w.input .client).length 17 with hl | hl
  · rw [addrOutcome_short env w debugLog 4 a _ (Or.inr ⟨rfl, hl⟩)]
    exact run_readTail_short env w h0 h1 h2 4 a 22 (by omega) (by omega) hl _
  · generalize hb : w.input .client = bs at hl
    match bs, hl with
    | a' :: b :: b' :: c :: c' :: d :: d' :: e :: e' :: f :: f' :: g :: g' :: h :: h' :: hi :: lo ::
        rest, _ =>
      exact run_readAddr_v6 env w h0 h1 h2 a debugLog a' b b' c c' d d' e e' f f' g g' h h' hi lo
        rest hb
    | [_, _, _, _, _, _, _, _, _, _, _, _, _, _, _, _], hl => exact absurd hl (by simp)

theorem run_readAddr_domain_eq (len : UInt8) (hlen : len.toNat ≤ 253) :
    Task.run (wire env) ((readAddr debugLog (filled 255 0 [h0, h1, h2, 3, len]) 3 len).run held) w =
      holding (addrOutcome env w debugLog (decodeAddr 3 (len :: w.input .client))) := by
  generalize hb : w.input .client = bs
  rw [decodeAddr_domain]
  rcases Nat.lt_or_ge bs.length (len.toNat+2) with hl | hl
  · rw [run_readAddr_domain_short env w h0 h1 h2 debugLog len hlen (by rw [hb]; exact hl)]
    have hr : (bs.drop len.toNat).length < 2 := by simp; omega
    by_cases hs : bs.length < len.toNat
    · rw [if_pos hs]
      rfl
    · rw [if_neg hs]
      have hp := decodePort_short hr
      split
      · split_ifs <;> simp only [addrOutcome, hp, Task.andThen_err]
      · simp only [addrOutcome, hp, Task.andThen_err]
  · obtain ⟨hi, lo, rest, hr⟩ : ∃ hi lo rest, bs.drop len.toNat = hi :: lo :: rest := by
      have hd : 2 ≤ (bs.drop len.toNat).length := by simp; omega
      rcases hdrop : bs.drop len.toNat with _ | ⟨hi, _ | ⟨lo, rest⟩⟩
      · simp [hdrop] at hd
      · simp [hdrop] at hd
      · exact ⟨hi, lo, rest, rfl⟩
    have hn : (bs.take len.toNat).length = len.toNat := List.length_take_of_le (by omega)
    have hbs : w.input .client = bs.take len.toNat ++ [hi, lo] ++ rest := by
      rw [hb, List.append_assoc, List.cons_append, List.cons_append, List.nil_append, ← hr,
        List.take_append_drop]
    have hge : ¬bs.length < len.toNat := by omega
    rw [run_readAddr_domain env w h0 h1 h2 debugLog len _ rest hi lo hn.symm hlen hbs, if_neg hge, hr]
    cases hs : fromUtf8 (bs.take len.toNat) with
    | none => rfl
    | some name =>
      have hle : (asBytes name).length ≤ 255 := by
        rw [asBytes_of_fromUtf8 hs]
        omega
      simp only [hle, ↓reduceDIte, addrOutcome, decodePort, Destination.parsed]

/-- What becomes of a request once its address has been read. -/
def addrAnswered (addr : Except Error ReqAddr) (w : Wire) : Outcome Error ReqAddr × Wire :=
  match addr with
  | .ok addr => (.ok addr, w)
  | .error e => Task.andThen (replied env w .addressTypeNotSupported) (fun _ w => (.err e, w))

theorem run_getRequest_short (hw : (w.input .client).length < 5) :
    Task.run (wire env) ((getRequest debugLog).run held) w =
      (.err (.io (env.ending .client).readExactError), w.consume .client []) := by
  have hread := run_client_readExact_short env w (zeroed 255) 0 5 (by simp) (by omega) hw
  simp [getRequest, hread]

section head

variable (v cmd rsv atyp b0 : UInt8) (rest : List UInt8)

/-- The first read leaves the head of the request in front of the buffer. -/
theorem run_readHead (hw : w.input .client = v :: cmd :: rsv :: atyp :: b0 :: rest) :
    Task.run (wire env) ((readExact (zeroed 255) 0 5).run held) w =
      (.ok (filled 255 0 [v, cmd, rsv, atyp, b0], held), w.consume .client rest) := by
  rw [run_client_readExact env w (zeroed 255) [v, cmd, rsv, atyp, b0] rest 0 5 (by simp) hw rfl,
    splice_zeroed]

theorem index_head (i : ℕ) (h : i < [v, cmd, rsv, atyp, b0].length) :
    index (filled 255 0 [v, cmd, rsv, atyp, b0]) i =
      (.ok [v, cmd, rsv, atyp, b0][i] : Outcome Error UInt8) := index_filled i h

theorem run_getRequest_notSocks5 (hw : w.input .client = v :: cmd :: rsv :: atyp :: b0 :: rest)
    (hv : v ≠ 5) :
    Task.run (wire env) ((getRequest debugLog).run held) w =
      (.err (.fromDescription s!"Not SOCKS5 protocol - {v}"), w.consume .client rest) := by
  have h0 := index_head v cmd rsv atyp b0 0 (by simp)
  simp only [List.getElem_cons_zero] at h0
  simp [getRequest, run_readHead env w _ _ _ _ _ _ hw, h0, hv, socks5Protocol]

theorem run_getRequest_otherCommand (hw : w.input .client = 5 :: cmd :: rsv :: atyp :: b0 :: rest)
    (hc : cmd ≠ 1) :
    Task.run (wire env) ((getRequest debugLog).run held) w =
      Task.andThen (replied env (w.consume .client rest) .commandNotSupported)
        (fun _ w => (.err (.fromDescription "req cmd is not connect"), w)) := by
  have h0 := index_head 5 cmd rsv atyp b0 0 (by simp)
  have h1 := index_head 5 cmd rsv atyp b0 1 (by simp)
  simp only [List.getElem_cons_zero, List.getElem_cons_succ] at h0 h1
  simp [getRequest, run_readHead env w _ _ _ _ _ _ hw, h0, h1, hc, socks5Protocol,
    socks5CmdConnect, run_reply]

/-- A CONNECT request ends as the reading of its address ends. -/
theorem run_getRequest_addr (hw : w.input .client = 5 :: 1 :: rsv :: atyp :: b0 :: rest)
    (x : Outcome Error (Except Error ReqAddr) × Wire)
    (hx : Task.run (wire env) ((readAddr debugLog (filled 255 0 [5, 1, rsv, atyp, b0]) atyp b0).run
      held) (w.consume .client rest) = holding x) :
    Task.run (wire env) ((getRequest debugLog).run held) w =
      holding (Task.andThen x (addrAnswered env)) := by
  have h0 := index_head 5 1 rsv atyp b0 0 (by simp)
  have h1 := index_head 5 1 rsv atyp b0 1 (by simp)
  have h3 := index_head 5 1 rsv atyp b0 3 (by simp)
  have h4 := index_head 5 1 rsv atyp b0 4 (by simp)
  simp only [List.getElem_cons_zero, List.getElem_cons_succ] at h0 h1 h3 h4
  simp only [getRequest, StateT.run_bind, Task.run_bind, run_readHead env w _ _ _ _ _ _ hw, run_sync,
    h0, h1, h3, h4, Task.andThen_ok, socks5Protocol, socks5CmdConnect, ne_eq, not_true_eq_false,
    ↓reduceIte, hx, Task.andThen_andThen]
  -- past the address both sides run the same `if let Err(_) = addr`
  congr 1
  funext addr w
  cases addr with
  | ok addr => simp [addrAnswered, Outcome.ofExcept]
  | error e => simp [addrAnswered, Outcome.ofExcept, run_reply]

theorem run_getRequest_known (hw : w.input .client = 5 :: 1 :: rsv :: atyp :: b0 :: rest)
    (ht : atyp = 1 ∨ atyp = 3 ∨ atyp = 4) (hl : atyp = 3 → b0.toNat ≤ 253) :
    Task.run (wire env) ((getRequest debugLog).run held) w =
      holding (Task.andThen (addrOutcome env (w.consume .client rest) debugLog
        (decodeAddr atyp (b0 :: rest))) (addrAnswered env)) := by
  apply run_getRequest_addr env w debugLog rsv atyp b0 rest hw
  rcases ht with rfl | rfl | rfl
  · simpa using run_readAddr_v4_eq env (w.consume .client rest) 5 1 rsv b0 debugLog
  · simpa using run_readAddr_domain_eq env (w.consume .client rest) 5 1 rsv debugLog b0 (hl rfl)
  · simpa using run_readAddr_v6_eq env (w.consume .client rest) 5 1 rsv b0 debugLog

theorem run_getRequest_oversized (hw : OversizedName (w.input .client)) :
    (Task.run (wire env) ((getRequest debugLog).run held) w).1 = .panic := by
  obtain ⟨rsv, len, rest, hbs, hl⟩ := hw
  rw [run_getRequest_addr env w debugLog rsv 3 len rest hbs (.panic, w.consume .client rest)
    (by rw [run_readAddr_oversized env _ 5 1 rsv debugLog len hl]; rfl)]
  rfl

end head

/-- `get_request` on any client stream but one with an oversized name. -/
theorem run_getRequest (hw : ¬OversizedName (w.input .client)) :
    Task.run (wire env) ((getRequest debugLog).run held) w =
      match readRequest (w.input .client) with
      | .truncated => (.err (.io (env.ending .client).readExactError), w.consume .client [])
      | .notSocks5 p rest =>
        (.err (.fromDescription s!"Not SOCKS5 protocol - {p}"), w.consume .client rest)
      | .otherCommand rest =>
        Task.andThen (replied env (w.consume .client rest) .commandNotSupported)
          (fun _ w => (.err (.fromDescription "req cmd is not connect"), w))
      | .unknownAddrType rest =>
        Task.andThen (replied env (w.consume .client rest) .addressTypeNotSupported)
          (fun _ w => Task.andThen (replied env w .addressTypeNotSupported)
            (fun _ w => (.err .invalidSocks5AddrType, w)))
      | .invalidName rest =>
        if debugLog then (.panic, w.consume .client rest)
        else Task.andThen (replied env (w.consume .client rest) .addressTypeNotSupported)
          (fun _ w => (.err .utf8, w))
      | .connect dest port rest => (.ok (dest.parsed port, held), w.consume .client rest) := by
  -- the case split follows the checks in the order of `get_request`
  rcases Nat.lt_or_ge (w.input .client).length 5 with hl | hl
  · rw [run_getRequest_short env w debugLog hl]
    generalize w.input .client = bs at hl
    match bs, hl with
    | [], _ | [_], _ | [_, _], _ | [_, _, _], _ | [_, _, _, _], _ => rfl
  obtain ⟨v, cmd, rsv, atyp, b0, rest, hbs⟩ : ∃ v cmd rsv atyp b0 rest,
      w.input .client = v :: cmd :: rsv :: atyp :: b0 :: rest := by
    generalize w.input .client = bs at hl
    match bs, hl with
    | v :: cmd :: rsv :: atyp :: b0 :: rest, _ => exact ⟨v, cmd, rsv, atyp, b0, rest, rfl⟩
  by_cases hv : v = 5
  swap
  · rw [run_getRequest_notSocks5 env w debugLog v cmd rsv atyp b0 rest hbs hv, hbs]
    simp only [readRequest, ne_eq, hv, not_false_eq_true, ↓reduceIte]
  subst hv
  by_cases hc : cmd = 1
  swap
  · rw [run_getRequest_otherCommand env w debugLog cmd rsv atyp b0 rest hbs hc, hbs]
    simp only [readRequest, ne_eq, hc, not_true_eq_false, not_false_eq_true, ↓reduceIte]
  subst hc
  by_cases ht : atyp ≠ 1 ∧ atyp ≠ 3 ∧ atyp ≠ 4
  · have hx := run_readAddr_unknown env (w.consume .client rest) b0 debugLog atyp ht
      (filled 255 0 [5, 1, rsv, atyp, b0])
    rw [run_getRequest_addr env w debugLog rsv atyp b0 rest hbs _ hx, hbs]
    simp [readRequest, ht, addrAnswered]
  · have hk : atyp = 1 ∨ atyp = 3 ∨ atyp = 4 := by
      by_contra hn
      exact ht ⟨fun h => hn (Or.inl h), fun h => hn (Or.inr (Or.inl h)), fun h => hn (Or.inr (Or.inr h))⟩
    -- a longer name would make the request oversized
    have hlen : atyp = 3 → b0.toNat ≤ 253 := by
      intro h3
      subst h3
      by_contra hn
      exact hw ⟨rsv, b0, rest, hbs, by omega⟩
    rw [run_getRequest_known env w debugLog rsv atyp b0 rest hbs hk hlen, hbs, readRequest,
      if_neg (by decide), if_neg (by decide), if_neg ht]
    cases hd : decodeAddr atyp (b0 :: rest) with
    | none => simp [addrOutcome]
    | some p =>
      obtain ⟨dest, rest'⟩ := p
      cases hp : decodePort rest' with
      | none => simp [addrOutcome, hp]
      | some q =>
        obtain ⟨port, rest''⟩ := q
        cases dest with
        | none => cases debugLog <;> simp [addrOutcome, hp, addrAnswered]
        | some dest => simp [addrOutcome, hp, addrAnswered]

end

end Rocks
