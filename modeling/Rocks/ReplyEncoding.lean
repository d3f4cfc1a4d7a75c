import Rocks.Handshake

/-! `send_final_response` against the reply format. -/
namespace Rocks
open Async Buffer Bytes
open Socks5Connected ClientM

/-- The destination that a reply with this address has to name. -/
def ReqAddr.destination? : ReqAddr → Option Destination
  | .ip (.v4 host _) => some (.v4 host)
  | .ip (.v6 host _ _ _) => some (.v6 host)
  | .domain name _ => if h : (asBytes name).length ≤ 255 then some (.domain name h) else none

/-- The reply format read back: code, destination, port and what follows. -/
def decodeReply : List UInt8 → Option (UInt8 × Destination × UInt16 × List UInt8)
  | 5 :: rep :: 0 :: atyp :: bs =>
    match decodeAddr atyp bs with
    | some (some dest, rest) =>
      match decodePort rest with
      | some (port, rest) => some (rep, dest, port, rest)
      | none => none
    | _ => none
  | _ => none

theorem decodeReply_encode (rep : UInt8) (dest : Destination) (port : UInt16) (rest : List UInt8) :
    decodeReply (encodeReply rep dest port ++ rest) = some (rep, dest, port, rest) := by
  obtain ⟨atyp, addr, he, -, -, hd⟩ := decodeAddr_encode dest (be16 port ++ rest)
  have hbs : encodeReply rep dest port ++ rest =
      5 :: rep :: 0 :: atyp :: (addr ++ (be16 port ++ rest)) := by
    simp [encodeReply, he]
  rw [hbs, decodeReply, hd]
  simp only [decodePort_be16]

section layout

variable {n : ℕ} {w : List UInt8}

theorem storeSegments_filled {pos : ℕ} (segments : List UInt16) (hp : pos = w.length)
    (h : pos+2*segments.length ≤ n) :
    storeSegments (filled n 0 w) pos segments =
      .ok (filled n 0 (w ++ segments.flatMap be16), pos+2*segments.length) := by
  -- each segment goes right behind what is written already, so `w` grows with `pos`
  induction segments generalizing w pos with
  | nil => simp [storeSegments]
  | cons segment rest ih =>
    simp only [List.length_cons] at h
    rw [storeSegments, store_filled hp (by omega), Outcome.ok_bind,
      store_filled (by simp [hp]) (by omega), Outcome.ok_bind, ih (by simp [hp]) (by omega)]
    simp only [be16, List.flatMap_cons, List.append_assoc, List.cons_append, List.nil_append,
      List.length_cons, Outcome.ok.injEq, Prod.mk.injEq, true_and]
    omega

/-- The header of every reply, and the zeros after it. -/
theorem store_header (err : Socks5Error) (f : List UInt8 → Outcome Error (List UInt8)) :
    (store (zeroed 261) 0 5 >>= fun resp => store resp 1 err.code >>= fun resp =>
      store resp 2 0 >>= f) = f (filled 261 0 [5, err.code, 0]) := by
  rw [zeroed_eq_filled, store_filled (by rfl) (by omega), Outcome.ok_bind,
    store_filled (by rfl) (by omega), Outcome.ok_bind, store_filled (by rfl) (by omega)]
  rfl

/-- The port and the final slice, once the address is laid out. -/
theorem store_port {pos : ℕ} (port : UInt16) (hp : pos = w.length) (h : pos+2 ≤ n) :
    (store (filled n 0 w) pos (port >>> 8).toUInt8 >>= fun resp =>
      store resp (pos+1) port.toUInt8 >>= fun resp => slice resp 0 (pos+2)) =
        (.ok (w ++ be16 port) : Outcome Error (List UInt8)) := by
  rw [store_filled hp (by omega), Outcome.ok_bind, store_filled (by simp [hp]) (by omega),
    Outcome.ok_bind, slice_filled (by simp; omega) (by omega) (by simp [hp])]
  have ht : (w ++ be16 port).take (pos+2) = w ++ be16 port :=
    List.take_of_length_le (by simp [be16, hp])
  simpa [be16] using ht

theorem store_port_panic {pos : ℕ} (port : UInt16) (hp : pos = w.length) (h : pos+1 = n) :
    (store (filled n 0 w) pos (port >>> 8).toUInt8 >>= fun resp =>
      store resp (pos+1) port.toUInt8 >>= fun resp => slice resp 0 (pos+2)) =
        (.panic : Outcome Error (List UInt8)) := by
  rw [store_filled hp (by omega), Outcome.ok_bind,
    store_filled_panic (by simp; omega) (by omega), Outcome.panic_bind]

/-- `ATYP` and `ADDR` go right behind the header. -/
theorem storeAddr_filled {hdr : List UInt8} (hh : hdr.length = 3) (hn : n = 261) (addr : ReqAddr)
    (dest : Destination) (hd : addr.destination? = some dest) :
    storeAddr (filled n 0 hdr) addr =
      .ok (filled n 0 (hdr ++ dest.encode), (hdr ++ dest.encode).length) := by
  match addr, hd with
  | .ip (.v4 ip _), hd =>
    obtain rfl := Option.some.inj hd
    rw [storeAddr, store_filled (by omega) (by omega), Outcome.ok_bind,
      copyFromSlice_filled ip.octets (by simp [hh]) (by rfl) (by omega)]
    simp [Destination.encode, Socks5AddrType.code, Ipv4Addr.octets, hh]
  | .ip (.v6 ip _ _ _), hd =>
    obtain rfl := Option.some.inj hd
    rw [storeAddr, store_filled (by omega) (by omega), Outcome.ok_bind,
      storeSegments_filled ip.segments (by simp [hh]) (by simp [Ipv6Addr.segments, hn])]
    simp [Destination.encode, Socks5AddrType.code, Ipv6Addr.segments, be16, hh]
  -- `resp[4]` is read back as the name's length, which a byte holds up to 255
  | .domain name _, hd =>
    simp only [ReqAddr.destination?] at hd
    split_ifs at hd with hl
    obtain rfl := Option.some.inj hd
    have ht := toUInt8_toNat hl
    rw [storeAddr, store_filled (by omega) (by omega), Outcome.ok_bind,
      store_filled (by simp [hh]) (by omega), Outcome.ok_bind, index_filled 4 (by simp [hh]),
      Outcome.ok_bind]
    have hi : ∀ h4 : 4 < (hdr ++ [Socks5AddrType.domain.code] ++ [(asBytes name).length.toUInt8]).length,
        (hdr ++ [Socks5AddrType.domain.code] ++ [(asBytes name).length.toUInt8])[4] =
          (asBytes name).length.toUInt8 := by
      intro h4
      rw [List.getElem_append_right (by simp [hh])]
      simp
    have hc : copyFromSlice (filled n 0 (hdr ++ [Socks5AddrType.domain.code] ++
        [(asBytes name).length.toUInt8])) 5 (5+(asBytes name).length) (asBytes name) =
          (.ok (filled n 0 (hdr ++ [Socks5AddrType.domain.code] ++
            [(asBytes name).length.toUInt8] ++ asBytes name)) : Outcome Error (List UInt8)) :=
      copyFromSlice_filled (asBytes name) (by simp [hh]) rfl (by omega)
    simp only [hi, ht, hc, Outcome.ok_bind, Outcome.pure_eq]
    simp [Destination.encode, Socks5AddrType.code, hh]
    omega

end layout

theorem finalResponse_eq_storePort (err : Socks5Error) (addr : ReqAddr) (dest : Destination)
    (hd : addr.destination? = some dest) :
    finalResponse err addr =
      (store (filled 261 0 ([5, err.code, 0] ++ dest.encode)) ([5, err.code, 0] ++ dest.encode).length
        (addr.port >>> 8).toUInt8 >>= fun resp =>
          store resp (([5, err.code, 0] ++ dest.encode).length+1) addr.port.toUInt8 >>= fun resp =>
            slice resp 0 (([5, err.code, 0] ++ dest.encode).length+2)) := by
  rw [finalResponse, store_header, storeAddr_filled rfl rfl addr dest hd, Outcome.ok_bind]

/-- The reply is the encoded one as long as it fits the buffer. -/
theorem finalResponse_eq_encode (err : Socks5Error) (addr : ReqAddr) (dest : Destination)
    (hd : addr.destination? = some dest) (hl : dest.encode.length ≤ 256) :
    finalResponse err addr = .ok (encodeReply err.code dest addr.port) := by
  rw [finalResponse_eq_storePort err addr dest hd,
    store_port addr.port rfl (by simp only [List.length_append, List.length_cons, List.length_nil]; omega)]
  rfl

/-- A name of 255 bytes leaves room for one byte of the port only. -/
theorem finalResponse_panic (err : Socks5Error) (addr : ReqAddr) (dest : Destination)
    (hd : addr.destination? = some dest) (hl : dest.encode.length = 257) :
    finalResponse err addr = .panic := by
  rw [finalResponse_eq_storePort err addr dest hd,
    store_port_panic addr.port rfl (by simp only [List.length_append, List.length_cons, List.length_nil]; omega)]

/-- The name of a destination fits the reply buffer together with the port. -/
def Destination.FitsReply : Destination → Prop
  | .domain name _ => (asBytes name).length ≤ 254
  | _ => True

theorem Destination.encode_length_cases (dest : Destination) :
    (dest.FitsReply ∧ dest.encode.length ≤ 256) ∨ (¬dest.FitsReply ∧ dest.encode.length = 257) := by
  cases dest with
  | v4 ip => exact Or.inl ⟨trivial, by simp [encode, Ipv4Addr.octets]⟩
  | v6 ip => exact Or.inl ⟨trivial, by simp [encode, Ipv6Addr.segments, be16]⟩
  | domain name h =>
    simp only [FitsReply, encode, List.length_cons]
    omega

/-- One `send_final_response` on a socket that takes everything: no panic, and exactly
`reply` goes out. -/
def SendsReply (err : Socks5Error) (addr : ReqAddr) (reply : List UInt8) : Prop :=
  ∀ (env : Env) (w : CutWire), w.room .client = none →
    Task.run (cutWire env) ((sendFinalResponse err addr).run held) w =
      (.ok ((), held), w.deliver .client reply reply.length)

theorem run_sendFinalResponse {σ : Type} (h : (o : Op) → σ → o.Res × σ) (s : σ) (err : Socks5Error)
    (addr : ReqAddr) (self : Socks5Connected) :
    Task.run h ((sendFinalResponse err addr).run self) s =
      Task.andThen (finalResponse err addr, s) (fun reply s => Task.run h ((writeAll reply).run self) s) := by
  simp only [sendFinalResponse, StateT.run_bind, Task.run_bind, run_sync, Task.andThen_andThen,
    Task.andThen_ok]

theorem sendsReply_iff (err : Socks5Error) (addr : ReqAddr) (reply : List UInt8) :
    SendsReply err addr reply ↔ finalResponse err addr = .ok reply := by
  constructor
  · intro hs
    -- one socket that takes everything is enough: its trace is the reply
    have h := hs default ⟨fun _ => [], fun _ => none, []⟩ rfl
    rw [run_sendFinalResponse] at h
    cases hr : finalResponse err addr with
    | ok sent =>
      rw [hr, Task.andThen_ok, run_client_writeAll, written_of_none _ rfl] at h
      have ht := congrArg (fun p => p.2.trace) h
      simp only [Task.andThen_ok, World.deliver_trace, List.nil_append, List.take_length] at ht
      rw [(sent_injective .client).list_map ht]
    | err e => simp [hr] at h
    | panic => simp [hr] at h
  · intro hr env w hw
    rw [run_sendFinalResponse, hr, Task.andThen_ok, run_client_writeAll, written_of_none _ hw]
    rfl

/-- Every reply is sent and reads back, except one with a name of 255 bytes, which panics. -/
theorem reply_reads_back_iff (err : Socks5Error) (addr : ReqAddr) (dest : Destination)
    (hd : addr.destination? = some dest) :
    (∃ reply, SendsReply err addr reply ∧
      ∀ rest, decodeReply (reply ++ rest) = some (err.code, dest, addr.port, rest)) ↔
        dest.FitsReply := by
  rcases dest.encode_length_cases with ⟨hf, hl⟩ | ⟨hf, hl⟩
  · refine iff_of_true ⟨encodeReply err.code dest addr.port, ?_, ?_⟩ hf
    · exact (sendsReply_iff err addr _).mpr (finalResponse_eq_encode err addr dest hd hl)
    · exact decodeReply_encode err.code dest addr.port
  · refine iff_of_false ?_ hf
    rintro ⟨reply, hs, -⟩
    have hp := (sendsReply_iff err addr reply).mp hs
    rw [finalResponse_panic err addr dest hd hl] at hp
    cases hp

theorem reply_reads_back_v6 :
    ∃ reply, SendsReply .success (.ip (.v6 ⟨0x2001, 0xdb8, 0, 0, 0, 0, 0, 1⟩ 443 0 0)) reply ∧
      ∀ rest, decodeReply (reply ++ rest) =
        some (0, .v6 ⟨0x2001, 0xdb8, 0, 0, 0, 0, 0, 1⟩, 443, rest) :=
  (reply_reads_back_iff .success _ _ rfl).mpr trivial

/-- No reply can carry a name of 255 bytes. -/
theorem longest_name_unsent :
    (asBytes ("".pushn 'a' 255)).length = 255 ∧
      ¬∃ reply, SendsReply .success (.domain ("".pushn 'a' 255) 80) reply := by
  have hp : finalResponse .success (.domain ("".pushn 'a' 255) 80) = .panic := by decide +kernel
  refine ⟨by decide +kernel, ?_⟩
  rintro ⟨reply, hs⟩
  have hr := (sendsReply_iff _ _ _).mp hs
  rw [hp] at hr
  cases hr

end Rocks
