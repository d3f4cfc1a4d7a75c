import Rocks.Socks5

/-! The message formats of the protocol, written from the RFC and not from the code. -/
namespace Rocks
open Bytes

/-- A destination that a request or a reply can name. -/
inductive Destination
  | v4 (ip : Ipv4Addr)
  | v6 (ip : Ipv6Addr)
  | domain (name : String) (h : (asBytes name).length ≤ 255)

namespace Destination

/-- The destination with a port, as the program represents it. -/
def reqAddr : Destination → UInt16 → ReqAddr
  | v4 ip, port => .ip (.v4 ip port)
  | v6 ip, port => .ip (.v6 ip port 0 0)
  | domain name _, port => .domain name port

/-- `ATYP` and `ADDR`. -/
def encode : Destination → List UInt8
  | v4 ip => 1 :: ip.octets
  | v6 ip => 4 :: ip.segments.flatMap be16
  | domain name _ => 3 :: (asBytes name).length.toUInt8 :: asBytes name

end Destination

/-- `05 n m1..mn` -/
def encodeGreeting (methods : List UInt8) : List UInt8 :=
  5 :: methods.length.toUInt8 :: methods

/-- `05 01 RSV ATYP ADDR PORT` -/
def encodeRequest (rsv : UInt8) (dest : Destination) (port : UInt16) : List UInt8 :=
  [5, 1, rsv] ++ dest.encode ++ be16 port

/-- `05 REP 00 ATYP ADDR PORT` -/
def encodeReply (rep : UInt8) (dest : Destination) (port : UInt16) : List UInt8 :=
  [5, rep, 0] ++ dest.encode ++ be16 port

/-- `ADDR` for an `ATYP`, and what follows it. `none` stands for bytes that end
too early, an inner `none` for a name that is not text. -/
def decodeAddr (atyp : UInt8) (bs : List UInt8) : Option (Option Destination × List UInt8) :=
  match atyp, bs with
  | 1, a :: b :: c :: d :: rest => some (some (.v4 ⟨a, b, c, d⟩), rest)
  | 4, a :: a' :: b :: b' :: c :: c' :: d :: d' :: e :: e' :: f :: f' :: g :: g' :: h :: h' :: rest =>
    some (some (.v6 ⟨word a a', word b b', word c c', word d d', word e e', word f f',
      word g g', word h h'⟩), rest)
  | 3, len :: rest =>
    if rest.length < len.toNat then none
    else match fromUtf8 (rest.take len.toNat) with
      | some name =>
        if h : (asBytes name).length ≤ 255 then some (some (.domain name h), rest.drop len.toNat)
        else none
      | none => some (none, rest.drop len.toNat)
  | _, _ => none

def decodePort : List UInt8 → Option (UInt16 × List UInt8)
  | hi :: lo :: rest => some (word hi lo, rest)
  | _ => none

/-- What the bytes of a client start with. -/
inductive Greeting
  | truncated
  | notSocks5 (version : UInt8) (rest : List UInt8)
  | noMethod (rest : List UInt8)
  | accepted (rest : List UInt8)
deriving DecidableEq

def readGreeting : List UInt8 → Greeting
  | version :: n :: rest =>
    if version ≠ 5 then .notSocks5 version rest
    else if rest.length < n.toNat then .truncated
    else if 0 ∈ rest.take n.toNat then .accepted (rest.drop n.toNat)
    else .noMethod (rest.drop n.toNat)
  | _ => .truncated

/-- What the bytes after a greeting start with. A request whose command or address type
is not served is known by its first five bytes. -/
inductive Request
  | truncated
  | notSocks5 (version : UInt8) (rest : List UInt8)
  | otherCommand (rest : List UInt8)
  | unknownAddrType (rest : List UInt8)
  | invalidName (rest : List UInt8)
  | connect (dest : Destination) (port : UInt16) (rest : List UInt8)

def readRequest : List UInt8 → Request
  | version :: cmd :: _rsv :: atyp :: b0 :: rest =>
    if version ≠ 5 then .notSocks5 version rest
    else if cmd ≠ 1 then .otherCommand rest
    else if atyp ≠ 1 ∧ atyp ≠ 3 ∧ atyp ≠ 4 then .unknownAddrType rest
    else match decodeAddr atyp (b0 :: rest) with
      | none => .truncated
      | some (dest, rest) =>
        match decodePort rest, dest with
        | none, _ => .truncated
        | some (_, rest), none => .invalidName rest
        | some (port, rest), some dest => .connect dest port rest
  | _ => .truncated

theorem toUInt8_toNat {n : ℕ} (h : n ≤ 255) : n.toUInt8.toNat = n := by
  simp
  omega

theorem readGreeting_encode (methods rest : List UInt8) (h0 : 0 ∈ methods)
    (hl : methods.length ≤ 255) :
    readGreeting (encodeGreeting methods ++ rest) = .accepted rest := by
  have hn := toUInt8_toNat hl
  simp [readGreeting, encodeGreeting, hn, h0]

theorem readGreeting_eq_accepted {bs rest : List UInt8} (h : readGreeting bs = .accepted rest) :
    ∃ methods, 0 ∈ methods ∧ methods.length ≤ 255 ∧ bs = encodeGreeting methods ++ rest := by
  unfold readGreeting at h
  split at h
  · next version n tail =>
    split_ifs at h with hv hs h0
    obtain rfl := Greeting.accepted.inj h
    have hlen : (tail.take n.toNat).length = n.toNat := List.length_take_of_le (by omega)
    have hn : n.toNat < 256 := n.toNat_lt
    refine ⟨tail.take n.toNat, h0, by omega, ?_⟩
    have hb : (tail.take n.toNat).length.toUInt8 = n := by
      apply UInt8.toNat_inj.mp
      rw [toUInt8_toNat (by omega), hlen]
    rw [encodeGreeting, hb, not_not.mp hv]
    simp
  · cases h

theorem decodeAddr_domain (len : UInt8) (rest : List UInt8) :
    decodeAddr 3 (len :: rest) =
      if rest.length < len.toNat then none
      else match fromUtf8 (rest.take len.toNat) with
        | some name =>
          if h : (asBytes name).length ≤ 255 then some (some (.domain name h), rest.drop len.toNat)
          else none
        | none => some (none, rest.drop len.toNat) := rfl

theorem decodeAddr_encode (dest : Destination) (rest : List UInt8) :
    ∃ atyp addr, dest.encode = atyp :: addr ∧ addr ≠ [] ∧ (atyp = 1 ∨ atyp = 3 ∨ atyp = 4) ∧
      decodeAddr atyp (addr ++ rest) = some (some dest, rest) := by
  cases dest with
  | v4 ip => exact ⟨1, ip.octets, rfl, by simp [Ipv4Addr.octets], Or.inl rfl, rfl⟩
  | v6 ip =>
    refine ⟨4, _, rfl, by simp [Ipv6Addr.segments, be16], Or.inr (Or.inr rfl), ?_⟩
    simp [Ipv6Addr.segments, be16, decodeAddr, word_be16]
  | domain name h =>
    have hn := toUInt8_toNat h
    refine ⟨3, _, rfl, by simp, Or.inr (Or.inl rfl), ?_⟩
    have ht : (asBytes name ++ rest).take (asBytes name).length = asBytes name := by simp
    have hd : (asBytes name ++ rest).drop (asBytes name).length = rest := by simp
    rw [List.cons_append, decodeAddr_domain, hn, if_neg (by simp), ht, hd, fromUtf8_asBytes]
    simp only [h, ↓reduceDIte]

theorem decodePort_be16 (port : UInt16) (rest : List UInt8) :
    decodePort (be16 port ++ rest) = some (port, rest) := by
  simp [decodePort, be16, word_be16]

theorem readRequest_encode (rsv : UInt8) (dest : Destination) (port : UInt16)
    (rest : List UInt8) :
    readRequest (encodeRequest rsv dest port ++ rest) = .connect dest port rest := by
  obtain ⟨atyp, addr, he, hne, ht, hd⟩ := decodeAddr_encode dest (be16 port ++ rest)
  obtain ⟨b0, addr, rfl⟩ := List.exists_cons_of_ne_nil hne
  have hk : ¬(atyp ≠ 1 ∧ atyp ≠ 3 ∧ atyp ≠ 4) := by
    rintro ⟨h1, h3, h4⟩
    rcases ht with h | h | h <;> contradiction
  have hbs : encodeRequest rsv dest port ++ rest =
      5 :: 1 :: rsv :: atyp :: b0 :: (addr ++ (be16 port ++ rest)) := by
    simp [encodeRequest, he]
  rw [List.cons_append] at hd
  rw [hbs, readRequest, if_neg (by decide), if_neg (by decide), if_neg hk, hd]
  simp only [decodePort_be16]

theorem decodeAddr_eq_some {atyp : UInt8} {bs rest : List UInt8} {dest : Destination}
    (h : decodeAddr atyp bs = some (some dest, rest)) : atyp :: bs = dest.encode ++ rest := by
  unfold decodeAddr at h
  split at h
  · obtain ⟨rfl, rfl⟩ : _ = dest ∧ _ = rest := by simpa using h
    rfl
  · obtain ⟨rfl, rfl⟩ : _ = dest ∧ _ = rest := by simpa using h
    simp [Destination.encode, Ipv6Addr.segments, be16_word]
  · next len tail =>
    split_ifs at h with hs
    split at h
    · next name hname =>
      split_ifs at h with hl
      obtain ⟨rfl, rfl⟩ : _ = dest ∧ _ = rest := by simpa using h
      have hb := asBytes_of_fromUtf8 hname
      have hlen : (asBytes name).length = len.toNat := by
        rw [hb]
        exact List.length_take_of_le (by omega)
      have hn : (asBytes name).length.toUInt8 = len := by
        apply UInt8.toNat_inj.mp
        rw [toUInt8_toNat hl, hlen]
      rw [Destination.encode, hn, hb]
      simp
    · simp at h
  · cases h

theorem decodePort_eq_some {bs rest : List UInt8} {port : UInt16}
    (h : decodePort bs = some (port, rest)) : bs = be16 port ++ rest := by
  unfold decodePort at h
  split at h
  · obtain ⟨rfl, rfl⟩ : _ = port ∧ _ = rest := by simpa using h
    simp [be16_word]
  · cases h

theorem decodePort_short {bs : List UInt8} (h : bs.length < 2) : decodePort bs = none := by
  match bs, h with
  | [], _ => rfl
  | [_], _ => rfl

/-- An IPv4 or IPv6 address takes its fixed number of bytes. -/
theorem decodeAddr_length {atyp : UInt8} {bs rest : List UInt8} {dest : Option Destination}
    (h : decodeAddr atyp bs = some (dest, rest)) :
    (atyp = 1 → bs.length = 4+rest.length) ∧ (atyp = 4 → bs.length = 16+rest.length) := by
  unfold decodeAddr at h
  split at h
  · obtain ⟨-, rfl⟩ : _ ∧ _ = rest := by simpa using h
    simp only [List.length_cons]
    exact ⟨fun _ => by omega, fun h => absurd h (by decide)⟩
  · obtain ⟨-, rfl⟩ : _ ∧ _ = rest := by simpa using h
    simp only [List.length_cons]
    exact ⟨fun h => absurd h (by decide), fun _ => by omega⟩
  · exact ⟨fun h => absurd h (by decide), fun h => absurd h (by decide)⟩
  · cases h

theorem readRequest_eq_connect {bs rest : List UInt8} {dest : Destination} {port : UInt16}
    (h : readRequest bs = .connect dest port rest) :
    ∃ rsv, bs = encodeRequest rsv dest port ++ rest := by
  unfold readRequest at h
  split at h
  · next version cmd rsv atyp b0 tail =>
    split_ifs at h with hv hc ht
    split at h
    · cases h
    · next d rest1 hd =>
      split at h
      · cases h
      · cases h
      · next p rest2 dest' hp =>
        obtain ⟨rfl, rfl, rfl⟩ := Request.connect.inj h
        refine ⟨rsv, ?_⟩
        rw [not_not.mp hv, not_not.mp hc, decodeAddr_eq_some hd, decodePort_eq_some hp]
        simp [encodeRequest]
  · cases h

end Rocks
