import Mathlib.Data.List.Basic
import Mathlib.Tactic.Common

/-! Big-endian 16-bit words, and byte strings as UTF-8 text. -/
namespace Bytes

/-- The two bytes of a word, high byte first. -/
def be16 (w : UInt16) : List UInt8 := [(w >>> 8).toUInt8, w.toUInt8]

/-- `((hi as u16) << 8) | (lo as u16)` -/
def word (hi lo : UInt8) : UInt16 := (hi.toUInt16 <<< 8) ||| lo.toUInt16

theorem word_toNat (hi lo : UInt8) : (word hi lo).toNat = 256*hi.toNat+lo.toNat := by
  have hh : hi.toNat < 256 := hi.toNat_lt
  have hl : lo.toNat < 2^8 := lo.toNat_lt
  have hs : hi.toNat <<< 8 % 2^16 = 2^8*hi.toNat := by
    rw [Nat.shiftLeft_eq]
    omega
  calc (word hi lo).toNat = hi.toNat <<< 8 % 2^16 ||| lo.toNat := by simp [word]
    _ = 2^8*hi.toNat ||| lo.toNat := by rw [hs]
    _ = 256*hi.toNat+lo.toNat := (Nat.two_pow_add_eq_or_of_lt hl hi.toNat).symm

theorem word_be16 (w : UInt16) : word (w >>> 8).toUInt8 w.toUInt8 = w := by
  apply UInt16.toNat_inj.mp
  have hw : w.toNat < 65536 := w.toNat_lt
  rw [word_toNat]
  simp [Nat.shiftRight_eq_div_pow]
  omega

theorem be16_word (hi lo : UInt8) : be16 (word hi lo) = [hi, lo] := by
  have hh : hi.toNat < 256 := hi.toNat_lt
  have hl : lo.toNat < 256 := lo.toNat_lt
  have h1 : (word hi lo >>> 8).toUInt8 = hi := by
    apply UInt8.toNat_inj.mp
    simp [word_toNat, Nat.shiftRight_eq_div_pow]
    omega
  have h2 : (word hi lo).toUInt8 = lo := by
    apply UInt8.toNat_inj.mp
    simp [word_toNat]
  rw [be16, h1, h2]

/-- The bytes of a text. -/
def asBytes (s : String) : List UInt8 := s.toByteArray.data.toList

/-- The text of well-formed UTF-8, nothing for any other bytes. -/
def fromUtf8 (bs : List UInt8) : Option String := String.fromUTF8? ⟨bs.toArray⟩

theorem fromUtf8_asBytes (s : String) : fromUtf8 (asBytes s) = some s := by
  have h : (⟨(asBytes s).toArray⟩ : ByteArray) = s.toByteArray := rfl
  unfold fromUtf8 String.fromUTF8?
  rw [h, dif_pos s.isValidUTF8]
  rfl

theorem asBytes_of_fromUtf8 {bs : List UInt8} {s : String} (h : fromUtf8 bs = some s) :
    asBytes s = bs := by
  unfold fromUtf8 String.fromUTF8? at h
  split at h
  · obtain rfl := Option.some.inj h
    rfl
  · cases h

end Bytes
