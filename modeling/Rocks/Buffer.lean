import Mathlib.Data.List.Basic
import Rocks.Async

/-! Fixed-size buffers whose accesses panic out of bounds, and how a zeroed
buffer looks while it is filled from the front. -/
namespace Buffer

open Async

variable {ε α : Type}

/-- `[0u8; n]` -/
def zeroed (n : ℕ) : List UInt8 := List.replicate n 0

@[simp] theorem zeroed_length (n : ℕ) : (zeroed n).length = n := List.length_replicate

/-- `buf[i]` -/
def index (buf : List α) (i : ℕ) : Outcome ε α :=
  match buf[i]? with
  | some v => .ok v
  | none => .panic

/-- `&buf[a..b]` -/
def slice (buf : List α) (a b : ℕ) : Outcome ε (List α) :=
  if a ≤ b ∧ b ≤ buf.length then .ok ((buf.take b).drop a) else .panic

/-- `buf[i] = v` -/
def store (buf : List α) (i : ℕ) (v : α) : Outcome ε (List α) :=
  if i < buf.length then .ok (buf.set i v) else .panic

/-- The buffer after `src` has been written over it from position `a` on. -/
def splice (buf : List α) (a : ℕ) (src : List α) : List α :=
  buf.take a ++ src ++ buf.drop (a+src.length)

/-- `buf[a..b].copy_from_slice(src)` -/
def copyFromSlice (buf : List α) (a b : ℕ) (src : List α) : Outcome ε (List α) :=
  if a ≤ b ∧ b ≤ buf.length ∧ src.length = b-a then .ok (splice buf a src) else .panic

/-- A buffer of `n` elements, filled with `w` and then with zeros. -/
def filled (n : ℕ) (z : α) (w : List α) : List α := w ++ List.replicate (n-w.length) z

section filled

variable {n : ℕ} {z : α} {w : List α}

theorem zeroed_eq_filled (n : ℕ) : zeroed n = filled n 0 [] := by
  simp [zeroed, filled]

theorem filled_length (h : w.length ≤ n) : (filled n z w).length = n := by
  simp only [filled, List.length_append, List.length_replicate]
  omega

theorem index_filled (i : ℕ) (h : i < w.length) :
    index (filled n z w) i = (.ok w[i] : Outcome ε α) := by
  simp [index, filled, List.getElem?_append_left h, List.getElem?_eq_getElem h]

theorem store_filled {i : ℕ} (hi : i = w.length) (h : i < n) (v : α) :
    store (filled n z w) i v = (.ok (filled n z (w ++ [v])) : Outcome ε (List α)) := by
  subst hi
  have hr : n-w.length = (n-(w.length+1))+1 := by omega
  have hs : w.length < (filled n z w).length := by rw [filled_length (Nat.le_of_lt h)]; exact h
  rw [store, if_pos hs, filled, hr, List.replicate_succ, List.set_append_right _ _ (Nat.le_refl _)]
  simp [filled]

theorem store_filled_panic {i : ℕ} (hw : w.length ≤ n) (h : n ≤ i) (v : α) :
    store (filled n z w) i v = (.panic : Outcome ε (List α)) := by
  rw [store, filled_length hw, if_neg (by omega)]

theorem splice_filled (src : List α) :
    splice (filled n z w) w.length src = filled n z (w ++ src) := by
  simp [splice, filled, Nat.sub_add_eq]

theorem splice_zeroed (n : ℕ) (src : List UInt8) : splice (zeroed n) 0 src = filled n 0 src := by
  rw [zeroed_eq_filled]
  exact splice_filled src

theorem copyFromSlice_filled {a b : ℕ} (src : List α) (ha : a = w.length) (hb : b = a+src.length)
    (h : b ≤ n) :
    copyFromSlice (filled n z w) a b src = (.ok (filled n z (w ++ src)) : Outcome ε (List α)) := by
  subst ha
  have hl : w.length ≤ n := by omega
  rw [copyFromSlice, if_pos ⟨by omega, by rw [filled_length hl]; exact h, by omega⟩,
    splice_filled src]

theorem slice_filled {a b : ℕ} (hn : w.length ≤ n) (ha : a ≤ b) (hb : b ≤ w.length) :
    slice (filled n z w) a b = (.ok ((w.take b).drop a) : Outcome ε (List α)) := by
  rw [slice, if_pos ⟨ha, by rw [filled_length hn]; omega⟩, filled,
    List.take_append_of_le_length hb]

end filled

theorem slice_eq_ok {buf : List α} {a b : ℕ} (h : a ≤ b) (hb : b ≤ buf.length) :
    slice buf a b = (.ok ((buf.take b).drop a) : Outcome ε (List α)) := if_pos ⟨h, hb⟩

theorem slice_eq_panic {buf : List α} {a b : ℕ} (h : buf.length < b) :
    slice buf a b = (.panic : Outcome ε (List α)) := if_neg (by omega)

/-- What was just written reads back. -/
theorem slice_splice (buf src : List α) {k : ℕ} (hk : k = src.length) :
    slice (splice buf 0 src) 0 k = (.ok src : Outcome ε (List α)) := by
  subst hk
  rw [slice_eq_ok (by omega) (by simp [splice])]
  simp [splice]

end Buffer
