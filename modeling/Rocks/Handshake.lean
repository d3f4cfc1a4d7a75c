import Rocks.World
import Rocks.Rfc1928

/-! What the handshake does on an uncut client stream, by the kind of its bytes. -/
namespace Rocks
open Async Buffer Bytes Segments
open Socks5Connected ClientM

/-- A client whose stream has not been handed over. -/
abbrev held : Socks5Connected := ⟨some .client⟩

/-- The end of a run whose last operation was a write of `buf` to the client. -/
def written {ι : Type} (env : Env) (w : World ι) (buf : List UInt8) : Outcome Error Unit × World ι :=
  (if accepted (w.room .client) buf.length = buf.length then .ok () else .err (.io (env.writeError .client)),
    w.deliver .client buf (accepted (w.room .client) buf.length))

/-- A run after which the client still holds its stream. -/
abbrev holding {σ α : Type} (p : Outcome Error α × σ) : Outcome Error (α × Socks5Connected) × σ :=
  Task.andThen p (fun a s => (.ok (a, held), s))

section accesses

variable (env : Env) (w : Wire)

theorem run_client_readExact (buf bytes rest : List UInt8) (a b : ℕ) (hb : b ≤ buf.length)
    (hw : w.input .client = bytes ++ rest) (hl : a+bytes.length = b) :
    Task.run (wire env) ((readExact buf a b).run held) w =
      (.ok (splice buf a bytes, held), w.consume .client rest) := by
  have hs : slice buf a b = (.ok ((buf.take b).drop a) : Outcome Error (List UInt8)) :=
    slice_eq_ok (by omega) hb
  have ht : ((buf.take b).drop a).length = bytes.length := by simp; omega
  simp [readExact, hs, handler, hw, ht, takeExact_prefix]

theorem run_client_readExact_short (buf : List UInt8) (a b : ℕ) (hb : b ≤ buf.length) (ha : a ≤ b)
    (hw : (w.input .client).length < b-a) :
    Task.run (wire env) ((readExact buf a b).run held) w =
      (.err (.io (env.ending .client).readExactError), w.consume .client []) := by
  have hs : slice buf a b = (.ok ((buf.take b).drop a) : Outcome Error (List UInt8)) :=
    slice_eq_ok ha hb
  have ht : takeExact ((buf.take b).drop a).length (w.input .client) = (none, []) := by
    apply takeExact_short
    simp
    omega
  simp only [List.length_drop, List.length_take] at ht
  simp [readExact, hs, handler, ht]

theorem run_client_readExact_panic (buf : List UInt8) (a b : ℕ) (hb : buf.length < b) :
    Task.run (wire env) ((readExact buf a b).run held) w = (.panic, w) := by
  simp [readExact, slice_eq_panic hb]

theorem run_client_writeAll {ι : Type} (pull : ℕ → ι → Option (List UInt8) × ι) (w : World ι)
    (buf : List UInt8) :
    Task.run (handler pull env) ((writeAll buf).run held) w =
      holding (written env w buf) := by
  simp only [writeAll, written]
  split_ifs with h <;> simp [handler, h]

theorem written_of_none {ι : Type} {w : World ι} (hw : w.room .client = none) (buf : List UInt8) :
    written env w buf = (.ok (), w.deliver .client buf buf.length) := by
  simp [written, hw, accepted]

theorem written_eq_ok_iff {ι : Type} (w w' : World ι) (buf : List UInt8) :
    written env w buf = (.ok (), w') ↔
      accepted (w.room .client) buf.length = buf.length ∧ w.deliver .client buf buf.length = w' := by
  by_cases h : accepted (w.room .client) buf.length = buf.length <;> simp [written, h]

theorem written_ne_panic {ι : Type} (w : World ι) (buf : List UInt8) :
    (written env w buf).1 ≠ .panic := by
  simp only [written]
  split_ifs <;> simp

end accesses

theorem readGreeting_short {bs : List UInt8} (h : bs.length < 2) : readGreeting bs = .truncated := by
  match bs, h with
  | [], _ => rfl
  | [_], _ => rfl

/-- `authenticate_client` on any client stream. -/
theorem run_authenticateClient (env : Env) (w : Wire) :
    Task.run (wire env) (authenticateClient.run held) w =
      match readGreeting (w.input .client) with
      | .truncated => (.err (.io (env.ending .client).readExactError), w.consume .client [])
      | .notSocks5 p rest =>
        (.err (.fromDescription s!"Not SOCKS5 protocol - {p}"), w.consume .client rest)
      | .noMethod rest => Task.andThen (written env (w.consume .client rest) [5, 0xff])
          (fun _ w => (.err (.fromDescription "No supported method given"), w))
      | .accepted rest => holding (written env (w.consume .client rest) [5, 0]) := by
  -- the first read is of two bytes, the second of as many as the second byte says
  rcases Nat.lt_or_ge (w.input .client).length 2 with hl | hl
  · have hread := run_client_readExact_short env w (zeroed 256) 0 2 (by simp) (by omega) hl
    simp [authenticateClient, hread, readGreeting_short hl]
  · obtain ⟨p, n, rest, hw⟩ : ∃ p n rest, w.input .client = p :: n :: rest := by
      generalize w.input .client = bs at hl
      match bs, hl with
      | p :: n :: rest, _ => exact ⟨p, n, rest, rfl⟩
    have hread := run_client_readExact env w (zeroed 256) [p, n] rest 0 2 (by simp) hw rfl
    rw [splice_zeroed] at hread
    have h0 : index (filled 256 0 [p, n]) 0 = (.ok p : Outcome Error UInt8) := index_filled 0 (by simp)
    have h1 : index (filled 256 0 [p, n]) 1 = (.ok n : Outcome Error UInt8) := index_filled 1 (by simp)
    have hn : n.toNat < 256 := n.toNat_lt
    have hbuf : (filled 256 0 [p, n]).length = 256 := filled_length (by simp)
    by_cases hp : p = 5
    swap
    · simp [authenticateClient, hread, hw, readGreeting, hp, h0, socks5Protocol]
    subst hp
    rcases Nat.lt_or_ge rest.length n.toNat with hr | hr
    · have hread2 := run_client_readExact_short env (w.consume .client rest) (filled 256 0 [5, n]) 0
        n.toNat (by omega) (by omega) (by simpa using hr)
      simp [authenticateClient, hread, hread2, hw, readGreeting, hr, h0, h1, socks5Protocol]
    · have hlen : (rest.take n.toNat).length = n.toNat := List.length_take_of_le hr
      have hread2 := run_client_readExact env (w.consume .client rest) (filled 256 0 [5, n])
        (rest.take n.toNat) (rest.drop n.toNat) 0 n.toNat (by omega) (by simp) (by omega)
      have hslice : slice (splice (filled 256 0 [5, n]) 0 (rest.take n.toNat)) 0 n.toNat =
          (.ok (rest.take n.toNat) : Outcome Error (List UInt8)) := slice_splice _ _ hlen.symm
      -- the slice that is searched is exactly what the second read delivered
      by_cases hm : 0 ∈ rest.take n.toNat
      · simp [authenticateClient, hread, hread2, hslice, hw, readGreeting, Nat.not_lt.mpr hr, h0, h1,
          socks5Protocol, socks5NoAuth, hm, run_client_writeAll]
      · simp [authenticateClient, hread, hread2, hslice, hw, readGreeting, Nat.not_lt.mpr hr, h0, h1,
          socks5Protocol, socks5NoAuth, socks5NoAcceptableMethod, hm, run_client_writeAll]

end Rocks
