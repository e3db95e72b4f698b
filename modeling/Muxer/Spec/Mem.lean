import Mathlib.Data.List.Basic

/-!
# C memory on byte buffers

Fallible code runs in `Except Fault`: a failed `assert`, an access outside an array or the
use of an unset variable ends the run. A fixed-size array is a `Buffer n`, which carries its
size, and `memcpy_s` and `memmove_s` are `read` followed by `write`.
-/

namespace Muxer

/-- What stops or corrupts the process: a failed `assert`, an access outside an array, or the
use of a variable never set. -/
inductive Fault
  | assertion
  | bounds
  | uninit
deriving DecidableEq, Repr

abbrev Bytes := List UInt8

/-- `assert(p)`. -/
def cAssert (p : Prop) [Decidable p] : Except Fault Unit :=
  if p then .ok () else .error .assertion

/-- An array of `n` bytes. -/
@[ext] structure Buffer (n : ℕ) where
  bytes : Bytes
  size_eq : bytes.length = n

/-- `n` bytes from offset `off`. -/
def Buffer.read {k : ℕ} (b : Buffer k) (off n : ℕ) : Except Fault Bytes :=
  if off + n ≤ k then .ok ((b.bytes.drop off).take n) else .error .bounds

/-- `src` copied over the bytes from offset `off`. -/
def Buffer.write {k : ℕ} (b : Buffer k) (off : ℕ) (src : Bytes) : Except Fault (Buffer k) :=
  if h : off + src.length ≤ k then
    .ok ⟨b.bytes.take off ++ src ++ b.bytes.drop (off + src.length), by
      have := b.size_eq
      simp only [List.length_append, List.length_take, List.length_drop]
      omega⟩
  else .error .bounds

/-- The byte at `i`. -/
def Buffer.get {k : ℕ} (b : Buffer k) (i : ℕ) : Except Fault UInt8 :=
  if h : i < b.bytes.length then .ok b.bytes[i] else .error .bounds

/-- `b[i] |= v`. -/
def Buffer.or {k : ℕ} (b : Buffer k) (i : ℕ) (v : UInt8) : Except Fault (Buffer k) :=
  if h : i < b.bytes.length then
    .ok ⟨b.bytes.set i (b.bytes[i] ||| v), by rw [List.length_set, b.size_eq]⟩
  else .error .bounds

/-- `MEMZERO` of a whole array. -/
def Buffer.zero (n : ℕ) : Buffer n := ⟨List.replicate n 0, by simp⟩

/-- A sequence returns when both parts do. -/
theorem bind_eq_ok {α β : Type} {x : Except Fault α} {f : α → Except Fault β} {b : β} :
    x >>= f = .ok b ↔ ∃ a, x = .ok a ∧ f a = .ok b := by
  cases x <;> simp [bind, Except.bind]

theorem cAssert_ok {p : Prop} [Decidable p] (h : p) : cAssert p = .ok () := if_pos h

theorem cAssert_eq_ok {p : Prop} [Decidable p] {u : Unit} : cAssert p = .ok u ↔ p := by
  unfold cAssert; split <;> simp_all

theorem cAssert_not {p : Prop} [Decidable p] (h : ¬p) : cAssert p = .error .assertion := if_neg h

variable {k : ℕ} {b : Buffer k}

theorem Buffer.read_ok {off n : ℕ} (h : off + n ≤ k) :
    b.read off n = .ok ((b.bytes.drop off).take n) := if_pos h

/-- A prefix is read as it stands. -/
theorem Buffer.read_zero {n : ℕ} (h : n ≤ k) : b.read 0 n = .ok (b.bytes.take n) := by
  rw [Buffer.read_ok (by omega), List.drop_zero]

theorem Buffer.write_ok (b : Buffer k) (off : ℕ) (src : Bytes) (h : off + src.length ≤ k) :
    ∃ b', b.write off src = .ok b' ∧
      b'.bytes = b.bytes.take off ++ src ++ b.bytes.drop (off + src.length) := by
  unfold Buffer.write
  rw [dif_pos h]
  exact ⟨_, rfl, rfl⟩

/-- Copying to the start of an array makes the copied bytes its prefix. -/
theorem Buffer.write_zero (b : Buffer k) (src : Bytes) (h : src.length ≤ k) :
    ∃ b', b.write 0 src = .ok b' ∧ b'.bytes.take src.length = src := by
  obtain ⟨b', hb, hbytes⟩ := b.write_ok 0 src (by omega)
  exact ⟨b', hb, by rw [hbytes]; simp⟩

end Muxer
