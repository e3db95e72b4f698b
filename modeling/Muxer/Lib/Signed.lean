import Muxer.Lib.Bits
import Mathlib.Tactic.Linarith

/-!
# Numbers in two's complement

A byte string, most significant byte first, denotes a signed number: the number of its bytes, less
`256 ^ k` if the first of its `k` bytes has its top bit set.

* `signedVal_bounds`: `k` bytes denote a number from `-2 ^ (8 * k - 1)` to `2 ^ (8 * k - 1) - 1`.
* `signedVal_injective`: byte strings of one length denote different numbers.
-/

namespace Muxer.Lib

variable {as bs : List UInt8}

/-- The signed number a byte string denotes. -/
def signedVal : List UInt8 → ℤ
  | [] => 0
  | b :: bs => bytesVal 0 (b :: bs) - if 0x7F < b then 256 ^ (bs.length + 1) else 0

/-- The number in front moves up by the bytes that follow it. -/
theorem bytesVal_eq (v : ℕ) (bs : List UInt8) :
    bytesVal v bs = v * 256 ^ bs.length + bytesVal 0 bs := by
  induction bs generalizing v with
  | nil => simp [bytesVal]
  | cons b bs ih =>
    rw [bytesVal, bytesVal, ih, ih (0 * 256 + b.toNat), List.length_cons, Nat.pow_succ]
    ring

theorem bytesVal_cons (b : UInt8) (bs : List UInt8) :
    bytesVal 0 (b :: bs) = b.toNat * 256 ^ bs.length + bytesVal 0 bs := by
  rw [bytesVal, bytesVal_eq, Nat.zero_mul, Nat.zero_add]

theorem bytesVal_lt (bs : List UInt8) : bytesVal 0 bs < 256 ^ bs.length := by
  induction bs with
  | nil => simp [bytesVal]
  | cons b bs ih =>
    have hb : b.toNat + 1 ≤ 256 := b.toNat_lt
    have hmul : (b.toNat + 1) * 256 ^ bs.length ≤ 256 * 256 ^ bs.length :=
      Nat.mul_le_mul_right _ hb
    rw [Nat.add_mul, Nat.one_mul] at hmul
    rw [bytesVal_cons, List.length_cons, Nat.pow_succ]
    omega

/-- **Byte strings of one length denote different numbers.** -/
theorem bytesVal_injective (hlen : as.length = bs.length) (h : bytesVal 0 as = bytesVal 0 bs) :
    as = bs := by
  induction as generalizing bs with
  | nil => exact (List.length_eq_zero_iff.1 hlen.symm).symm
  | cons a as ih =>
    obtain _ | ⟨b, bs⟩ := bs
    · cases hlen
    have hlen' : as.length = bs.length := Nat.succ.inj hlen
    rw [bytesVal_cons, bytesVal_cons, hlen'] at h
    have has := bytesVal_lt as
    have hbs := bytesVal_lt bs
    rw [hlen'] at has
    -- the first bytes are the quotients, the other bytes denote the remainders
    have hdiv : ∀ {x y : ℕ}, y < 256 ^ bs.length →
        (x * 256 ^ bs.length + y) / 256 ^ bs.length = x := by
      intro x y hy
      rw [Nat.mul_comm, Nat.mul_add_div (by positivity), Nat.div_eq_of_lt hy, Nat.add_zero]
    have hfirst : a.toNat = b.toNat := by
      have hquot := congrArg (· / 256 ^ bs.length) h
      simp only [hdiv has, hdiv hbs] at hquot
      exact hquot
    rw [hfirst, Nat.add_left_cancel_iff] at h
    rw [UInt8.toNat_inj.1 hfirst, ih hlen' h]

theorem signedVal_cons (b : UInt8) (bs : List UInt8) :
    signedVal (b :: bs) =
      (b.toNat - if 0x7F < b then 256 else 0) * 256 ^ bs.length + (bytesVal 0 bs : ℤ) := by
  rw [signedVal, bytesVal_cons]
  split
  · push_cast
    ring
  · push_cast
    ring

/-- **Bytes denote a number that their bits have room for.** -/
theorem signedVal_bounds (hbs : bs ≠ []) :
    -2 ^ (8 * bs.length - 1) ≤ signedVal bs ∧ signedVal bs < 2 ^ (8 * bs.length - 1) := by
  obtain ⟨b, bs, rfl⟩ := List.exists_cons_of_ne_nil hbs
  have hlt : (bytesVal 0 bs : ℤ) < 256 ^ bs.length := by exact_mod_cast bytesVal_lt bs
  have hpow : (2 : ℤ) ^ (8 * (b :: bs).length - 1) = 128 * 256 ^ bs.length := by
    rw [List.length_cons, show 8 * (bs.length + 1) - 1 = 7 + 8 * bs.length by omega, pow_add, pow_mul]
    norm_num
  have hpos : (0 : ℤ) < 256 ^ bs.length := by positivity
  -- the first byte stands for a number from -128 to 127
  have hfirst : -128 ≤ (b.toNat : ℤ) - (if 0x7F < b then 256 else 0) ∧
      (b.toNat : ℤ) - (if 0x7F < b then 256 else 0) ≤ 127 := by
    have hb := b.toNat_lt
    have h127 : 0x7F < b ↔ 127 < b.toNat := UInt8.lt_iff_toNat_lt
    by_cases hneg : 127 < b.toNat
    · rw [if_pos (h127.2 hneg)]
      omega
    · rw [if_neg fun h => hneg (h127.1 h)]
      omega
  rw [signedVal_cons, hpow]
  constructor <;> nlinarith

/-- **Byte strings of one length denote different signed numbers.** -/
theorem signedVal_injective (hlen : as.length = bs.length) (h : signedVal as = signedVal bs) :
    as = bs := by
  obtain _ | ⟨a, as⟩ := as
  · exact (List.length_eq_zero_iff.1 hlen.symm).symm
  obtain _ | ⟨b, bs⟩ := bs
  · cases hlen
  have hlen' : as.length = bs.length := Nat.succ.inj hlen
  have ha := bytesVal_lt (a :: as)
  have hb := bytesVal_lt (b :: bs)
  -- a number and the same number less `256 ^ k` are not both in bounds
  have hval : bytesVal 0 (a :: as) = bytesVal 0 (b :: bs) := by
    rw [List.length_cons] at ha hb
    rw [hlen'] at ha
    have ha' : (bytesVal 0 (a :: as) : ℤ) < 256 ^ (bs.length + 1) := by exact_mod_cast ha
    have hb' : (bytesVal 0 (b :: bs) : ℤ) < 256 ^ (bs.length + 1) := by exact_mod_cast hb
    rw [signedVal, signedVal, hlen'] at h
    split at h <;> split at h <;> omega
  exact bytesVal_injective hlen hval

end Muxer.Lib
