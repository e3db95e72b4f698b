import Mathlib.Data.Nat.Bitwise
import Muxer.Proof.BitStream

/-!
# Integers in a bit stream

A non-negative number is emitted as its significant bits, in two halves of 32 bits and each
half in a partial byte and whole bytes; a signed one as the number of its bytes followed by
its two's complement.

* `emits_nonNegativeIntegerNeg`: the halves join, also when the bits are negated.
* `emits_unConstraintWholeNumber`: the bytes of a signed number.
-/

namespace Muxer

open Muxer.Lib

variable {n k : ℕ}

/-! ## Counting bits -/

/-- The loop over the mask finds the highest bit that is set. -/
theorem skipZeros_eq {v : UInt32} {cc : ℕ} {curMask : UInt32} (hpos : 0 < v.toNat)
    (hlt : v.toNat < 2 ^ cc) (hmask : curMask.toNat = 2 ^ (cc - 1)) :
    skipZeros v cc curMask = v.toNat.size := by
  induction cc generalizing curMask with
  | zero =>
    rw [Nat.pow_zero] at hlt
    omega
  | succ cc ih =>
    have hand : v &&& curMask = 0 ↔ v.toNat.testBit cc = false := by
      rw [← UInt32.toNat_inj, UInt32.toNat_and, hmask, Nat.add_sub_cancel, Nat.and_two_pow]
      cases v.toNat.testBit cc <;> simp
    rw [skipZeros]
    -- a clear top bit is skipped, and the mask moves down by one
    by_cases hbit : v.toNat.testBit cc = false
    · have hlt' : v.toNat < 2 ^ cc := by
        rw [Nat.testBit_eq_decide_div_mod_eq, decide_eq_false_iff_not] at hbit
        have hdiv : v.toNat / 2 ^ cc < 2 := by
          rw [Nat.div_lt_iff_lt_mul (Nat.two_pow_pos cc), ← Nat.pow_succ']
          exact hlt
        by_contra hge
        have := (Nat.le_div_iff_mul_le (Nat.two_pow_pos cc)).2
          (show 1 * 2 ^ cc ≤ v.toNat by omega)
        omega
      rw [if_pos (hand.2 hbit), ih hlt']
      rw [UInt32.toNat_shiftRight, hmask, Nat.add_sub_cancel, Nat.shiftRight_eq_div_pow]
      cases cc with
      | zero =>
        rw [Nat.pow_zero] at hlt'
        omega
      | succ cc => exact Nat.pow_div (by simp) (by omega)
    · rw [if_neg fun h => hbit (hand.1 h)]
      have hge : 2 ^ cc ≤ v.toNat := Nat.ge_two_pow_of_testBit (by simpa using hbit)
      have := Nat.size_le.2 hlt
      have := Nat.lt_size.2 hge
      omega

theorem countShifts_eq (v ret : ℕ) : countShifts v ret = ret + v.size := by
  induction v using Nat.strong_induction_on generalizing ret with
  | _ v ih =>
    rw [countShifts]
    rcases Nat.eq_zero_or_pos v with rfl | hv
    · rfl
    · have hsize := size_div_two_pow v 1
      have := Nat.size_pos.2 hv
      rw [if_pos hv, Nat.shiftRight_eq_div_pow, ih _ (by omega), hsize]
      omega

theorem getNumberOfBits32_eq (v : UInt32) :
    getNumberOfBitsForNonNegativeInteger32 v = v.toNat.size := by
  have hsize : ∀ m, 2 ^ m ≤ v.toNat → m + (v.toNat >>> m).size = v.toNat.size := by
    intro m hm
    have := Nat.lt_size.2 hm
    rw [Nat.shiftRight_eq_div_pow, size_div_two_pow]
    omega
  unfold getNumberOfBitsForNonNegativeInteger32
  simp only [UInt32.lt_iff_toNat_lt, UInt32.toNat_ofNat]
  split
  · rw [countShifts_eq, Nat.zero_add]
  split
  · rw [countShifts_eq, hsize 8 (by omega)]
  split
  · rw [countShifts_eq, hsize 16 (by omega)]
  · rw [countShifts_eq, hsize 24 (by omega)]

theorem toNat_hi (v : UInt64) : (v >>> 32).toUInt32.toNat = v.toNat / 2 ^ 32 := by
  have := v.toNat_lt
  rw [UInt64.toNat_toUInt32, UInt64.toNat_shiftRight, Nat.shiftRight_eq_div_pow]
  rw [show UInt64.toNat 32 % 64 = 32 by rfl]
  omega

/-- `GetNumberOfBitsForNonNegativeInteger` counts the significant bits. -/
theorem getNumberOfBits_eq (v : UInt64) :
    getNumberOfBitsForNonNegativeInteger v = v.toNat.size := by
  unfold getNumberOfBitsForNonNegativeInteger
  simp only [UInt64.lt_iff_toNat_lt, UInt64.toNat_ofNat]
  split
  next h =>
    rw [getNumberOfBits32_eq, UInt64.toNat_toUInt32, Nat.mod_eq_of_lt (by omega)]
  next h =>
    have := Nat.lt_size.2 (show 2 ^ 32 ≤ v.toNat by omega)
    rw [getNumberOfBits32_eq, toNat_hi, size_div_two_pow]
    omega

/-! ## Non-negative numbers -/

/-- The byte `k` of a number, cut out with a mask. -/
theorem toNat_octet (v : UInt32) (hk : k < 4) :
    (UInt8.ofNat ((v &&& masks2.getD (k + 1) 0).toNat >>> (8 * k))).toNat =
      v.toNat / 2 ^ (8 * k) % 2 ^ 8 := by
  have hmask : (masks2.getD (k + 1) 0).toNat >>> (8 * k) = 2 ^ 8 - 1 := by
    interval_cases k <;> rfl
  rw [UInt8.toNat_ofNat', UInt32.toNat_and, Nat.shiftRight_and_distrib, hmask,
    Nat.and_two_pow_sub_one_eq_mod, Nat.mod_mod, Nat.shiftRight_eq_div_pow]

theorem emits_octets (v : UInt32) (negate : Bool) (hk : k ≤ 4) :
    Emits (n := n) (appendOctets v negate k) (negated negate (natBits (8 * k) v.toNat)) := by
  induction k with
  | zero =>
    have : negated negate (natBits (8 * 0) v.toNat) = [] := by
      unfold negated
      split <;> rfl
    rw [this]
    exact emits_nil
  | succ k ih =>
    rw [show 8 * (k + 1) = 8 + 8 * k by omega, natBits_add, negated_append, ← natBits_mod 8,
      ← toNat_octet v (by omega)]
    exact (emits_byte _ negate).bind (ih (by omega))

/-- The cascade over the size of the number skips its leading zeros. -/
theorem skipZeros_cascade {v : UInt32} (hpos : 0 < v.toNat) :
    (if v < 0x100 then skipZeros v 8 0x80
      else if v < 0x10000 then skipZeros v 16 0x8000
      else if v < 0x1000000 then skipZeros v 24 0x800000
      else skipZeros v 32 0x80000000) = v.toNat.size := by
  simp only [UInt32.lt_iff_toNat_lt, UInt32.toNat_ofNat]
  have := v.toNat_lt
  split
  · exact skipZeros_eq hpos (by omega) rfl
  split
  · exact skipZeros_eq hpos (by omega) rfl
  split
  · exact skipZeros_eq hpos (by omega) rfl
  · exact skipZeros_eq hpos (by omega) rfl

/-- The bits above the whole bytes make a partial byte. -/
theorem emits_topBits (v : UInt32) (negate : Bool) (hp : v.toNat.size % 8 ≠ 0) :
    Emits (n := n)
      (appendPartialByte · (UInt8.ofNat (v.toNat >>> (8 * (v.toNat.size / 8)))) (v.toNat.size % 8)
        negate)
      (negated negate
        (natBits (v.toNat.size % 8) (v.toNat >>> (8 * (v.toNat.size / 8))))) := by
  have htop : v.toNat >>> (8 * (v.toNat.size / 8)) < 2 ^ (v.toNat.size % 8) := by
    rw [Nat.shiftRight_eq_div_pow, ← Nat.size_le, size_div_two_pow]
    omega
  have hbyte : (UInt8.ofNat (v.toNat >>> (8 * (v.toNat.size / 8)))).toNat =
      v.toNat >>> (8 * (v.toNat.size / 8)) := by
    have : 2 ^ (v.toNat.size % 8) ≤ 2 ^ 8 := Nat.pow_le_pow_right (by omega) (by omega)
    rw [UInt8.toNat_ofNat', Nat.mod_eq_of_lt (by omega)]
  have hpartial := emits_partialByte (n := n) (k := v.toNat.size % 8) (by omega) (by omega)
    (by rw [hbyte]; exact htop) negate
  rwa [hbyte] at hpartial

theorem emits_nonNegativeInteger32Neg (v : UInt32) (negate : Bool) :
    Emits (n := n) (encodeNonNegativeInteger32Neg · v negate)
      (negated negate (natBits v.toNat.size v.toNat)) := by
  unfold encodeNonNegativeInteger32Neg
  by_cases hv : v = 0
  · subst hv
    simp only [if_pos]
    have : negated negate (natBits (UInt32.toNat 0).size (UInt32.toNat 0)) = [] := by
      unfold negated
      split <;> rfl
    rw [this]
    exact emits_nil
  · have hpos : 0 < v.toNat := by
      rw [Nat.pos_iff_ne_zero]
      exact fun h => hv (UInt32.toNat_inj.1 h)
    simp only [if_neg hv, skipZeros_cascade hpos]
    have hle : v.toNat.size ≤ 32 := Nat.size_le.2 v.toNat_lt
    by_cases hp : v.toNat.size % 8 = 0
    · simp only [hp, ne_eq, not_true_eq_false, if_false]
      have h8 : v.toNat.size = 8 * (v.toNat.size / 8) := by omega
      rw [show natBits v.toNat.size v.toNat = natBits (8 * (v.toNat.size / 8)) v.toNat by
        rw [← h8]]
      exact emits_octets v negate (by omega)
    · simp only [ne_eq, hp, not_false_eq_true, if_true]
      have hcc8 : v.toNat.size - v.toNat.size % 8 = 8 * (v.toNat.size / 8) := by omega
      have hsplit : natBits v.toNat.size v.toNat =
          natBits (v.toNat.size % 8) (v.toNat >>> (8 * (v.toNat.size / 8))) ++
            natBits (8 * (v.toNat.size / 8)) v.toNat := by
        rw [Nat.shiftRight_eq_div_pow, ← natBits_add]
        congr 1
        omega
      rw [hsplit, negated_append, hcc8, Nat.mul_div_cancel_left _ (by omega : 0 < 8)]
      exact (emits_topBits v negate hp).bind
        (emits_octets v negate (show v.toNat.size / 8 ≤ 4 by omega))

/-- The lower half, which has leading zeros to keep. -/
theorem emits_lowerHalf (lo : UInt32) :
    Emits (n := n)
      (fun s => encodeNonNegativeInteger32Neg
        (appendNBitZero s (32 - getNumberOfBitsForNonNegativeInteger lo.toUInt64)) lo false)
      (natBits 32 lo.toNat) := by
  have hsize : getNumberOfBitsForNonNegativeInteger lo.toUInt64 = lo.toNat.size := by
    rw [getNumberOfBits_eq, UInt32.toNat_toUInt64]
  rw [hsize, ← replicate_append_size (Nat.size_le.2 lo.toNat_lt)]
  exact (emits_nonNegativeInteger32Neg lo false).after_zeros _

/-- **The halves join to the significant bits of the number, negated or not.** -/
theorem emits_nonNegativeIntegerNeg (v : UInt64) (negate : Bool) :
    Emits (n := n) (encodeNonNegativeIntegerNeg · v negate)
      (negated negate (natBits v.toNat.size v.toNat)) := by
  unfold encodeNonNegativeIntegerNeg
  by_cases hv : v < 0x100000000
  · simp only [if_pos hv]
    have hlt : v.toNat < 2 ^ 32 := UInt64.lt_iff_toNat_lt.1 hv
    have hlo : v.toUInt32.toNat = v.toNat := by
      rw [UInt64.toNat_toUInt32, Nat.mod_eq_of_lt hlt]
    rw [← hlo]
    exact emits_nonNegativeInteger32Neg v.toUInt32 negate
  · simp only [if_neg hv]
    have hge : 2 ^ 32 ≤ v.toNat := by
      rw [UInt64.lt_iff_toNat_lt] at hv
      exact Nat.le_of_not_lt hv
    have hlt := Nat.lt_size.2 hge
    have hhi := toNat_hi v
    have hlo : v.toUInt32.toNat = v.toNat % 2 ^ 32 := UInt64.toNat_toUInt32 v
    have hsplit : natBits v.toNat.size v.toNat =
        natBits (v >>> 32).toUInt32.toNat.size (v >>> 32).toUInt32.toNat ++
          natBits 32 v.toUInt32.toNat := by
      rw [hhi, hlo, natBits_mod, size_div_two_pow, ← natBits_add]
      congr 1
      omega
    -- the lower half is negated before it is encoded, so that its leading zeros stay zeros
    have hneg : negated negate (natBits 32 v.toUInt32.toNat) =
        natBits 32 (if negate then ~~~v.toUInt32 else v.toUInt32).toNat := by
      unfold negated
      cases negate with
      | false => rfl
      | true =>
        rw [if_pos rfl, if_pos rfl, ← natBits_compl v.toUInt32.toNat_lt, UInt32.toNat_not]
        rfl
    rw [hsplit, negated_append, hneg]
    exact (emits_nonNegativeInteger32Neg _ negate).bind (emits_lowerHalf _)

theorem encodeNonNegativeInteger_eq (v : UInt64) :
    (encodeNonNegativeInteger · v) = fun s : BitStream n => encodeNonNegativeIntegerNeg s v false :=
  rfl

theorem emits_nonNegativeInteger (v : UInt64) :
    Emits (n := n) (encodeNonNegativeInteger · v) (natBits v.toNat.size v.toNat) := by
  rw [encodeNonNegativeInteger_eq]
  exact emits_nonNegativeIntegerNeg v false

/-! ## Constrained and unconstrained numbers -/

/-- A number in its range is emitted in the bits of the range. -/
theorem emits_constraintWholeNumber {v min max : Int64} (hrange : min ≤ max)
    (hne : (max - min).toUInt64 ≠ 0) (hle : (v - min).toUInt64 ≤ (max - min).toUInt64) :
    Emits (n := n) (encodeConstraintWholeNumber · v min max)
      (natBits (max - min).toUInt64.toNat.size (v - min).toUInt64.toNat) := by
  unfold encodeConstraintWholeNumber
  simp only [cAssert_ok hrange, bind, Except.bind, if_neg hne, getNumberOfBits_eq]
  rw [← replicate_append_size (Nat.size_le_size (UInt64.le_iff_toNat_le.1 hle))]
  exact (emits_nonNegativeInteger _).after_zeros _

theorem nonneg_iff (v : Int64) : 0 ≤ v ↔ v.toUInt64.toNat < 2 ^ 63 := by
  have hnat : v.toInt = (v.toUInt64.toNat : ℤ).bmod (2 ^ 64) := by
    rw [← Int64.toInt_toBitVec, BitVec.toInt_eq_toNat_bmod]
    rfl
  have := v.toUInt64.toNat_lt
  rw [Int64.le_iff_toInt_le, hnat, Int.bmod_def]
  simp only [Int64.toInt_zero]
  omega

theorem toInt_eq (v : Int64) :
    v.toInt = if 0 ≤ v then (v.toUInt64.toNat : ℤ) else (v.toUInt64.toNat : ℤ) - 2 ^ 64 := by
  have hnat : v.toInt = (v.toUInt64.toNat : ℤ).bmod (2 ^ 64) := by
    rw [← Int64.toInt_toBitVec, BitVec.toInt_eq_toNat_bmod]
    rfl
  have hlt := v.toUInt64.toNat_lt
  have hnonneg := nonneg_iff v
  rw [hnat, Int.bmod_def]
  by_cases hv : 0 ≤ v
  · have := hnonneg.1 hv
    rw [if_pos hv]
    split <;> omega
  · have := mt hnonneg.2 hv
    rw [if_neg hv]
    split <;> omega

/-- Of a negative number the complement is encoded. -/
theorem toNat_complement (v : Int64) : (-v - 1).toUInt64.toNat = 2 ^ 64 - 1 - v.toUInt64.toNat := by
  have := v.toUInt64.toNat_lt
  rw [Int64.toUInt64_sub, Int64.toUInt64_neg, UInt64.toNat_sub, UInt64.toNat_neg]
  rw [show (Int64.toUInt64 1).toNat = 1 by rfl, show UInt64.size = 2 ^ 64 by rfl]
  omega

/-- `GetLengthSIntHelper` leaves room for a sign. -/
theorem getLengthSIntHelper_spec {w : UInt64} (hw : w.toNat < 2 ^ 63) :
    1 ≤ getLengthSIntHelper w ∧ getLengthSIntHelper w ≤ 8 ∧
      w.toNat < 2 ^ (8 * getLengthSIntHelper w - 1) := by
  have hhi := toNat_hi w
  have hlo : w.toUInt32.toNat = w.toNat % 2 ^ 32 := UInt64.toNat_toUInt32 w
  unfold getLengthSIntHelper
  by_cases hbig : w > 0x7FFFFFFF
  · simp only [if_pos hbig, UInt32.le_iff_toNat_le, hhi]
    have : w.toNat > 0x7FFFFFFF := UInt64.lt_iff_toNat_lt.1 hbig
    repeat' split
    all_goals simp only [UInt32.toNat_ofNat] at *; omega
  · simp only [if_neg hbig, UInt32.le_iff_toNat_le, hlo]
    have : ¬ w.toNat > 0x7FFFFFFF := fun h => hbig (UInt64.lt_iff_toNat_lt.2 h)
    repeat' split
    all_goals simp only [UInt32.toNat_ofNat] at *; omega

/-- How many bytes a signed number takes: enough for its magnitude and its sign. -/
theorem getLengthInBytesOfSInt_spec (v : Int64) :
    1 ≤ getLengthInBytesOfSInt v ∧ getLengthInBytesOfSInt v ≤ 8 ∧
      (0 ≤ v → v.toUInt64.toNat < 2 ^ (8 * getLengthInBytesOfSInt v - 1)) ∧
      (¬ 0 ≤ v → (-v - 1).toUInt64.toNat < 2 ^ (8 * getLengthInBytesOfSInt v - 1)) := by
  have hlt := v.toUInt64.toNat_lt
  unfold getLengthInBytesOfSInt
  by_cases hv : 0 ≤ v
  · obtain ⟨h1, h8, hw⟩ := getLengthSIntHelper_spec ((nonneg_iff v).1 hv)
    rw [if_pos hv]
    exact ⟨h1, h8, fun _ => hw, fun h => absurd hv h⟩
  · have hneg : (-v - 1).toUInt64.toNat < 2 ^ 63 := by
      rw [nonneg_iff] at hv
      rw [toNat_complement]
      omega
    obtain ⟨h1, h8, hw⟩ := getLengthSIntHelper_spec hneg
    rw [if_neg hv]
    exact ⟨h1, h8, fun h => absurd h hv, fun _ => hw⟩

/-- The encoding of a signed number: the number of its bytes, and its bytes. -/
def intBytes (v : Int64) : Bytes :=
  UInt8.ofNat (getLengthInBytesOfSInt v) :: natBytes (getLengthInBytesOfSInt v) v.toUInt64.toNat

theorem length_intBytes (v : Int64) : (intBytes v).length = getLengthInBytesOfSInt v + 1 := by
  rw [intBytes, List.length_cons, length_natBytes]

/-- A byte that stands for a number in a range of 256. -/
theorem emits_byteInRange {v : Int64} (min max : Int64) {b : UInt8} (hrange : min ≤ max)
    (h255 : (max - min).toUInt64 = 255) (hb : (v - min).toUInt64.toNat = b.toNat) :
    Emits (n := n) (encodeConstraintWholeNumber · v min max) (natBits 8 b.toNat) := by
  have hle : (v - min).toUInt64 ≤ (max - min).toUInt64 := by
    rw [UInt64.le_iff_toNat_le, hb, h255]
    exact Nat.le_of_lt_succ b.toNat_lt
  have h := emits_constraintWholeNumber (n := n) hrange (by rw [h255]; decide) hle
  rw [hb, h255] at h
  exact h

/-- **A signed number is emitted as its length in bytes and its two's complement.** -/
theorem emits_unConstraintWholeNumber (v : Int64) :
    Emits (n := n) (encodeUnConstraintWholeNumber · v) (bytesBits (intBytes v)) := by
  obtain ⟨h1, h8, hnonneg, hneg⟩ := getLengthInBytesOfSInt_spec v
  unfold intBytes encodeUnConstraintWholeNumber
  rw [bytesBits_cons, bytesBits_natBytes]
  apply Emits.bind
  · apply emits_byteInRange 0 255 (by decide) (by decide)
    rw [show Int64.ofNat (getLengthInBytesOfSInt v) - 0 = Int64.ofNat (getLengthInBytesOfSInt v) by
      rw [Int64.sub_zero], Int64.toUInt64_ofNat', UInt64.toNat_ofNat', UInt8.toNat_ofNat']
    omega
  · generalize getLengthInBytesOfSInt v = nb at *
    by_cases hv : 0 ≤ v
    · have hsize : v.toUInt64.toNat.size ≤ 8 * nb := by
        have := Nat.size_le.2 (hnonneg hv)
        omega
      simp only [if_pos hv, getNumberOfBits_eq]
      rw [← replicate_append_size hsize, Nat.mul_comm nb 8]
      exact (emits_nonNegativeInteger _).after_zeros _
    · have hsize : (-v - 1).toUInt64.toNat.size ≤ 8 * nb := by
        have := Nat.size_le.2 (hneg hv)
        omega
      have hbits : natBits (8 * nb) v.toUInt64.toNat =
          List.replicate (8 * nb - (-v - 1).toUInt64.toNat.size) true ++
            negated true (natBits (-v - 1).toUInt64.toNat.size (-v - 1).toUInt64.toNat) := by
        -- the bits of `v` are those of `-v - 1`, negated
        have hnot : natBits (8 * nb) v.toUInt64.toNat =
            (natBits (8 * nb) (-v - 1).toUInt64.toNat).map (!·) := by
          apply natBits_not
          intro i hi
          rw [toNat_complement, Nat.sub_sub, Nat.add_comm 1,
            Nat.testBit_two_pow_sub_succ v.toUInt64.toNat_lt]
          simp [show i < 64 by omega]
        rw [hnot, ← replicate_append_size hsize, List.map_append, List.map_replicate]
        rfl
      simp only [if_neg hv, getNumberOfBits_eq]
      rw [hbits, Nat.mul_comm nb 8]
      exact (emits_nBitOne _).bind (emits_nonNegativeIntegerNeg _ true)

/-! ## Reading whole bytes -/

/-- The position is at a byte boundary, with the bytes `rest` ahead. -/
structure Unread (s : BitStream n) (rest : Bytes) : Prop where
  aligned : s.currentBit = 0
  ahead : s.buf.bytes.drop s.currentByte = rest

variable {s : BitStream n} {b : UInt8} {rest : Bytes}

theorem readByte_ok (hu : Unread s (b :: rest)) :
    ∃ s', readByte s = .ok (true, b, s') ∧ Unread s' rest := by
  have hlen := congrArg List.length hu.ahead
  rw [List.length_drop, s.buf.size_eq, List.length_cons] at hlen
  have hlt : s.currentByte < s.buf.bytes.length := by
    rw [s.buf.size_eq]
    omega
  have hget : s.buf.bytes[s.currentByte] = b := by
    have := hu.ahead
    rw [List.drop_eq_getElem_cons hlt] at this
    exact (List.cons.inj this).1
  refine ⟨{ s with currentByte := s.currentByte + 1 }, ?_, hu.aligned, ?_⟩
  · have hin : BitStream.Inside { s with currentByte := s.currentByte + 1, currentBit := 0 } := by
      unfold BitStream.Inside
      simp only
      omega
    unfold readByte Buffer.get
    simp only [dif_pos hlt, hget, hu.aligned, bind, Except.bind, ne_eq, not_true_eq_false, if_false,
      pure, Except.pure, Nat.shiftLeft_zero, UInt8.ofNat_toNat]
    rw [decide_eq_true hin]
  · rw [← List.drop_drop, hu.ahead]
    rfl

theorem int64_ext {v w : Int64} (h : v.toUInt64.toNat = w.toUInt64.toNat) : v = w :=
  Int64.toBitVec_inj.1 (BitVec.eq_of_toNat_eq h)

/-- A byte that stands for a number in a range of 256. -/
theorem decodeByteInRange_ok (min max : Int64) (hrange : min ≤ max)
    (h255 : (max - min).toUInt64 = 255) (hu : Unread s (b :: rest)) :
    ∃ s', decodeConstraintWholeNumber s min max = .ok (true, Int64.ofNat b.toNat + min, s') ∧
      Unread s' rest := by
  obtain ⟨s', hs, hu'⟩ := readByte_ok hu
  have h8 : getNumberOfBitsForNonNegativeInteger 255 = 8 := by
    rw [getNumberOfBits_eq]
    rfl
  have hlo : decodeNonNegativeInteger32Neg s 0 8 = .ok (true, b.toUInt32, s') := by
    rw [decodeNonNegativeInteger32Neg]
    simp only [le_refl, if_true, hs, bind, Except.bind]
    rw [decodeNonNegativeInteger32Neg]
    simp
  refine ⟨s', ?_, hu'⟩
  unfold decodeConstraintWholeNumber decodeNonNegativeInteger
  simp only [cAssert_ok hrange, h255, h8, hlo, bind, Except.bind]
  have hval : b.toUInt64.toInt64 = Int64.ofNat b.toNat := by
    have := b.toNat_lt
    apply int64_ext
    rw [Int64.toUInt64_ofNat', UInt64.toNat_ofNat', Nat.mod_eq_of_lt (by omega)]
    rfl
  simp [hval]

/-- What `DecodeUnConstraintWholeNumber` makes of the bytes of a number. -/
def octetsVal (v : Int64) : ℕ → Bytes → Int64
  | _, [] => v
  | i, b :: bs =>
    octetsVal (((if i = 0 ∧ 0x7F < b then -1 else v) <<< 8) ||| b.toUInt64.toInt64) (i + 1) bs

theorem decodeOctets_ok {bs : Bytes} {v : Int64} {i : ℕ} (hu : Unread s (bs ++ rest)) :
    ∃ s', decodeOctets s v i bs.length = .ok (true, octetsVal v i bs, s') ∧ Unread s' rest := by
  induction bs generalizing s v i with
  | nil => exact ⟨s, rfl, hu⟩
  | cons b bs ih =>
    obtain ⟨s₁, hs₁, hu₁⟩ := readByte_ok hu
    obtain ⟨s', hs', hu'⟩ := ih (i := i + 1)
      (v := ((if i = 0 ∧ 0x7F < b then -1 else v) <<< 8) ||| b.toUInt64.toInt64) hu₁
    refine ⟨s', ?_, hu'⟩
    rw [List.length_cons, decodeOctets]
    simp only [hs₁, bind, Except.bind]
    exact hs'

/-- **Any bytes with enough of them after the length decode to a number.** -/
theorem decodeUnConstraintWholeNumber_ok (bs : Bytes) (hlen : bs.length < 256)
    (hu : Unread s (UInt8.ofNat bs.length :: (bs ++ rest))) :
    ∃ s', decodeUnConstraintWholeNumber s = .ok (true, octetsVal 0 0 bs, s') ∧ Unread s' rest := by
  obtain ⟨s₁, hs₁, hu₁⟩ := decodeByteInRange_ok 0 255 (by decide) (by decide) hu
  obtain ⟨s', hs', hu'⟩ := decodeOctets_ok (v := 0) (i := 0) hu₁
  refine ⟨s', ?_, hu'⟩
  have hnat : (Int64.ofNat (UInt8.ofNat bs.length).toNat + 0).toNatClampNeg = bs.length := by
    rw [Int64.add_zero, UInt8.toNat_ofNat', Nat.mod_eq_of_lt hlen]
    exact Int64.toNatClampNeg_ofNat_of_lt (by omega)
  unfold decodeUnConstraintWholeNumber
  simp only [hs₁, bind, Except.bind, hnat]
  exact hs'

/-- One byte more, in 64 bits. -/
theorem toNat_shift_or (v : Int64) (b : UInt8) :
    ((v <<< 8) ||| b.toUInt64.toInt64).toUInt64.toNat =
      (v.toUInt64.toNat * 256 + b.toNat) % 2 ^ 64 := by
  have hb : b.toNat < 2 ^ 8 := b.toNat_lt
  have hshift : (v.toUInt64.toNat <<< 8) % 2 ^ 64 = (v.toUInt64.toNat % 2 ^ 56) <<< 8 := by
    rw [Nat.shiftLeft_eq, Nat.shiftLeft_eq]
    omega
  have : ((v <<< 8) ||| b.toUInt64.toInt64).toUInt64.toNat =
      (v.toUInt64.toNat <<< 8) % 2 ^ 64 ||| b.toNat := by
    rw [Int64.toUInt64_or, UInt64.toNat_or]
    rfl
  rw [this, hshift, ← Nat.shiftLeft_add_eq_or_of_lt hb, Nat.shiftLeft_eq]
  omega

theorem octetsVal_succ (v : Int64) (i : ℕ) (bs : Bytes) :
    (octetsVal v (i + 1) bs).toUInt64.toNat = bytesVal v.toUInt64.toNat bs % 2 ^ 64 := by
  induction bs generalizing v i with
  | nil => exact (Nat.mod_eq_of_lt v.toUInt64.toNat_lt).symm
  | cons b bs ih =>
    rw [octetsVal, ih, if_neg (by omega), toNat_shift_or, bytesVal_mod, bytesVal]

/-- The bytes are read as a two's complement number, in 64 bits. -/
theorem octetsVal_zero (b : UInt8) (bs : Bytes) :
    (octetsVal 0 0 (b :: bs)).toUInt64.toNat =
      bytesVal (if 0x7F < b then 2 ^ 64 - 1 else 0) (b :: bs) % 2 ^ 64 := by
  rw [octetsVal, octetsVal_succ, toNat_shift_or, bytesVal_mod, bytesVal]
  by_cases hb : 0x7F < b
  · rw [if_pos ⟨rfl, hb⟩, if_pos hb]
    rfl
  · rw [if_neg fun h => hb h.2, if_neg hb]
    rfl

/-- **The bytes of a number are read as that number.** -/
theorem octetsVal_natBytes (v : Int64) :
    octetsVal 0 0 (natBytes (getLengthInBytesOfSInt v) v.toUInt64.toNat) = v := by
  obtain ⟨h1, h8, hnonneg, hneg⟩ := getLengthInBytesOfSInt_spec v
  rw [toNat_complement] at hneg
  have hlt := v.toUInt64.toNat_lt
  apply int64_ext
  generalize getLengthInBytesOfSInt v = nb at *
  obtain ⟨m, rfl⟩ : ∃ m, nb = m + 1 := ⟨nb - 1, by omega⟩
  have hm : m < 8 := by omega
  -- the first byte says the sign
  have hsign : 0x7F < UInt8.ofNat (v.toUInt64.toNat / 256 ^ m) ↔ ¬ 0 ≤ v := by
    rw [UInt8.lt_iff_toNat_lt, UInt8.toNat_ofNat', show UInt8.toNat 0x7F = 127 by rfl]
    constructor
    · intro h hv
      have := hnonneg hv
      interval_cases m <;> omega
    · intro hv
      have := hneg hv
      interval_cases m <;> omega
  have hcons : natBytes (m + 1) v.toUInt64.toNat =
      UInt8.ofNat (v.toUInt64.toNat / 256 ^ m) :: natBytes m v.toUInt64.toNat := rfl
  rw [hcons, octetsVal_zero, ← hcons, bytesVal_natBytes]
  by_cases hv : 0 ≤ v
  · have := hnonneg hv
    rw [if_neg fun h => hsign.1 h hv]
    interval_cases m <;> omega
  · have := hneg hv
    rw [if_pos (hsign.2 hv)]
    interval_cases m <;> omega

/-- **A signed number is decoded from its encoding.** -/
theorem decodeUnConstraintWholeNumber_intBytes (v : Int64) (hu : Unread s (intBytes v ++ rest)) :
    ∃ s', decodeUnConstraintWholeNumber s = .ok (true, v, s') ∧ Unread s' rest := by
  obtain ⟨_, h8, _⟩ := getLengthInBytesOfSInt_spec v
  have hlen := length_natBytes (getLengthInBytesOfSInt v) v.toUInt64.toNat
  have h := decodeUnConstraintWholeNumber_ok (s := s)
    (natBytes (getLengthInBytesOfSInt v) v.toUInt64.toNat) (by omega) (by rw [hlen]; exact hu)
  rwa [octetsVal_natBytes] at h

end Muxer
