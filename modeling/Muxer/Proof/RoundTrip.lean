import Muxer.Proof.Codec

/-!
# Numbers are read back from any bit on

`Ahead s bs` says that the bits `bs` are the next ones of `s`; `Reads f bs x` that `f` takes these
bits for `x`. The reading functions take for a number what the appending functions emit for it, also
where a byte is spread over two of the array.

* `numbers_round_trip`: any numbers, appended one after the other, are read back.
-/

namespace Muxer

open Muxer.Lib

variable {n k : ℕ} {α : Type} {s : BitStream n} {bs cs : List Bool}

/-- The next bits. -/
structure Ahead (s : BitStream n) (bs : List Bool) : Prop where
  currentBit_lt : s.currentBit < 8
  fits : 8 * s.currentByte + s.currentBit + bs.length ≤ 8 * n
  bits : ∀ i < bs.length, s.buf.bit (8 * s.currentByte + s.currentBit + i) = bs.getD i false

/-- `f` takes the bits for `x`, and stops behind them. -/
def Reads (f : BitStream n → Except Fault (Bool × α × BitStream n)) (bs : List Bool) (x : α) : Prop :=
  ∀ s, Ahead s bs → f s = .ok (true, x, appendNBitZero s bs.length)

theorem appendNBitZero_zero (h : s.currentBit < 8) : appendNBitZero s 0 = s := by
  unfold appendNBitZero
  simp only [Nat.add_zero, Nat.mod_eq_of_lt h, Nat.div_eq_of_lt h]

theorem appendNBitZero_add (a b : ℕ) :
    appendNBitZero (appendNBitZero s a) b = appendNBitZero s (a + b) := by
  unfold appendNBitZero
  simp only [BitStream.mk.injEq, true_and]
  omega

theorem Ahead.append (h : Ahead s (bs ++ cs)) :
    Ahead s bs ∧ Ahead (appendNBitZero s bs.length) cs := by
  obtain ⟨hlt, hfits, hbits⟩ := h
  rw [List.length_append] at hfits hbits
  refine ⟨⟨hlt, by omega, ?_⟩, ⟨?_, ?_, ?_⟩⟩
  · intro i hi
    rw [hbits i (by omega), List.getD_append _ _ _ _ hi]
  · exact Nat.mod_lt _ (by omega)
  · simp only [appendNBitZero]
    omega
  · intro i hi
    have hbit := hbits (bs.length + i) (by omega)
    rw [List.getD_append_right _ _ _ _ (by omega), Nat.add_sub_cancel_left] at hbit
    rw [← hbit]
    simp only [appendNBitZero]
    congr 1
    omega

/-- A byte of the array, by its bits. -/
theorem Buffer.get_ok {b : Buffer n} {j : ℕ} (h : j < n) : ∃ x : UInt8, b.get j = .ok x ∧
    ∀ t < 8, x.toNat.testBit t = b.bit (8 * j + (7 - t)) := by
  have hj : j < b.bytes.length := by rwa [b.size_eq]
  refine ⟨b.bytes[j], dif_pos hj, ?_⟩
  intro t ht
  unfold Buffer.bit
  rw [getD_bytesBits, show (8 * j + (7 - t)) / 8 = j by omega,
    show 7 - (8 * j + (7 - t)) % 8 = t by omega, List.getD_eq_getElem _ _ hj]

/-- A byte is what its bits are. -/
theorem uint8_ext {x y : UInt8} (h : ∀ t < 8, x.toNat.testBit t = y.toNat.testBit t) : x = y := by
  apply UInt8.toNat_inj.1
  apply Nat.eq_of_testBit_eq
  intro t
  by_cases ht : t < 8
  · exact h t ht
  · have hpow : 2 ^ 8 ≤ 2 ^ t := Nat.pow_le_pow_right (by omega) (by omega)
    rw [Nat.testBit_lt_two_pow (Nat.lt_of_lt_of_le x.toNat_lt hpow),
      Nat.testBit_lt_two_pow (Nat.lt_of_lt_of_le y.toNat_lt hpow)]

/-- The byte that starts at the bit `c` of a byte of the array, and ends in the next one. -/
theorem Buffer.get_two {b : Buffer n} {j c : ℕ} (hc : c < 8) (h : j + 1 < n) :
    ∃ x y : UInt8, b.get j = .ok x ∧ b.get (j + 1) = .ok y ∧ ∀ t < 8,
      (UInt8.ofNat (x.toNat <<< c) ||| UInt8.ofNat (y.toNat >>> (8 - c))).toNat.testBit t =
        b.bit (8 * j + c + (7 - t)) := by
  obtain ⟨x, hx, hxbits⟩ := Buffer.get_ok (b := b) (j := j) (by omega)
  obtain ⟨y, hy, hybits⟩ := Buffer.get_ok (b := b) (j := j + 1) h
  refine ⟨x, y, hx, hy, ?_⟩
  intro t ht
  rw [UInt8.toNat_or, Nat.testBit_or, UInt8.toNat_ofNat', UInt8.toNat_ofNat',
    Nat.testBit_mod_two_pow, Nat.testBit_mod_two_pow, Nat.testBit_shiftLeft, Nat.testBit_shiftRight]
  by_cases hct : c ≤ t
  · -- the bits of the first byte, and none of the second
    have hnone : y.toNat.testBit (8 - c + t) = false :=
      Nat.testBit_lt_two_pow (Nat.lt_of_lt_of_le y.toNat_lt
        (Nat.pow_le_pow_right (by omega) (by omega)))
    rw [hnone, hxbits (t - c) (by omega), show 8 * j + (7 - (t - c)) = 8 * j + c + (7 - t) by omega]
    simp [ht, hct]
  · rw [hybits (8 - c + t) (by omega),
      show 8 * (j + 1) + (7 - (8 - c + t)) = 8 * j + c + (7 - t) by omega]
    simp [ht, hct]

/-- **A byte is read from any bit on.** -/
theorem reads_byte (b : UInt8) : Reads (n := n) readByte (natBits 8 b.toNat) b := by
  intro s h
  obtain ⟨hlt, hfits, hbits⟩ := h
  rw [length_natBits] at hfits hbits ⊢
  have hnext : appendNBitZero s 8 = { s with currentByte := s.currentByte + 1 } := by
    unfold appendNBitZero
    simp only [BitStream.mk.injEq, true_and]
    omega
  have hin : BitStream.Inside { s with currentByte := s.currentByte + 1 } := by
    unfold BitStream.Inside
    simp only
    omega
  have hb : ∀ t < 8, b.toNat.testBit t = s.buf.bit (8 * s.currentByte + s.currentBit + (7 - t)) := by
    intro t ht
    rw [hbits (7 - t) (by omega), getD_natBits, show 8 - 1 - (7 - t) = t by omega]
    simp
    omega
  rw [hnext]
  unfold readByte
  by_cases hcb : s.currentBit = 0
  · obtain ⟨x, hx, hxbits⟩ := Buffer.get_ok (b := s.buf) (j := s.currentByte) (by omega)
    have hxb : x = b := uint8_ext fun t ht => by rw [hxbits t ht, hb t ht, hcb, Nat.add_zero]
    simp only [hx, hcb, hxb, bind, Except.bind, ne_eq, not_true_eq_false, if_false, pure, Except.pure,
      Nat.shiftLeft_zero, UInt8.ofNat_toNat]
    rw [decide_eq_true (by rw [← hcb]; exact hin)]
  · obtain ⟨x, y, hx, hy, hxy⟩ := Buffer.get_two (b := s.buf) (j := s.currentByte) hlt (by omega)
    have hv := uint8_ext fun t ht => (hxy t ht).trans (hb t ht).symm
    simp only [hx, hy, hv, bind, Except.bind, ne_eq, hcb, not_false_eq_true, if_true, pure, Except.pure]
    rw [decide_eq_true hin]

theorem toNat_masksb (hk : k ≤ 8) : (masksb.getD k 0).toNat = 2 ^ k - 1 := by
  interval_cases k <;> rfl

/-- Less than a byte is read from any bit on. -/
theorem reads_partialByte {x : ℕ} (hk : 1 ≤ k) (hk' : k < 8) (hx : x < 2 ^ k) :
    Reads (n := n) (readPartialByte · k) (natBits k x) (UInt8.ofNat x) := by
  intro s h
  obtain ⟨hlt, hfits, hbits⟩ := h
  rw [length_natBits] at hfits hbits ⊢
  have hpow : 2 ^ k < 2 ^ 8 := Nat.pow_lt_pow_right (by omega) hk'
  have hb : ∀ t < k, x.testBit t = s.buf.bit (8 * s.currentByte + s.currentBit + (k - 1 - t)) := by
    intro t ht
    rw [hbits (k - 1 - t) (by omega), getD_natBits, show k - 1 - (k - 1 - t) = t by omega]
    simp
    omega
  -- what is left under the mask
  have hmask : ∀ v : UInt8, (∀ t < k, v.toNat.testBit t =
      s.buf.bit (8 * s.currentByte + s.currentBit + (k - 1 - t))) →
      v &&& masksb.getD k 0 = UInt8.ofNat x := by
    intro v hv
    apply uint8_ext
    intro t ht
    rw [UInt8.toNat_and, toNat_masksb (by omega), Nat.and_two_pow_sub_one_eq_mod,
      Nat.testBit_mod_two_pow, UInt8.toNat_ofNat', Nat.mod_eq_of_lt (by omega)]
    by_cases htk : t < k
    · rw [hv t htk, hb t htk]
      simp [htk]
    · rw [Nat.testBit_lt_two_pow (Nat.lt_of_lt_of_le hx (Nat.pow_le_pow_right (by omega) (by omega)))]
      simp [htk]
  have hin : BitStream.Inside (appendNBitZero s k) := by
    unfold BitStream.Inside appendNBitZero
    simp only
    omega
  unfold readPartialByte
  by_cases hone : s.currentBit + k ≤ 8
  · obtain ⟨y, hy, hybits⟩ := Buffer.get_ok (b := s.buf) (j := s.currentByte) (by omega)
    have hv := hmask (UInt8.ofNat (y.toNat >>> (8 - (s.currentBit + k)))) fun t ht => by
      rw [UInt8.toNat_ofNat', Nat.testBit_mod_two_pow, Nat.testBit_shiftRight, hybits _ (by omega),
        decide_eq_true (show t < 8 by omega), Bool.true_and]
      congr 1
      omega
    have hnext : (if s.currentBit + k = 8 then
        { s with currentByte := s.currentByte + 1, currentBit := 0 }
        else { s with currentBit := s.currentBit + k }) = appendNBitZero s k := by
      unfold appendNBitZero
      split
      · simp only [BitStream.mk.injEq, true_and]
        omega
      · simp only [BitStream.mk.injEq, true_and]
        omega
    simp only [if_pos hone, hy, bind, Except.bind, hv, hnext]
    rw [decide_eq_true hin]
  · obtain ⟨y, z, hy, hz, hyz⟩ := Buffer.get_two (b := s.buf) (j := s.currentByte)
      (c := s.currentBit + k - 8) (by omega) (by omega)
    have hv := hmask _ fun t ht => by
      rw [hyz t (by omega)]
      congr 1
      omega
    have hnext : appendNBitZero s k = { s with
        currentByte := s.currentByte + 1
        currentBit := s.currentBit + k - 8 } := by
      unfold appendNBitZero
      simp only [BitStream.mk.injEq, true_and]
      omega
    rw [hnext] at hin ⊢
    simp only [if_neg hone, hy, hz, bind, Except.bind, hv]
    rw [decide_eq_true hin]

/-! ## Numbers -/

/-- Bits more, in 32. -/
theorem toNat_shift_or32 {v : UInt32} {b : UInt8} (hk : k ≤ 8) (hb : b.toNat < 2 ^ k)
    (hv : v.toNat * 2 ^ k < 2 ^ 32) :
    ((v <<< UInt32.ofNat k) ||| b.toUInt32).toNat = v.toNat * 2 ^ k + b.toNat := by
  have hshift : (v <<< UInt32.ofNat k).toNat = v.toNat <<< k := by
    rw [UInt32.toNat_shiftLeft, UInt32.toNat_ofNat', Nat.shiftLeft_eq, Nat.shiftLeft_eq,
      Nat.mod_eq_of_lt (show k < 2 ^ 32 by omega), Nat.mod_eq_of_lt (show k < 32 by omega),
      Nat.mod_eq_of_lt hv]
  rw [UInt32.toNat_or, hshift, show b.toUInt32.toNat = b.toNat from rfl,
    ← Nat.shiftLeft_add_eq_or_of_lt hb, Nat.shiftLeft_eq]

/-- The bits of a number of at most 32, behind those of the number `v`. -/
theorem reads_nonNegativeInteger32Neg {x : ℕ} (v : UInt32) (hx : x < 2 ^ k)
    (hv : v.toNat * 2 ^ k + x < 2 ^ 32) :
    Reads (n := n) (decodeNonNegativeInteger32Neg · v k) (natBits k x)
      (UInt32.ofNat (v.toNat * 2 ^ k + x)) := by
  induction k using Nat.strong_induction_on generalizing x v with
  | _ k ih =>
    by_cases h8 : 8 ≤ k
    · -- a byte, and then the other bits
      obtain ⟨j, rfl⟩ : ∃ j, k = 8 + j := ⟨k - 8, by omega⟩
      rw [Nat.pow_add] at hx hv ⊢
      have hdiv : x / 2 ^ j < 2 ^ 8 := Nat.div_lt_of_lt_mul (by rw [Nat.mul_comm]; exact hx)
      have hb : (UInt8.ofNat (x / 2 ^ j)).toNat = x / 2 ^ j := by
        rw [UInt8.toNat_ofNat', Nat.mod_eq_of_lt hdiv]
      have hpos : 1 ≤ 2 ^ j := Nat.one_le_two_pow
      have hv8 : v.toNat * 2 ^ 8 < 2 ^ 32 := by
        have hle := Nat.mul_le_mul_left v.toNat (Nat.le_mul_of_pos_right (2 ^ 8) hpos)
        omega
      -- the byte goes behind the bits read so far
      have hnext := toNat_shift_or32 (v := v) (b := UInt8.ofNat (x / 2 ^ j)) (le_refl 8)
        (by rw [hb]; exact hdiv) hv8
      have hsum : (v.toNat * 2 ^ 8 + x / 2 ^ j) * 2 ^ j + x % 2 ^ j =
          v.toNat * (2 ^ 8 * 2 ^ j) + x := by
        have := Nat.div_add_mod' x (2 ^ j)
        rw [Nat.add_mul, Nat.add_assoc, this, Nat.mul_assoc]
      have hrest := ih j (by omega) (v := (v <<< UInt32.ofNat 8) ||| (UInt8.ofNat (x / 2 ^ j)).toUInt32)
        (Nat.mod_lt x hpos) (by rw [hnext, hb, hsum]; exact hv)
      rw [natBits_mod, hnext, hb, hsum] at hrest
      intro s h
      rw [natBits_add, ← hb] at h
      obtain ⟨hbyte, hbits⟩ := h.append
      have hdone := hrest _ hbits
      simp only [length_natBits, appendNBitZero_add] at hdone
      show decodeNonNegativeInteger32Neg s v (8 + j) = _
      rw [decodeNonNegativeInteger32Neg, if_pos h8]
      simp only [reads_byte _ s hbyte, bind, Except.bind, if_true, length_natBits,
        Nat.add_sub_cancel_left]
      exact hdone
    · intro s h
      show decodeNonNegativeInteger32Neg s v k = _
      rw [decodeNonNegativeInteger32Neg, if_neg h8]
      -- less than a byte is left, or nothing
      by_cases h0 : k = 0
      · subst h0
        have hx0 : x = 0 := by omega
        simp [hx0, appendNBitZero_zero h.currentBit_lt]
      · have hpow : 2 ^ k < 2 ^ 8 := Nat.pow_lt_pow_right (by omega) (by omega)
        have hb : (UInt8.ofNat x).toNat = x := by
          rw [UInt8.toNat_ofNat', Nat.mod_eq_of_lt (by omega)]
        have hread := reads_partialByte (by omega) (by omega) hx s h
        have hval := toNat_shift_or32 (k := k) (v := v) (b := UInt8.ofNat x) (by omega)
          (by rw [hb]; exact hx) (by omega)
        have hv' : (v <<< UInt32.ofNat k) ||| (UInt8.ofNat x).toUInt32 =
            UInt32.ofNat (v.toNat * 2 ^ k + x) := by
          apply UInt32.toNat_inj.1
          rw [hval, hb, UInt32.toNat_ofNat', Nat.mod_eq_of_lt hv]
        rw [if_pos h0]
        simp only [hread, bind, Except.bind, if_true, hv']

/-- Two numbers of at most 32 bits, one behind the other. -/
theorem toUInt64_join {hi lo j : ℕ} (hj : j ≤ 32) (hhi : hi < 2 ^ 32) (hlo : lo < 2 ^ j) :
    ((UInt32.ofNat hi).toUInt64 <<< UInt64.ofNat j) ||| (UInt32.ofNat lo).toUInt64 =
      UInt64.ofNat (hi * 2 ^ j + lo) := by
  have hpow : 2 ^ j ≤ 2 ^ 32 := Nat.pow_le_pow_right (by omega) hj
  have hshift : hi * 2 ^ j < 2 ^ 64 := by
    have hle := Nat.mul_le_mul (show hi ≤ 2 ^ 32 - 1 by omega) hpow
    omega
  apply UInt64.toNat_inj.1
  rw [UInt64.toNat_or, UInt64.toNat_shiftLeft, UInt32.toNat_toUInt64, UInt32.toNat_toUInt64,
    UInt32.toNat_ofNat', UInt32.toNat_ofNat', UInt64.toNat_ofNat', UInt64.toNat_ofNat',
    Nat.mod_eq_of_lt hhi, Nat.mod_eq_of_lt (show lo < 2 ^ 32 by omega),
    Nat.mod_eq_of_lt (show j < 2 ^ 64 by omega), Nat.mod_eq_of_lt (show j < 64 by omega),
    Nat.shiftLeft_eq, Nat.mod_eq_of_lt hshift, ← Nat.shiftLeft_eq,
    ← Nat.shiftLeft_add_eq_or_of_lt hlo, Nat.shiftLeft_eq]
  have hsum : hi * 2 ^ j + lo < 2 ^ 64 := by
    have hle := Nat.mul_le_mul_right (2 ^ j) (show hi + 1 ≤ 2 ^ 32 by omega)
    rw [Nat.add_mul, Nat.one_mul] at hle
    have hle' := Nat.mul_le_mul_left (2 ^ 32) hpow
    omega
  rw [Nat.mod_eq_of_lt hsum]

/-- The bits of a number of at most 64. -/
theorem reads_nonNegativeInteger {x : ℕ} (hk : k ≤ 64) (hx : x < 2 ^ k) :
    Reads (n := n) (decodeNonNegativeInteger · k) (natBits k x) (UInt64.ofNat x) := by
  -- with nothing read before
  have hzero : ∀ {j y : ℕ}, j ≤ 32 → y < 2 ^ j →
      Reads (n := n) (decodeNonNegativeInteger32Neg · 0 j) (natBits j y) (UInt32.ofNat y) := by
    intro j y hj hy
    have hpow : 2 ^ j ≤ 2 ^ 32 := Nat.pow_le_pow_right (by omega) hj
    have h := reads_nonNegativeInteger32Neg (n := n) (k := j) 0 hy (by
      rw [UInt32.toNat_zero]
      omega)
    rwa [UInt32.toNat_zero, Nat.zero_mul, Nat.zero_add] at h
  intro s h
  show decodeNonNegativeInteger s k = _
  unfold decodeNonNegativeInteger
  by_cases h32 : k ≤ 32
  · have hpow : 2 ^ k ≤ 2 ^ 32 := Nat.pow_le_pow_right (by omega) h32
    have hval : (UInt32.ofNat x).toUInt64 = UInt64.ofNat x := by
      apply UInt64.toNat_inj.1
      rw [UInt32.toNat_toUInt64, UInt32.toNat_ofNat', UInt64.toNat_ofNat',
        Nat.mod_eq_of_lt (by omega), Nat.mod_eq_of_lt (by omega)]
    have hread := hzero h32 hx s h
    simp only at hread
    simp only [if_pos h32, hread, bind, Except.bind, hval]
  · -- the high 32 bits, and then the others
    obtain ⟨j, rfl⟩ : ∃ j, k = 32 + j := ⟨k - 32, by omega⟩
    rw [Nat.pow_add] at hx
    have hpos : 1 ≤ 2 ^ j := Nat.one_le_two_pow
    have hdiv : x / 2 ^ j < 2 ^ 32 := Nat.div_lt_of_lt_mul (by rw [Nat.mul_comm]; exact hx)
    have hmod := Nat.mod_lt x hpos
    rw [natBits_add, ← natBits_mod j x] at h
    obtain ⟨hhigh, hlow⟩ := h.append
    have hhi := hzero (le_refl 32) hdiv s hhigh
    have hlo := hzero (by omega) hmod _ hlow
    simp only [length_natBits, appendNBitZero_add] at hhi hlo
    have hval := toUInt64_join (by omega) hdiv hmod
    rw [Nat.div_add_mod'] at hval
    simp only [if_neg h32, hhi, bind, Except.bind, if_true, Nat.add_sub_cancel_left, hlo, hval,
      length_natBits]

/-- A number is read in the bits of its range. -/
theorem reads_constraintWholeNumber {v min max : Int64} (hrange : min ≤ max)
    (hne : (max - min).toUInt64 ≠ 0) (hle : (v - min).toUInt64 ≤ (max - min).toUInt64) :
    Reads (n := n) (decodeConstraintWholeNumber · min max)
      (natBits (max - min).toUInt64.toNat.size (v - min).toUInt64.toNat) v := by
  have hsize : (max - min).toUInt64.toNat.size ≤ 64 :=
    Nat.size_le.2 (max - min).toUInt64.toNat_lt
  have hlt : (v - min).toUInt64.toNat < 2 ^ (max - min).toUInt64.toNat.size :=
    Nat.lt_of_le_of_lt (UInt64.le_iff_toNat_le.1 hle) (Nat.lt_size_self _)
  intro s h
  have hread := reads_nonNegativeInteger hsize hlt s h
  have hval : (UInt64.ofNat (v - min).toUInt64.toNat).toInt64 + min = v := by
    rw [UInt64.ofNat_toNat]
    show v - min + min = v
    exact Int64.sub_add_cancel v min
  simp only at hread
  unfold decodeConstraintWholeNumber
  simp only [cAssert_ok hrange, bind, Except.bind, if_neg hne, getNumberOfBits_eq, hread, if_true,
    hval]

theorem reads_octets (v : Int64) (i : ℕ) (octets : Bytes) :
    Reads (n := n) (decodeOctets · v i octets.length) (bytesBits octets) (octetsVal v i octets) := by
  induction octets generalizing v i with
  | nil =>
    intro s h
    show Except.ok (true, v, s) = _
    rw [bytesBits_nil, List.length_nil, appendNBitZero_zero h.currentBit_lt]
    rfl
  | cons b octets ih =>
    intro s h
    rw [bytesBits_cons] at h
    obtain ⟨hbyte, hbits⟩ := h.append
    have hdone := ih (((if i = 0 ∧ 0x7F < b then -1 else v) <<< 8) ||| b.toUInt64.toInt64) (i + 1) _
      hbits
    simp only [appendNBitZero_add] at hdone
    show decodeOctets s v i (octets.length + 1) = _
    rw [decodeOctets]
    simp only [reads_byte b s hbyte, bind, Except.bind, if_true]
    rw [bytesBits_cons, List.length_append]
    exact hdone

/-- A byte that stands for a number in a range of 256. -/
theorem reads_byteInRange {v min max : Int64} {b : UInt8} (hrange : min ≤ max)
    (h255 : (max - min).toUInt64 = 255) (hb : (v - min).toUInt64.toNat = b.toNat) :
    Reads (n := n) (decodeConstraintWholeNumber · min max) (natBits 8 b.toNat) v := by
  have hle : (v - min).toUInt64 ≤ (max - min).toUInt64 := by
    have hlt := b.toNat_lt
    rw [UInt64.le_iff_toNat_le, hb, h255]
    exact Nat.le_of_lt_succ hlt
  have h := reads_constraintWholeNumber (n := n) hrange (by rw [h255]; decide) hle
  rwa [hb, h255] at h

/-- A number of any size is read, behind the number of its octets. -/
theorem reads_unConstraintWholeNumber (v : Int64) :
    Reads (n := n) decodeUnConstraintWholeNumber (bytesBits (intBytes v)) v := by
  obtain ⟨-, h8, -⟩ := getLengthInBytesOfSInt_spec v
  have hoctets := length_natBytes (getLengthInBytesOfSInt v) v.toUInt64.toNat
  have hval := octetsVal_natBytes v
  unfold intBytes
  generalize natBytes (getLengthInBytesOfSInt v) v.toUInt64.toNat = octets at *
  rw [← hoctets] at h8 ⊢
  intro s h
  rw [bytesBits_cons] at h
  obtain ⟨hlength, hbits⟩ := h.append
  have hfirst := reads_byteInRange (n := n) (v := Int64.ofNat octets.length)
    (b := UInt8.ofNat octets.length) (show (0 : Int64) ≤ 255 by decide) (by decide) (by
      rw [Int64.sub_zero, Int64.toUInt64_ofNat', UInt64.toNat_ofNat', UInt8.toNat_ofNat']
      omega) s hlength
  have hrest := reads_octets 0 0 octets _ hbits
  simp only [appendNBitZero_add] at hfirst hrest
  have hnat : (Int64.ofNat octets.length).toNatClampNeg = octets.length :=
    Int64.toNatClampNeg_ofNat_of_lt (by omega)
  unfold decodeUnConstraintWholeNumber
  simp only [hfirst, bind, Except.bind, if_true, hnat, hrest, hval]
  rw [bytesBits_cons, List.length_append]

/-! ## Sequences of numbers -/

/-- The numbers a field allows: those in a range, or all. -/
inductive Field
  | constraint (min max : Int64)
  | unConstraint

def Field.Allows : Field → Int64 → Prop
  | .constraint min max, v => min ≤ v ∧ v ≤ max
  | .unConstraint, _ => True

/-- The bits of a number in a field. -/
def Field.bits : Field → Int64 → List Bool
  | .constraint min max, v => natBits (max - min).toUInt64.toNat.size (v - min).toUInt64.toNat
  | .unConstraint, v => bytesBits (intBytes v)

def Field.encode (v : Int64) : Field → BitStream n → Except Fault (BitStream n)
  | .constraint min max, s => encodeConstraintWholeNumber s v min max
  | .unConstraint, s => encodeUnConstraintWholeNumber s v

def Field.decode : Field → BitStream n → Except Fault (Bool × Int64 × BitStream n)
  | .constraint min max, s => decodeConstraintWholeNumber s min max
  | .unConstraint, s => decodeUnConstraintWholeNumber s

/-- Numbers encoded one after the other. -/
def encodeFields : List (Field × Int64) → BitStream n → Except Fault (BitStream n)
  | [], s => .ok s
  | (f, v) :: fvs, s => do
    let s ← f.encode v s
    encodeFields fvs s

/-- Numbers decoded one after the other, as long as there are bits. -/
def decodeFields : List Field → BitStream n → Except Fault (Bool × List Int64 × BitStream n)
  | [], s => .ok (true, [], s)
  | f :: fs, s => do
    let (ok, v, s) ← f.decode s
    if ok then
      let (ok, vs, s) ← decodeFields fs s
      .ok (ok, v :: vs, s)
    else .ok (false, [v], s)

/-- The difference of two signed numbers is taken modulo `2 ^ 64`, and has room there. -/
theorem toNat_sub {a b : Int64} (h : a ≤ b) :
    ((b - a).toUInt64.toNat : ℤ) = b.toInt - a.toInt := by
  have ha := a.toUInt64.toNat_lt
  have hb := b.toUInt64.toNat_lt
  have hle := Int64.le_iff_toInt_le.1 h
  rw [toInt_eq, toInt_eq] at hle ⊢
  rw [Int64.toUInt64_sub, UInt64.toNat_sub]
  simp only [nonneg_iff] at hle ⊢
  split at hle <;> split at hle <;> omega

theorem sub_le_sub {v min max : Int64} (hmin : min ≤ v) (hmax : v ≤ max) :
    (v - min).toUInt64 ≤ (max - min).toUInt64 := by
  have hv := toNat_sub hmin
  have hrange := toNat_sub (Int64.le_trans hmin hmax)
  have hle := Int64.le_iff_toInt_le.1 hmax
  rw [UInt64.le_iff_toNat_le]
  omega

/-- A range of one number takes no bits. -/
theorem Field.bits_nil (v : Int64) {min max : Int64} (hrange : (max - min).toUInt64 = 0) :
    (Field.constraint min max).bits v = [] := by
  rw [Field.bits, hrange]
  rfl

theorem eq_of_range {v min max : Int64} (hmin : min ≤ v) (hmax : v ≤ max)
    (hrange : (max - min).toUInt64 = 0) : v = min := by
  have hle := UInt64.le_iff_toNat_le.1 (sub_le_sub hmin hmax)
  rw [hrange] at hle
  have hv := toNat_sub hmin
  apply Int64.toInt_inj.1
  have hzero : (0 : UInt64).toNat = 0 := rfl
  omega

theorem Field.emits {f : Field} {v : Int64} (h : f.Allows v) :
    Emits (n := n) (fun s => f.encode v s) (f.bits v) := by
  cases f with
  | constraint min max =>
    obtain ⟨hmin, hmax⟩ := h
    have hle := Int64.le_trans hmin hmax
    by_cases hrange : (max - min).toUInt64 = 0
    · intro s pre hw hfits
      refine ⟨s, ?_, ?_⟩
      · show encodeConstraintWholeNumber s v min max = _
        unfold encodeConstraintWholeNumber
        simp only [cAssert_ok hle, bind, Except.bind, if_pos hrange]
      · rw [Field.bits_nil v hrange, List.append_nil]
        exact hw
    · exact emits_constraintWholeNumber hle hrange (sub_le_sub hmin hmax)
  | unConstraint => exact emits_unConstraintWholeNumber v

theorem Field.reads {f : Field} {v : Int64} (h : f.Allows v) :
    Reads (n := n) f.decode (f.bits v) v := by
  cases f with
  | constraint min max =>
    obtain ⟨hmin, hmax⟩ := h
    have hle := Int64.le_trans hmin hmax
    by_cases hrange : (max - min).toUInt64 = 0
    · intro s hs
      rw [Field.bits_nil v hrange, List.length_nil, appendNBitZero_zero hs.currentBit_lt]
      show decodeConstraintWholeNumber s min max = _
      unfold decodeConstraintWholeNumber
      simp only [cAssert_ok hle, bind, Except.bind, if_pos hrange, eq_of_range hmin hmax hrange]
    · exact reads_constraintWholeNumber hle hrange (sub_le_sub hmin hmax)
  | unConstraint => exact reads_unConstraintWholeNumber v

/-- The bits of numbers one after the other. -/
def fieldsBits (fvs : List (Field × Int64)) : List Bool := fvs.flatMap fun fv => fv.1.bits fv.2

theorem fieldsBits_cons (fv : Field × Int64) (fvs : List (Field × Int64)) :
    fieldsBits (fv :: fvs) = fv.1.bits fv.2 ++ fieldsBits fvs := rfl

theorem emits_fields {fvs : List (Field × Int64)} (h : ∀ fv ∈ fvs, fv.1.Allows fv.2) :
    Emits (n := n) (encodeFields fvs) (fieldsBits fvs) := by
  induction fvs with
  | nil => exact emits_nil
  | cons fv fvs ih =>
    rw [List.forall_mem_cons] at h
    exact (Field.emits h.1).bind (ih h.2)

theorem reads_fields {fvs : List (Field × Int64)} (h : ∀ fv ∈ fvs, fv.1.Allows fv.2) :
    Reads (n := n) (decodeFields (fvs.map Prod.fst)) (fieldsBits fvs) (fvs.map Prod.snd) := by
  induction fvs with
  | nil =>
    intro s hs
    show Except.ok (true, [], s) = _
    rw [fieldsBits, List.flatMap_nil, List.length_nil, appendNBitZero_zero hs.currentBit_lt]
    rfl
  | cons fv fvs ih =>
    rw [List.forall_mem_cons] at h
    intro s hs
    rw [fieldsBits_cons] at hs ⊢
    obtain ⟨hfirst, hbits⟩ := hs.append
    have hrest := ih h.2 _ hbits
    rw [appendNBitZero_add] at hrest
    unfold decodeFields
    simp only [List.map_cons, Field.reads h.1 s hfirst, bind, Except.bind, if_true, hrest,
      List.length_append]

/-- What is appended to a stream is ahead of the position it had. -/
theorem Written.ahead {pre : List Bool} {s' : BitStream n} (hw : Written s pre)
    (hw' : Written s' (pre ++ bs)) :
    Ahead { s with buf := s'.buf } bs ∧ appendNBitZero { s with buf := s'.buf } bs.length = s' := by
  have hpos := hw.position
  have hlt := hw.currentBit_lt
  have hpos' := hw'.position
  have hlt' := hw'.currentBit_lt
  have hfits := hw'.fits
  rw [List.length_append] at hpos' hfits
  refine ⟨⟨hlt, by simp only; omega, ?_⟩, ?_⟩
  · intro i hi
    simp only [hpos]
    rw [hw'.bits _ (by omega), List.getD_append_right _ _ _ _ (by omega), Nat.add_sub_cancel_left]
  · obtain ⟨buf, byte, bit⟩ := s'
    unfold appendNBitZero
    simp only [BitStream.mk.injEq, true_and] at *
    omega

/-- **Numbers are read back.** Any numbers, each in a range of its own or in none, are encoded one
after the other where the array has room for their bits, and decoded from the start they are the same
again, with the stream where the encoder left it. -/
theorem numbers_round_trip {fvs : List (Field × Int64)} (h : ∀ fv ∈ fvs, fv.1.Allows fv.2)
    (hfits : (fieldsBits fvs).length ≤ 8 * n) :
    ∃ s : BitStream n, encodeFields fvs ⟨Buffer.zero n, 0, 0⟩ = .ok s ∧
      decodeFields (fvs.map Prod.fst) ⟨s.buf, 0, 0⟩ = .ok (true, fvs.map Prod.snd, s) := by
  have hstart : Written (n := n) ⟨Buffer.zero n, 0, 0⟩ [] := written_zero
  obtain ⟨s, hs, hw⟩ := emits_fields h _ _ hstart (by rw [List.length_nil, Nat.zero_add]; exact hfits)
  refine ⟨s, hs, ?_⟩
  obtain ⟨hahead, hend⟩ := hstart.ahead hw
  rw [← hend]
  exact reads_fields h _ hahead

/-- A number over two bytes of the array, between others. -/
theorem numbers_round_trip_split : ∃ s : BitStream 8,
    encodeFields [(.constraint 0 4, 3), (.unConstraint, -129), (.constraint (-1) 6, 6)]
      ⟨Buffer.zero 8, 0, 0⟩ = .ok s ∧
    decodeFields [.constraint 0 4, .unConstraint, .constraint (-1) 6] ⟨s.buf, 0, 0⟩ =
      .ok (true, [3, -129, 6], s) := by
  apply numbers_round_trip
  · simp [Field.Allows]
  · decide

end Muxer
