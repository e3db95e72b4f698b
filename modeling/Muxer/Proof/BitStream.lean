import Mathlib.Tactic.IntervalCases
import Muxer.Lib.Bits
import Muxer.Spec.BitStream

/-!
# What the bit stream functions append and read

`Written s bs` says that the bits `bs` have been appended to `s` and the rest of its array is
zero; `Emits f bs` that `f` appends exactly `bs`, from any position with room for them. The
appending functions emit the bits of their argument, and compose along `++`, so that nothing
above them speaks of shifts and masks. Reading is done at whole bytes only.

* `emits_unConstraintWholeNumber`: the length and then the two's complement bytes.
* `decodeUnConstraintWholeNumber_ok`: what is read from any bytes.
-/

namespace Muxer

open Muxer.Lib

variable {n k : ℕ} {s : BitStream n} {pre bs cs : List Bool} {v : UInt8}

/-- The bit `i` of an array. -/
def Buffer.bit (b : Buffer n) (i : ℕ) : Bool := (bytesBits b.bytes).getD i false

/-- The bits `bs` have been appended, to an array that was zero. -/
structure Written (s : BitStream n) (bs : List Bool) : Prop where
  currentBit_lt : s.currentBit < 8
  position : 8 * s.currentByte + s.currentBit = bs.length
  fits : bs.length ≤ 8 * n
  bits : ∀ i < 8 * n, s.buf.bit i = bs.getD i false

/-- `f` appends exactly `bs`. -/
def Emits (f : BitStream n → Except Fault (BitStream n)) (bs : List Bool) : Prop :=
  ∀ s pre, Written s pre → pre.length + bs.length ≤ 8 * n →
    ∃ s', f s = .ok s' ∧ Written s' (pre ++ bs)

theorem emits_nil : Emits (n := n) .ok [] := by
  intro s pre hw _
  exact ⟨s, rfl, by rwa [List.append_nil]⟩

/-- What two functions emit, one after the other. -/
theorem Emits.bind {f g : BitStream n → Except Fault (BitStream n)} (hf : Emits f bs)
    (hg : Emits g cs) : Emits (fun s => f s >>= g) (bs ++ cs) := by
  intro s pre hw hfits
  rw [List.length_append] at hfits
  obtain ⟨s', hs, hw'⟩ := hf s pre hw (by omega)
  obtain ⟨s'', hs', hw''⟩ := hg s' _ hw' (by rw [List.length_append]; omega)
  refine ⟨s'', ?_, by rwa [← List.append_assoc]⟩
  show f s >>= g = _
  rw [hs]
  exact hs'

/-- Bits set after the last one written. -/
theorem Written.append {s' : BitStream n} (hw : Written s pre) (hlt : s'.currentBit < 8)
    (hpos : 8 * s'.currentByte + s'.currentBit = pre.length + bs.length)
    (hfits : pre.length + bs.length ≤ 8 * n)
    (hbits : ∀ i < 8 * n, s'.buf.bit i =
      (s.buf.bit i || (decide (pre.length ≤ i) && bs.getD (i - pre.length) false))) :
    Written s' (pre ++ bs) := by
  refine ⟨hlt, by rw [List.length_append, hpos], by rwa [List.length_append], ?_⟩
  intro i hi
  rw [hbits i hi, hw.bits i hi]
  rcases Nat.lt_or_ge i pre.length with h | h
  · rw [List.getD_append _ _ _ _ h]
    simp [Nat.not_le.2 h]
  · rw [List.getD_append_right _ _ _ _ h, List.getD_eq_default _ _ h]
    simp [h]

/-- The bits of an array after `b[j] |= v`. -/
theorem Buffer.or_ok {b : Buffer n} {j : ℕ} (v : UInt8) (h : j < n) :
    ∃ b', b.or j v = .ok b' ∧
      ∀ i, b'.bit i = (b.bit i || (decide (i / 8 = j) && v.toNat.testBit (7 - i % 8))) := by
  have hj : j < b.bytes.length := by rwa [b.size_eq]
  unfold Buffer.or
  rw [dif_pos hj]
  refine ⟨_, rfl, ?_⟩
  intro i
  unfold Buffer.bit
  rw [getD_bytesBits, getD_bytesBits]
  by_cases hi : i / 8 = j
  · rw [hi, List.getD_eq_getElem _ _ (by rwa [List.length_set]), List.getElem_set_self,
      List.getD_eq_getElem _ _ hj, UInt8.toNat_or, Nat.testBit_or]
    simp
  · rw [List.getD_eq_getElem?_getD, List.getElem?_set_ne (Ne.symm hi),
      ← List.getD_eq_getElem?_getD]
    simp [hi]

/-- `k` bits that fit into the byte at the position. -/
theorem Written.or_one {x : ℕ} (hw : Written s pre) (hk : 1 ≤ k) (hx : x < 2 ^ k)
    (h : s.currentBit + k ≤ 8) (hfits : pre.length + k ≤ 8 * n) :
    ∃ s₁, s.orByte (UInt8.ofNat (x <<< (8 - (s.currentBit + k)))) = .ok s₁ ∧
      s₁.currentByte = s.currentByte ∧ s₁.currentBit = s.currentBit ∧
      ∀ t : BitStream n, t.buf = s₁.buf → t.currentBit < 8 →
        8 * t.currentByte + t.currentBit = pre.length + k → Written t (pre ++ natBits k x) := by
  have hpos := hw.position
  obtain ⟨b, hb, hbits⟩ := Buffer.or_ok (b := s.buf) (j := s.currentByte)
    (UInt8.ofNat (x <<< (8 - (s.currentBit + k)))) (by omega)
  refine ⟨{ s with buf := b }, by unfold BitStream.orByte; rw [hb]; rfl, rfl, rfl, ?_⟩
  intro t htbuf ht htpos
  refine hw.append ht (by rw [length_natBits, htpos]) (by rwa [length_natBits]) ?_
  intro i hi
  rw [htbuf, hbits, getD_natBits, UInt8.toNat_ofNat', Nat.testBit_mod_two_pow,
    Nat.testBit_shiftLeft]
  congr 1
  have hhigh : ∀ j, k ≤ j → x.testBit j = false := fun j hj =>
    Nat.testBit_lt_two_pow (lt_of_lt_of_le hx (Nat.pow_le_pow_right (by omega) hj))
  -- a new bit is the bit of `x` at its place; elsewhere the shifted byte is zero
  by_cases hin : pre.length ≤ i ∧ i - pre.length < k
  · rw [show k - 1 - (i - pre.length) = 7 - i % 8 - (8 - (s.currentBit + k)) by omega]
    simp [hin.1, hin.2, show i / 8 = s.currentByte by omega, show 7 - i % 8 < 8 by omega,
      show 8 ≤ 7 - i % 8 + (s.currentBit + k) by omega]
  · by_cases hbyte : i / 8 = s.currentByte
    · by_cases hlow : 8 - (s.currentBit + k) ≤ 7 - i % 8
      · rw [hhigh (7 - i % 8 - (8 - (s.currentBit + k))) (by omega)]
        have : ¬ pre.length ≤ i := by omega
        simp [this]
      · have : ¬ i - pre.length < k := by omega
        simp [this]
        omega
    · simp [hbyte]
      omega

/-- `k` bits that reach into the byte after the one at the position. -/
theorem Written.or_two {x : ℕ} (hw : Written s pre) (hk : k ≤ 8) (hx : x < 2 ^ k)
    (h : 8 < s.currentBit + k) (hfits : pre.length + k ≤ 8 * n) :
    ∃ s₁, s.orByte (UInt8.ofNat (x >>> (s.currentBit + k - 8))) = .ok s₁ ∧
      s₁.currentByte = s.currentByte ∧ s₁.currentBit = s.currentBit ∧
      ∀ t₁ : BitStream n, t₁.buf = s₁.buf → t₁.currentByte = s.currentByte + 1 →
        ∃ s₂, t₁.orByte (UInt8.ofNat (x <<< (8 - (s.currentBit + k - 8)))) = .ok s₂ ∧
          s₂.currentByte = t₁.currentByte ∧ s₂.currentBit = t₁.currentBit ∧
          ∀ t₂ : BitStream n, t₂.buf = s₂.buf → t₂.currentBit < 8 →
            8 * t₂.currentByte + t₂.currentBit = pre.length + k →
            Written t₂ (pre ++ natBits k x) := by
  have hpos := hw.position
  have hlt := hw.currentBit_lt
  obtain ⟨b₁, hb₁, hbits₁⟩ := Buffer.or_ok (b := s.buf) (j := s.currentByte)
    (UInt8.ofNat (x >>> (s.currentBit + k - 8))) (by omega)
  refine ⟨{ s with buf := b₁ }, by unfold BitStream.orByte; rw [hb₁]; rfl, rfl, rfl, ?_⟩
  intro t₁ htbuf htbyte
  obtain ⟨b₂, hb₂, hbits₂⟩ := Buffer.or_ok (b := t₁.buf) (j := t₁.currentByte)
    (UInt8.ofNat (x <<< (8 - (s.currentBit + k - 8)))) (by omega)
  refine ⟨{ t₁ with buf := b₂ }, by unfold BitStream.orByte; rw [hb₂]; rfl, rfl, rfl, ?_⟩
  intro t₂ ht₂buf ht₂ ht₂pos
  refine hw.append ht₂ (by rw [length_natBits, ht₂pos]) (by rwa [length_natBits]) ?_
  intro i hi
  rw [ht₂buf, hbits₂, htbuf, hbits₁, getD_natBits, UInt8.toNat_ofNat', UInt8.toNat_ofNat',
    Nat.testBit_mod_two_pow, Nat.testBit_mod_two_pow, Nat.testBit_shiftLeft,
    Nat.testBit_shiftRight, Bool.or_assoc, htbyte]
  congr 1
  have hhigh : ∀ j, k ≤ j → x.testBit j = false := fun j hj =>
    Nat.testBit_lt_two_pow (lt_of_lt_of_le hx (Nat.pow_le_pow_right (by omega) hj))
  -- the first byte has the upper bits of `x`, the next one the lower bits
  by_cases h₁ : i / 8 = s.currentByte
  · have h₂ : ¬ i / 8 = s.currentByte + 1 := by omega
    by_cases hin : pre.length ≤ i
    · rw [show k - 1 - (i - pre.length) = s.currentBit + k - 8 + (7 - i % 8) by omega]
      simp [h₁, hin, show 7 - i % 8 < 8 by omega, show i - pre.length < k by omega]
    · rw [hhigh (s.currentBit + k - 8 + (7 - i % 8)) (by omega)]
      simp [hin, h₁]
  · by_cases h₂ : i / 8 = s.currentByte + 1
    · by_cases hin : i - pre.length < k
      · rw [show k - 1 - (i - pre.length) = 7 - i % 8 - (8 - (s.currentBit + k - 8)) by omega]
        simp [h₂, hin, show 7 - i % 8 < 8 by omega, show pre.length ≤ i by omega]
        omega
      · simp [h₂, hin]
        omega
    · simp [h₁, h₂]
      omega

/-! ## Appending -/

theorem cAssert_inside (h : 8 * s.currentByte + s.currentBit ≤ 8 * n) :
    cAssert s.Inside = .ok () := by
  apply cAssert_ok
  unfold BitStream.Inside
  omega

theorem emits_nBitZero (k : ℕ) :
    Emits (n := n) (fun s => .ok (appendNBitZero s k)) (List.replicate k false) := by
  intro s pre hw hfits
  have hpos := hw.position
  rw [List.length_replicate] at hfits
  refine ⟨_, rfl, hw.append ?_ ?_ (by rwa [List.length_replicate]) fun i _ => ?_⟩
  · exact Nat.mod_lt _ (by omega)
  · rw [List.length_replicate]
    simp only [appendNBitZero]
    omega
  · have : (List.replicate k false).getD (i - pre.length) false = false := by
      simp [List.getD_eq_getElem?_getD, List.getElem?_replicate]
      split <;> rfl
    rw [this, Bool.and_false, Bool.or_false]
    rfl

/-- `g` after so many zeros. -/
theorem Emits.after_zeros {g : BitStream n → Except Fault (BitStream n)} (z : ℕ)
    (hg : Emits g cs) :
    Emits (fun s => g (appendNBitZero s z)) (List.replicate z false ++ cs) :=
  (emits_nBitZero z).bind hg

theorem emits_bitOne : Emits (n := n) appendBitOne [true] := by
  intro s pre hw hfits
  have hpos := hw.position
  have hlt := hw.currentBit_lt
  obtain ⟨s₁, hs₁, hbyte, hbit, ht⟩ := hw.or_one (k := 1) (x := 1) (le_refl 1) (by omega)
    (by omega) hfits
  have hmask : masks.getD s.currentBit 0 = UInt8.ofNat (1 <<< (8 - (s.currentBit + 1))) := by
    interval_cases s.currentBit <;> rfl
  have hadv : 8 * s₁.advanceBit.currentByte + s₁.advanceBit.currentBit = pre.length + 1 ∧
      s₁.advanceBit.currentBit < 8 ∧ s₁.advanceBit.buf = s₁.buf := by
    unfold BitStream.advanceBit
    split
    · exact ⟨by simp only; omega, by simp only; omega, rfl⟩
    · exact ⟨by simp only; omega, by simp only; omega, rfl⟩
  refine ⟨s₁.advanceBit, ?_, ht _ hadv.2.2 hadv.2.1 hadv.1⟩
  unfold appendBitOne
  rw [hmask, hs₁]
  show (do cAssert s₁.advanceBit.Inside; .ok s₁.advanceBit) = _
  rw [cAssert_inside (by rw [hadv.1]; exact hfits)]
  rfl

theorem emits_byte0 (v : UInt8) : Emits (n := n) (appendByte0 · v) (natBits 8 v.toNat) := by
  intro s pre hw hfits
  have hpos := hw.position
  have hlt := hw.currentBit_lt
  rw [length_natBits] at hfits
  -- at a byte boundary the byte goes in whole, elsewhere it is split between two
  rcases Nat.eq_zero_or_pos s.currentBit with hcb | hcb
  · obtain ⟨s₁, hs₁, hbyte, hbit, ht⟩ := hw.or_one (k := 8) (by omega) v.toNat_lt (by omega) hfits
    rw [hcb] at hs₁ hbit
    refine ⟨{ s₁ with currentByte := s₁.currentByte + 1 }, ?_, ht _ rfl ?_ ?_⟩
    · show appendByte0 s v = _
      unfold appendByte0
      rw [show 8 - (0 + 8) = 0 by rfl, Nat.shiftLeft_zero] at hs₁
      simp only [hcb, Nat.shiftRight_zero, hs₁, bind, Except.bind]
      rw [cAssert_inside (by simp only; omega)]
      rfl
    · simp only
      omega
    · simp only
      omega
  · obtain ⟨s₁, hs₁, hbyte, hbit, ht⟩ := hw.or_two (k := 8) (by omega) v.toNat_lt (by omega) hfits
    obtain ⟨s₂, hs₂, hbyte₂, hbit₂, ht₂⟩ := ht { s₁ with currentByte := s₁.currentByte + 1 } rfl
      (by rw [hbyte])
    rw [Nat.add_sub_cancel] at hs₁ hs₂
    refine ⟨s₂, ?_, ht₂ _ rfl (by rw [hbit₂, hbit]; exact hlt) ?_⟩
    · show appendByte0 s v = _
      unfold appendByte0
      simp only [hs₁, bind, Except.bind]
      rw [cAssert_inside (by simp only; omega)]
      simp only [if_pos (show s.currentBit ≠ 0 by omega), hs₂]
    · rw [hbyte₂, hbit₂]
      simp only
      omega

/-- The bits appended for a flag `negate`. -/
def negated (negate : Bool) (bs : List Bool) : List Bool := if negate then bs.map (!·) else bs

theorem negated_append (negate : Bool) (bs cs : List Bool) :
    negated negate (bs ++ cs) = negated negate bs ++ negated negate cs := by
  unfold negated
  split <;> simp

theorem emits_byte (v : UInt8) (negate : Bool) :
    Emits (n := n) (appendByte · v negate) (negated negate (natBits 8 v.toNat)) := by
  unfold appendByte negated
  cases negate with
  | false => exact emits_byte0 v
  | true =>
    have hnot : (~~~v).toNat = 2 ^ 8 - 1 - v.toNat := UInt8.toNat_not v
    rw [if_pos rfl, if_pos rfl, ← natBits_compl v.toNat_lt, ← hnot]
    exact emits_byte0 (~~~v)

theorem emits_bitsOne (k : ℕ) : Emits (n := n) (appendBitsOne · k) (List.replicate k true) := by
  induction k with
  | zero => exact emits_nil
  | succ k ih => exact emits_bitOne.bind ih

theorem emits_nBitOne (k : ℕ) : Emits (n := n) (appendNBitOne · k) (List.replicate k true) := by
  induction k using Nat.strong_induction_on with
  | _ k ih =>
    -- whole bytes of ones first, the rest bit by bit
    by_cases hk : 8 ≤ k
    · have hfn : (fun s : BitStream n => appendNBitOne s k) =
          fun s => appendByte s 0xFF false >>= (appendNBitOne · (k - 8)) := by
        funext s
        rw [appendNBitOne, if_pos hk]
      rw [hfn, show List.replicate k true = List.replicate 8 true ++ List.replicate (k - 8) true by
        rw [List.replicate_append_replicate]; congr 1; omega]
      exact (emits_byte 0xFF false).bind (ih (k - 8) (by omega))
    · have hfn : (fun s : BitStream n => appendNBitOne s k) = (appendBitsOne · k) := by
        funext s
        rw [appendNBitOne, if_neg hk]
      rw [hfn]
      exact emits_bitsOne k

/-- What `AppendPartialByte` makes of its byte is the complement in `k` bits. -/
theorem toNat_negate_partialByte (hk : k ≤ 8) (hv : v.toNat < 2 ^ k) :
    (masksb.getD k 0 &&& ~~~v).toNat = 2 ^ k - 1 - v.toNat := by
  have hmask : (masksb.getD k 0).toNat = 2 ^ k - 1 := by
    interval_cases k <;> rfl
  rw [UInt8.toNat_and, hmask, Nat.and_comm, Nat.and_two_pow_sub_one_eq_mod, UInt8.toNat_not,
    show UInt8.size = 256 by rfl]
  interval_cases k <;> omega

theorem emits_partialByte (hk : 1 ≤ k) (hk' : k ≤ 8) (hv : v.toNat < 2 ^ k) (negate : Bool) :
    Emits (n := n) (appendPartialByte · v k negate) (negated negate (natBits k v.toNat)) := by
  -- the byte after the optional negation
  obtain ⟨w, hw, hwlt, hbits⟩ : ∃ w : UInt8, (if negate then masksb.getD k 0 &&& ~~~v else v) = w ∧
      w.toNat < 2 ^ k ∧ negated negate (natBits k v.toNat) = natBits k w.toNat := by
    unfold negated
    cases negate with
    | false => exact ⟨v, rfl, hv, rfl⟩
    | true =>
      have hnot := toNat_negate_partialByte hk' hv
      refine ⟨masksb.getD k 0 &&& ~~~v, rfl, by rw [hnot]; omega, ?_⟩
      rw [if_pos rfl, ← natBits_compl hv, ← hnot]
  rw [hbits]
  intro s pre hws hfits
  have hpos := hws.position
  have hlt := hws.currentBit_lt
  rw [length_natBits] at hfits
  unfold appendPartialByte
  simp only [hw]
  by_cases h : s.currentBit + k ≤ 8
  · obtain ⟨s₁, hs₁, hbyte, hbit, ht⟩ := hws.or_one hk hwlt h hfits
    simp only [if_pos h, hs₁, bind, Except.bind, pure, Except.pure]
    by_cases hfull : s₁.currentBit + k = 8
    · rw [if_pos hfull, cAssert_inside (by simp only; omega)]
      exact ⟨_, rfl, ht _ rfl (by simp only; omega) (by simp only; omega)⟩
    · rw [if_neg hfull, cAssert_inside (by simp only; omega)]
      exact ⟨_, rfl, ht _ rfl (by simp only; omega) (by simp only; omega)⟩
  · obtain ⟨s₁, hs₁, hbyte, hbit, ht⟩ := hws.or_two hk' hwlt (by omega) hfits
    obtain ⟨s₂, hs₂, hbyte₂, hbit₂, ht₂⟩ := ht { s₁ with currentByte := s₁.currentByte + 1 } rfl
      (by rw [hbyte])
    simp only [if_neg h, hs₁, hs₂, bind, Except.bind, pure, Except.pure]
    have hp : 8 * s₂.currentByte + (s.currentBit + k - 8) = pre.length + k := by
      rw [hbyte₂]
      simp only
      omega
    rw [cAssert_inside (by simp only; omega)]
    exact ⟨_, rfl, ht₂ _ rfl (by simp only; omega) hp⟩

end Muxer
