import Mathlib.Data.List.GetD
import Mathlib.Data.Nat.Size
import Mathlib.Tactic.Ring

/-!
# Numbers as bit strings and byte strings

Both are most significant first: `natBits k x` is the low `k` bits of `x`, and `natBytes k x`
its low `k` bytes. The bit string of a byte string is `bytesBits`, and the number a byte
string denotes is `bytesVal`.

* `natBits_add`: a bit string splits where its number is divided.
* `natBits_compl`: negating every bit is the complement.
* `bytesBits_natBytes`: a number of whole bytes has the bits of its bytes.
* `bytesVal_natBytes`: bytes denote the number they were cut from.
-/

namespace Muxer.Lib

/-- The low `k` bits of `x`, the most significant first. -/
def natBits : ℕ → ℕ → List Bool
  | 0, _ => []
  | k + 1, x => x.testBit k :: natBits k x

/-- The low `k` bytes of `x`, the most significant first. -/
def natBytes : ℕ → ℕ → List UInt8
  | 0, _ => []
  | k + 1, x => UInt8.ofNat (x / 256 ^ k) :: natBytes k x

/-- The bits of a byte string. -/
def bytesBits (bs : List UInt8) : List Bool := bs.flatMap fun b => natBits 8 b.toNat

/-- The number a byte string denotes, after the bytes that denote `v`. -/
def bytesVal : ℕ → List UInt8 → ℕ
  | v, [] => v
  | v, b :: bs => bytesVal (v * 256 + b.toNat) bs

variable {k x : ℕ}

@[simp] theorem natBits_zero (x : ℕ) : natBits 0 x = [] := rfl

@[simp] theorem length_natBits (k x : ℕ) : (natBits k x).length = k := by
  induction k with
  | zero => rfl
  | succ k ih => simp only [natBits, List.length_cons, ih]

theorem getD_natBits (k x i : ℕ) :
    (natBits k x).getD i false = (decide (i < k) && x.testBit (k - 1 - i)) := by
  induction k generalizing i with
  | zero => simp
  | succ k ih =>
    cases i with
    | zero => simp [natBits]
    | succ i =>
      rw [natBits, List.getD_cons_succ, ih i, show k + 1 - 1 - (i + 1) = k - 1 - i by omega]
      simp

/-- Only the low bits count. -/
theorem natBits_congr {y : ℕ} (h : ∀ i < k, x.testBit i = y.testBit i) :
    natBits k x = natBits k y := by
  induction k with
  | zero => rfl
  | succ k ih =>
    rw [natBits, natBits, h k (by omega), ih fun i hi => h i (by omega)]

theorem natBits_mod (k x : ℕ) : natBits k (x % 2 ^ k) = natBits k x :=
  natBits_congr fun i hi => by simp [Nat.testBit_mod_two_pow, hi]

/-- **A bit string splits where its number is divided.** -/
theorem natBits_add (m k x : ℕ) :
    natBits (m + k) x = natBits m (x / 2 ^ k) ++ natBits k x := by
  induction m with
  | zero => simp
  | succ m ih =>
    rw [show m + 1 + k = (m + k) + 1 by omega, natBits, ih, natBits, List.cons_append,
      Nat.testBit_div_two_pow, Nat.add_comm m k]

theorem natBits_zero_right (k : ℕ) : natBits k 0 = List.replicate k false := by
  induction k with
  | zero => rfl
  | succ k ih => rw [natBits, ih, Nat.zero_testBit, List.replicate_succ]

theorem size_div_two_pow (x k : ℕ) : (x / 2 ^ k).size = x.size - k := by
  apply eq_of_forall_ge_iff
  intro m
  rw [Nat.size_le, Nat.div_lt_iff_lt_mul (Nat.two_pow_pos k), ← Nat.pow_add, ← Nat.size_le]
  omega

/-- Zeros in front do not change the number. -/
theorem replicate_append_natBits (m : ℕ) (h : x < 2 ^ k) :
    List.replicate m false ++ natBits k x = natBits (m + k) x := by
  rw [natBits_add, Nat.div_eq_of_lt h, natBits_zero_right]

/-- Zeros in front of the significant bits of a number. -/
theorem replicate_append_size (h : x.size ≤ k) :
    List.replicate (k - x.size) false ++ natBits x.size x = natBits k x := by
  rw [replicate_append_natBits _ (Nat.lt_size_self x)]
  congr 1
  omega

/-- Numbers with opposite bits have opposite bit strings. -/
theorem natBits_not {y : ℕ} (h : ∀ i < k, y.testBit i = !x.testBit i) :
    natBits k y = (natBits k x).map (!·) := by
  induction k with
  | zero => rfl
  | succ k ih =>
    rw [natBits, h k (by omega), ih fun i hi => h i (by omega), natBits, List.map_cons]

/-- **Negating every bit is the complement.** -/
theorem natBits_compl (h : x < 2 ^ k) :
    natBits k (2 ^ k - 1 - x) = (natBits k x).map (!·) := by
  apply natBits_not
  intro i hi
  rw [Nat.sub_sub, Nat.add_comm 1 x, Nat.testBit_two_pow_sub_succ h]
  simp [hi]

/-! ## Bytes -/

@[simp] theorem length_natBytes (k x : ℕ) : (natBytes k x).length = k := by
  induction k with
  | zero => rfl
  | succ k ih => simp only [natBytes, List.length_cons, ih]

@[simp] theorem bytesBits_nil : bytesBits [] = [] := rfl

theorem bytesBits_cons (b : UInt8) (bs : List UInt8) :
    bytesBits (b :: bs) = natBits 8 b.toNat ++ bytesBits bs := rfl

theorem bytesBits_append (as bs : List UInt8) :
    bytesBits (as ++ bs) = bytesBits as ++ bytesBits bs := List.flatMap_append

theorem length_bytesBits (bs : List UInt8) : (bytesBits bs).length = 8 * bs.length := by
  induction bs with
  | nil => rfl
  | cons b bs ih =>
    rw [bytesBits_cons, List.length_append, length_natBits, ih, List.length_cons]
    omega

/-- The bit `i` of a byte string is a bit of its byte `i / 8`. -/
theorem getD_bytesBits (bs : List UInt8) (i : ℕ) :
    (bytesBits bs).getD i false = (bs.getD (i / 8) 0).toNat.testBit (7 - i % 8) := by
  induction bs generalizing i with
  | nil => simp
  | cons b bs ih =>
    rw [bytesBits_cons]
    rcases Nat.lt_or_ge i 8 with hi | hi
    · rw [List.getD_append _ _ _ _ (by simpa using hi), getD_natBits, Nat.div_eq_of_lt hi,
        Nat.mod_eq_of_lt hi]
      simp [hi]
    · rw [List.getD_append_right _ _ _ _ (by simpa using hi), length_natBits, ih (i - 8),
        show i / 8 = (i - 8) / 8 + 1 by omega, List.getD_cons_succ,
        show (i - 8) % 8 = i % 8 by omega]

/-- **A number of whole bytes has the bits of its bytes.** -/
theorem bytesBits_natBytes (k x : ℕ) : bytesBits (natBytes k x) = natBits (8 * k) x := by
  induction k with
  | zero => rfl
  | succ k ih =>
    rw [natBytes, bytesBits_cons, ih, show 8 * (k + 1) = 8 + 8 * k by omega, natBits_add 8,
      Nat.pow_mul, UInt8.toNat_ofNat']
    rw [← natBits_mod 8 (x / (2 ^ 8) ^ k)]

/-- Only the remainder of the number in front counts. -/
theorem bytesVal_mod (m v : ℕ) (bs : List UInt8) :
    bytesVal (v % m) bs % m = bytesVal v bs % m := by
  induction bs generalizing v with
  | nil => exact Nat.mod_mod v m
  | cons b bs ih =>
    rw [bytesVal, bytesVal, ← ih, ← ih (v * 256 + b.toNat), Nat.add_mod, Nat.mul_mod, Nat.mod_mod,
      ← Nat.mul_mod, ← Nat.add_mod]

/-- **Bytes denote the number they were cut from.** -/
theorem bytesVal_natBytes (v k x : ℕ) :
    bytesVal v (natBytes k x) = v * 256 ^ k + x % 256 ^ k := by
  induction k generalizing v with
  | zero => simp [natBytes, bytesVal, Nat.mod_one]
  | succ k ih =>
    rw [natBytes, bytesVal, ih, UInt8.toNat_ofNat', show 2 ^ 8 = 256 by norm_num, Nat.pow_succ,
      Nat.mod_mul]
    ring

/-- Byte strings of one length with the same bits are equal. -/
theorem bytes_ext {as bs : List UInt8} (hlen : as.length = bs.length)
    (h : ∀ i < 8 * as.length, (bytesBits as).getD i false = (bytesBits bs).getD i false) :
    as = bs := by
  apply List.ext_getElem hlen
  intro j hj hj'
  apply UInt8.toNat_inj.1
  apply Nat.eq_of_testBit_eq
  intro i
  rcases Nat.lt_or_ge i 8 with hi | hi
  · -- the bit `i` of byte `j` stands at `8 * j + (7 - i)` of the string
    have := h (8 * j + (7 - i)) (by omega)
    rw [getD_bytesBits, getD_bytesBits, show (8 * j + (7 - i)) / 8 = j by omega,
      show 7 - (8 * j + (7 - i)) % 8 = i by omega, List.getD_eq_getElem _ _ hj,
      List.getD_eq_getElem _ _ hj'] at this
    exact this
  · have hpow : 2 ^ 8 ≤ 2 ^ i := Nat.pow_le_pow_right (by omega) hi
    rw [Nat.testBit_lt_two_pow (lt_of_lt_of_le as[j].toNat_lt hpow),
      Nat.testBit_lt_two_pow (lt_of_lt_of_le bs[j].toNat_lt hpow)]

end Muxer.Lib
