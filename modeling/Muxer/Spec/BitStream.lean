import Muxer.Spec.Mem

/-!
# Bit streams and integers (`asn1crt.c`)

`byte` is `UInt8`, `asn1SccUint32` is `UInt32`, `asn1SccUint` is `UInt64` and `asn1SccSint` is
`Int64`, whose arithmetic wraps. A shift of a byte is done in `int` and cut back to a byte, so
it is a shift of `toNat` followed by `UInt8.ofNat`. A reading function returns its `flag`
with the value read.
-/

namespace Muxer

/-- `BitStream`: the array `buf` of `count = n` bytes, and the next bit. -/
structure BitStream (n : ℕ) where
  buf : Buffer n
  currentByte : ℕ
  currentBit : ℕ

variable {n : ℕ}

/-- `masks`. -/
def masks : List UInt8 := [0x80, 0x40, 0x20, 0x10, 0x08, 0x04, 0x02, 0x01]

/-- `masksb`. -/
def masksb : List UInt8 := [0x0, 0x1, 0x3, 0x7, 0xF, 0x1F, 0x3F, 0x7F, 0xFF]

/-- `masks2`. -/
def masks2 : List UInt32 := [0x0, 0xFF, 0xFF00, 0xFF0000, 0xFF000000]

/-- The position is inside the stream: what the appending functions assert, and what the
reading functions return. -/
def BitStream.Inside (s : BitStream n) : Prop := s.currentByte * 8 + s.currentBit ≤ n * 8

instance (s : BitStream n) : Decidable s.Inside := by unfold BitStream.Inside; infer_instance

/-- The position after one more bit. -/
def BitStream.advanceBit (s : BitStream n) : BitStream n :=
  if s.currentBit < 7 then { s with currentBit := s.currentBit + 1 }
  else { s with currentBit := 0, currentByte := s.currentByte + 1 }

/-- `buf[currentByte] |= v`. -/
def BitStream.orByte (s : BitStream n) (v : UInt8) : Except Fault (BitStream n) := do
  let buf ← s.buf.or s.currentByte v
  .ok { s with buf := buf }

/-- `BitStream_AppendBitOne`. -/
def appendBitOne (s : BitStream n) : Except Fault (BitStream n) := do
  let s ← s.orByte (masks.getD s.currentBit 0)
  let s := s.advanceBit
  cAssert s.Inside
  .ok s

/-- `BitStream_AppendNBitZero`. -/
def appendNBitZero (s : BitStream n) (nbits : ℕ) : BitStream n :=
  let totalBits := s.currentBit + nbits
  { s with currentBit := totalBits % 8, currentByte := s.currentByte + totalBits / 8 }

/-- `BitStream_AppendByte0`. -/
def appendByte0 (s : BitStream n) (v : UInt8) : Except Fault (BitStream n) := do
  let cb := s.currentBit
  let ncb := 8 - cb
  let s ← s.orByte (UInt8.ofNat (v.toNat >>> cb))
  let s := { s with currentByte := s.currentByte + 1 }
  cAssert s.Inside
  if cb ≠ 0 then s.orByte (UInt8.ofNat (v.toNat <<< ncb)) else .ok s

/-- `BitStream_AppendByte`: as `BitStream_AppendByte0`, of the negated byte if asked to. -/
def appendByte (s : BitStream n) (v : UInt8) (negate : Bool) : Except Fault (BitStream n) :=
  appendByte0 s (if negate then ~~~v else v)

/-- The rounds of the loop of `BitStream_AppendNBitOne` that append a single bit. -/
def appendBitsOne (s : BitStream n) : ℕ → Except Fault (BitStream n)
  | 0 => .ok s
  | k + 1 => do
    let s ← appendBitOne s
    appendBitsOne s k

/-- `BitStream_AppendNBitOne`. -/
def appendNBitOne (s : BitStream n) (nbits : ℕ) : Except Fault (BitStream n) :=
  if 8 ≤ nbits then do
    let s ← appendByte s 0xFF false
    appendNBitOne s (nbits - 8)
  else appendBitsOne s nbits

/-- `BitStream_AppendPartialByte`, for `nbits` in `1..7`. -/
def appendPartialByte (s : BitStream n) (v : UInt8) (nbits : ℕ) (negate : Bool) :
    Except Fault (BitStream n) := do
  let totalBits := s.currentBit + nbits
  let v := if negate then masksb.getD nbits 0 &&& ~~~v else v
  let s ←
    if totalBits ≤ 8 then do
      let s ← s.orByte (UInt8.ofNat (v.toNat <<< (8 - totalBits)))
      let s := { s with currentBit := s.currentBit + nbits }
      pure (if s.currentBit = 8 then { s with currentBit := 0, currentByte := s.currentByte + 1 }
        else s)
    else do
      let totalBitsForNextByte := totalBits - 8
      let s ← s.orByte (UInt8.ofNat (v.toNat >>> totalBitsForNextByte))
      let s := { s with currentByte := s.currentByte + 1 }
      let s ← s.orByte (UInt8.ofNat (v.toNat <<< (8 - totalBitsForNextByte)))
      pure { s with currentBit := totalBitsForNextByte }
  cAssert s.Inside
  .ok s

/-- `BitStream_ReadByte`. -/
def readByte (s : BitStream n) : Except Fault (Bool × UInt8 × BitStream n) := do
  let cb := s.currentBit
  let ncb := 8 - cb
  let v := UInt8.ofNat ((← s.buf.get s.currentByte).toNat <<< cb)
  let s := { s with currentByte := s.currentByte + 1 }
  let v ← if cb ≠ 0 then do
      let next ← s.buf.get s.currentByte
      pure (v ||| UInt8.ofNat (next.toNat >>> ncb))
    else pure v
  .ok (decide s.Inside, v, s)

/-- `BitStream_ReadPartialByte`, for `nbits` in `1..7`. -/
def readPartialByte (s : BitStream n) (nbits : ℕ) : Except Fault (Bool × UInt8 × BitStream n) := do
  let totalBits := s.currentBit + nbits
  if totalBits ≤ 8 then
    let b ← s.buf.get s.currentByte
    let v := UInt8.ofNat (b.toNat >>> (8 - totalBits)) &&& masksb.getD nbits 0
    let s := { s with currentBit := s.currentBit + nbits }
    let s := if s.currentBit = 8 then { s with currentBit := 0, currentByte := s.currentByte + 1 }
      else s
    .ok (decide s.Inside, v, s)
  else
    let totalBitsForNextByte := totalBits - 8
    let b ← s.buf.get s.currentByte
    let s := { s with currentByte := s.currentByte + 1 }
    let b' ← s.buf.get s.currentByte
    let v := UInt8.ofNat (b.toNat <<< totalBitsForNextByte) |||
      UInt8.ofNat (b'.toNat >>> (8 - totalBitsForNextByte))
    let s := { s with currentBit := totalBitsForNextByte }
    .ok (decide s.Inside, v &&& masksb.getD nbits 0, s)

/-! ## Integers -/

/-- The first loop of `BitStream_EncodeNonNegativeInteger32Neg`: `cc` bits from the mask down,
less the leading zeros. -/
def skipZeros (v : UInt32) : ℕ → UInt32 → ℕ
  | 0, _ => 0
  | cc + 1, curMask => if v &&& curMask = 0 then skipZeros v cc (curMask >>> 1) else cc + 1

/-- The second loop: the low `k` bytes, the most significant first. -/
def appendOctets (v : UInt32) (negate : Bool) : ℕ → BitStream n → Except Fault (BitStream n)
  | 0, s => .ok s
  | k + 1, s => do
    let t1 := v &&& masks2.getD (k + 1) 0
    let s ← appendByte s (UInt8.ofNat (t1.toNat >>> (8 * k))) negate
    appendOctets v negate k s

/-- `BitStream_EncodeNonNegativeInteger32Neg`. -/
def encodeNonNegativeInteger32Neg (s : BitStream n) (v : UInt32) (negate : Bool) :
    Except Fault (BitStream n) :=
  if v = 0 then .ok s
  else do
    let cc :=
      if v < 0x100 then skipZeros v 8 0x80
      else if v < 0x10000 then skipZeros v 16 0x8000
      else if v < 0x1000000 then skipZeros v 24 0x800000
      else skipZeros v 32 0x80000000
    let pbits := cc % 8
    if pbits ≠ 0 then
      let cc := cc - pbits
      let s ← appendPartialByte s (UInt8.ofNat (v.toNat >>> cc)) pbits negate
      appendOctets v negate (cc / 8) s
    else appendOctets v negate (cc / 8) s

/-- The loop `while (v > 0) { v >>= 1; ret++; }`. -/
def countShifts (v : ℕ) (ret : ℕ) : ℕ :=
  if 0 < v then countShifts (v >>> 1) (ret + 1) else ret
termination_by v
decreasing_by rw [Nat.shiftRight_eq_div_pow]; omega

/-- `GetNumberOfBitsForNonNegativeInteger32`. -/
def getNumberOfBitsForNonNegativeInteger32 (v : UInt32) : ℕ :=
  if v < 0x100 then countShifts v.toNat 0
  else if v < 0x10000 then countShifts (v.toNat >>> 8) 8
  else if v < 0x1000000 then countShifts (v.toNat >>> 16) 16
  else countShifts (v.toNat >>> 24) 24

/-- `GetNumberOfBitsForNonNegativeInteger`. -/
def getNumberOfBitsForNonNegativeInteger (v : UInt64) : ℕ :=
  if v < 0x100000000 then getNumberOfBitsForNonNegativeInteger32 v.toUInt32
  else 32 + getNumberOfBitsForNonNegativeInteger32 (v >>> 32).toUInt32

/-- `BitStream_EncodeNonNegativeInteger`. -/
def encodeNonNegativeInteger (s : BitStream n) (v : UInt64) : Except Fault (BitStream n) :=
  if v < 0x100000000 then encodeNonNegativeInteger32Neg s v.toUInt32 false
  else do
    let hi := (v >>> 32).toUInt32
    let lo := v.toUInt32
    let s ← encodeNonNegativeInteger32Neg s hi false
    let nBits := getNumberOfBitsForNonNegativeInteger lo.toUInt64
    encodeNonNegativeInteger32Neg (appendNBitZero s (32 - nBits)) lo false

/-- `BitStream_EncodeNonNegativeIntegerNeg`. -/
def encodeNonNegativeIntegerNeg (s : BitStream n) (v : UInt64) (negate : Bool) :
    Except Fault (BitStream n) :=
  if v < 0x100000000 then encodeNonNegativeInteger32Neg s v.toUInt32 negate
  else do
    let hi := (v >>> 32).toUInt32
    let lo := v.toUInt32
    let s ← encodeNonNegativeInteger32Neg s hi negate
    let lo := if negate then ~~~lo else lo
    let nBits := getNumberOfBitsForNonNegativeInteger lo.toUInt64
    encodeNonNegativeInteger32Neg (appendNBitZero s (32 - nBits)) lo false

/-- `BitStream_DecodeNonNegativeInteger32Neg`. -/
def decodeNonNegativeInteger32Neg (s : BitStream n) (v : UInt32) (nBits : ℕ) :
    Except Fault (Bool × UInt32 × BitStream n) := do
  if 8 ≤ nBits then
    let v := v <<< 8
    let (ok, b, s) ← readByte s
    if ok then decodeNonNegativeInteger32Neg s (v ||| b.toUInt32) (nBits - 8)
    else .ok (false, v, s)
  else if nBits ≠ 0 then
    let v := v <<< UInt32.ofNat nBits
    let (ok, b, s) ← readPartialByte s nBits
    .ok (ok, if ok then v ||| b.toUInt32 else v, s)
  else .ok (true, v, s)
termination_by nBits

/-- `BitStream_DecodeNonNegativeInteger`. -/
def decodeNonNegativeInteger (s : BitStream n) (nBits : ℕ) :
    Except Fault (Bool × UInt64 × BitStream n) := do
  if nBits ≤ 32 then
    let (ok, lo, s) ← decodeNonNegativeInteger32Neg s 0 nBits
    .ok (ok, lo.toUInt64, s)
  else
    let (ok, hi, s) ← decodeNonNegativeInteger32Neg s 0 32
    if ok then
      let (ok, lo, s) ← decodeNonNegativeInteger32Neg s 0 (nBits - 32)
      .ok (ok, (hi.toUInt64 <<< UInt64.ofNat (nBits - 32)) ||| lo.toUInt64, s)
    else .ok (false, hi.toUInt64 <<< UInt64.ofNat (nBits - 32), s)

/-- `GetLengthSIntHelper`. -/
def getLengthSIntHelper (v : UInt64) : ℕ :=
  let (ret, v32) := if v > 0x7FFFFFFF then (4, (v >>> 32).toUInt32) else (0, v.toUInt32)
  if v32 ≤ 0x7F then ret + 1
  else if v32 ≤ 0x7FFF then ret + 2
  else if v32 ≤ 0x7FFFFF then ret + 3
  else ret + 4

/-- `GetLengthInBytesOfSInt`. -/
def getLengthInBytesOfSInt (v : Int64) : ℕ :=
  if 0 ≤ v then getLengthSIntHelper v.toUInt64 else getLengthSIntHelper (-v - 1).toUInt64

/-- `BitStream_EncodeConstraintWholeNumber`, for `min ≤ v ≤ max`. -/
def encodeConstraintWholeNumber (s : BitStream n) (v min max : Int64) :
    Except Fault (BitStream n) := do
  cAssert (min ≤ max)
  let range := (max - min).toUInt64
  if range = 0 then .ok s
  else
    let nRangeBits := getNumberOfBitsForNonNegativeInteger range
    let nBits := getNumberOfBitsForNonNegativeInteger (v - min).toUInt64
    encodeNonNegativeInteger (appendNBitZero s (nRangeBits - nBits)) (v - min).toUInt64

/-- `BitStream_DecodeConstraintWholeNumber`. -/
def decodeConstraintWholeNumber (s : BitStream n) (min max : Int64) :
    Except Fault (Bool × Int64 × BitStream n) := do
  let range := (max - min).toUInt64
  cAssert (min ≤ max)
  if range = 0 then .ok (true, min, s)
  else
    let nRangeBits := getNumberOfBitsForNonNegativeInteger range
    let (ok, uv, s) ← decodeNonNegativeInteger s nRangeBits
    .ok (ok, if ok then uv.toInt64 + min else 0, s)

/-- `BitStream_EncodeUnConstraintWholeNumber`. -/
def encodeUnConstraintWholeNumber (s : BitStream n) (v : Int64) : Except Fault (BitStream n) := do
  let nBytes := getLengthInBytesOfSInt v
  let s ← encodeConstraintWholeNumber s (Int64.ofNat nBytes) 0 255
  if 0 ≤ v then
    let s := appendNBitZero s (nBytes * 8 - getNumberOfBitsForNonNegativeInteger v.toUInt64)
    encodeNonNegativeInteger s v.toUInt64
  else
    let w := (-v - 1).toUInt64
    let s ← appendNBitOne s (nBytes * 8 - getNumberOfBitsForNonNegativeInteger w)
    encodeNonNegativeIntegerNeg s w true

/-- The loop of `BitStream_DecodeUnConstraintWholeNumber`: `left` more bytes, the next of which
is the `i`-th. -/
def decodeOctets (s : BitStream n) (v : Int64) (i : ℕ) :
    ℕ → Except Fault (Bool × Int64 × BitStream n)
  | 0 => .ok (true, v, s)
  | left + 1 => do
    let (ok, b, s) ← readByte s
    if ok then
      let v := if i = 0 ∧ 0x7F < b then -1 else v
      decodeOctets s ((v <<< 8) ||| b.toUInt64.toInt64) (i + 1) left
    else .ok (false, v, s)

/-- `BitStream_DecodeUnConstraintWholeNumber`. -/
def decodeUnConstraintWholeNumber (s : BitStream n) : Except Fault (Bool × Int64 × BitStream n) := do
  let (ok, nBytes, s) ← decodeConstraintWholeNumber s 0 255
  if ok then decodeOctets s 0 0 nBytes.toNatClampNeg else .ok (false, 0, s)

end Muxer
