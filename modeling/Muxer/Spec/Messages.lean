import Muxer.Spec.BitStream
import Muxer.Spec.Pdu

/-!
# Messages and their PDUs (`messages/messages.c`, `common/pdu.h`)

An octet string (`nCount`, `arr[256]`) is the list of its `nCount` bytes. A value is encoded in
unaligned PER: the invoke id as an unconstrained whole number, then each octet string as its
length, constrained to `1..256`, followed by its bytes. Functions that return a `flag` and set
`*pErrCode` return both, with the stream.
-/

namespace Muxer

variable {n : ℕ}

/-- `ERR_INSUFFICIENT_DATA`. -/
def errInsufficientData : ℕ := 101

/-- `ERR_OutputType_result`. -/
def errOutputTypeResult : ℕ := 1001

/-- `ERR_OutputType_command`. -/
def errOutputTypeCommand : ℕ := 1002

/-- `ERR_InputType_command`. -/
def errInputTypeCommand : ℕ := 1003

/-- `OutputType`. -/
@[ext] structure OutputType where
  invokeid : Int64
  command : Bytes
  result : Bytes

/-- `InputType`. -/
@[ext] structure InputType where
  invokeid : Int64
  command : Bytes

/-! ## Octet strings

The functions of `OutputType_result`, `OutputType_command` and `InputType_command` differ in the
error code only. -/

/-- `…_IsConstraintValid` of an octet string. -/
def octetsIsConstraintValid (err : ℕ) (pVal : Bytes) : Bool × ℕ :=
  let ret : Bool := 1 ≤ pVal.length ∧ pVal.length ≤ 256
  (ret, if ret then 0 else err)

/-- The loop that appends the bytes of `arr`. -/
def appendArr : Bytes → BitStream n → Except Fault (BitStream n)
  | [], s => .ok s
  | b :: bs, s => do
    let s ← appendByte0 s b
    appendArr bs s

/-- `…_Encode` of an octet string. -/
def octetsEncode (isConstraintValid : Bytes → Bool × ℕ) (pVal : Bytes) (s : BitStream n)
    (errCode : ℕ) (bCheckConstraints : Bool) : Except Fault (Bool × ℕ × BitStream n) := do
  let (ret, errCode) := if bCheckConstraints then isConstraintValid pVal else (true, errCode)
  if ret then
    let s ← encodeConstraintWholeNumber s (Int64.ofNat pVal.length) 1 256
    let s ← appendArr pVal s
    .ok (true, errCode, s)
  else .ok (false, errCode, s)

/-- The loop that reads `left` bytes into `arr`, from `arr[i1]` on. -/
def readArr (s : BitStream n) (i1 : ℕ) : ℕ → Except Fault (Bool × Bytes × BitStream n)
  | 0 => .ok (true, [], s)
  | left + 1 => do
    if i1 < 256 then
      let (ret, b, s) ← readByte s
      if ret then
        let (ret, bs, s) ← readArr s (i1 + 1) left
        .ok (ret, b :: bs, s)
      else .ok (false, [b], s)
    else .error .bounds

/-- `…_Decode` of an octet string: no value when it fails, as part of it is then not set. -/
def octetsDecode (s : BitStream n) : Except Fault (Option Bytes × ℕ × BitStream n) := do
  let (ret, nCount, s) ← decodeConstraintWholeNumber s 1 256
  if ret then
    let (ret, arr, s) ← readArr s 0 nCount.toNatClampNeg
    if ret then .ok (some arr, 0, s) else .ok (none, errInsufficientData, s)
  else .ok (none, errInsufficientData, s)

/-- `OutputType_result_IsConstraintValid`. -/
def outputTypeResultIsConstraintValid := octetsIsConstraintValid errOutputTypeResult

/-- `OutputType_command_IsConstraintValid`. -/
def outputTypeCommandIsConstraintValid := octetsIsConstraintValid errOutputTypeCommand

/-- `InputType_command_IsConstraintValid`. -/
def inputTypeCommandIsConstraintValid := octetsIsConstraintValid errInputTypeCommand

/-- `OutputType_result_Encode`. -/
def outputTypeResultEncode (pVal : Bytes) (s : BitStream n) (errCode : ℕ) (check : Bool) :=
  octetsEncode outputTypeResultIsConstraintValid pVal s errCode check

/-- `OutputType_command_Encode`. -/
def outputTypeCommandEncode (pVal : Bytes) (s : BitStream n) (errCode : ℕ) (check : Bool) :=
  octetsEncode outputTypeCommandIsConstraintValid pVal s errCode check

/-- `InputType_command_Encode`. -/
def inputTypeCommandEncode (pVal : Bytes) (s : BitStream n) (errCode : ℕ) (check : Bool) :=
  octetsEncode inputTypeCommandIsConstraintValid pVal s errCode check

/-- `OutputType_result_Decode`. -/
def outputTypeResultDecode (s : BitStream n) := octetsDecode s

/-- `OutputType_command_Decode`. -/
def outputTypeCommandDecode (s : BitStream n) := octetsDecode s

/-- `InputType_command_Decode`. -/
def inputTypeCommandDecode (s : BitStream n) := octetsDecode s

/-! ## The two messages -/

/-- `OutputType_IsConstraintValid`. -/
def outputTypeIsConstraintValid (pVal : OutputType) : Bool × ℕ :=
  let (ret, errCode) := outputTypeCommandIsConstraintValid pVal.command
  if ret then outputTypeResultIsConstraintValid pVal.result else (ret, errCode)

/-- `InputType_IsConstraintValid`. -/
def inputTypeIsConstraintValid (pVal : InputType) : Bool × ℕ :=
  inputTypeCommandIsConstraintValid pVal.command

/-- `OutputType_Encode`, with `bCheckConstraints`. -/
def outputTypeEncode (pVal : OutputType) (s : BitStream n) :
    Except Fault (Bool × ℕ × BitStream n) := do
  let (ret, errCode) := outputTypeIsConstraintValid pVal
  if ret then
    let s ← encodeUnConstraintWholeNumber s pVal.invokeid
    let (ret, errCode, s) ← outputTypeCommandEncode pVal.command s errCode false
    if ret then outputTypeResultEncode pVal.result s errCode false
    else .ok (ret, errCode, s)
  else .ok (ret, errCode, s)

/-- `InputType_Encode`, with `bCheckConstraints`. -/
def inputTypeEncode (pVal : InputType) (s : BitStream n) :
    Except Fault (Bool × ℕ × BitStream n) := do
  let (ret, errCode) := inputTypeIsConstraintValid pVal
  if ret then
    let s ← encodeUnConstraintWholeNumber s pVal.invokeid
    inputTypeCommandEncode pVal.command s errCode false
  else .ok (ret, errCode, s)

/-- `OutputType_Decode`. -/
def outputTypeDecode (s : BitStream n) : Except Fault (Option OutputType × ℕ × BitStream n) := do
  let (ret, invokeid, s) ← decodeUnConstraintWholeNumber s
  if ret then
    match ← outputTypeCommandDecode s with
    | (some command, _, s) =>
      match ← outputTypeResultDecode s with
      | (some result, errCode, s) => .ok (some ⟨invokeid, command, result⟩, errCode, s)
      | (none, errCode, s) => .ok (none, errCode, s)
    | (none, errCode, s) => .ok (none, errCode, s)
  else .ok (none, errInsufficientData, s)

/-- `InputType_Decode`. -/
def inputTypeDecode (s : BitStream n) : Except Fault (Option InputType × ℕ × BitStream n) := do
  let (ret, invokeid, s) ← decodeUnConstraintWholeNumber s
  if ret then
    match ← inputTypeCommandDecode s with
    | (some command, errCode, s) => .ok (some ⟨invokeid, command⟩, errCode, s)
    | (none, errCode, s) => .ok (none, errCode, s)
  else .ok (none, errInsufficientData, s)

/-! ## PDUs -/

/-- `ENCODE_PDU`: the error code and the PDU, which holds the whole bytes of the encoding and
stays empty on an error. -/
def encodePdu (encode : BitStream bufferKsize → Except Fault (Bool × ℕ × BitStream bufferKsize)) :
    Except Fault (ℕ × Pdu) := do
  let (_, encodeErr, stream) ← encode ⟨Buffer.zero _, 0, 0⟩
  if encodeErr = 0 then
    let encodedPdu ← (stream.buf.read 0 stream.currentByte) >>= copyIntoPdu
    .ok (0, encodedPdu)
  else .ok (encodeErr, allocPdu)

/-- `DECODE_PDU`: the error code and the value, decoded from the bytes of the PDU followed by
zeros. -/
def decodePdu {α : Type}
    (decode : BitStream bufferKsize → Except Fault (Option α × ℕ × BitStream bufferKsize))
    (pdu : Pdu) : Except Fault (ℕ × Option α) := do
  let decodeBuf ← (Buffer.zero bufferKsize).write 0 pdu.buffer
  let (value, decodeErr, _) ← decode ⟨decodeBuf, 0, 0⟩
  .ok (decodeErr, value)

/-- `encode_in_pdu`. -/
def encodeInPdu (pdu : InputType) : Except Fault (ℕ × Pdu) := encodePdu (inputTypeEncode pdu)

/-- `encode_out_pdu`. -/
def encodeOutPdu (pdu : OutputType) : Except Fault (ℕ × Pdu) := encodePdu (outputTypeEncode pdu)

/-- `decode_in_pdu`. -/
def decodeInPdu (pdu : Pdu) : Except Fault (ℕ × Option InputType) := decodePdu inputTypeDecode pdu

/-- `decode_out_pdu`. -/
def decodeOutPdu (pdu : Pdu) : Except Fault (ℕ × Option OutputType) :=
  decodePdu outputTypeDecode pdu

end Muxer
