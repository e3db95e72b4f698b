import Muxer.Proof.Integers
import Muxer.Spec.Messages

/-!
# Encoding and decoding PDUs

An encoding is made of whole bytes: those of the invoke id, then for each octet string its
length less one and its bytes. So the PDU keeps all of it, and it is decoded byte by byte.

* `encodeInPdu_ok`, `encodeOutPdu_ok`: a valid message is encoded as its bytes.
* `decodeInPdu_bytes`, `decodeOutPdu_bytes`: the bytes of a message are decoded as the message.
* `decodeInPdu_total`, `decodeOutPdu_total`: every PDU is decoded, to a valid message.
-/

namespace Muxer

open Muxer.Lib

variable {n : ℕ} {s : BitStream n} {bs rest : Bytes}

/-- An octet string of a length in the range its type allows. -/
def OctetsValid (bs : Bytes) : Prop := 1 ≤ bs.length ∧ bs.length ≤ 256

/-- The encoding of an octet string. -/
def octetsBytes (bs : Bytes) : Bytes := UInt8.ofNat (bs.length - 1) :: bs

/-- `InputType_IsConstraintValid`, as a property. -/
def InputType.Valid (q : InputType) : Prop := OctetsValid q.command

/-- `OutputType_IsConstraintValid`, as a property. -/
def OutputType.Valid (m : OutputType) : Prop := OctetsValid m.command ∧ OctetsValid m.result

/-- The encoding of a request. -/
def InputType.bytes (q : InputType) : Bytes := intBytes q.invokeid ++ octetsBytes q.command

/-- The encoding of a response. -/
def OutputType.bytes (m : OutputType) : Bytes :=
  intBytes m.invokeid ++ (octetsBytes m.command ++ octetsBytes m.result)

theorem length_octetsBytes (bs : Bytes) : (octetsBytes bs).length = bs.length + 1 := rfl

theorem InputType.length_bytes {q : InputType} (hq : q.Valid) :
    4 ≤ q.bytes.length ∧ q.bytes.length ≤ 266 := by
  obtain ⟨h1, h8, _⟩ := getLengthInBytesOfSInt_spec q.invokeid
  obtain ⟨hlo, hhi⟩ := hq
  rw [InputType.bytes, List.length_append, length_intBytes, length_octetsBytes]
  omega

theorem OutputType.length_bytes {m : OutputType} (hm : m.Valid) :
    6 ≤ m.bytes.length ∧ m.bytes.length ≤ 523 := by
  obtain ⟨h1, h8, _⟩ := getLengthInBytesOfSInt_spec m.invokeid
  obtain ⟨⟨hclo, hchi⟩, hrlo, hrhi⟩ := hm
  rw [OutputType.bytes, List.length_append, List.length_append, length_intBytes,
    length_octetsBytes, length_octetsBytes]
  omega

/-! ## Encoding -/

theorem octetsIsConstraintValid_ok (err : ℕ) (h : OctetsValid bs) :
    octetsIsConstraintValid err bs = (true, 0) := by
  have hdec : decide (1 ≤ bs.length ∧ bs.length ≤ 256) = true := decide_eq_true h
  unfold octetsIsConstraintValid
  simp only [hdec, if_true]

theorem emits_arr (bs : Bytes) : Emits (n := n) (appendArr bs) (bytesBits bs) := by
  induction bs with
  | nil => exact emits_nil
  | cons b bs ih => exact (emits_byte0 b).bind ih

/-- The number emitted for a length. -/
theorem toNat_ofNat_sub_one (h : OctetsValid bs) :
    (Int64.ofNat bs.length - 1).toUInt64.toNat = (UInt8.ofNat (bs.length - 1)).toNat := by
  obtain ⟨hlo, hhi⟩ := h
  rw [show (1 : Int64) = Int64.ofNat 1 by rfl, ← Int64.ofNat_sub _ _ hlo, Int64.toUInt64_ofNat',
    UInt64.toNat_ofNat', UInt8.toNat_ofNat']
  omega

/-- An octet string is appended as its length less one and its bytes. -/
theorem octetsEncode_ok (valid : Bytes → Bool × ℕ) (errCode : ℕ) (h : OctetsValid bs)
    {pre : Bytes} (hw : Written s (bytesBits pre)) (hfits : pre.length + bs.length + 1 ≤ n) :
    ∃ s', octetsEncode valid bs s errCode false = .ok (true, errCode, s') ∧
      Written s' (bytesBits (pre ++ octetsBytes bs)) := by
  obtain ⟨s₁, hs₁, hw₁⟩ := emits_byteInRange 1 256 (by decide) (by decide) (toNat_ofNat_sub_one h) s _ hw
    (by rw [length_bytesBits, length_natBits]; omega)
  obtain ⟨s₂, hs₂, hw₂⟩ := emits_arr bs s₁ _ hw₁ (by
    rw [List.length_append, length_bytesBits, length_natBits, length_bytesBits]
    omega)
  refine ⟨s₂, ?_, by rwa [bytesBits_append, octetsBytes, bytesBits_cons, ← List.append_assoc]⟩
  unfold octetsEncode
  simp [hs₁, hs₂, bind, Except.bind]

theorem written_zero : Written (n := n) ⟨Buffer.zero n, 0, 0⟩ (bytesBits []) := by
  refine ⟨by simp, rfl, by simp, ?_⟩
  intro i hi
  unfold Buffer.bit
  rw [getD_bytesBits, List.getD_eq_getElem _ _ (by rw [Buffer.size_eq]; omega)]
  simp [Buffer.zero]

theorem intBytes_written (v : Int64) (h : 9 ≤ n) :
    ∃ s', encodeUnConstraintWholeNumber ⟨Buffer.zero n, 0, 0⟩ v = .ok s' ∧
      Written s' (bytesBits (intBytes v)) := by
  obtain ⟨_, h8, _⟩ := getLengthInBytesOfSInt_spec v
  exact emits_unConstraintWholeNumber v _ [] written_zero (by
    rw [length_bytesBits, length_intBytes, List.length_nil]
    omega)

theorem inputTypeEncode_ok {q : InputType} (hq : q.Valid) (h : 266 ≤ n) :
    ∃ s, inputTypeEncode q ⟨Buffer.zero n, 0, 0⟩ = .ok (true, 0, s) ∧
      Written s (bytesBits q.bytes) := by
  have hlen := InputType.length_bytes hq
  rw [InputType.bytes, List.length_append, length_octetsBytes] at hlen
  obtain ⟨s₁, hs₁, hw₁⟩ := intBytes_written (n := n) q.invokeid (by omega)
  obtain ⟨s₂, hs₂, hw₂⟩ := octetsEncode_ok inputTypeCommandIsConstraintValid 0 hq hw₁ (by omega)
  refine ⟨s₂, ?_, hw₂⟩
  unfold inputTypeEncode inputTypeIsConstraintValid
  rw [inputTypeCommandIsConstraintValid, octetsIsConstraintValid_ok _ hq]
  simp only [if_true, hs₁, bind, Except.bind]
  exact hs₂

theorem outputTypeEncode_ok {m : OutputType} (hm : m.Valid) (h : 523 ≤ n) :
    ∃ s, outputTypeEncode m ⟨Buffer.zero n, 0, 0⟩ = .ok (true, 0, s) ∧
      Written s (bytesBits m.bytes) := by
  have hlen := OutputType.length_bytes hm
  rw [OutputType.bytes, List.length_append, List.length_append, length_octetsBytes,
    length_octetsBytes] at hlen
  obtain ⟨s₁, hs₁, hw₁⟩ := intBytes_written (n := n) m.invokeid (by omega)
  obtain ⟨s₂, hs₂, hw₂⟩ := octetsEncode_ok outputTypeCommandIsConstraintValid 0 hm.1 hw₁ (by omega)
  obtain ⟨s₃, hs₃, hw₃⟩ := octetsEncode_ok outputTypeResultIsConstraintValid 0 hm.2 hw₂ (by
    rw [List.length_append, length_octetsBytes]
    omega)
  refine ⟨s₃, ?_, by rwa [OutputType.bytes, ← List.append_assoc]⟩
  have hvalid : outputTypeIsConstraintValid m = (true, 0) := by
    unfold outputTypeIsConstraintValid
    rw [outputTypeCommandIsConstraintValid, octetsIsConstraintValid_ok _ hm.1]
    simp only [if_true]
    exact octetsIsConstraintValid_ok _ hm.2
  unfold outputTypeEncode
  simp only [hvalid, if_true, hs₁, bind, Except.bind, outputTypeCommandEncode, hs₂]
  exact hs₃

/-- Whole bytes written are the first bytes of the array. -/
theorem Written.bytes (hw : Written s (bytesBits bs)) :
    s.currentByte = bs.length ∧ s.buf.bytes.take bs.length = bs := by
  have hpos := hw.position
  have hlt := hw.currentBit_lt
  have hfits := hw.fits
  rw [length_bytesBits] at hpos hfits
  have hlen : (s.buf.bytes.take bs.length).length = bs.length := by
    rw [List.length_take, s.buf.size_eq]
    omega
  -- the bits of the array are those written
  refine ⟨by omega, bytes_ext hlen ?_⟩
  intro i hi
  rw [← hw.bits i (by omega), Buffer.bit, getD_bytesBits, getD_bytesBits]
  congr 2
  rw [List.getD_eq_getElem?_getD, List.getElem?_take_of_lt (by omega),
    ← List.getD_eq_getElem?_getD]

theorem encodePdu_ok
    {encode : BitStream bufferKsize → Except Fault (Bool × ℕ × BitStream bufferKsize)}
    (h : ∃ s, encode ⟨Buffer.zero _, 0, 0⟩ = .ok (true, 0, s) ∧ Written s (bytesBits bs)) :
    ∃ p : Pdu, encodePdu encode = .ok (0, p) ∧ p.buffer = bs := by
  obtain ⟨s, hs, hw⟩ := h
  obtain ⟨hbyte, htake⟩ := hw.bytes
  have hle : bs.length ≤ bufferKsize := by
    have := hw.fits
    rw [length_bytesBits] at this
    omega
  refine ⟨⟨bs, hle⟩, ?_, rfl⟩
  unfold encodePdu
  simp only [hs, bind, Except.bind, if_true, hbyte]
  rw [Buffer.read_zero hle, htake]
  simp only [copyIntoPdu, dif_pos hle]

/-- **A valid request is encoded as its bytes.** -/
theorem encodeInPdu_ok {q : InputType} (hq : q.Valid) :
    ∃ p, encodeInPdu q = .ok (0, p) ∧ p.buffer = q.bytes :=
  encodePdu_ok (inputTypeEncode_ok hq (by decide))

/-- **A valid response is encoded as its bytes.** -/
theorem encodeOutPdu_ok {m : OutputType} (hm : m.Valid) :
    ∃ p, encodeOutPdu m = .ok (0, p) ∧ p.buffer = m.bytes :=
  encodePdu_ok (outputTypeEncode_ok hm (by decide))

/-! ## Decoding -/

theorem readArr_ok {i : ℕ} (hi : i + bs.length ≤ 256) (hu : Unread s (bs ++ rest)) :
    ∃ s', readArr s i bs.length = .ok (true, bs, s') ∧ Unread s' rest := by
  induction bs generalizing s i with
  | nil => exact ⟨s, rfl, hu⟩
  | cons b bs ih =>
    rw [List.length_cons] at hi
    obtain ⟨s₁, hs₁, hu₁⟩ := readByte_ok hu
    obtain ⟨s', hs', hu'⟩ := ih (i := i + 1) (by omega) hu₁
    refine ⟨s', ?_, hu'⟩
    rw [List.length_cons, readArr, if_pos (by omega)]
    simp only [hs₁, hs', bind, Except.bind, if_true]

/-- An octet string is decoded from its encoding. -/
theorem octetsDecode_ok (h : OctetsValid bs) (hu : Unread s (octetsBytes bs ++ rest)) :
    ∃ s', octetsDecode s = .ok (some bs, 0, s') ∧ Unread s' rest := by
  obtain ⟨hlo, hhi⟩ := h
  obtain ⟨s₁, hs₁, hu₁⟩ := decodeByteInRange_ok 1 256 (by decide) (by decide) hu
  obtain ⟨s', hs', hu'⟩ := readArr_ok (i := 0) (by omega) hu₁
  refine ⟨s', ?_, hu'⟩
  have hnat : (Int64.ofNat (UInt8.ofNat (bs.length - 1)).toNat + 1).toNatClampNeg = bs.length := by
    rw [UInt8.toNat_ofNat', show (1 : Int64) = Int64.ofNat 1 by rfl, ← Int64.ofNat_add,
      Nat.mod_eq_of_lt (by omega), Nat.sub_add_cancel hlo]
    exact Int64.toNatClampNeg_ofNat_of_lt (by omega)
  unfold octetsDecode
  simp only [hs₁, bind, Except.bind, if_true, hnat, hs']

/-- Bytes enough to hold an octet string start with one. -/
theorem octetsBytes_of_length (rest : Bytes) (h : 257 ≤ rest.length) :
    ∃ bs rest', OctetsValid bs ∧ rest = octetsBytes bs ++ rest' ∧
      rest.length ≤ rest'.length + 257 := by
  obtain _ | ⟨b, r⟩ := rest
  · simp at h
  rw [List.length_cons] at h
  have hb := b.toNat_lt
  have hlen : (r.take (b.toNat + 1)).length = b.toNat + 1 := by
    rw [List.length_take]
    omega
  refine ⟨r.take (b.toNat + 1), r.drop (b.toNat + 1), ⟨by omega, by omega⟩, ?_, ?_⟩
  · rw [octetsBytes, hlen, Nat.add_sub_cancel, UInt8.ofNat_toNat, List.cons_append,
      List.take_append_drop]
  · rw [List.length_cons, List.length_drop]
    omega

/-- Bytes enough to hold a number start with one. -/
theorem decodeUnConstraintWholeNumber_of_length (h : 256 ≤ rest.length) (hu : Unread s rest) :
    ∃ v s' rest', decodeUnConstraintWholeNumber s = .ok (true, v, s') ∧ Unread s' rest' ∧
      rest.length ≤ rest'.length + 256 := by
  obtain _ | ⟨b, r⟩ := rest
  · simp at h
  rw [List.length_cons] at h
  have hb := b.toNat_lt
  have hlen : (r.take b.toNat).length = b.toNat := by
    rw [List.length_take]
    omega
  obtain ⟨s', hs', hu'⟩ := decodeUnConstraintWholeNumber_ok (r.take b.toNat) (by omega) (by
    rw [hlen, UInt8.ofNat_toNat, List.take_append_drop]
    exact hu)
  refine ⟨_, s', _, hs', hu', ?_⟩
  rw [List.length_cons, List.length_drop]
  omega

theorem inputTypeDecode_ok {s₁ : BitStream n} {v : Int64} {command : Bytes}
    (hv : decodeUnConstraintWholeNumber s = .ok (true, v, s₁)) (hc : OctetsValid command)
    (hu : Unread s₁ (octetsBytes command ++ rest)) :
    ∃ s', inputTypeDecode s = .ok (some ⟨v, command⟩, 0, s') ∧ Unread s' rest := by
  obtain ⟨s', hs', hu'⟩ := octetsDecode_ok hc hu
  refine ⟨s', ?_, hu'⟩
  unfold inputTypeDecode inputTypeCommandDecode
  simp only [hv, hs', bind, Except.bind, if_true]

theorem outputTypeDecode_ok {s₁ : BitStream n} {v : Int64} {command result : Bytes}
    (hv : decodeUnConstraintWholeNumber s = .ok (true, v, s₁)) (hc : OctetsValid command)
    (hr : OctetsValid result)
    (hu : Unread s₁ (octetsBytes command ++ (octetsBytes result ++ rest))) :
    ∃ s', outputTypeDecode s = .ok (some ⟨v, command, result⟩, 0, s') ∧ Unread s' rest := by
  obtain ⟨s₂, hs₂, hu₂⟩ := octetsDecode_ok hc hu
  obtain ⟨s', hs', hu'⟩ := octetsDecode_ok hr hu₂
  refine ⟨s', ?_, hu'⟩
  unfold outputTypeDecode outputTypeCommandDecode outputTypeResultDecode
  simp only [hv, hs₂, hs', bind, Except.bind, if_true]

/-- The bytes a PDU is decoded from. -/
def Pdu.padded (p : Pdu) : Bytes := p.buffer ++ List.replicate (bufferKsize - p.length) 0

theorem Pdu.length_padded (p : Pdu) : p.padded.length = 1024 := by
  have := p.length_le
  rw [Pdu.padded, List.length_append, List.length_replicate, Pdu.length]
  simp only [bufferKsize] at *
  omega

/-- Decoding starts at the bytes of the PDU followed by zeros. -/
theorem decodePdu_start (p : Pdu) :
    ∃ s : BitStream bufferKsize, Unread s p.padded ∧ ∀ {α : Type} {value : Option α}
      {decode : BitStream bufferKsize → Except Fault (Option α × ℕ × BitStream bufferKsize)} {s'},
      decode s = .ok (value, 0, s') → decodePdu decode p = .ok (0, value) := by
  obtain ⟨b, hb, hbytes⟩ := (Buffer.zero bufferKsize).write_ok 0 p.buffer
    (by rw [Nat.zero_add]; exact p.length_le)
  -- the array behind the PDU is still zero
  refine ⟨⟨b, 0, 0⟩, ⟨rfl, ?_⟩, ?_⟩
  · rw [List.drop_zero, hbytes]
    simp [Buffer.zero, Pdu.padded, Pdu.length]
  · intro α value decode s' hs'
    unfold decodePdu
    simp only [hb, hs', bind, Except.bind]

/-- A request is decoded from its bytes at the front. -/
theorem decodeInPdu_front {q : InputType} {p : Pdu} (hq : q.Valid)
    (hp : p.padded = q.bytes ++ rest) : decodeInPdu p = .ok (0, some q) := by
  obtain ⟨s, hu, hdecode⟩ := decodePdu_start p
  rw [hp, InputType.bytes, List.append_assoc] at hu
  obtain ⟨s₁, hs₁, hu₁⟩ := decodeUnConstraintWholeNumber_intBytes _ hu
  obtain ⟨s', hs', _⟩ := inputTypeDecode_ok hs₁ hq hu₁
  exact hdecode hs'

/-- **The bytes of a request are decoded as the request.** -/
theorem decodeInPdu_bytes {q : InputType} {p : Pdu} (hq : q.Valid) (hp : p.buffer = q.bytes) :
    decodeInPdu p = .ok (0, some q) :=
  decodeInPdu_front hq (by rw [Pdu.padded, hp])

/-- **The bytes of a response are decoded as the response.** -/
theorem decodeOutPdu_bytes {m : OutputType} {p : Pdu} (hm : m.Valid) (hp : p.buffer = m.bytes) :
    decodeOutPdu p = .ok (0, some m) := by
  obtain ⟨s, hu, hdecode⟩ := decodePdu_start p
  rw [Pdu.padded, hp, OutputType.bytes, List.append_assoc, List.append_assoc] at hu
  obtain ⟨s₁, hs₁, hu₁⟩ := decodeUnConstraintWholeNumber_intBytes _ hu
  obtain ⟨s', hs', _⟩ := outputTypeDecode_ok hs₁ hm.1 hm.2 hu₁
  exact hdecode hs'

/-- **Every PDU is decoded as a valid request**, zeros making up for the bytes it lacks. -/
theorem decodeInPdu_total (p : Pdu) : ∃ q, decodeInPdu p = .ok (0, some q) ∧ q.Valid := by
  obtain ⟨s, hu, hdecode⟩ := decodePdu_start p
  have hlen := p.length_padded
  obtain ⟨v, s₁, r₁, hs₁, hu₁, hr₁⟩ := decodeUnConstraintWholeNumber_of_length (by omega) hu
  obtain ⟨command, r₂, hc, rfl, hr₂⟩ := octetsBytes_of_length r₁ (by omega)
  obtain ⟨s', hs', _⟩ := inputTypeDecode_ok hs₁ hc hu₁
  exact ⟨⟨v, command⟩, hdecode hs', hc⟩

/-- **Every PDU is decoded as a valid response**, zeros making up for the bytes it lacks. -/
theorem decodeOutPdu_total (p : Pdu) : ∃ m, decodeOutPdu p = .ok (0, some m) ∧ m.Valid := by
  obtain ⟨s, hu, hdecode⟩ := decodePdu_start p
  have hlen := p.length_padded
  obtain ⟨v, s₁, r₁, hs₁, hu₁, hr₁⟩ := decodeUnConstraintWholeNumber_of_length (by omega) hu
  obtain ⟨command, r₂, hc, rfl, hr₂⟩ := octetsBytes_of_length r₁ (by omega)
  obtain ⟨result, r₃, hr, rfl, _⟩ := octetsBytes_of_length r₂ (by omega)
  obtain ⟨s', hs', _⟩ := outputTypeDecode_ok hs₁ hc hr hu₁
  exact ⟨⟨v, command, result⟩, hdecode hs', hc, hr⟩

end Muxer
