import Muxer.Lib.Signed
import Muxer.Proof.Codec

/-!
# The format of the messages

The invoke id of a message is a number in two's complement behind the number of its octets. The
decoder takes any number of octets, none as well, and keeps the low 64 bits of what they denote. The
encoder writes as few octets as hold the number, and at least one.

* `decodes_iff`: what a PDU is decoded as.
* `encodes_shortest`: no encoding is shorter than the one written, but that of the id 0 in no octets.
-/

namespace Muxer

open Muxer.Lib

variable {n : ℕ} {s : BitStream n} {v : Int64} {bs rest : Bytes}

/-- The bytes encode the id, in front of the encoding of the other fields. -/
def Encodes (v : Int64) (fields bs : Bytes) : Prop :=
  ∃ octets : Bytes, octets.length < 256 ∧ Int64.ofInt (signedVal octets) = v ∧
    bs = UInt8.ofNat octets.length :: (octets ++ fields)

/-- The encoding of a request without its id. -/
def InputType.fields (q : InputType) : Bytes := octetsBytes q.command

/-- The encoding of a response without its id. -/
def OutputType.fields (m : OutputType) : Bytes := octetsBytes m.command ++ octetsBytes m.result

/-! ## Invoke ids -/

theorem toNat_ofInt (x : ℤ) : (Int64.ofInt x).toUInt64.toNat = (x % 2 ^ 64).toNat :=
  BitVec.toNat_ofInt x

/-- The decoder makes of the octets what they denote, in 64 bits. -/
theorem octetsVal_eq (octets : Bytes) : octetsVal 0 0 octets = Int64.ofInt (signedVal octets) := by
  obtain _ | ⟨b, bs⟩ := octets
  · rfl
  apply int64_ext
  rw [octetsVal_zero, toNat_ofInt, signedVal]
  by_cases hb : 0x7F < b
  · rw [if_pos hb, if_pos hb, bytesVal_eq, List.length_cons]
    -- the ones in front count for less one, modulo `2 ^ 64`
    have hsum : (((2 ^ 64 - 1) * 256 ^ (bs.length + 1) + bytesVal 0 (b :: bs) : ℕ) : ℤ) =
        (bytesVal 0 (b :: bs) - 256 ^ (bs.length + 1)) + 256 ^ (bs.length + 1) * 2 ^ 64 := by
      push_cast
      ring
    have hmod := congrArg (· % (2 : ℤ) ^ 64) hsum
    simp only [Int.add_mul_emod_self_right] at hmod
    rw [← hmod]
    rfl
  · rw [if_neg hb, if_neg hb]
    omega

/-- The bytes of the octets are decoded as the id. -/
theorem decodeUnConstraintWholeNumber_octets (octets : Bytes) (hlen : octets.length < 256)
    (hu : Unread s (UInt8.ofNat octets.length :: (octets ++ rest))) :
    ∃ s', decodeUnConstraintWholeNumber s = .ok (true, Int64.ofInt (signedVal octets), s') ∧
      Unread s' rest := by
  rw [← octetsVal_eq]
  exact decodeUnConstraintWholeNumber_ok octets hlen hu

/-- Bytes enough to hold an id start with one. -/
theorem octets_of_length (h : 256 ≤ rest.length) : ∃ octets rest' : Bytes, octets.length < 256 ∧
    rest = UInt8.ofNat octets.length :: (octets ++ rest') ∧ rest.length ≤ rest'.length + 256 := by
  obtain _ | ⟨b, r⟩ := rest
  · simp at h
  rw [List.length_cons] at h
  have hb := b.toNat_lt
  have hlen : (r.take b.toNat).length = b.toNat := by
    rw [List.length_take]
    omega
  refine ⟨r.take b.toNat, r.drop b.toNat, by omega, ?_, ?_⟩
  · rw [hlen, UInt8.ofNat_toNat, List.take_append_drop]
  · rw [List.length_cons, List.length_drop]
    omega

/-! ## Decoding -/

/-- A request is decoded from what encodes it. -/
theorem InputType.Valid.decode {q : InputType} {p : Pdu} (hq : q.Valid)
    (h : Encodes q.invokeid q.fields bs) (hp : p.padded = bs ++ rest) :
    decodeInPdu p = .ok (0, some q) := by
  obtain ⟨octets, hlen, hid, rfl⟩ := h
  obtain ⟨s, hu, hdecode⟩ := decodePdu_start p
  rw [hp, List.cons_append, List.append_assoc] at hu
  obtain ⟨s₁, hs₁, hu₁⟩ := decodeUnConstraintWholeNumber_octets octets hlen hu
  rw [hid] at hs₁
  obtain ⟨s', hs', _⟩ := inputTypeDecode_ok hs₁ hq hu₁
  exact hdecode hs'

/-- A response is decoded from what encodes it. -/
theorem OutputType.Valid.decode {m : OutputType} {p : Pdu} (hm : m.Valid)
    (h : Encodes m.invokeid m.fields bs) (hp : p.padded = bs ++ rest) :
    decodeOutPdu p = .ok (0, some m) := by
  obtain ⟨octets, hlen, hid, rfl⟩ := h
  obtain ⟨s, hu, hdecode⟩ := decodePdu_start p
  rw [hp, OutputType.fields, List.cons_append, List.append_assoc, List.append_assoc] at hu
  obtain ⟨s₁, hs₁, hu₁⟩ := decodeUnConstraintWholeNumber_octets octets hlen hu
  rw [hid] at hs₁
  obtain ⟨s', hs', _⟩ := outputTypeDecode_ok hs₁ hm.1 hm.2 hu₁
  exact hdecode hs'

/-- The bytes a PDU is decoded from start with the encoding of a request. -/
theorem Pdu.exists_request (p : Pdu) : ∃ q : InputType, q.Valid ∧
    ∃ bs rest, Encodes q.invokeid q.fields bs ∧ p.padded = bs ++ rest := by
  have hlen := p.length_padded
  obtain ⟨octets, r₁, hoctets, hp, h₁⟩ := octets_of_length (show 256 ≤ p.padded.length by omega)
  obtain ⟨command, r₂, hcommand, rfl, _⟩ := octetsBytes_of_length r₁ (by omega)
  refine ⟨⟨Int64.ofInt (signedVal octets), command⟩, hcommand, _, r₂, ⟨octets, hoctets, rfl, rfl⟩, ?_⟩
  rw [hp, InputType.fields, List.cons_append, List.append_assoc]

/-- The bytes a PDU is decoded from start with the encoding of a response. -/
theorem Pdu.exists_response (p : Pdu) : ∃ m : OutputType, m.Valid ∧
    ∃ bs rest, Encodes m.invokeid m.fields bs ∧ p.padded = bs ++ rest := by
  have hlen := p.length_padded
  obtain ⟨octets, r₁, hoctets, hp, h₁⟩ := octets_of_length (show 256 ≤ p.padded.length by omega)
  obtain ⟨command, r₂, hcommand, rfl, h₂⟩ := octetsBytes_of_length r₁ (by omega)
  obtain ⟨result, r₃, hresult, rfl, _⟩ := octetsBytes_of_length r₂ (by omega)
  refine ⟨⟨Int64.ofInt (signedVal octets), command, result⟩, ⟨hcommand, hresult⟩, _, r₃,
    ⟨octets, hoctets, rfl, rfl⟩, ?_⟩
  rw [hp, OutputType.fields, List.cons_append, List.append_assoc, List.append_assoc]

/-- A decoder that takes a PDU for everything it starts with, where there is such a thing. -/
theorem decoded_iff {α : Type} {P : α → Prop} {decoded : Except Fault (ℕ × Option α)}
    (h : ∀ x, P x → decoded = .ok (0, some x)) (hex : ∃ x, P x) (x : α) :
    decoded = .ok (0, some x) ↔ P x := by
  constructor
  · intro hx
    obtain ⟨y, hy⟩ := hex
    rw [h y hy] at hx
    cases hx
    exact hy
  · exact h x

/-- **A PDU is decoded as the message whose encoding its bytes start with**, those it lacks taken for
zeros: an id of any number of octets, kept to 64 bits, and then whole octet strings. -/
theorem decodes_iff (p : Pdu) :
    (∀ q, decodeInPdu p = .ok (0, some q) ↔
      q.Valid ∧ ∃ bs rest, Encodes q.invokeid q.fields bs ∧ p.padded = bs ++ rest) ∧
    ∀ m, decodeOutPdu p = .ok (0, some m) ↔
      m.Valid ∧ ∃ bs rest, Encodes m.invokeid m.fields bs ∧ p.padded = bs ++ rest := by
  constructor
  · refine decoded_iff ?_ p.exists_request
    rintro q ⟨hq, bs, rest, hbs, hp⟩
    exact hq.decode hbs hp
  · refine decoded_iff ?_ p.exists_response
    rintro m ⟨hm, bs, rest, hbs, hp⟩
    exact hm.decode hbs hp

/-! ## Encoding -/

/-- `GetLengthSIntHelper` takes a byte more only where one byte less has no room for a sign. -/
theorem getLengthSIntHelper_least (w : UInt64) : 1 < getLengthSIntHelper w →
    2 ^ (8 * (getLengthSIntHelper w - 1) - 1) ≤ w.toNat := by
  have hhi := toNat_hi w
  have hlo : w.toUInt32.toNat = w.toNat % 2 ^ 32 := UInt64.toNat_toUInt32 w
  unfold getLengthSIntHelper
  by_cases hbig : w > 0x7FFFFFFF
  · simp only [if_pos hbig, UInt32.le_iff_toNat_le, hhi]
    have : w.toNat > 0x7FFFFFFF := UInt64.lt_iff_toNat_lt.1 hbig
    repeat' split
    all_goals simp only [UInt32.toNat_ofNat] at *; omega
  · simp only [if_neg hbig, UInt32.le_iff_toNat_le, hlo]
    have : ¬ w.toNat > 0x7FFFFFFF := fun h => hbig (UInt64.lt_iff_toNat_lt.2 h)
    repeat' split
    all_goals simp only [UInt32.toNat_ofNat] at *; omega

theorem getLengthSIntHelper_le {w : UInt64} {k : ℕ} (hk : 1 ≤ k) (h : w.toNat < 2 ^ (8 * k - 1)) :
    getLengthSIntHelper w ≤ k := by
  by_contra hlt
  have hleast := getLengthSIntHelper_least w (by omega)
  have hpow : 2 ^ (8 * k - 1) ≤ 2 ^ (8 * (getLengthSIntHelper w - 1) - 1) :=
    Nat.pow_le_pow_right (by omega) (by omega)
  omega

/-- **No byte too many**: a number that `k` bytes have room for is not written in more. -/
theorem getLengthInBytesOfSInt_le {k : ℕ} (hk : 1 ≤ k) (hlo : -2 ^ (8 * k - 1) ≤ v.toInt)
    (hhi : v.toInt < 2 ^ (8 * k - 1)) : getLengthInBytesOfSInt v ≤ k := by
  have hlt := v.toUInt64.toNat_lt
  rw [toInt_eq] at hlo hhi
  unfold getLengthInBytesOfSInt
  by_cases hv : 0 ≤ v
  · rw [if_pos hv] at hhi ⊢
    exact getLengthSIntHelper_le hk (by exact_mod_cast hhi)
  · rw [if_neg hv] at hlo ⊢
    apply getLengthSIntHelper_le hk
    rw [toNat_complement]
    have hpow : ((2 ^ (8 * k - 1) : ℕ) : ℤ) = 2 ^ (8 * k - 1) := by push_cast; rfl
    omega

/-- The bytes encode the id, and nothing shorter does, but for the id 0 in no octets. -/
structure Shortest (v : Int64) (fields bs : Bytes) : Prop where
  encodes : Encodes v fields bs
  least : ∀ bs', Encodes v fields bs' → bs'.length ≤ bs.length →
    bs' = bs ∨ v = 0 ∧ bs' = 0 :: fields

/-- Up to eight octets denote the id itself. -/
theorem signedVal_eq {octets : Bytes} (hne : octets ≠ []) (hlen : octets.length ≤ 8)
    (h : Int64.ofInt (signedVal octets) = v) : signedVal octets = v.toInt := by
  obtain ⟨hlo, hhi⟩ := signedVal_bounds hne
  have hpow : (2 : ℤ) ^ (8 * octets.length - 1) ≤ 2 ^ 63 :=
    pow_le_pow_right₀ (by norm_num) (by omega)
  rw [← h, Int64.toInt_ofInt_of_le (by omega) (by omega)]

theorem shortest_intBytes (v : Int64) (fields : Bytes) :
    Shortest v fields (intBytes v ++ fields) := by
  obtain ⟨h1, h8, -⟩ := getLengthInBytesOfSInt_spec v
  have hlen := length_natBytes (getLengthInBytesOfSInt v) v.toUInt64.toNat
  have hv : Int64.ofInt (signedVal (natBytes (getLengthInBytesOfSInt v) v.toUInt64.toNat)) = v := by
    rw [← octetsVal_eq]
    exact octetsVal_natBytes v
  refine ⟨⟨_, by omega, hv, by rw [hlen]; rfl⟩, ?_⟩
  rintro bs' ⟨octets, -, hoctets, rfl⟩ hle
  rw [List.length_cons, List.length_append, List.length_append, length_intBytes] at hle
  by_cases hne : octets = []
  · right
    subst hne
    exact ⟨hoctets.symm, rfl⟩
  · left
    have hpos := List.length_pos_of_ne_nil hne
    have hval := signedVal_eq hne (by omega) hoctets
    obtain ⟨hlo, hhi⟩ := signedVal_bounds hne
    rw [hval] at hlo hhi
    -- the id has no room in fewer octets, so there are as many, and they are the same
    have hleast := getLengthInBytesOfSInt_le hpos hlo hhi
    have hsame : octets.length = getLengthInBytesOfSInt v := by omega
    have hnat : signedVal (natBytes (getLengthInBytesOfSInt v) v.toUInt64.toNat) = v.toInt :=
      signedVal_eq (List.ne_nil_of_length_pos (by omega)) (by omega) hv
    have heq := signedVal_injective (hsame.trans hlen.symm) (hval.trans hnat.symm)
    rw [intBytes, hsame, heq, List.cons_append]

theorem octetsIsConstraintValid_fails (err : ℕ) (h : ¬OctetsValid bs) :
    octetsIsConstraintValid err bs = (false, err) := by
  have hdec : decide (1 ≤ bs.length ∧ bs.length ≤ 256) = false := decide_eq_false h
  unfold octetsIsConstraintValid
  simp only [hdec, Bool.false_eq_true, if_false]

/-- Nothing is encoded of a message that fails a check. -/
theorem encodePdu_fails
    {encode : BitStream bufferKsize → Except Fault (Bool × ℕ × BitStream bufferKsize)}
    {ret : Bool} {err : ℕ} (herr : err ≠ 0)
    (h : encode ⟨Buffer.zero _, 0, 0⟩ = .ok (ret, err, ⟨Buffer.zero _, 0, 0⟩)) :
    encodePdu encode = .ok (err, allocPdu) := by
  unfold encodePdu
  simp only [h, bind, Except.bind, if_neg herr]

/-- **A message is encoded with the shortest id**, and one that fails a check is not: the error is that
of the first field that does. -/
theorem encodes_shortest :
    (∀ q : InputType,
      (q.Valid → ∃ p, encodeInPdu q = .ok (0, p) ∧ Shortest q.invokeid q.fields p.buffer) ∧
      (¬q.Valid → encodeInPdu q = .ok (errInputTypeCommand, allocPdu))) ∧
    ∀ m : OutputType,
      (m.Valid → ∃ p, encodeOutPdu m = .ok (0, p) ∧ Shortest m.invokeid m.fields p.buffer) ∧
      (¬OctetsValid m.command → encodeOutPdu m = .ok (errOutputTypeCommand, allocPdu)) ∧
      (OctetsValid m.command → ¬OctetsValid m.result →
        encodeOutPdu m = .ok (errOutputTypeResult, allocPdu)) := by
  refine ⟨fun q => ⟨fun hq => ?_, fun hq => ?_⟩, fun m => ⟨fun hm => ?_, fun hc => ?_, fun hc hr => ?_⟩⟩
  · obtain ⟨p, hp, hbuffer⟩ := encodeInPdu_ok hq
    refine ⟨p, hp, ?_⟩
    rw [hbuffer]
    exact shortest_intBytes q.invokeid q.fields
  · have hvalid := octetsIsConstraintValid_fails errInputTypeCommand hq
    apply encodePdu_fails (by decide)
    unfold inputTypeEncode inputTypeIsConstraintValid inputTypeCommandIsConstraintValid
    rw [hvalid]
    rfl
  · obtain ⟨p, hp, hbuffer⟩ := encodeOutPdu_ok hm
    refine ⟨p, hp, ?_⟩
    rw [hbuffer]
    exact shortest_intBytes m.invokeid m.fields
  · have hvalid := octetsIsConstraintValid_fails errOutputTypeCommand hc
    apply encodePdu_fails (by decide)
    unfold outputTypeEncode outputTypeIsConstraintValid outputTypeCommandIsConstraintValid
    rw [hvalid]
    rfl
  · have hvalid := octetsIsConstraintValid_ok errOutputTypeCommand hc
    have hfails := octetsIsConstraintValid_fails errOutputTypeResult hr
    apply encodePdu_fails (by decide)
    unfold outputTypeEncode outputTypeIsConstraintValid outputTypeCommandIsConstraintValid
      outputTypeResultIsConstraintValid
    rw [hvalid, hfails]
    rfl

end Muxer
