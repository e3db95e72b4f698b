import Muxer.Proof.Relay

/-!
# Requests cut short

A PDU is decoded from a zeroed array of `BUFFER_KSIZE` bytes, not from its own, and the error code
of the decoder is not looked at.

* `noEffect_iff`: a request cut short is decoded without an error and mapped, the missing bytes
  taken for zeros.
* `truncated_zeros`: two bytes of a request of at least four.
-/

namespace Muxer

variable {τ : Type} {m : Mux τ} {q : InputType}

/-- A complete encoding of a request: the length of the id, the id, and an octet string. -/
def IsEncoding (bs : Bytes) : Prop :=
  ∃ id command : Bytes, id.length < 256 ∧ OctetsValid command ∧
    bs = UInt8.ofNat id.length :: id ++ octetsBytes command

/-- The bytes end before a complete encoding does. -/
def Truncated (bs : Bytes) : Prop := ∃ rest, rest ≠ [] ∧ IsEncoding (bs ++ rest)

/-- The encoding of a valid request is complete. -/
theorem isEncoding_bytes (hq : q.Valid) : IsEncoding q.bytes := by
  obtain ⟨h1, h8, -⟩ := getLengthInBytesOfSInt_spec q.invokeid
  unfold InputType.bytes intBytes
  refine ⟨Lib.natBytes (getLengthInBytesOfSInt q.invokeid) q.invokeid.toUInt64.toNat, q.command, ?_,
    hq, ?_⟩
  · rw [Lib.length_natBytes]
    omega
  · rw [Lib.length_natBytes]

/-- Every proper prefix of the encoding of a valid request is cut short. -/
theorem truncated_of_prefix (hq : q.Valid) {bs : Bytes} (hbs : bs <+: q.bytes) (hne : bs ≠ q.bytes) :
    Truncated bs := by
  obtain ⟨rest, hrest⟩ := hbs
  refine ⟨rest, ?_, by rw [hrest]; exact isEncoding_bytes hq⟩
  rintro rfl
  exact hne (by rw [← hrest, List.append_nil])

/-- No complete encoding is the front of another one. -/
theorem not_truncated {bs : Bytes} (h : IsEncoding bs) : ¬Truncated bs := by
  obtain ⟨id, command, hid, hcommand, rfl⟩ := h
  rintro ⟨rest, hrest, id', command', hid', hcommand', heq⟩
  rw [List.cons_append, List.cons_append, List.cons_append, List.cons.injEq] at heq
  obtain ⟨hlen, heq⟩ := heq
  -- the ids have the same length, and so have the commands
  have hidlen : id.length = id'.length := by
    have := congrArg UInt8.toNat hlen
    rwa [UInt8.toNat_ofNat_of_lt' hid, UInt8.toNat_ofNat_of_lt' hid'] at this
  rw [List.append_assoc] at heq
  obtain ⟨-, heq⟩ := List.append_inj heq hidlen
  unfold octetsBytes at heq
  rw [List.cons_append, List.cons.injEq] at heq
  obtain ⟨hlen, heq⟩ := heq
  have hcommandlen : command.length = command'.length := by
    have := congrArg UInt8.toNat hlen
    obtain ⟨h1, h256⟩ := hcommand
    obtain ⟨h1', h256'⟩ := hcommand'
    rw [UInt8.toNat_ofNat_of_lt' (by change _ < 256; omega),
      UInt8.toNat_ofNat_of_lt' (by change _ < 256; omega)] at this
    omega
  have := congrArg List.length heq
  rw [List.length_append, hcommandlen] at this
  exact hrest (List.length_eq_zero_iff.1 (by omega))

/-- `decode_in_pdu` returns an error. -/
def Rejected (p : Pdu) : Prop := ∃ err value, decodeInPdu p = .ok (err, value) ∧ err ≠ 0

/-- `process_incoming_in_messages` leaves the mappings, the counter and `w_out_messages` alone. -/
def OnlyConsumed (m : Mux τ) : Prop :=
  ∃ m', processIncomingInMessages m = .ok m' ∧
    m'.socketToRecvUnicastMsg = m.socketToRecvUnicastMsg ∧
    m'.invokeidGenCounter = m.invokeidGenCounter ∧ m'.wOutMessages = m.wOutMessages

/-- The generator never yields the number it had. -/
theorem generateInvokeid_ne (counter : UInt64) : generateInvokeid counter ≠ counter := by
  intro h
  have hval := congrArg UInt64.toNat h
  rw [generateInvokeid_toNat] at hval
  omega

/-- What is decoded from a PDU is encoded again under any id. -/
theorem reencodeInPdu_ok {p : Pdu} (hq : decodeInPdu p = .ok (0, some q)) (id : Int64) :
    ∃ p', encodeInPdu { q with invokeid := id } = .ok (0, p') := by
  obtain ⟨q₀, hq₀, hvalid⟩ := decodeInPdu_total p
  rw [hq] at hq₀
  cases hq₀
  obtain ⟨p', hp', -⟩ := encodeInPdu_ok (q := { q with invokeid := id }) hvalid
  exact ⟨p', hp'⟩

/-- Malformed requests have no effect: one cut short is rejected and only consumed, and no mapping is
left of one that is not encoded again. -/
structure NoEffect (m : Mux τ) (r : InMessage τ) : Prop where
  truncated : Truncated r.pdu.buffer → Rejected r.pdu ∧ OnlyConsumed m
  failed : ∀ q, decodeInPdu r.pdu = .ok (0, some q) → ∀ id err p,
    encodeInPdu { q with invokeid := id } = .ok (err, p) → err ≠ 0 →
    ∃ m', processIncomingInMessages m = .ok m' ∧
      m'.socketToRecvUnicastMsg = m.socketToRecvUnicastMsg

/-- No PDU is rejected. -/
theorem not_rejected (p : Pdu) : ¬Rejected p := by
  obtain ⟨q, hq, -⟩ := decodeInPdu_total p
  rintro ⟨err, value, hdecode, hne⟩
  rw [hq] at hdecode
  cases hdecode
  exact hne rfl

/-- No message is only consumed. -/
theorem not_onlyConsumed {r : InMessage τ} {rest : List (InMessage τ)}
    (hhead : m.rInMessages = r :: rest) : ¬OnlyConsumed m := by
  obtain ⟨q, hq, hvalid⟩ := decodeInPdu_total r.pdu
  rintro ⟨m', hprocess, -, hcounter, -⟩
  by_cases hpos : 0 < r.socket
  · obtain ⟨p, -, -, hok⟩ := processIncomingInMessages_ok hhead hpos hq hvalid
    rw [hok] at hprocess
    cases hprocess
    exact generateInvokeid_ne _ hcounter
  · -- the assertion on the socket fails
    simp only [processIncomingInMessages, takeRInMessage, hhead, mapRequest, hq,
      putIntoSocketToRecvUnicastMsg, cAssert_not hpos, bind, Except.bind] at hprocess
    cases hprocess

/-- **A request cut short is never without effect**: whatever the state, `decode_in_pdu` returns no
error for it, and processing it creates a mapping. A request that is decoded, on the other hand, is
always encoded again. -/
theorem noEffect_iff {r : InMessage τ} {rest : List (InMessage τ)}
    (hhead : m.rInMessages = r :: rest) :
    (NoEffect m r ↔ ¬Truncated r.pdu.buffer) ∧ ¬Rejected r.pdu ∧ ¬OnlyConsumed m := by
  refine ⟨⟨fun h htruncated => not_rejected r.pdu (h.truncated htruncated).1, fun hcomplete => ?_⟩,
    not_rejected r.pdu, not_onlyConsumed hhead⟩
  refine ⟨fun htruncated => absurd htruncated hcomplete, ?_⟩
  intro q hq id err p hp herr
  obtain ⟨p', hp'⟩ := reencodeInPdu_ok hq id
  rw [hp] at hp'
  cases hp'
  exact absurd rfl herr

/-- A request of two bytes of contents, complete. -/
theorem noEffect_iff_complete : ∃ p : Pdu, 0 < p.length ∧
    NoEffect { Mux.start with rInMessages := [⟨5, p, ()⟩] } ⟨5, p, ()⟩ := by
  have hvalid : InputType.Valid ⟨7, [1, 2]⟩ := ⟨by decide, by decide⟩
  obtain ⟨p, -, hbytes⟩ := encodeInPdu_ok hvalid
  refine ⟨p, ?_, (noEffect_iff (show _ = ⟨5, p, ()⟩ :: [] from rfl)).1.2 ?_⟩
  · have hlen := InputType.length_bytes hvalid
    rw [← hbytes] at hlen
    unfold Pdu.length
    omega
  · change ¬Truncated p.buffer
    rw [hbytes]
    exact not_truncated (isEncoding_bytes hvalid)

/-- The first two bytes of a request: they are taken for one whose command is a zero. -/
theorem truncated_zeros : ∃ p : Pdu, Truncated p.buffer ∧ p.buffer = [1, 7] ∧
    decodeInPdu p = .ok (0, some ⟨7, [0]⟩) ∧
    ¬NoEffect { Mux.start with rInMessages := [⟨5, p, ()⟩] } ⟨5, p, ()⟩ := by
  have htruncated : Truncated [1, 7] :=
    truncated_of_prefix (q := ⟨7, [0]⟩) ⟨by decide, by decide⟩ ⟨[0, 0], by decide⟩ (by decide)
  refine ⟨⟨[1, 7], by decide⟩, htruncated, rfl, ?_, fun h => ?_⟩
  · have hpadded : [1, 7] ++ List.replicate 1022 0 =
        InputType.bytes ⟨7, [0]⟩ ++ List.replicate 1020 0 := by
      rw [show 1022 = 2 + 1020 by rfl, ← List.replicate_append_replicate]
      rfl
    exact decodeInPdu_front ⟨by decide, by decide⟩ hpadded
  · exact not_rejected _ (h.truncated htruncated).1

end Muxer
