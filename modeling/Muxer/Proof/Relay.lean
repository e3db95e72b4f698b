import Muxer.Proof.Codec
import Muxer.Proof.Deframe
import Muxer.Spec.Protocol

/-!
# Requests and responses through the muxer

What each part of the processing thread does to a message: a request is forwarded with the id
generated for it in place of its own (`mapRequest_ok`, `forwardRequest_ok`), and a response is
sent to the clients mapped to its id, with the id each of them chose (`deliverResponse_ok`).

* `relay_transparent`: a request and its response keep their contents and the client's id.
-/

namespace Muxer

open Lib Mux

variable {τ : Type} {m : Mux τ} {q : InputType} {d : OutputType}

/-! ## Generated ids -/

theorem generateInvokeid_toNat (counter : UInt64) :
    (generateInvokeid counter).toNat = counter.toNat % 32767 + 1 := by
  unfold generateInvokeid maxInvokeid
  rw [UInt64.toNat_add, UInt64.toNat_mod]
  have hlt : counter.toNat % 32767 < 32767 := Nat.mod_lt _ (by omega)
  exact Nat.mod_eq_of_lt (Nat.lt_of_lt_of_le (Nat.succ_lt_succ hlt) (by decide))

/-- Both ways through the signed type of the messages lose nothing. -/
theorem toUInt64_toInt64 (v : UInt64) : v.toInt64.toUInt64 = v := rfl

/-! ## Requests -/

/-- The encodings are frames that can be sent. -/
theorem sendable_of_request {p : Pdu} (hq : q.Valid) (hp : p.buffer = q.bytes) : p.Sendable := by
  have := InputType.length_bytes hq
  unfold Pdu.Sendable Pdu.length
  rw [hp]
  simp only [pduHeaderLength, bufferKsize]
  omega

theorem sendable_of_response {p : Pdu} (hd : d.Valid) (hp : p.buffer = d.bytes) : p.Sendable := by
  have := OutputType.length_bytes hd
  unfold Pdu.Sendable Pdu.length
  rw [hp]
  simp only [pduHeaderLength, bufferKsize]
  omega

theorem putIntoSocketToRecvUnicastMsg_ok {socket : Socket} (hs : 0 < socket) (invokeid : UInt64)
    (tag : τ) (m : Mux τ) : putIntoSocketToRecvUnicastMsg socket invokeid tag m =
      .ok { m with
        invokeidGenCounter := generateInvokeid m.invokeidGenCounter
        socketToRecvUnicastMsg := m.socketToRecvUnicastMsg ++
          [⟨socket, invokeid, generateInvokeid m.invokeidGenCounter, tag⟩] } := by
  unfold putIntoSocketToRecvUnicastMsg
  rw [cAssert_ok hs]
  rfl

/-- **A request is mapped to its client and its own id, under the next id generated.** -/
theorem mapRequest_ok {r : InMessage τ} (hs : 0 < r.socket)
    (hr : decodeInPdu r.pdu = .ok (0, some q)) (m : Mux τ) :
    mapRequest r m = .ok (q, { m with
      invokeidGenCounter := generateInvokeid m.invokeidGenCounter
      socketToRecvUnicastMsg := m.socketToRecvUnicastMsg ++
        [⟨r.socket, q.invokeid.toUInt64, generateInvokeid m.invokeidGenCounter, r.tag⟩] }) := by
  unfold mapRequest
  simp only [hr, bind, Except.bind, putIntoSocketToRecvUnicastMsg_ok hs]

/-- **A request is forwarded under the id the counter holds**, with its command unchanged. -/
theorem forwardRequest_ok (hq : q.Valid) (tag : τ) (m : Mux τ) :
    ∃ p : Pdu, forwardRequest q tag m =
        .ok { m with wOutMessages := m.wOutMessages ++ [⟨p, tag⟩] } ∧
      p.buffer = InputType.bytes ⟨m.invokeidGenCounter.toInt64, q.command⟩ ∧ p.Sendable ∧
      decodeInPdu p = .ok (0, some ⟨m.invokeidGenCounter.toInt64, q.command⟩) := by
  have hq' : InputType.Valid ⟨m.invokeidGenCounter.toInt64, q.command⟩ := hq
  obtain ⟨p, hp, hbytes⟩ := encodeInPdu_ok hq'
  refine ⟨p, ?_, hbytes, sendable_of_request hq' hbytes, decodeInPdu_bytes hq' hbytes⟩
  unfold forwardRequest
  simp only [hp, bind, Except.bind]
  rfl

/-! ## Responses -/

/-- What the client of a mapping gets for the response `d`: its own id, and the rest of `d`. -/
def Replied (d : OutputType) (tag : τ) (s : Mapping τ) (r : InMessage τ) : Prop :=
  r.socket = s.socket ∧ r.tag = tag ∧
    r.pdu.buffer = OutputType.bytes ⟨s.invokeidOriginal.toInt64, d.command, d.result⟩

theorem Replied.sendable {tag : τ} {s : Mapping τ} {r : InMessage τ} (hd : d.Valid)
    (h : Replied d tag s r) : r.pdu.Sendable :=
  sendable_of_response (d := ⟨s.invokeidOriginal.toInt64, d.command, d.result⟩) hd h.2.2

theorem Replied.decode {tag : τ} {s : Mapping τ} {r : InMessage τ} (hd : d.Valid)
    (h : Replied d tag s r) :
    decodeOutPdu r.pdu = .ok (0, some ⟨s.invokeidOriginal.toInt64, d.command, d.result⟩) :=
  decodeOutPdu_bytes (m := ⟨s.invokeidOriginal.toInt64, d.command, d.result⟩) hd h.2.2

/-- A reply is to one of the mappings. -/
theorem exists_of_replied {tag : τ} {ts : List (Mapping τ)} {rs : List (InMessage τ)}
    (h : List.Forall₂ (Replied d tag) ts rs) {r : InMessage τ} (hr : r ∈ rs) :
    ∃ t ∈ ts, Replied d tag t r := by
  induction h with
  | nil => exact absurd hr List.not_mem_nil
  | @cons t r' ts rs htr _ ih =>
    rcases List.mem_cons.1 hr with rfl | hr
    · exact ⟨t, List.mem_cons_self, htr⟩
    · obtain ⟨t', ht', hreply⟩ := ih hr
      exact ⟨t', List.mem_cons_of_mem _ ht', hreply⟩

/-- The loop over the mappings takes out those with the id, and replies to each. -/
theorem scanMappings_ok (hd : d.Valid) (g : UInt64) (tag : τ) {table : List (Mapping τ)}
    (hs : ∀ s ∈ table, s.invokeidGenerated = g → 0 < s.socket) :
    ∃ rs, scanMappings d g tag table =
        .ok (table.filter (·.invokeidGenerated != g), rs) ∧
      List.Forall₂ (Replied d tag) (table.filter (·.invokeidGenerated == g)) rs := by
  induction table with
  | nil => exact ⟨[], rfl, .nil⟩
  | cons s table ih =>
    rw [List.forall_mem_cons] at hs
    obtain ⟨rs, hscan, hrs⟩ := ih hs.2
    by_cases hg : s.invokeidGenerated = g
    · have hd' : OutputType.Valid ⟨s.invokeidOriginal.toInt64, d.command, d.result⟩ := hd
      obtain ⟨p, hp, hbytes⟩ := encodeOutPdu_ok hd'
      refine ⟨⟨s.socket, p, tag⟩ :: rs, ?_, ?_⟩
      · simp only [scanMappings, if_pos hg, hp, allocInMessage, cAssert_ok (hs.1 hg), hscan, bind,
          Except.bind]
        simp [hg]
      · rw [List.filter_cons, if_pos (by simpa using hg)]
        exact .cons ⟨rfl, rfl, hbytes⟩ hrs
    · refine ⟨rs, ?_, ?_⟩
      · simp only [scanMappings, if_neg hg, hscan, bind, Except.bind]
        simp [hg]
      · rw [List.filter_cons, if_neg (by simpa using hg)]
        exact hrs

/-- **A response goes to the clients mapped to its id, and the mappings are gone.** -/
theorem deliverResponse_ok {p : OutMessage τ} (hd : d.Valid)
    (hp : decodeOutPdu p.pdu = .ok (0, some d))
    (hs : ∀ s ∈ m.socketToRecvUnicastMsg, s.invokeidGenerated = d.invokeid.toUInt64 →
      0 < s.socket) :
    ∃ rs, deliverResponse p m = .ok { m with
        socketToRecvUnicastMsg :=
          m.socketToRecvUnicastMsg.filter (·.invokeidGenerated != d.invokeid.toUInt64)
        wInMessages := m.wInMessages ++ rs } ∧
      List.Forall₂ (Replied d p.tag)
        (m.socketToRecvUnicastMsg.filter (·.invokeidGenerated == d.invokeid.toUInt64)) rs := by
  obtain ⟨rs, hscan, hrs⟩ := scanMappings_ok hd d.invokeid.toUInt64 p.tag hs
  refine ⟨rs, ?_, hrs⟩
  unfold deliverResponse
  simp only [hp, hscan, bind, Except.bind]

/-- A response whose id is that of one mapping goes to the client of this mapping. -/
theorem deliverResponse_one {p : OutMessage τ} (hd : d.Valid)
    (hp : decodeOutPdu p.pdu = .ok (0, some d)) {s : Mapping τ} (hpos : 0 < s.socket)
    (hone : m.socketToRecvUnicastMsg.filter (·.invokeidGenerated == d.invokeid.toUInt64) = [s]) :
    ∃ r, Replied d p.tag s r ∧ deliverResponse p m = .ok { m with
      socketToRecvUnicastMsg :=
        m.socketToRecvUnicastMsg.filter (·.invokeidGenerated != d.invokeid.toUInt64)
      wInMessages := m.wInMessages ++ [r] } := by
  have hsockets : ∀ t ∈ m.socketToRecvUnicastMsg, t.invokeidGenerated = d.invokeid.toUInt64 →
      0 < t.socket := by
    intro t ht hg
    have hmem : t ∈ m.socketToRecvUnicastMsg.filter
        (·.invokeidGenerated == d.invokeid.toUInt64) := List.mem_filter.2 ⟨ht, beq_iff_eq.2 hg⟩
    rw [hone, List.mem_singleton] at hmem
    rw [hmem]
    exact hpos
  obtain ⟨rs, hdeliver, hrs⟩ := deliverResponse_ok hd hp hsockets
  rw [hone] at hrs
  obtain _ | ⟨hreply, hnil⟩ := hrs
  cases hnil
  exact ⟨_, hreply, hdeliver⟩

/-! ## The whole way -/

/-- A buffer that holds the frames of a list of PDUs and nothing else is deframed to the list. -/
theorem readPdus_frames {ps : List Pdu} (hps : ∀ p ∈ ps, p.Sendable) {b : Buffer bufferKsize}
    {ptr : ℕ} (hk : ptr ≤ bufferKsize) (hb : b.bytes.take ptr = (ps.map Pdu.frame).flatten) :
    ∃ b', readPdusFromRecvBuffer b ptr = .ok (ps, b', 0) := by
  have hpay := sendable_payload hps
  have hframes : (ps.map Pdu.frame).flatten = ((ps.map Pdu.buffer).map pduFraming.frame).flatten := by
    rw [List.map_map]
    rfl
  have hcut : pduFraming.cut (b.bytes.take ptr) = (ps.map Pdu.buffer, []) := by
    rw [hb, hframes, Framing.cut_payloads hpay]
  have hbounded : pduFraming.Bounded (b.bytes.take ptr) := by
    rw [hb, hframes]
    exact (Framing.wellHeaded_frames (by decide) hpay).bounded
  obtain ⟨ps', b', ptr', hread, hcut₁, -, hptr⟩ := (readPdus_eq b hk).1 hbounded
  rw [hcut] at hcut₁ hptr
  rw [map_buffer_injective hcut₁, hptr] at hread
  exact ⟨b', hread⟩

/-- A PDU sent and received: `write_pdu_to_send_buffer` accepts it, and whatever buffer holds the
bytes it wrote, `read_pdus_from_recv_buffer` extracts exactly this PDU from it. -/
def Carried (p : Pdu) : Prop :=
  ∀ sendbuf : Buffer bufferKsize, ∃ sendbuf' ptr, writePduToSendBuffer p sendbuf = .ok (sendbuf', ptr) ∧
    ∀ recvbuf : Buffer bufferKsize, recvbuf.bytes.take ptr = sendbuf'.bytes.take ptr →
      ∃ recvbuf', readPdusFromRecvBuffer recvbuf ptr = .ok ([p], recvbuf', 0)

theorem carried_of_sendable {p : Pdu} (hp : p.Sendable) : Carried p := by
  intro sendbuf
  obtain ⟨sendbuf', hwrite, htake⟩ := writePdu_ok hp.1 hp.2 sendbuf
  refine ⟨sendbuf', _, hwrite, ?_⟩
  intro recvbuf hrecv
  exact readPdus_frames (by simpa using hp) hp.frame_le (by rw [hrecv, htake]; simp)

/-- The request at the head of the queue is mapped and forwarded. -/
theorem processIncomingInMessages_ok {r : InMessage τ} {rest : List (InMessage τ)}
    (hhead : m.rInMessages = r :: rest) (hpos : 0 < r.socket)
    (hr : decodeInPdu r.pdu = .ok (0, some q)) (hq : q.Valid) :
    ∃ p, p.Sendable ∧
      decodeInPdu p =
        .ok (0, some ⟨(generateInvokeid m.invokeidGenCounter).toInt64, q.command⟩) ∧
      processIncomingInMessages m = .ok { m with
        rInMessages := rest
        invokeidGenCounter := generateInvokeid m.invokeidGenCounter
        socketToRecvUnicastMsg := m.socketToRecvUnicastMsg ++
          [⟨r.socket, q.invokeid.toUInt64, generateInvokeid m.invokeidGenCounter, r.tag⟩]
        wOutMessages := m.wOutMessages ++ [⟨p, r.tag⟩] } := by
  have hmap := mapRequest_ok hpos hr { m with rInMessages := rest }
  obtain ⟨p, hforward, -, hsend, hdecode⟩ := forwardRequest_ok hq r.tag
    { m with
      rInMessages := rest
      invokeidGenCounter := generateInvokeid m.invokeidGenCounter
      socketToRecvUnicastMsg := m.socketToRecvUnicastMsg ++
        [⟨r.socket, q.invokeid.toUInt64, generateInvokeid m.invokeidGenCounter, r.tag⟩] }
  refine ⟨p, hsend, hdecode, ?_⟩
  simp only [processIncomingInMessages, takeRInMessage, hhead, hmap, bind, Except.bind]
  exact hforward

/-- The response at the head of the queue is delivered. -/
theorem processIncomingOutMessages_eq {p : OutMessage τ} {rest : List (OutMessage τ)}
    (hhead : m.rOutMessages = p :: rest) :
    processIncomingOutMessages m = deliverResponse p { m with rOutMessages := rest } := by
  simp only [processIncomingOutMessages, takeROutMessage, hhead]

/-- It goes to the one client mapped to its id. -/
theorem processIncomingOutMessages_ok {p : OutMessage τ} {rest : List (OutMessage τ)}
    (hhead : m.rOutMessages = p :: rest) (hd : d.Valid)
    (hp : decodeOutPdu p.pdu = .ok (0, some d)) {s : Mapping τ} (hpos : 0 < s.socket)
    (hone : m.socketToRecvUnicastMsg.filter (·.invokeidGenerated == d.invokeid.toUInt64) = [s]) :
    ∃ r, Replied d p.tag s r ∧ processIncomingOutMessages m = .ok { m with
      rOutMessages := rest
      socketToRecvUnicastMsg :=
        m.socketToRecvUnicastMsg.filter (·.invokeidGenerated != d.invokeid.toUInt64)
      wInMessages := m.wInMessages ++ [r] } := by
  obtain ⟨r, hreply, hdeliver⟩ :=
    deliverResponse_one (m := { m with rOutMessages := rest }) hd hp hpos hone
  exact ⟨r, hreply, (processIncomingOutMessages_eq hhead).trans hdeliver⟩

/-- **Contents are relayed unchanged.** Take a valid request `q` of the client on `socket`, with
nothing else waiting and no mapping under the id generated next. (a) The request is encoded to
a PDU that is sent and received whole, and processing it puts one PDU into `w_out_messages`,
which is decoded as the generated id with the command of `q`. (b) A valid response `d` to that
id is encoded, sent and received likewise, and processing it while the mapping is there puts one
PDU for the same socket into `w_in_messages`, which is decoded as the id of `q`, whatever its
sign, with the command and the result of `d`. -/
theorem relay_transparent {m : Mux τ} (socket : Socket) (hsocket : 0 < socket) (hq : q.Valid)
    (hd : d.Valid) (hin : m.rInMessages = [])
    (hfresh : ∀ s ∈ m.socketToRecvUnicastMsg,
      s.invokeidGenerated ≠ generateInvokeid m.invokeidGenCounter)
    (hid : d.invokeid = (generateInvokeid m.invokeidGenCounter).toInt64) (tag tag' : τ) :
    ∃ p p' m₁, encodeInPdu q = .ok (0, p) ∧ Carried p ∧
      processIncomingInMessages { m with rInMessages := m.rInMessages ++ [⟨socket, p, tag⟩] } =
        .ok m₁ ∧
      m₁.wOutMessages = m.wOutMessages ++ [⟨p', tag⟩] ∧ Carried p' ∧
      decodeInPdu p' =
        .ok (0, some ⟨(generateInvokeid m.invokeidGenCounter).toInt64, q.command⟩) ∧
      ∃ r, encodeOutPdu d = .ok (0, r) ∧ Carried r ∧ ∀ m₂ : Mux τ, m₂.rOutMessages = [] →
        m₂.socketToRecvUnicastMsg = m₁.socketToRecvUnicastMsg → ∃ r' m₃,
          processIncomingOutMessages { m₂ with rOutMessages := m₂.rOutMessages ++ [⟨r, tag'⟩] } =
            .ok m₃ ∧
          m₃.wInMessages = m₂.wInMessages ++ [⟨socket, r', tag'⟩] ∧ Carried r' ∧
          decodeOutPdu r' = .ok (0, some ⟨q.invokeid, d.command, d.result⟩) := by
  obtain ⟨p, hp, hpbytes⟩ := encodeInPdu_ok hq
  obtain ⟨r, hr, hrbytes⟩ := encodeOutPdu_ok hd
  have hhead : m.rInMessages ++ [⟨socket, p, tag⟩] = [⟨socket, p, tag⟩] := by
    rw [hin, List.nil_append]
  obtain ⟨p', hsend, hdecode, hprocess⟩ := processIncomingInMessages_ok
    (m := { m with rInMessages := m.rInMessages ++ [⟨socket, p, tag⟩] }) hhead hsocket
    (decodeInPdu_bytes hq hpbytes) hq
  -- the response comes later, to a muxer that still has the mapping
  refine ⟨p, p', _, hp, carried_of_sendable (sendable_of_request hq hpbytes), hprocess, rfl,
    carried_of_sendable hsend, hdecode, r, hr, carried_of_sendable (sendable_of_response hd hrbytes),
    ?_⟩
  intro m₂ hout htable
  have hidg : d.invokeid.toUInt64 = generateInvokeid m.invokeidGenCounter := by
    rw [hid, toUInt64_toInt64]
  -- the mapping of the request is the only one with the id of the response
  have hone : m₂.socketToRecvUnicastMsg.filter (·.invokeidGenerated == d.invokeid.toUInt64) =
      [⟨socket, q.invokeid.toUInt64, generateInvokeid m.invokeidGenCounter, tag⟩] := by
    have hnone : m.socketToRecvUnicastMsg.filter
        (·.invokeidGenerated == generateInvokeid m.invokeidGenCounter) = [] :=
      List.filter_eq_nil_iff.2 fun s hs => by simpa using hfresh s hs
    rw [htable, hidg]
    simp only [List.filter_append, hnone]
    simp
  have hhead₂ : m₂.rOutMessages ++ [⟨r, tag'⟩] = [⟨r, tag'⟩] := by rw [hout, List.nil_append]
  obtain ⟨r', hreply, hprocess₂⟩ := processIncomingOutMessages_ok
    (m := { m₂ with rOutMessages := m₂.rOutMessages ++ [⟨r, tag'⟩] }) hhead₂ hd
    (decodeOutPdu_bytes hd hrbytes) hsocket hone
  refine ⟨r'.pdu, _, hprocess₂, ?_, carried_of_sendable (hreply.sendable hd), hreply.decode hd⟩
  obtain ⟨s', pdu', t'⟩ := r'
  obtain ⟨rfl, rfl, -⟩ := hreply
  rfl

/-- A request and a response with one byte of contents each, of a client that chose the smallest
id there is. -/
theorem relay_transparent_minValue :
    ∃ p p' m₁, encodeInPdu ⟨Int64.minValue, [7]⟩ = .ok (0, p) ∧ Carried p ∧
      processIncomingInMessages { start with rInMessages := start.rInMessages ++ [⟨5, p, ()⟩] } =
        .ok m₁ ∧
      m₁.wOutMessages = start.wOutMessages ++ [⟨p', ()⟩] ∧ Carried p' ∧
      decodeInPdu p' = .ok (0, some ⟨1, [7]⟩) ∧
      ∃ r, encodeOutPdu ⟨1, [8], [9]⟩ = .ok (0, r) ∧ Carried r ∧
        ∀ m₂ : Mux Unit, m₂.rOutMessages = [] →
        m₂.socketToRecvUnicastMsg = m₁.socketToRecvUnicastMsg → ∃ r' m₃,
          processIncomingOutMessages { m₂ with rOutMessages := m₂.rOutMessages ++ [⟨r, ()⟩] } =
            .ok m₃ ∧
          m₃.wInMessages = m₂.wInMessages ++ [⟨5, r', ()⟩] ∧ Carried r' ∧
          decodeOutPdu r' = .ok (0, some ⟨Int64.minValue, [8], [9]⟩) :=
  relay_transparent (m := start) (q := ⟨Int64.minValue, [7]⟩) (d := ⟨1, [8], [9]⟩) 5
    (by decide) ⟨by decide, by decide⟩ ⟨⟨by decide, by decide⟩, by decide, by decide⟩ rfl
    (by simp [start]) rfl () ()

end Muxer
