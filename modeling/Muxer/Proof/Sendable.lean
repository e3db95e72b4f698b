import Muxer.Proof.Runs

/-!
# Whatever bytes arrive, what is sent are frames

Any PDU decodes to valid octet strings, so it encodes again under any id. From there the lengths of
the messages to be sent are bounded, along any run of a session.

* `Reencoded`: what becomes of any PDU.
* `Session.Framed.step`: the messages to be sent fit the buffers, in every step.
* `relay_sends`: a session never fails on what it relays.
-/

namespace Muxer

open Lib

/-! ## Lengths -/

/-- A generated id takes two bytes at most. -/
theorem getLengthInBytesOfSInt_le_two {g : UInt64} (hg : g.toNat ≤ 32767) :
    getLengthInBytesOfSInt g.toInt64 ≤ 2 := by
  have hpos : 0 ≤ g.toInt64 := (nonneg_iff _).2 (by rw [toUInt64_toInt64]; omega)
  have hbig : ¬g > 0x7FFFFFFF := by
    rw [gt_iff_lt, UInt64.lt_iff_toNat_lt]
    exact Nat.not_lt_of_le (Nat.le_trans hg (by decide))
  have hlo : g.toUInt32.toNat = g.toNat := by
    rw [UInt64.toNat_toUInt32]
    exact Nat.mod_eq_of_lt (by omega)
  have h2 : g.toUInt32 ≤ 0x7FFF := by
    rw [UInt32.le_iff_toNat_le, hlo]
    exact hg
  unfold getLengthInBytesOfSInt getLengthSIntHelper
  rw [if_pos hpos, toUInt64_toInt64]
  simp only [if_neg hbig, if_pos h2]
  split <;> omega

/-- A request goes to the server under a generated id. -/
theorem InputType.length_forwarded {q : InputType} (hq : q.Valid) {g : UInt64}
    (hg : g.toNat ≤ 32767) : 4 ≤ (InputType.bytes ⟨g.toInt64, q.command⟩).length ∧
      (InputType.bytes ⟨g.toInt64, q.command⟩).length ≤ 260 := by
  have hq' : InputType.Valid ⟨g.toInt64, q.command⟩ := hq
  have hlo := (InputType.length_bytes hq').1
  have hid := getLengthInBytesOfSInt_le_two hg
  obtain ⟨-, hcmd⟩ := hq
  refine ⟨hlo, ?_⟩
  simp only [InputType.bytes, List.length_append, length_intBytes, length_octetsBytes]
  omega

/-- A PDU as a request, forwarded under the next id after `counter`, and as a response, sent to
a client whose id was `original`. -/
structure Reencoded (p : Pdu) (counter original : UInt64) : Prop where
  request : ∃ q p', decodeInPdu p = .ok (0, some q) ∧
    (1 ≤ q.command.length ∧ q.command.length ≤ 256) ∧
    encodeInPdu { q with invokeid := (generateInvokeid counter).toInt64 } = .ok (0, p') ∧
    4 ≤ p'.length ∧ p'.length ≤ 260
  response : ∃ d p', decodeOutPdu p = .ok (0, some d) ∧
    (1 ≤ d.command.length ∧ d.command.length ≤ 256) ∧
    (1 ≤ d.result.length ∧ d.result.length ≤ 256) ∧
    encodeOutPdu { d with invokeid := original.toInt64 } = .ok (0, p') ∧
    6 ≤ p'.length ∧ p'.length ≤ 523

theorem generateInvokeid_le (counter : UInt64) : (generateInvokeid counter).toNat ≤ 32767 := by
  rw [generateInvokeid_toNat]
  have := Nat.mod_lt counter.toNat (show 0 < 32767 by omega)
  omega

theorem reencoded (p : Pdu) (counter original : UInt64) : Reencoded p counter original where
  request := by
    obtain ⟨q, hq, hvalid⟩ := decodeInPdu_total p
    have hvalid' : InputType.Valid { q with invokeid := (generateInvokeid counter).toInt64 } :=
      hvalid
    obtain ⟨p', hp', hbytes⟩ := encodeInPdu_ok hvalid'
    have hlen := InputType.length_forwarded hvalid (generateInvokeid_le counter)
    exact ⟨q, p', hq, hvalid, hp', by rw [Pdu.length, hbytes]; exact hlen⟩
  response := by
    obtain ⟨d, hd, hvalid⟩ := decodeOutPdu_total p
    have hvalid' : OutputType.Valid { d with invokeid := original.toInt64 } := hvalid
    obtain ⟨p', hp', hbytes⟩ := encodeOutPdu_ok hvalid'
    have hlen := OutputType.length_bytes hvalid'
    exact ⟨d, p', hd, hvalid.1, hvalid.2, hp', by rw [Pdu.length, hbytes]; exact hlen⟩

namespace Session

variable {w w' : State} {a : Action} {conn conn' : Connection}

/-! ## Sockets are positive -/

/-- Every socket that a message or mapping can come to bear passes the assertions on it. -/
structure Positive (w : State) : Prop where
  clients : ∀ c ∈ w.mux.connections, 0 < c.socket
  accepted : ∀ s, w.reader = .accepted s → 0 < s
  putting : ∀ s ps, w.reader = .puttingIn s ps → 0 < s
  waiting : ∀ r ∈ w.mux.rInMessages, 0 < r.socket
  taken : ∀ r, w.processing = .taken r → 0 < r.socket
  table : ∀ s ∈ w.mux.socketToRecvUnicastMsg, 0 < s.socket

theorem positive_start : Positive State.start := by
  constructor <;> simp [State.start, Mux.start]

/-- A connection may change but for its socket. -/
theorem forall_mem_set {P : Connection → Prop} {conns : List Connection}
    (h : ∀ c ∈ conns, P c) {i : ℕ} (hc : P conn') : ∀ c ∈ conns.set i conn', P c := by
  intro c hmem
  rcases List.mem_or_eq_of_mem_set hmem with hmem | rfl
  · exact h c hmem
  · exact hc

/-- One message is taken from among the others. -/
theorem forall_mem_middle {α : Type} {P : α → Prop} {x : α} {xs ys : List α}
    (h : ∀ a ∈ xs ++ x :: ys, P a) : ∀ a ∈ xs ++ ys, P a := by
  intro a ha
  exact h a (((List.sublist_cons_self x ys).append_left xs).subset ha)

theorem Positive.step (hc : Clients w) (h : Positive w) (hs : Step w a w') : Positive w' := by
  cases hs with
  | accept s hr hd hpos hs =>
    exact { h with
      accepted := fun t ht => by cases ht; exact hpos
      putting := fun t ps ht => by cases ht }
  | insert s hr hd =>
    exact { h with
      clients := by
        rw [List.forall_mem_append, List.forall_mem_singleton]
        exact ⟨h.clients, h.accepted s hr⟩
      accepted := fun t ht => by cases ht
      putting := fun t ps ht => by cases ht }
  | recvIn i r conn pdus conn' hr hfree hi hfit hrec =>
    have hpos := h.clients conn (List.mem_of_getElem? hi)
    exact { h with
      clients := forall_mem_set h.clients (by rw [(receive_frame hrec).1]; exact hpos)
      accepted := fun t ht => by cases ht
      putting := fun t ps ht => by cases ht; exact hpos }
  | putIn s p ps tag hr =>
    -- the request bears the handle of the client it was read from
    have hpos := h.putting s _ hr
    exact { h with
      accepted := fun t ht => by cases ht
      putting := fun t ps ht => by cases ht; exact hpos
      waiting := by
        rw [List.forall_mem_append, List.forall_mem_singleton]
        exact ⟨h.waiting, hpos⟩ }
  | readInDone s hr =>
    exact { h with
      accepted := fun t ht => by cases ht
      putting := fun t ps ht => by cases ht }
  | recvOut r pdus conn' hr hd hfit hrec =>
    exact { h with
      accepted := fun t ht => by cases ht
      putting := fun t ps ht => by cases ht }
  | putOut p ps tag hr =>
    exact { h with
      accepted := fun t ht => by cases ht
      putting := fun t ps ht => by cases ht }
  | readOutDone hr =>
    exact { h with
      accepted := fun t ht => by cases ht
      putting := fun t ps ht => by cases ht }
  | loadOut m hd hm =>
    rcases writeDataToOutBuffer_cases hm with ⟨rfl, -⟩ | ⟨p, rest, conn', -, -, -, rfl, -⟩
    · exact h
    · exact { h with }
  | sendOut r out conn' hd hr hw => exact { h with }
  | loadIn i conn conn' q hfree hi hl =>
    have hpos := h.clients conn (List.mem_of_getElem? hi)
    have hpos' : 0 < conn'.socket := by rw [loadConnection_socket hl]; exact hpos
    exact { h with clients := forall_mem_set h.clients hpos' }
  | sendIn i r conn out conn' hfree hi hr hw =>
    have hpos := h.clients conn (List.mem_of_getElem? hi)
    exact { h with
      clients := forall_mem_set h.clients (by rw [(writeData_frame hw).1]; exact hpos) }
  | sweep q r q' hfree hq hr => exact { h with }
  | drop t i closed conn hr hfree hi => exact { h with }
  -- mappings and clients are only taken away from here on, but for `mapRequest`
  | unmap t s hd =>
    exact { h with table := fun t ht => h.table t (List.mem_of_mem_filter ht) }
  | unlink t s hd =>
    exact { h with clients := fun c hc => h.clients c (List.mem_of_mem_filter hc) }
  | connect s hp => exact { h with }
  | takeIn r m hp hm =>
    obtain ⟨rest, hrest, rfl⟩ := takeRInMessage_cases hm
    have hw := h.waiting
    rw [hrest, List.forall_mem_cons] at hw
    exact { h with
      waiting := hw.2
      taken := fun t ht => by cases ht; exact hw.1 }
  | mapRequest r q m hp hm =>
    obtain ⟨hpos, -, rfl⟩ := mapRequest_cases hm
    exact { h with
      taken := fun t ht => by cases ht
      table := by
        rw [List.forall_mem_append, List.forall_mem_singleton]
        exact ⟨h.table, hpos⟩ }
  | forward r q m hp hm =>
    rcases forwardRequest_cases hm with rfl | ⟨p, rfl⟩
    · exact { h with taken := fun t ht => by cases ht }
    · exact { h with taken := fun t ht => by cases ht }
  | takeOut p m hp hm =>
    obtain ⟨rest, -, rfl⟩ := takeROutMessage_cases hm
    exact { h with taken := fun t ht => by cases ht }
  | deliver p m hp hm =>
    obtain ⟨d, rs, -, -, -, rfl⟩ := deliverResponse_cases hm
    exact { h with
      taken := fun t ht => by cases ht
      table := fun t ht => h.table t (List.mem_of_mem_filter ht) }
  | cleanup closed m hstop hclosed hm =>
    obtain ⟨hr, -, hp⟩ := hstop
    rw [cleanup_ok hc.nodup] at hm
    cases hm
    exact { h with
      clients := fun c hc => by cases hc
      waiting := fun r hr => by cases hr
      table := fun t ht => h.table t (List.mem_of_mem_filter ht) }

/-! ## Messages are frames -/

/-- The messages to be sent fit the send buffers, and so does what is in these. -/
structure Framed (w : State) : Prop where
  counter : w.mux.invokeidGenCounter.toNat ≤ 32767
  mapped : ∀ r q, w.processing = .mapped r q → q.Valid
  requests : ∀ p ∈ w.mux.wOutMessages, 4 ≤ p.pdu.length ∧ p.pdu.length ≤ 260
  responses : ∀ r ∈ w.mux.wInMessages, 6 ≤ r.pdu.length ∧ r.pdu.length ≤ 523
  outPtr : w.mux.outConnection.wBufferPtr ≤ bufferKsize
  ptrs : ∀ c ∈ w.mux.connections, c.wBufferPtr ≤ bufferKsize

theorem framed_start : Framed State.start where
  counter := by decide
  mapped := by simp [State.start]
  requests := by simp [State.start, Mux.start]
  responses := by simp [State.start, Mux.start]
  outPtr := Nat.zero_le _
  ptrs := by simp [State.start, Mux.start]

theorem Framed.step (hc : Clients w) (h : Framed w) (hs : Step w a w') : Framed w' := by
  cases hs with
  | accept s hr hd hpos hs => exact { h with }
  | insert s hr hd =>
    exact { h with
      ptrs := by
        rw [List.forall_mem_append, List.forall_mem_singleton]
        exact ⟨h.ptrs, Nat.zero_le _⟩ }
  | recvIn i r conn pdus conn' hr hfree hi hfit hrec =>
    have hptr := h.ptrs conn (List.mem_of_getElem? hi)
    exact { h with
      ptrs := forall_mem_set h.ptrs (by rw [(receive_frame hrec).2.2]; exact hptr) }
  | putIn s p ps tag hr => exact { h with }
  | readInDone s hr => exact { h with }
  | recvOut r pdus conn' hr hd hfit hrec =>
    exact { h with outPtr := by rw [(receive_frame hrec).2.2]; exact h.outPtr }
  | putOut p ps tag hr => exact { h with }
  | readOutDone hr => exact { h with }
  | loadOut m hd hm =>
    rcases writeDataToOutBuffer_cases hm with ⟨rfl, -⟩ | ⟨p, rest, conn', -, hq, -, rfl, -, -, hle, -⟩
    · exact h
    · have hreq := h.requests
      rw [hq, List.forall_mem_cons] at hreq
      exact { h with
        requests := hreq.2
        outPtr := hle }
  | sendOut r out conn' hd hr hw => exact { h with outPtr := writeData_le hw }
  | loadIn i conn conn' q hfree hi hl =>
    rcases loadConnection_cases hl with ⟨rfl, rfl, -⟩ | ⟨r, q₁, q₂, -, hq, rfl, -, -, -, -, hle⟩
    · exact { h with ptrs := forall_mem_set h.ptrs (h.ptrs conn' (List.mem_of_getElem? hi)) }
    · have hresponses := h.responses
      rw [hq] at hresponses
      exact { h with
        responses := forall_mem_middle hresponses
        ptrs := forall_mem_set h.ptrs hle }
  | sendIn i r conn out conn' hfree hi hr hw =>
    exact { h with ptrs := forall_mem_set h.ptrs (writeData_le hw) }
  | sweep q r q' hfree hq hr =>
    have hresponses := h.responses
    rw [hq] at hresponses
    exact { h with responses := forall_mem_middle hresponses }
  | drop t i closed conn hr hfree hi => exact { h with }
  | unmap t s hd => exact { h with }
  | unlink t s hd =>
    exact { h with ptrs := fun c hc => h.ptrs c (List.mem_of_mem_filter hc) }
  | connect s hp => exact { h with }
  | takeIn r m hp hm =>
    obtain ⟨rest, hrest, rfl⟩ := takeRInMessage_cases hm
    exact { h with mapped := fun t q ht => by cases ht }
  | mapRequest r q m hp hm =>
    obtain ⟨-, hq, rfl⟩ := mapRequest_cases hm
    -- whatever a client sent is decoded as a valid request
    obtain ⟨q', hq', hvalid⟩ := decodeInPdu_total r.pdu
    rw [hq] at hq'
    cases hq'
    exact { h with
      counter := generateInvokeid_le _
      mapped := fun t q ht => by cases ht; exact hvalid }
  | forward r q m hp hm =>
    obtain ⟨p, hforward, hbytes, -⟩ := forwardRequest_ok (h.mapped r q hp) r.tag w.mux
    rw [hm] at hforward
    cases hforward
    -- at most three octets for an id of the counter
    have hlen := InputType.length_forwarded (h.mapped r q hp) h.counter
    exact { h with
      mapped := fun t q ht => by cases ht
      requests := by
        rw [List.forall_mem_append, List.forall_mem_singleton, Pdu.length, hbytes]
        exact ⟨h.requests, hlen⟩ }
  | takeOut p m hp hm =>
    obtain ⟨rest, -, rfl⟩ := takeROutMessage_cases hm
    exact { h with mapped := fun t q ht => by cases ht }
  | deliver p m hp hm =>
    obtain ⟨d, rs, -, hvalid, hrs, rfl⟩ := deliverResponse_cases hm
    exact { h with
      mapped := fun t q ht => by cases ht
      responses := by
        rw [List.forall_mem_append]
        refine ⟨h.responses, ?_⟩
        intro r hr
        -- each reply is the encoding of the response under the id of its mapping
        obtain ⟨t, -, -, -, hbytes⟩ := exists_of_replied hrs hr
        rw [Pdu.length, hbytes]
        exact OutputType.length_bytes
          (m := ⟨t.invokeidOriginal.toInt64, d.command, d.result⟩) hvalid }
  | cleanup closed m hstop hclosed hm =>
    obtain ⟨hr, -, hp⟩ := hstop
    rw [cleanup_ok hc.nodup] at hm
    cases hm
    exact { h with
      requests := fun r hr => by cases hr
      responses := fun r hr => by cases hr
      outPtr := Nat.zero_le _
      ptrs := fun c hc => by cases hc }

/-! ## What comes next does not fail -/

/-- The messages to be sent have these lengths, they and the send buffers pass the assertions of
`write_pdu_to_send_buffer` and `write_data`, and what the processing thread does next with what it
has in hand succeeds. -/
structure State.Sends (w : State) : Prop where
  requests : ∀ p ∈ w.mux.wOutMessages, 4 ≤ p.pdu.length ∧ p.pdu.length ≤ 260
  responses : ∀ r ∈ w.mux.wInMessages, 6 ≤ r.pdu.length ∧ r.pdu.length ≤ 523
  outPtr : w.mux.outConnection.wBufferPtr ≤ bufferKsize
  ptrs : ∀ c ∈ w.mux.connections, c.wBufferPtr ≤ bufferKsize
  loadsOut : ∃ m, writeDataToOutBuffer w.mux = .ok m
  loadsIn : ∃ m, writeDataToInBuffer w.mux = .ok m
  maps : ∀ r, w.processing = .taken r → ∃ q m, Muxer.mapRequest r w.mux = .ok (q, m)
  forwards : ∀ r q, w.processing = .mapped r q →
    ∃ p, forwardRequest q r.tag w.mux = .ok (putPduIntoWOutMessages p r.tag w.mux)
  delivers : ∀ p, w.processing = .response p → ∃ m, deliverResponse p w.mux = .ok m

theorem sendable_of_length {p : Pdu} (hlo : 4 ≤ p.length) (hhi : p.length ≤ 523) : p.Sendable := by
  constructor <;> simp only [pduHeaderLength, bufferKsize] <;> omega

theorem sends (hc : Clients w) (hpos : Positive w) (h : Framed w) : w.Sends where
  requests := h.requests
  responses := h.responses
  outPtr := h.outPtr
  ptrs := h.ptrs
  loadsOut := by
    have hq : ∀ p ∈ w.mux.wOutMessages, p.pdu.Sendable := by
      intro p hp
      obtain ⟨hlo, hhi⟩ := h.requests p hp
      exact sendable_of_length hlo (by omega)
    obtain ⟨conn', q', t, hok, -⟩ := writeDataToOutBuffer_ok h.outPtr hq
    exact ⟨_, hok⟩
  loadsIn := by
    have hq : ∀ r ∈ w.mux.wInMessages, r.pdu.Sendable := by
      intro r hr
      obtain ⟨hlo, hhi⟩ := h.responses r hr
      exact sendable_of_length (by omega) hhi
    obtain ⟨conns', q', hok, -⟩ := loadConnections_ok h.ptrs hc.nodup hq
    exact ⟨{ w.mux with connections := conns', wInMessages := q' }, by
      unfold writeDataToInBuffer
      simp only [hok, bind, Except.bind]⟩
  maps r hr := by
    obtain ⟨q, hq, -⟩ := decodeInPdu_total r.pdu
    exact ⟨q, _, mapRequest_ok (hpos.taken r hr) hq w.mux⟩
  forwards r q hrq := by
    obtain ⟨p, hok, -⟩ := forwardRequest_ok (h.mapped r q hrq) r.tag w.mux
    exact ⟨p, hok⟩
  delivers p hp := by
    obtain ⟨d, hd, hvalid⟩ := decodeOutPdu_total p.pdu
    obtain ⟨rs, hok, -⟩ := deliverResponse_ok hvalid hd fun s hs _ => hpos.table s hs
    exact ⟨_, hok⟩

end Session

/-- **Whatever bytes arrive, the relay sends frames.** Any PDU decodes to octet strings of 1 to 256
bytes, and encodes again, under the next generated id or under any client's; and in every state
of a session the messages to be sent are as long as that makes them. -/
theorem relay_sends {tr : List (Session.Action × Session.State)}
    (h : Exec Session.Step Session.State.start tr) :
    (∀ p counter original, Reencoded p counter original) ∧
      ∀ w ∈ states Session.State.start tr, w.Sends := by
  refine ⟨reencoded, ?_⟩
  have hinv := h.inv (I := fun w => Session.Clients w ∧ Session.Positive w ∧ Session.Framed w)
    (fun w a w' ⟨hc, hpos, hf⟩ hs => ⟨hc.step hs, hpos.step hc hs, hf.step hc hs⟩)
    ⟨Session.clients_start, Session.positive_start, Session.framed_start⟩
  intro w hw
  obtain ⟨hc, hpos, hf⟩ := hinv w hw
  exact Session.sends hc hpos hf

/-- A client's request of two bytes is forwarded. -/
theorem relay_sends_forwarded : ∃ tr, Exec Session.Step Session.State.start tr ∧
    (final Session.State.start tr).mux.wOutMessages.length = 1 ∧
      (final Session.State.start tr).Sends := by
  obtain ⟨as, w₁, c, -, h₁, honly, -⟩ := leads_only payloadOK_zeros
  obtain ⟨q, p, -, -, -, h₂⟩ :=
    leads_pass honly.processing honly.turn honly.rOutMessages honly.rInMessages honly.pos
  obtain ⟨tr, hex, hfinal, -⟩ := leads_session (h₁.trans h₂)
  refine ⟨tr, hex, ?_, (relay_sends hex).2 _ (final_mem_states _ _)⟩
  change (final World.start.session tr).mux.wOutMessages.length = 1
  rw [hfinal]
  change (w₁.mux.wOutMessages ++ _).length = 1
  rw [honly.wOutMessages]
  rfl

end Muxer
