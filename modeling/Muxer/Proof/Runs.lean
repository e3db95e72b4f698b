import Muxer.Proof.World

/-!
# What can happen next

Steps that are possible from a state in which the threads they need are idle: each lemma is a
run of one thread, or of the network, from any such state, with the state it leads to.

* `leads_connect`, `leads_read`, `leads_drop`: a client comes, sends a request and goes.
* `leads_process`, `leads_pass`, `leads_send`: a request is processed, and sent to the server.
* `leads_receive`, `leads_deliver`, `leads_load`: its answer comes back, is processed and loaded.
* `leads_many`: any number of requests are processed.
* `leads_only`, `leads_coming`, `leads_relay`: all of this, for the only request there is.
* `leads_reconnect`: another client comes on the handle of the first.
-/

namespace Muxer

open Lib

variable {w : World} {s : Socket} {c : Connection} {p : Pdu}

/-- Neither inserts a client nor drops one. -/
def Action.Plain (a : Action) : Prop := a ≠ .insert ∧ ∀ t i closed, a ≠ .drop t i closed

/-- A request of two bytes. -/
theorem payloadOK_zeros : PayloadOK ⟨[0, 0], by decide⟩ := ⟨by decide, by decide⟩

theorem not_drop_of_plain {as : List Action} (has : ∀ a ∈ as, a.Plain) :
    ∀ a ∈ .accept s :: .insert :: as, ∀ t i closed, a ≠ .drop t i closed :=
  List.forall_mem_cons.2 ⟨by simp, List.forall_mem_cons.2 ⟨by simp, fun a ha => (has a ha).2⟩⟩

theorem not_drops {t : Thread} (hd : w.dropping = none) : ¬w.Drops t := by
  rintro ⟨d, hdrop, -⟩
  rw [hd] at hdrop
  cases hdrop

theorem connectionsFree (hr : w.reader = .idle) (hd : w.dropping = none) : w.ConnectionsFree :=
  ⟨hd, fun s ps h => by rw [hr] at h; cases h⟩

theorem leads_connect (hr : w.reader = .idle) (hd : w.dropping = none) (hpos : 0 < s)
    (hs : s ∉ w.opened) : Leads Step w [.accept s, .insert]
      { w with
        mux := { w.mux with connections := w.mux.connections ++ [allocConnection s] }
        opened := s :: w.opened
        inst := Function.update w.inst s (w.inst s + 1)
        sentIn := Function.update w.sentIn s []
        reader := .idle } :=
  .cons (.accept w s hr (not_drops hd) hpos hs) (.single (.insert _ s rfl hd))

/-- Frames are cut into their payloads. -/
theorem cut_frames {ps : List Pdu} (hps : ∀ p ∈ ps, PayloadOK p) :
    pduFraming.cut (frames ps) = (ps.map Pdu.buffer, []) := by
  rw [frames_eq]
  exact Framing.cut_payloads (payload_length hps)

/-- One whole frame received is one PDU. -/
theorem receive_one (h0 : c.rBufferPtr = 0) (hp : PayloadOK p) :
    ∃ c', receive c (.bytes p.frame) = .ok (true, [p], c') ∧ c'.rBufferPtr = 0 := by
  have hgood : (RecvResult.bytes p.frame).broken = false := by
    rw [RecvResult.broken, List.isEmpty_eq_false_iff]
    exact List.ne_nil_of_length_pos p.frame_pos
  have hone : ∀ x ∈ [p], PayloadOK x := List.forall_mem_singleton.2 hp
  have hbounded : pduFraming.Bounded (c.unread ++ p.frame) := by
    rw [unread_empty h0, List.nil_append, ← frames_singleton, frames_eq]
    exact (Framing.wellHeaded_frames (by decide) (payload_length hone)).bounded
  have hfit : (RecvResult.bytes p.frame).data.length ≤ bufferKsize - c.rBufferPtr := by
    rw [h0]
    exact hp.frame_le
  obtain ⟨ps, c', hrec, hps, -, hptr⟩ :=
    (receive_good (by rw [h0]; exact Nat.zero_le _) hgood hfit).1 hbounded
  rw [unread_empty h0, List.nil_append, RecvResult.data, ← frames_singleton, cut_frames hone]
    at hps hptr
  have hps : ps = [p] := map_buffer_injective hps
  rw [hps] at hrec
  exact ⟨c', hrec, hptr⟩

/-- A client sends one request. -/
theorem leads_read {i : ℕ} (hr : w.reader = .idle) (hd : w.dropping = none)
    (hi : w.mux.connections[i]? = some c) (h0 : c.rBufferPtr = 0) (hp : PayloadOK p) :
    ∃ c', c'.socket = c.socket ∧ c'.rBufferPtr = 0 ∧
      c'.wBufferPtr = c.wBufferPtr ∧
      Leads Step w [.recvIn i (.bytes p.frame), .putIn, .readInDone]
        { w with
          mux := { w.mux with
            connections := w.mux.connections.set i c'
            rInMessages := w.mux.rInMessages ++ [⟨c.socket, p, w.requests.length⟩] }
          requests := w.requests ++ [⟨c.socket, w.inst c.socket, p⟩]
          reader := .idle } := by
  obtain ⟨c', hrec, h0'⟩ := receive_one h0 hp
  obtain ⟨hsock, -, hptr⟩ := receive_frame hrec
  have hfit : (RecvResult.bytes p.frame).data.length ≤ bufferKsize - c.rBufferPtr := by
    rw [h0]
    exact hp.frame_le
  exact ⟨c', hsock, h0', hptr,
    .cons (.recvIn w i _ c _ c' hr (connectionsFree hr hd) hi hfit hrec)
      (.cons (.putIn _ c.socket p [] rfl) (.single (.readInDone _ c.socket rfl)))⟩

/-- A client is dropped, and its handle closed. -/
theorem leads_drop {i : ℕ} (t : Thread) (hr : w.reader = .idle) (hd : w.dropping = none)
    (hi : w.mux.connections[i]? = some c) :
    Leads Step w [.drop t i true, .unmap, .unlink]
      { w with
        mux := unlinkConnection c.socket (removeAllMappingsFor c.socket w.mux)
        opened := w.opened.filter (· != c.socket)
        dropping := none } := by
  exact .cons (.drop w t i true c (fun _ => hr) (connectionsFree hr hd) hi)
    (.cons (.unmap _ t c.socket rfl) (.single (.unlink _ t c.socket rfl)))

/-- The first request waiting is processed, when it is the requests' turn. -/
theorem leads_process {r : InMessage ℕ} {rest : List (InMessage ℕ)} (hp : w.processing = .idle)
    (hr : w.mux.rInMessages = r :: rest) (hpos : 0 < r.socket) :
    ∃ q p, decodeInPdu r.pdu = .ok (0, some q) ∧ p.Sendable ∧
      decodeInPdu p =
        .ok (0, some ⟨(generateInvokeid w.mux.invokeidGenCounter).toInt64, q.command⟩) ∧
      Leads Step { w with turn := .requests } [.takeIn, .mapRequest, .forward]
        { w with
          mux := { w.mux with
            rInMessages := rest
            invokeidGenCounter := generateInvokeid w.mux.invokeidGenCounter
            socketToRecvUnicastMsg := w.mux.socketToRecvUnicastMsg ++ [⟨r.socket,
              q.invokeid.toUInt64, generateInvokeid w.mux.invokeidGenCounter, r.tag⟩]
            wOutMessages := w.mux.wOutMessages ++ [⟨p, r.tag⟩] }
          processing := .idle
          turn := .responses } := by
  obtain ⟨q, hq, hvalid⟩ := decodeInPdu_total r.pdu
  have htake : takeRInMessage w.mux = some (r, { w.mux with rInMessages := rest }) := by
    unfold takeRInMessage
    rw [hr]
  have hmap := mapRequest_ok hpos hq { w.mux with rInMessages := rest }
  obtain ⟨p, hforward, -, hsend, hdecode⟩ := forwardRequest_ok hvalid r.tag
    { w.mux with
      rInMessages := rest
      invokeidGenCounter := generateInvokeid w.mux.invokeidGenCounter
      socketToRecvUnicastMsg := w.mux.socketToRecvUnicastMsg ++ [⟨r.socket, q.invokeid.toUInt64,
        generateInvokeid w.mux.invokeidGenCounter, r.tag⟩] }
  exact ⟨q, p, hq, hsend, hdecode, .cons (.takeIn _ r _ hp rfl htake)
    (.cons (.mapRequest _ r q _ rfl hmap) (.single (.forward _ r q _ rfl hforward)))⟩

/-- So it is in a pass that finds no response. -/
theorem leads_pass {r : InMessage ℕ} {rest : List (InMessage ℕ)} (hp : w.processing = .idle)
    (ht : w.turn = .responses) (hnone : w.mux.rOutMessages = []) (hr : w.mux.rInMessages = r :: rest)
    (hpos : 0 < r.socket) :
    ∃ q p, decodeInPdu r.pdu = .ok (0, some q) ∧ p.Sendable ∧
      decodeInPdu p =
        .ok (0, some ⟨(generateInvokeid w.mux.invokeidGenCounter).toInt64, q.command⟩) ∧
      Leads Step w [.noneOut, .takeIn, .mapRequest, .forward]
        { w with
          mux := { w.mux with
            rInMessages := rest
            invokeidGenCounter := generateInvokeid w.mux.invokeidGenCounter
            socketToRecvUnicastMsg := w.mux.socketToRecvUnicastMsg ++ [⟨r.socket,
              q.invokeid.toUInt64, generateInvokeid w.mux.invokeidGenCounter, r.tag⟩]
            wOutMessages := w.mux.wOutMessages ++ [⟨p, r.tag⟩] }
          processing := .idle
          turn := .responses } := by
  obtain ⟨q, p, hq, hsend, hdec, hlead⟩ := leads_process hp hr hpos
  exact ⟨q, p, hq, hsend, hdec, .cons (.noneOut w hp ht hnone) hlead⟩

/-- `send` may take everything. -/
theorem writeData_all (hk : c.wBufferPtr ≤ bufferKsize) (hpos : 0 < c.wBufferPtr) :
    writeData c (.sent c.wBufferPtr) =
      .ok (true, c.unsent, { c with wBufferPtr := 0 }) := by
  unfold writeData
  simp only [cAssert_ok hk, Buffer.read_zero (b := c.wBuffer) hk, bind, Except.bind, if_pos hpos,
    if_true]
  rfl

/-- The first message for the server is loaded and sent. -/
theorem leads_send {f : OutMessage ℕ} {rest : List (OutMessage ℕ)} (hd : w.dropping = none)
    (h0 : w.mux.outConnection.wBufferPtr = 0) (hq : w.mux.wOutMessages = f :: rest)
    (hf : f.pdu.Sendable) :
    ∃ out' n, out'.wBufferPtr = 0 ∧ out'.rBufferPtr = w.mux.outConnection.rBufferPtr ∧
      Leads Step w [.loadOut, .sendOut (.sent n)]
        { w with
          mux := { w.mux with wOutMessages := rest, outConnection := out' }
          takenOut := w.takenOut ++ [f]
          sentOut := w.sentOut ++ f.pdu.frame } := by
  obtain ⟨b, htake, hload⟩ := writeDataToOutBuffer_first h0 hq hf
  set loadedConn : Connection :=
    { w.mux.outConnection with wBuffer := b, wBufferPtr := f.pdu.frame.length }
  have hsend := writeData_all (c := loadedConn) hf.frame_le f.pdu.frame_pos
  have htaken : loadedOut w.mux = [f] := by simp [loadedOut, h0, hq]
  rw [show loadedConn.unsent = f.pdu.frame from htake] at hsend
  refine ⟨{ loadedConn with wBufferPtr := 0 }, f.pdu.frame.length, rfl, rfl,
    .cons (.loadOut w _ (not_drops hd) hload) (.single ?_)⟩
  rw [htaken]
  exact .sendOut _ _ _ _ (not_drops hd) (fun _ => ⟨f.pdu.frame_pos, le_refl _⟩) hsend

/-- The one answer on its way is received. -/
theorem leads_receive {a : OutMessage ℕ} (hr : w.reader = .idle) (hd : w.dropping = none)
    (hpending : w.pending = [a]) (hwire : w.wire = a.pdu.frame)
    (h0 : w.mux.outConnection.rBufferPtr = 0) (hp : PayloadOK a.pdu) :
    ∃ out', out'.wBufferPtr = w.mux.outConnection.wBufferPtr ∧ out'.rBufferPtr = 0 ∧
      Leads Step w [.recvOut a.pdu.frame.length, .putOut, .readOutDone]
      { w with
        mux := { w.mux with
          rOutMessages := w.mux.rOutMessages ++ [a]
          outConnection := out' }
        pending := []
        wire := []
        reader := .idle } := by
  obtain ⟨out', hrec, h0'⟩ := receive_one h0 hp
  obtain ⟨-, -, hwptr⟩ := receive_frame hrec
  have hfit : a.pdu.frame.length ≤ bufferKsize - w.mux.outConnection.rBufferPtr := by
    rw [h0]
    exact hp.frame_le
  have hstep : Step w (.recvOut a.pdu.frame.length)
      { w with
        wire := []
        mux := { w.mux with outConnection := out' }
        reader := .puttingOut [a.pdu] } := by
    have h := Step.recvOut w a.pdu.frame.length [a.pdu] out' hr (not_drops hd) a.pdu.frame_pos
      (by rw [hwire]) hfit (by rw [hwire, List.take_length]; exact hrec)
    rwa [hwire, List.drop_length] at h
  exact ⟨out', hwptr, h0', .cons hstep (.cons (.putOut _ a.pdu [] a [] rfl hpending)
    (.single (.readOutDone _ rfl)))⟩

/-- The first response waiting is processed: its one mapping is taken out. -/
theorem leads_deliver {a : OutMessage ℕ} {rest : List (OutMessage ℕ)} {d : OutputType}
    {e : Mapping ℕ} (hp : w.processing = .idle) (ht : w.turn = .responses)
    (ha : w.mux.rOutMessages = a :: rest)
    (hdec : decodeOutPdu a.pdu = .ok (0, some d)) (hd : d.Valid)
    (hpos : 0 < e.socket) (htable : w.mux.socketToRecvUnicastMsg.filter
      (·.invokeidGenerated == d.invokeid.toUInt64) = [e]) :
    ∃ r, Replied d a.tag e r ∧ Leads Step w [.takeOut, .deliver]
      { w with
        mux := { w.mux with
          rOutMessages := rest
          socketToRecvUnicastMsg := w.mux.socketToRecvUnicastMsg.filter
            (·.invokeidGenerated != d.invokeid.toUInt64)
          wInMessages := w.mux.wInMessages ++ [r] }
        processed := w.processed ++ [a.tag]
        processing := .idle
        turn := .requests } := by
  have htake : takeROutMessage w.mux = some (a, { w.mux with rOutMessages := rest }) := by
    unfold takeROutMessage
    rw [ha]
  obtain ⟨r, hreply, hdeliver⟩ :=
    deliverResponse_one (m := { w.mux with rOutMessages := rest }) hd hdec hpos htable
  exact ⟨r, hreply, .cons (.takeOut w a _ hp ht htake) (.single (.deliver _ a _ rfl hdeliver))⟩

/-- The first message for a client is loaded. -/
theorem leads_load {i : ℕ} {r : InMessage ℕ} {rest : List (InMessage ℕ)} (hr : w.reader = .idle)
    (hd : w.dropping = none) (hi : w.mux.connections[i]? = some c) (h0 : c.wBufferPtr = 0)
    (hq : w.mux.wInMessages = r :: rest) (hs : r.socket = c.socket) (hp : r.pdu.Sendable) :
    ∃ c', c'.socket = c.socket ∧ Leads Step w [.loadIn i]
      { w with
        mux := { w.mux with
          connections := w.mux.connections.set i c'
          wInMessages := rest }
        delivered := w.delivered ++ [⟨r, w.inst c.socket⟩] } := by
  have htake : takeFirst c.socket w.mux.wInMessages = some (r, rest) := by
    rw [hq, takeFirst, if_pos hs]
  obtain ⟨b, -, hload⟩ := loadConnection_first h0 htake hp
  have hloaded : loaded c w.mux.wInMessages = [r] := by simp [loaded, h0, htake]
  have hstep := Step.loadIn w i c _ rest (connectionsFree hr hd) hi hload
  rw [hloaded] at hstep
  exact ⟨{ c with wBuffer := b, wBufferPtr := r.pdu.frame.length }, rfl, .single hstep⟩

/-- The threads are idle between two passes, and the first client has sent no part of a request. -/
structure World.Serving (w : World) : Prop where
  reader : w.reader = .idle
  dropping : w.dropping = none
  processing : w.processing = .idle
  turn : w.turn = .responses
  rInMessages : w.mux.rInMessages = []
  rOutMessages : w.mux.rOutMessages = []
  client : ∃ c, w.mux.connections[0]? = some c ∧ 0 < c.socket ∧ c.rBufferPtr = 0

/-- So many requests more are mapped, and nothing has come from the server. -/
structure World.Asked (w w' : World) (k : ℕ) : Prop where
  requests : w'.requests.length = w.requests.length + k
  table : w'.mux.socketToRecvUnicastMsg.map (·.tag) =
    w.mux.socketToRecvUnicastMsg.map (·.tag) ++ List.range' w.requests.length k
  outConnection : w'.mux.outConnection = w.mux.outConnection
  answered : w'.answered = w.answered
  pending : w'.pending = w.pending
  wire : w'.wire = w.wire
  processed : w'.processed = w.processed

/-- It may send one, which is processed in the next pass. -/
theorem leads_next (h : w.Serving) : ∃ as w', (∀ a ∈ as, a.Plain) ∧ Leads Step w as w' ∧
    w'.Serving ∧ w.Asked w' 1 := by
  obtain ⟨c, hi, hpos, h0⟩ := h.client
  obtain ⟨hlt, -⟩ := List.getElem?_eq_some_iff.1 hi
  -- the reader puts it into `r_in_messages`, and the next pass finds no response
  obtain ⟨c', hsock, hptr, -, h₁⟩ := leads_read h.reader h.dropping hi h0 payloadOK_zeros
  obtain ⟨w₁, h₁, hw₁⟩ := h₁.exists_eq
  obtain ⟨q, p, -, -, -, h₂⟩ := leads_pass (w := w₁)
    (r := ⟨c.socket, ⟨[0, 0], by decide⟩, w.requests.length⟩) (by rw [hw₁]; exact h.processing)
    (by rw [hw₁]; exact h.turn) (by rw [hw₁]; exact h.rOutMessages)
    (by rw [hw₁, h.rInMessages]; rfl) hpos
  obtain ⟨w₂, h₂, hw₂⟩ := h₂.exists_eq
  refine ⟨_, w₂, ?_, h₁.trans h₂, ?_, ?_⟩
  · simp [Action.Plain]
  · rw [hw₂, hw₁]
    exact
      { reader := rfl
        dropping := h.dropping
        processing := rfl
        turn := rfl
        rInMessages := rfl
        rOutMessages := h.rOutMessages
        client := ⟨c', List.getElem?_set_self hlt, by rw [hsock]; exact hpos, hptr⟩ }
  · rw [hw₂, hw₁]
    exact
      { requests := by simp
        table := by simp
        outConnection := rfl
        answered := rfl
        pending := rfl
        wire := rfl
        processed := rfl }

/-- Any number of requests can wait for an answer. -/
theorem leads_many (h : w.Serving) (k : ℕ) : ∃ as w', (∀ a ∈ as, a.Plain) ∧
    Leads Step w as w' ∧ w'.Serving ∧ w.Asked w' k := by
  induction k with
  | zero => exact ⟨[], w, by simp, .refl w, h, rfl, by simp, rfl, rfl, rfl, rfl, rfl⟩
  | succ k ih =>
    obtain ⟨as, w₁, has, h₁, hserv₁, hasked₁⟩ := ih
    obtain ⟨bs, w₂, hbs, h₂, hserv₂, hasked₂⟩ := leads_next hserv₁
    refine ⟨as ++ bs, w₂, List.forall_mem_append.2 ⟨has, hbs⟩, h₁.trans h₂, hserv₂, ?_⟩
    exact
      { requests := by rw [hasked₂.requests, hasked₁.requests, Nat.add_assoc]
        table := by
          rw [hasked₂.table, hasked₁.table, hasked₁.requests, List.append_assoc,
            List.range'_append_1]
        outConnection := hasked₂.outConnection.trans hasked₁.outConnection
        answered := hasked₂.answered.trans hasked₁.answered
        pending := hasked₂.pending.trans hasked₁.pending
        wire := hasked₂.wire.trans hasked₁.wire
        processed := hasked₂.processed.trans hasked₁.processed }

/-- There is one client, the threads are idle between two passes, and nothing is on its way but these
requests, these mappings and these answers. -/
structure World.Quiet (w : World) (waiting : List (InMessage ℕ)) (mappings : List (Mapping ℕ))
    (answers : List (OutMessage ℕ)) (c : Connection) : Prop where
  reader : w.reader = .idle
  dropping : w.dropping = none
  processing : w.processing = .idle
  turn : w.turn = .responses
  rInMessages : w.mux.rInMessages = waiting
  table : w.mux.socketToRecvUnicastMsg = mappings
  wOutMessages : w.mux.wOutMessages = []
  rOutMessages : w.mux.rOutMessages = []
  wInMessages : w.mux.wInMessages = []
  wBufferPtr : w.mux.outConnection.wBufferPtr = 0
  rBufferPtr : w.mux.outConnection.rBufferPtr = 0
  payloads : ∀ f ∈ w.takenOut, PayloadOK f.pdu
  sentOut : w.sentOut = frames (w.takenOut.map (·.pdu))
  answered : ∀ k ∈ w.answered, k < w.takenOut.length
  pending : w.pending = answers
  wire : w.wire = frames (answers.map (·.pdu))
  client : w.mux.connections = [c]

/-- One request waits for the client it is for, with nothing else on its way. -/
structure World.Only (w : World) (r : InMessage ℕ) (c : Connection) : Prop
    extends w.Quiet [r] [] [] c where
  socket : r.socket = c.socket
  pos : 0 < r.socket
  unread : c.rBufferPtr = 0
  empty : c.wBufferPtr = 0

/-- The client sends a request. -/
theorem leads_ask (h : w.Quiet [] [] [] c) (hpos : 0 < c.socket) (h0 : c.rBufferPtr = 0)
    (hempty : c.wBufferPtr = 0) (hp : PayloadOK p) : ∃ as w' c', (∀ a ∈ as, a.Plain) ∧
    Leads Step w as w' ∧ w'.Only ⟨c.socket, p, w.requests.length⟩ c' ∧
    w'.requests = w.requests ++ [⟨c.socket, w.inst c.socket, p⟩] ∧ w'.inst = w.inst ∧
    w'.delivered = w.delivered ∧ w'.takenOut = w.takenOut ∧ w'.processed = w.processed := by
  have hi : w.mux.connections[0]? = some c := by rw [h.client]; rfl
  obtain ⟨c', hsock, hrptr, hptr, hread⟩ := leads_read h.reader h.dropping hi h0 hp
  refine ⟨_, _, c', by simp [Action.Plain], hread, ?_, rfl, rfl, rfl, rfl, rfl⟩
  exact { h with
    reader := rfl
    rInMessages := by rw [h.rInMessages]; rfl
    client := by rw [h.client]; rfl
    socket := hsock.symm
    pos := hpos
    unread := hrptr
    empty := hptr.trans hempty }

/-- The first client comes, on handle 1. -/
theorem leads_first : ∃ w₀ w, Leads Step World.start [.accept 1] w₀ ∧ Step w₀ .insert w ∧
    w₀.exchange = World.start.exchange ∧ w.Quiet [] [] [] (allocConnection 1) ∧
    w.requests = [] ∧ w.inst 1 = 1 ∧ w.delivered = [] ∧ w.takenOut = [] ∧ w.processed = [] := by
  refine ⟨_, _, .single (.accept World.start 1 rfl (not_drops rfl) Nat.one_pos List.not_mem_nil),
    .insert _ 1 rfl rfl, rfl, ?_, rfl, rfl, rfl, rfl, rfl⟩
  exact
    { reader := rfl
      dropping := rfl
      processing := rfl
      turn := rfl
      rInMessages := rfl
      table := rfl
      wOutMessages := rfl
      rOutMessages := rfl
      wInMessages := rfl
      wBufferPtr := rfl
      rBufferPtr := rfl
      payloads := fun _ hf => absurd hf List.not_mem_nil
      sentOut := rfl
      answered := fun _ hk => absurd hk List.not_mem_nil
      pending := rfl
      wire := rfl
      client := rfl }

/-- It sends a request. -/
theorem leads_only (hp : PayloadOK p) : ∃ as w c, (∀ a ∈ as, a.Plain) ∧
    Leads Step World.start (.accept 1 :: .insert :: as) w ∧ w.Only ⟨1, p, 0⟩ c ∧
    w.requests = [⟨1, 1, p⟩] ∧ w.inst 1 = 1 ∧ w.delivered = [] ∧ w.takenOut = [] ∧
    w.processed = [] := by
  obtain ⟨w₀, w₁, h₀, hins, -, hquiet, hreq₁, hinst₁, hdel₁, htaken₁, hproc₁⟩ := leads_first
  obtain ⟨as, w₂, c, has, h₂, honly, hreq, hinst, hdel, htaken, hproc⟩ :=
    leads_ask hquiet Nat.one_pos rfl rfl hp
  refine ⟨as, w₂, c, has, h₀.trans (.cons hins h₂), ?_, ?_, by rw [hinst, hinst₁],
    by rw [hdel, hdel₁], by rw [htaken, htaken₁], by rw [hproc, hproc₁]⟩
  · rw [hreq₁] at honly
    exact honly
  · rw [hreq, hreq₁, List.nil_append]
    exact congrArg (fun n => [Request.mk 1 n p]) hinst₁

/-- The client is dropped, and another one comes on its handle. -/
theorem leads_reconnect {waiting : List (InMessage ℕ)} (h : w.Quiet waiting [] [] c)
    (hpos : 0 < c.socket) : ∃ w₀ w', Leads Step w
      [.drop .reader 0 true, .unmap, .unlink, .accept c.socket] w₀ ∧ Step w₀ .insert w' ∧
      w₀.exchange = { w.exchange with clients := [] } ∧
      w'.Quiet waiting [] [] (allocConnection c.socket) ∧ w'.requests = w.requests ∧
      w'.inst c.socket = w.inst c.socket + 1 ∧ w'.delivered = w.delivered := by
  have h₁ := leads_drop (w := w) (i := 0) (c := c) .reader h.reader h.dropping
    (by rw [h.client]; rfl)
  obtain ⟨w₁, h₁, hw₁⟩ := h₁.exists_eq
  have haccept := Step.accept w₁ c.socket (by rw [hw₁]; exact h.reader)
    (not_drops (by rw [hw₁])) hpos (by simp [hw₁])
  refine ⟨_, _, h₁.trans (.single haccept), .insert _ c.socket rfl (by simp [hw₁]), ?_, ?_, ?_, ?_,
    ?_⟩
  · rw [hw₁]
    simp [World.exchange, unlinkConnection, removeAllMappingsFor, h.table, h.client]
  · rw [hw₁]
    exact { h with
      reader := rfl
      dropping := rfl
      table := by simp [unlinkConnection, removeAllMappingsFor, h.table]
      client := by simp [unlinkConnection, removeAllMappingsFor, h.client] }
  · rw [hw₁]
  · simp [hw₁]
  · rw [hw₁]

/-- The response to the only request is on its way from the server. -/
def World.Coming (w : World) (r : InMessage ℕ) (c : Connection) : Prop :=
  ∃ p d o, w.Quiet [] [⟨r.socket, o, d.invokeid.toUInt64, r.tag⟩] [⟨p, r.tag⟩] c ∧ PayloadOK p ∧
    decodeOutPdu p = .ok (0, some d) ∧ d.Valid

/-- The frame after those received is the next one received. -/
theorem cut_next {ps : List Pdu} (hps : ∀ p ∈ ps, PayloadOK p) (hp : PayloadOK p) :
    (pduFraming.cut (frames ps ++ p.frame)).1[ps.length]? = some p.buffer := by
  have hall : ∀ q ∈ ps ++ [p], PayloadOK q :=
    List.forall_mem_append.2 ⟨hps, List.forall_mem_singleton.2 hp⟩
  rw [← frames_singleton, ← frames_append, cut_frames hall]
  simp

/-- The only request is processed, sent and answered. -/
theorem leads_coming {r : InMessage ℕ} (h : w.Only r c) : ∃ as w', (∀ a ∈ as, a.Plain) ∧
    Leads Step w as w' ∧ w'.Coming r c ∧ w'.requests = w.requests ∧ w'.inst = w.inst ∧
    w'.delivered = w.delivered ∧ w'.answered = w.answered ++ [w.takenOut.length] ∧
    w'.processed = w.processed := by
  set g := generateInvokeid w.mux.invokeidGenCounter
  obtain ⟨q, f, hq, hsend, hf, h₁⟩ :=
    leads_pass h.processing h.turn h.rOutMessages h.rInMessages h.pos
  obtain ⟨w₁, h₁, hw₁⟩ := h₁.exists_eq
  obtain ⟨out₂, n, hptr₂, hrptr₂, h₂⟩ := leads_send (w := w₁) (by rw [hw₁]; exact h.dropping)
    (by rw [hw₁]; exact h.wBufferPtr) (by rw [hw₁, h.wOutMessages]; rfl) hsend
  obtain ⟨w₂, h₂, hw₂⟩ := h₂.exists_eq
  have hpay := payloadOK_of_sendable hsend
  -- any response under the id sent
  set d : OutputType := ⟨g.toInt64, [0], [0]⟩
  have hone : OctetsValid [0] := ⟨by decide, by decide⟩
  have hd : d.Valid := ⟨hone, hone⟩
  obtain ⟨p, -, hbytes⟩ := encodeOutPdu_ok hd
  have hp := payloadOK_of_sendable (sendable_of_response hd hbytes)
  have hdec := decodeOutPdu_bytes hd hbytes
  have hpays : ∀ x ∈ w.takenOut.map (·.pdu), PayloadOK x := by
    intro x hx
    obtain ⟨f', hf', rfl⟩ := List.mem_map.1 hx
    exact h.payloads f' hf'
  -- the server has received the frame, after those before it
  have hcut : (pduFraming.cut w₂.sentOut).1[w.takenOut.length]? = some f.buffer := by
    have := cut_next hpays hpay
    rw [List.length_map] at this
    rw [hw₂, hw₁, h.sentOut]
    exact this
  have hanswer := Step.answer w₂ w.takenOut.length p f _ d ⟨f, r.tag⟩ hcut hf
    (by rw [hw₂, hw₁]; simp) (by
      rw [hw₂, hw₁]
      intro hmem
      exact Nat.lt_irrefl _ (h.answered _ hmem)) hp.1 hp.2 hdec rfl
  refine ⟨_, _, ?_, h₁.trans (h₂.trans (.single hanswer)), ?_, ?_, ?_, ?_, ?_,
    ?_⟩
  · simp [Action.Plain]
  · refine ⟨p, d, q.invokeid.toUInt64, ?_, hp, hdec, hd⟩
    rw [hw₁] at hrptr₂
    rw [hw₂, hw₁]
    exact { h with
      processing := rfl
      turn := rfl
      rInMessages := rfl
      table := by rw [h.table]; rfl
      wOutMessages := rfl
      wBufferPtr := hptr₂
      rBufferPtr := hrptr₂.trans h.rBufferPtr
      payloads := List.forall_mem_append.2 ⟨h.payloads, List.forall_mem_singleton.2 hpay⟩
      sentOut := by simp [h.sentOut]
      answered := by
        rw [List.length_append]
        refine List.forall_mem_append.2 ⟨fun k hk => ?_, ?_⟩
        · exact Nat.lt_add_right _ (h.answered k hk)
        · exact List.forall_mem_singleton.2 (Nat.lt_succ_self _)
      pending := by rw [h.pending]; rfl
      wire := by simp [h.wire] }
  · rw [hw₂, hw₁]
  · rw [hw₂, hw₁]
  · rw [hw₂, hw₁]
  · rw [hw₂, hw₁]
  · rw [hw₂, hw₁]

/-- The only request is processed, sent and answered, and its response is loaded. -/
theorem leads_relay {r : InMessage ℕ} (h : w.Only r c) : ∃ as w' x c', (∀ a ∈ as, a.Plain) ∧
    Leads Step w as w' ∧ w'.Quiet [] [] [] c' ∧ c'.socket = c.socket ∧
    w'.requests = w.requests ∧ w'.inst = w.inst ∧
    w'.delivered = w.delivered ++ [⟨x, w.inst r.socket⟩] ∧ x.socket = r.socket ∧
    x.tag = r.tag := by
  obtain ⟨as, w₁, has, h₁, ⟨p, d, o, hcome, hp, hdec, hd⟩, hreq, hinst, hdel, -⟩ := leads_coming h
  -- its response is the only one on the wire
  have hwire : w₁.wire = p.frame := by rw [hcome.wire]; simp
  obtain ⟨out, hptr, hrptr, h₂⟩ := leads_receive hcome.reader hcome.dropping hcome.pending hwire
    hcome.rBufferPtr hp
  obtain ⟨w₂, h₂, hw₂⟩ := h₂.exists_eq
  obtain ⟨x, hx, h₃⟩ := leads_deliver (w := w₂) (a := ⟨p, r.tag⟩)
    (e := ⟨r.socket, o, d.invokeid.toUInt64, r.tag⟩) (by rw [hw₂]; exact hcome.processing)
    (by rw [hw₂]; exact hcome.turn) (by rw [hw₂, hcome.rOutMessages]; rfl) hdec hd h.pos
    (by rw [hw₂, hcome.table]; simp)
  obtain ⟨w₃, h₃, hw₃⟩ := h₃.exists_eq
  -- the same pass finds no request
  have hturn := Step.noneIn w₃ (by rw [hw₃]) (by rw [hw₃]) (by rw [hw₃, hw₂]; exact hcome.rInMessages)
  obtain ⟨c', hsock, h₄⟩ := leads_load (w := { w₃ with turn := .responses }) (i := 0) (c := c)
    (by rw [hw₃, hw₂]) (by rw [hw₃, hw₂]; exact hcome.dropping)
    (by rw [hw₃, hw₂, hcome.client]; rfl) h.empty
    (by rw [hw₃, hw₂, hcome.wInMessages]; rfl) (hx.1.trans h.socket) (hx.sendable hd)
  refine ⟨_, _, x, c', ?_, h₁.trans (h₂.trans (h₃.trans (.cons hturn h₄))), ?_, hsock, ?_, ?_, ?_,
    hx.1, hx.2.1⟩
  · exact List.forall_mem_append.2 ⟨has, by simp [Action.Plain]⟩
  · rw [hw₃, hw₂]
    exact { hcome with
      reader := rfl
      processing := rfl
      turn := rfl
      table := by simp [hcome.table]
      rOutMessages := rfl
      wInMessages := rfl
      wBufferPtr := hptr.trans hcome.wBufferPtr
      rBufferPtr := hrptr
      pending := rfl
      wire := rfl
      client := by rw [hcome.client]; rfl }
  · rw [hw₃, hw₂, hreq]
  · rw [hw₃, hw₂, hinst]
  · rw [hw₃, hw₂, hdel, hinst, h.socket]

end Muxer
