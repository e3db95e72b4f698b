import Muxer.Proof.Outgoing
import Muxer.Proof.Represents
import Muxer.Proof.Store

/-!
# The writer's part of the store

* `writeDataToOutBuffer_ok`, `loadConnection_ok`: the message found is copied into the buffer, and
  freed.
* `freeWInMessagesRound_ok`: a message whose client is gone is freed.
* `writeDataIn_ok`, `writeDataOut_ok`: what is sent from a buffer.
-/

namespace Muxer.Memory

open Lib OnHeap

variable {τ : Type} {s s' : Store} {L : Layout τ}

/-! ## The server's connection -/

theorem writeDataToOutBuffer_ok (hr : Represents s L) {m : Mux τ}
    (hm : Muxer.writeDataToOutBuffer L.mux = .ok m) :
    ∃ os conn s', writeDataToOutBuffer s = .ok s' ∧
      Represents s' { L with wOutMessages := os, outConnection := conn } ∧
      m = { L.mux with wOutMessages := os.map (·.value), outConnection := conn } := by
  have hconn : L.mux.outConnection = L.outConnection := rfl
  unfold Muxer.writeDataToOutBuffer at hm
  rw [hconn] at hm
  obtain ⟨u, hle, hm⟩ := bind_eq_ok.1 hm
  by_cases h0 : L.outConnection.wBufferPtr = 0
  · rw [if_pos h0] at hm
    cases hL : L.wOutMessages with
    | nil =>
      have hnone : L.mux.wOutMessages = [] := by simp [Layout.mux, hL]
      have hqueue : L.queue .wOutMessages = [] := by simp [Layout.queue, hL]
      rw [hnone] at hm
      cases hm
      refine ⟨[], L.outConnection, s, ?_, by rw [← hL]; exact hr, ?_⟩
      · simp only [writeDataToOutBuffer, hr.outConnection, hle, code_ok, ok_bind, if_pos h0,
          qGet_empty hr hqueue, ne_eq, not_true_eq_false, if_false]
      · simp [Layout.mux, hL]
    | cons o os =>
      have hcons : L.mux.wOutMessages = o.value :: os.map (·.value) := by simp [Layout.mux, hL]
      rw [hcons] at hm
      obtain ⟨⟨wBuffer, wBufferPtr⟩, hwrite, hm⟩ := bind_eq_ok.1 hm
      cases hm
      have hne : some o.entry ≠ (none : Ptr) := Option.some_ne_none _
      obtain ⟨s₁, e, hget, hload, href, hr₁⟩ := getWOut_ok hr hL
      have hout := load_out hr₁ (b := o.toBlock) (by simp [Layout.outCells])
      have hmem : o.outPdu ∈ Layout.pduCells { L with
          wOutMessages := os, outs := o.toBlock :: L.outs, loose := o.entry :: L.loose } := by
        simp [Layout.pduCells]
      have hpdu := load_pdu hr₁ hmem
      set conn := { L.outConnection with wBuffer := wBuffer, wBufferPtr := wBufferPtr } with conn_def
      set s₂ : Store := { s₁ with outConnection := conn } with s₂_def
      have hr₂ : Represents s₂
          { L with
            wOutMessages := os
            outs := o.toBlock :: L.outs
            loose := o.entry :: L.loose
            outConnection := conn } := { hr₁ with outConnection := rfl }
      -- the message is in hand from here on, and its PDU is in the buffer
      obtain ⟨s₃, hfree, hr₃⟩ := qFree_loose hr₂ rfl .wOutMessages
      obtain ⟨s', hfreed, hr'⟩ := freeOutMessage_ok hr₃ rfl
      refine ⟨os, conn, s', ?_, hr', rfl⟩
      have hconn₁ : s₁.outConnection = L.outConnection := hr₁.outConnection
      simp only [writeDataToOutBuffer, hr.outConnection, hle, code_ok, ok_bind, if_pos h0, hget,
        if_pos hne, hload, heap_ok, href, hout, hpdu, hconn₁, hwrite, ← conn_def, ← s₂_def, hfree,
        hfreed]
  · rw [if_neg h0] at hm
    cases hm
    refine ⟨L.wOutMessages, L.outConnection, s, ?_, hr, rfl⟩
    simp only [writeDataToOutBuffer, hr.outConnection, hle, code_ok, ok_bind, if_neg h0]

theorem writeDataOut_ok (hr : Represents s L) {r : SendResult} {ok : Bool} {out : Bytes}
    {conn : Connection} (hw : writeData L.outConnection r = .ok (ok, out, conn)) :
    ∃ s', writeDataOut r s = .ok (ok, out, s') ∧
      Represents s' { L with outConnection := conn } := by
  refine ⟨{ s with outConnection := conn }, ?_, { hr with outConnection := rfl }⟩
  simp only [writeDataOut, hr.outConnection, hw, code_ok, ok_bind]

/-! ## The clients' connections -/

/-- `q_free` of an entry of `w_in_messages`: its message is in hand. -/
theorem takeWIn_ok (hr : Represents s L) {xs ys : List (Queued (InMessage τ))}
    {i : Queued (InMessage τ)} (hL : L.wInMessages = xs ++ i :: ys) :
    ∃ s', qFree .wInMessages (some i.entry) s = .ok s' ∧
      Represents s' { L with wInMessages := xs ++ ys, ins := i.toBlock :: L.ins } := by
  have hqueue : L.queue .wInMessages =
      xs.map Queued.ref ++ (i.entry, i.object) :: ys.map Queued.ref := by
    simp [Layout.queue, hL, Queued.ref]
  obtain ⟨s', hfree, hs, hp⟩ := qFree_ok hr.pool hqueue
  refine ⟨s', hfree, hr.rearrange ⟨?_, rfl, ?_, rfl, rfl, rfl, rfl⟩ hs ?_⟩
  · simp only [Layout.inCells, hL, cells_append, cells_cons]
    abel
  · simp only [Layout.pduCells, hL, cells_append, cells_cons]
    abel
  · have hqueue' : ({ L with wInMessages := xs ++ ys, ins := i.toBlock :: L.ins } : Layout τ).queue =
        Function.update L.queue .wInMessages (xs.map Queued.ref ++ ys.map Queued.ref) := by
      funext k
      cases k <;> simp [Layout.queue]
    rw [hqueue']
    exact hp

/-- The message found in the middle of a queue. -/
theorem takeFirst_middle {socket : Socket} {xs ys : List (InMessage τ)} {r : InMessage τ}
    (hxs : ∀ x ∈ xs, x.socket ≠ socket) (hr : r.socket = socket) :
    takeFirst socket (xs ++ r :: ys) = some (r, xs ++ ys) := by
  induction xs with
  | nil => simp [takeFirst, hr]
  | cons x xs ih =>
    rw [List.forall_mem_cons] at hxs
    simp [takeFirst, hxs.1, ih hxs.2]

theorem takeFirst_none {socket : Socket} {q : List (InMessage τ)}
    (hq : ∀ x ∈ q, x.socket ≠ socket) : takeFirst socket q = none := by
  induction q with
  | nil => rfl
  | cons x q ih =>
    rw [List.forall_mem_cons] at hq
    simp [takeFirst, hq.1, ih hq.2]

/-- What a round of `write_data_to_in_buffer` makes of the connection `i`. -/
def LoadedInto (L : Layout τ) (xs ys : List (Item Connection)) (i : Item Connection)
    (conn' : Connection) (q : List (InMessage τ)) (s : Store) : Prop :=
  ∃ ws : List (Queued (InMessage τ)), ws.map (·.value) = q ∧
    Represents s { L with connections := xs ++ { i with value := conn' } :: ys, wInMessages := ws }

/-- The round for a message that is for the connection. -/
theorem loadMessageRound_ok (hr : Represents s L) {xs ys : List (Item Connection)}
    {i : Item Connection} (hconns : L.connections = xs ++ i :: ys)
    {before after : List (Queued (InMessage τ))} {r : Queued (InMessage τ)}
    (hL : L.wInMessages = before ++ r :: after) (hs : r.value.socket = i.value.socket)
    {wBuffer : Buffer bufferKsize} {wBufferPtr : ℕ}
    (hwrite : writePduToSendBuffer r.value.pdu i.value.wBuffer = .ok (wBuffer, wBufferPtr)) :
    ∃ s', loadMessageRound (some i.object) r.entry s = .ok (none, s') ∧
      Represents s' { L with
        connections := xs ++
          { i with value := { i.value with wBuffer := wBuffer, wBufferPtr := wBufferPtr } } :: ys
        wInMessages := before ++ after } := by
  have hi : i ∈ L.connections := by simp [hconns]
  have hne : some r.object ≠ (none : Ptr) := Option.some_ne_none _
  obtain ⟨e, he, href, -⟩ := load_wInEntry hr hL
  have hin := load_in hr (b := r.toBlock) (by simp [Layout.inCells, hL])
  have hmem : r.inPdu ∈ L.pduCells := by simp [Layout.pduCells, hL]
  have hpdu := load_pdu hr hmem
  set conn := { i.value with wBuffer := wBuffer, wBufferPtr := wBufferPtr } with conn_def
  obtain ⟨s₂, hfree, hr₂⟩ := takeWIn_ok (setConnection_ok hr hconns conn) hL
  obtain ⟨s', hfreed, hr'⟩ := freeInMessage_ok hr₂ rfl
  refine ⟨s', ?_, hr'⟩
  simp only [loadMessageRound, he, href, assertThat_ok hne, hin, load_connection hr hi, if_pos hs,
    hpdu, hwrite, update_connection hr hi, heap_ok, code_ok, ok_bind, ← conn_def, hfree, hfreed]

/-- **A round of `write_data_to_in_buffer`.** -/
theorem loadConnection_ok (hr : Represents s L) {xs ys : List (Item Connection)}
    {i : Item Connection} (hL : L.connections = xs ++ i :: ys) {conn' : Connection}
    {q : List (InMessage τ)}
    (hload : Muxer.loadConnection i.value L.mux.wInMessages = .ok (conn', q)) :
    ∃ s', loadConnection (some i.entry) s = .ok s' ∧ LoadedInto L xs ys i conn' q s' := by
  have hi : i ∈ L.connections := by simp [hL]
  have hne : some i.object ≠ (none : Ptr) := Option.some_ne_none _
  obtain ⟨e, he, href, -⟩ := load_connectionEntry hr hL
  unfold Muxer.loadConnection at hload
  obtain ⟨u, hle, hload⟩ := bind_eq_ok.1 hload
  have hstart : loadConnection (some i.entry) s =
      if i.value.wBufferPtr = 0 then
        along (loadMessageRound (some i.object)) s s.wInMessages.head s
      else .ok s := by
    simp only [loadConnection, he, href, assertThat_ok hne, load_connection hr hi, hle, heap_ok,
      code_ok, ok_bind]
  have hsame : Represents s { L with connections := xs ++ { i with value := i.value } :: ys } := by
    rw [← hL]
    exact hr
  by_cases h0 : i.value.wBufferPtr = 0
  · rw [hstart, if_pos h0]
    rw [if_pos h0] at hload
    have hk : (L.queue .wInMessages).map Prod.fst = L.wInMessages.map Queued.entry := entries_queued _
    have hq : L.mux.wInMessages = L.wInMessages.map (·.value) := rfl
    rw [hq] at hload
    -- no message met so far is for the connection
    let I (before after : List (Queued (InMessage τ))) (x : Store) : Prop :=
      before ++ after = L.wInMessages ∧ (∀ b ∈ before, b.value.socket ≠ i.value.socket) ∧ x = s
    refine along_ok (I := I) hr hk ?_ ?_ ⟨List.nil_append _, by simp, rfl⟩
    · rintro before x ⟨hbefore, hothers, rfl⟩
      rw [List.append_nil] at hbefore
      rw [takeFirst_none (by simpa [← hbefore] using hothers)] at hload
      cases hload
      exact ⟨L.wInMessages, rfl, hsame⟩
    · rintro before r after x ⟨hbefore, hothers, rfl⟩
      by_cases hs : r.value.socket = i.value.socket
      · rw [← hbefore, List.map_append, List.map_cons,
          takeFirst_middle (by simpa using hothers) hs] at hload
        obtain ⟨⟨wBuffer, wBufferPtr⟩, hwrite, hload⟩ := bind_eq_ok.1 hload
        cases hload
        obtain ⟨s', hround, hr'⟩ := loadMessageRound_ok hr hL hbefore.symm hs hwrite
        exact ⟨none, s', hround, .inr ⟨rfl, before ++ after, List.map_append, hr'⟩⟩
      · obtain ⟨e, he, href, hnext⟩ := load_wInEntry hr hbefore.symm
        have hne : some r.object ≠ (none : Ptr) := Option.some_ne_none _
        have hin := load_in hr (b := r.toBlock) (by simp [Layout.inCells, ← hbefore])
        refine ⟨_, x, ?_, .inl ⟨rfl, by simp [hbefore], ?_, rfl⟩⟩
        · simp only [loadMessageRound, he, href, assertThat_ok hne, hin, load_connection hr hi,
            if_neg hs, heap_ok, ok_bind, hnext]
        · rw [List.forall_mem_append, List.forall_mem_singleton]
          exact ⟨hothers, hs⟩
  · rw [if_neg h0] at hload
    cases hload
    exact ⟨s, by rw [hstart, if_neg h0], L.wInMessages, rfl, hsame⟩

theorem writeDataIn_ok (hr : Represents s L) {xs ys : List (Item Connection)}
    {i : Item Connection} (hL : L.connections = xs ++ i :: ys) {r : SendResult} {ok : Bool}
    {out : Bytes} {conn : Connection} (hw : writeData i.value r = .ok (ok, out, conn)) :
    ∃ s', writeDataIn (some i.object) r s = .ok (ok, out, s') ∧
      Represents s' { L with connections := xs ++ { i with value := conn } :: ys } := by
  have hi : i ∈ L.connections := by simp [hL]
  refine ⟨{ s with connectionBlocks := s.connectionBlocks.set i.object conn }, ?_,
    setConnection_ok hr hL conn⟩
  simp only [writeDataIn, load_connection hr hi, hw, update_connection hr hi, heap_ok, code_ok,
    ok_bind]

/-! ## Messages whose client is gone -/

/-- **A round of `free_w_in_messages_mapped_to_invalid_sockets`** frees the message, unless a
connection has its socket. -/
theorem freeWInMessagesRound_ok (hr : Represents s L)
    (hbuffers : ∀ c ∈ L.connections, c.value.wBufferPtr ≤ bufferKsize)
    {xs ys : List (Queued (InMessage τ))} {r : Queued (InMessage τ)}
    (hL : L.wInMessages = xs ++ r :: ys) :
    ∃ s', freeWInMessagesRound r.entry s = .ok ((ys.map Queued.entry).head?, s') ∧
      if ∃ c ∈ L.connections, c.value.socket = r.value.socket then s' = s
      else Represents s' { L with wInMessages := xs ++ ys } := by
  have hne : some r.object ≠ (none : Ptr) := Option.some_ne_none _
  obtain ⟨e, he, href, hnext⟩ := load_wInEntry hr hL
  have hin : s.inMessageBlocks.get r.object = some ⟨r.value.socket, some r.pdu⟩ :=
    hr.inMessageBlocks.mem (by simp [Layout.inCells, hL, Block.inCell])
  -- the search for the client runs over the connections, which the round does not change
  obtain ⟨visited, hsearch⟩ := existsAssocSocket_ok
    (i := ⟨r.entry, r.object, ⟨r.value.socket, some r.pdu⟩⟩) (holds_connections hr) hbuffers hin
  by_cases hgone : ∃ c ∈ L.connections, c.value.socket = r.value.socket
  · have hkeep : keepsMessage L.connections
        ⟨r.entry, r.object, ⟨r.value.socket, some r.pdu⟩⟩ = true := by
      simpa [keepsMessage] using hgone
    rw [hkeep] at hsearch
    refine ⟨s, ?_, by rw [if_pos hgone]⟩
    simp only [freeWInMessagesRound, OnHeap.freeWInMessagesRound, he, href, assertThat_ok hne, hsearch,
      ok_bind, ne_eq, not_true_eq_false, if_false, hnext, heap_ok]
  · have hkeep : keepsMessage L.connections
        ⟨r.entry, r.object, ⟨r.value.socket, some r.pdu⟩⟩ = false := by
      simpa [keepsMessage] using hgone
    rw [hkeep] at hsearch
    obtain ⟨s₁, hfree, hr₁⟩ := takeWIn_ok hr hL
    obtain ⟨s', hfreed, hr'⟩ := freeInMessage_ok hr₁ rfl
    -- the two frees, on the heaps that the round works on
    obtain ⟨⟨q, entries⟩, hqFree, hs₁⟩ := heap_bind_eq_ok.1 hfree
    cases hs₁
    obtain ⟨⟨messages, pdus⟩, hfreeIn, hs'⟩ := heap_bind_eq_ok.1 hfreed
    cases hs'
    have hunlink : Muxer.qFree s.wInMessages (some r.entry) s.queueEntries = .ok (q, entries) := hqFree
    have hmessage : OnHeap.freeInMessage (some r.object) s.inMessageBlocks s.pduBlocks =
      .ok (messages, pdus) := hfreeIn
    refine ⟨_, ?_, by rw [if_neg hgone]; exact hr'⟩
    simp only [freeWInMessagesRound, OnHeap.freeWInMessagesRound, he, href, assertThat_ok hne, hsearch,
      ok_bind, ne_eq, Bool.false_eq_true, not_false_eq_true, if_true, hnext, hunlink, hmessage, heap_ok]
    rfl

end Muxer.Memory
