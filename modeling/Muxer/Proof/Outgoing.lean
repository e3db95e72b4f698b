import Mathlib.Data.List.Nodup
import Muxer.Lib.Exec
import Muxer.Proof.Deframe
import Muxer.Spec.Dispatcher

/-!
# The bytes sent to a peer

Runs of the writer's functions interleaved with new messages (`SendStep`). `StreamsOK` says
that what has been sent on a socket, followed by what its buffer still holds, is the frames
of the messages taken from the queue for that socket, in the order they were put into it.

* `SendInv.sentOut`, `SendInv.sentIn`: what is counted as sent is what `send` took.
* `outgoing_integrity`: `StreamsOK` holds in every state of every run.
-/

namespace Muxer

open Lib

variable {τ : Type}

/-! ## One connection -/

/-- What `send` may return for a buffer: part or all of it taken, or would-block. -/
def SendResult.Valid (r : SendResult) (wBufferPtr : ℕ) : Prop :=
  match r with
  | .sent bytes => 1 ≤ bytes ∧ bytes ≤ wBufferPtr
  | .socketError err => err = wsaeWouldBlock

/-- Nothing is sent from an empty buffer. -/
theorem writeData_empty {conn : Connection} (h0 : ¬0 < conn.wBufferPtr) (r : SendResult) :
    writeData conn r = .ok (true, [], conn) := by
  unfold writeData
  rw [cAssert_ok (show conn.wBufferPtr ≤ bufferKsize by omega)]
  simp only [bind, Except.bind, if_neg h0]

theorem writeData_socketError {conn : Connection} (hk : conn.wBufferPtr ≤ bufferKsize)
    (h0 : 0 < conn.wBufferPtr) (err : ℕ) :
    writeData conn (.socketError err) = .ok (err == wsaeWouldBlock, [], conn) := by
  unfold writeData
  rw [cAssert_ok hk]
  simp only [bind, Except.bind, if_pos h0]

theorem unsent_empty {conn : Connection} (h0 : conn.wBufferPtr = 0) : conn.unsent = [] := by
  rw [Connection.unsent, h0, List.take_zero]

/-- The bytes that `send` took: the first ones of those unsent. -/
def Connection.took (conn : Connection) : SendResult → Bytes
  | .sent bytes => conn.unsent.take bytes
  | .socketError _ => []

theorem took_empty {conn : Connection} (h0 : conn.wBufferPtr = 0) (r : SendResult) :
    conn.took r = [] := by
  cases r with
  | sent bytes => rw [Connection.took, unsent_empty h0, List.take_nil]
  | socketError => rfl

/-- **`write_data` reports what `send` took**, and keeps the rest. -/
theorem writeData_sent {conn : Connection} (hk : conn.wBufferPtr ≤ bufferKsize) {bytes : ℕ}
    (hb : bytes ≤ conn.wBufferPtr) :
    ∃ conn', writeData conn (.sent bytes) = .ok (true, conn.unsent.take bytes, conn') ∧
      conn'.unsent = conn.unsent.drop bytes ∧ conn'.socket = conn.socket ∧
      conn'.wBufferPtr ≤ bufferKsize := by
  by_cases h0 : 0 < conn.wBufferPtr
  · have hout : conn.wBuffer.bytes.take bytes = conn.unsent.take bytes := by
      rw [Connection.unsent, List.take_take, Nat.min_eq_left hb]
    unfold writeData
    rw [cAssert_ok hk]
    simp only [bind, Except.bind, if_pos h0]
    simp only [Buffer.read_zero (b := conn.wBuffer) (Nat.le_trans hb hk), hout]
    by_cases heq : bytes = conn.wBufferPtr
    · rw [if_pos heq]
      refine ⟨_, rfl, ?_, rfl, Nat.zero_le _⟩
      simp [Connection.unsent, heq]
    · rw [if_neg heq]
      have hk' : conn.wBufferPtr - bytes ≤ bufferKsize := by omega
      have hlen : ((conn.wBuffer.bytes.drop bytes).take (conn.wBufferPtr - bytes)).length =
          conn.wBufferPtr - bytes := by
        rw [List.length_take, List.length_drop, conn.wBuffer.size_eq]; omega
      obtain ⟨b', hb', htake⟩ := conn.wBuffer.write_zero _ (by rw [hlen]; exact hk')
      rw [hlen] at htake
      simp only [cAssert_ok hk', Buffer.read_ok (b := conn.wBuffer)
        (show bytes + (conn.wBufferPtr - bytes) ≤ bufferKsize by omega), hb']
      refine ⟨_, rfl, ?_, rfl, hk'⟩
      simp only [Connection.unsent]
      rw [htake, ← List.drop_take]
  · have hunsent := unsent_empty (Nat.eq_zero_of_not_pos h0)
    rw [hunsent, List.take_nil, List.drop_nil]
    exact ⟨conn, writeData_empty h0 _, hunsent, rfl, hk⟩

/-- **`write_data` sends a front part of the unsent bytes and keeps the rest.** -/
theorem writeData_ok {conn : Connection} (hk : conn.wBufferPtr ≤ bufferKsize) {r : SendResult}
    (hr : 0 < conn.wBufferPtr → r.Valid conn.wBufferPtr) :
    ∃ conn', writeData conn r = .ok (true, conn.took r, conn') ∧
      conn.took r ++ conn'.unsent = conn.unsent ∧ conn'.socket = conn.socket ∧
      conn'.wBufferPtr ≤ bufferKsize := by
  by_cases h0 : 0 < conn.wBufferPtr
  · match r, hr h0 with
    | .sent bytes, ⟨_, h2⟩ =>
      obtain ⟨conn', hw, hunsent, hs, hk'⟩ := writeData_sent hk h2
      exact ⟨conn', hw, by rw [hunsent]; exact List.take_append_drop _ _, hs, hk'⟩
    | .socketError err, hr =>
      have herr : (err == wsaeWouldBlock) = true := beq_iff_eq.2 hr
      exact ⟨conn, by rw [writeData_socketError hk h0, herr]; rfl, rfl, rfl, hk⟩
  · rw [took_empty (Nat.eq_zero_of_not_pos h0)]
    exact ⟨conn, writeData_empty h0 r, rfl, rfl, hk⟩

/-- The frames of a list of messages. -/
def frames (ps : List Pdu) : Bytes := (ps.map Pdu.frame).flatten

@[simp] theorem frames_nil : frames [] = [] := rfl

@[simp] theorem frames_append (ps qs : List Pdu) : frames (ps ++ qs) = frames ps ++ frames qs := by
  simp [frames]

@[simp] theorem frames_singleton (p : Pdu) : frames [p] = p.frame := by simp [frames]

/-- The message taken is the first one addressed to the socket, and only it is taken. -/
theorem takeFirst_some {s : Socket} {q q' : List (InMessage τ)} {r : InMessage τ}
    (h : takeFirst s q = some (r, q')) :
    r.socket = s ∧ ∃ q₁ q₂, q = q₁ ++ r :: q₂ ∧ q' = q₁ ++ q₂ ∧ addressedTo s q₁ = [] := by
  induction q generalizing q' with
  | nil => cases h
  | cons x q ih =>
    rw [takeFirst] at h
    split at h
    · rename_i hs
      cases h
      exact ⟨hs, [], q, rfl, rfl, rfl⟩
    · rename_i hs
      obtain ⟨⟨r', q''⟩, hrec, heq⟩ := Option.map_eq_some_iff.1 h
      cases heq
      obtain ⟨hr, q₁, q₂, rfl, rfl, hq₁⟩ := ih hrec
      refine ⟨hr, x :: q₁, q₂, rfl, rfl, ?_⟩
      have hne : (x.socket == s) = false := by simpa using hs
      rw [addressedTo, List.filter_cons, hne]
      exact hq₁

/-- What loading does to a connection and to the queue: it takes messages `t` addressed to
the connection from the front, and puts their frames behind the unsent bytes. -/
structure Loaded (conn : Connection) (q : List (InMessage τ)) (conn' : Connection)
    (q' t : List (InMessage τ)) : Prop where
  socket : conn'.socket = conn.socket
  ptr_le : conn'.wBufferPtr ≤ bufferKsize
  unread : conn'.rBuffer = conn.rBuffer ∧ conn'.rBufferPtr = conn.rBufferPtr
  unsent : conn'.unsent = conn.unsent ++ frames (t.map (·.pdu))
  taken : addressedTo conn.socket q = t ++ addressedTo conn.socket q'
  others : ∀ s, s ≠ conn.socket → addressedTo s q' = addressedTo s q
  sublist : q'.Sublist q

theorem Loaded.refl {conn : Connection} (hk : conn.wBufferPtr ≤ bufferKsize)
    (q : List (InMessage τ)) : Loaded conn q conn q [] :=
  ⟨rfl, hk, ⟨rfl, rfl⟩, by simp, rfl, fun _ _ => rfl, .refl _⟩

/-- A connection with an empty buffer takes the first message addressed to it. -/
theorem loadConnection_first {conn : Connection} (h0 : conn.wBufferPtr = 0)
    {q q' : List (InMessage τ)} {r : InMessage τ} (hf : takeFirst conn.socket q = some (r, q'))
    (hr : r.pdu.Sendable) : ∃ b : Buffer bufferKsize,
      b.bytes.take r.pdu.frame.length = r.pdu.frame ∧ loadConnection conn q =
        .ok ({ conn with wBuffer := b, wBufferPtr := r.pdu.frame.length }, q') := by
  obtain ⟨b, hwrite, htake⟩ := writePdu_ok hr.1 hr.2 conn.wBuffer
  refine ⟨b, htake, ?_⟩
  unfold loadConnection
  rw [cAssert_ok (by rw [h0]; exact Nat.zero_le _)]
  simp only [bind, Except.bind, if_pos h0, hf, hwrite]

/-- **One round of `write_data_to_in_buffer`.** It takes at most the first message addressed
to the connection. -/
theorem loadConnection_ok {conn : Connection} (hk : conn.wBufferPtr ≤ bufferKsize)
    {q : List (InMessage τ)} (hq : ∀ r ∈ q, r.pdu.Sendable) :
    ∃ conn' q' t, loadConnection conn q = .ok (conn', q') ∧ Loaded conn q conn' q' t := by
  by_cases h0 : conn.wBufferPtr = 0
  · cases hf : takeFirst conn.socket q with
    | none =>
      refine ⟨conn, q, [], ?_, .refl hk q⟩
      unfold loadConnection
      simp only [cAssert_ok hk, bind, Except.bind, if_pos h0, hf]
    | some rq =>
      obtain ⟨r, q'⟩ := rq
      -- the messages before the one taken are for other sockets
      obtain ⟨hrs, q₁, q₂, rfl, rfl, hq₁⟩ := takeFirst_some hf
      have hsend := hq r (by simp)
      obtain ⟨b', htake, hload⟩ := loadConnection_first h0 hf hsend
      refine ⟨_, _, [r], hload, rfl, hsend.frame_le, ⟨rfl, rfl⟩, ?_, ?_, ?_, ?_⟩
      · rw [unsent_empty h0]
        simpa [Connection.unsent] using htake
      · unfold addressedTo at hq₁ ⊢
        simp [List.filter_append, hq₁, hrs]
      · intro s hs
        have hne : (r.socket == s) = false := by rw [hrs]; simpa using Ne.symm hs
        simp [addressedTo, List.filter_append, hne]
      · exact List.Sublist.append_left (List.sublist_cons_self r q₂) q₁
  · refine ⟨conn, q, [], ?_, .refl hk q⟩
    unfold loadConnection
    simp only [cAssert_ok hk, bind, Except.bind, if_neg h0]

/-- **The loop of `write_data_to_in_buffer`**, over connections with distinct sockets: each
connection takes its own messages from the front, and no one else's move. -/
theorem loadConnections_ok {conns : List Connection} (hk : ∀ c ∈ conns, c.wBufferPtr ≤ bufferKsize)
    (hnd : (conns.map Connection.socket).Nodup) : ∀ {q : List (InMessage τ)},
    (∀ r ∈ q, r.pdu.Sendable) → ∃ conns' q', loadConnections conns q = .ok (conns', q') ∧
      conns'.map Connection.socket = conns.map Connection.socket ∧ q'.Sublist q ∧
      (∀ s, s ∉ conns.map Connection.socket → addressedTo s q' = addressedTo s q) ∧
      ∀ c' ∈ conns', ∃ c ∈ conns, c'.socket = c.socket ∧ c'.wBufferPtr ≤ bufferKsize ∧
        ∃ t, addressedTo c.socket q = t ++ addressedTo c.socket q' ∧
          c'.unsent = c.unsent ++ frames (t.map (·.pdu)) := by
  induction conns with
  | nil => intro q _; exact ⟨[], q, rfl, rfl, .refl _, fun _ _ => rfl, by simp⟩
  | cons c conns ih =>
    intro q hq
    rw [List.forall_mem_cons] at hk
    rw [List.map_cons, List.nodup_cons] at hnd
    obtain ⟨c₁, q₁, t, hl, hL⟩ := loadConnection_ok hk.1 hq
    have hq₁ : ∀ r ∈ q₁, r.pdu.Sendable := fun r hr => hq r (hL.sublist.subset hr)
    obtain ⟨conns', q', hls, hsock, hsub, hoth, hconn⟩ := ih hk.2 hnd.2 hq₁
    refine ⟨c₁ :: conns', q', ?_, ?_, hsub.trans hL.sublist, ?_, ?_⟩
    · simp only [loadConnections, bind, Except.bind, hl, hls]
    · rw [List.map_cons, List.map_cons, hL.socket, hsock]
    · intro s hs
      rw [List.map_cons, List.mem_cons, not_or] at hs
      rw [hoth s hs.2, hL.others s hs.1]
    · intro c' hc'
      rcases List.mem_cons.1 hc' with rfl | hc'
      · exact ⟨c, List.mem_cons_self, hL.socket, hL.ptr_le, t, by rw [hL.taken, hoth _ hnd.1],
          hL.unsent⟩
      · obtain ⟨c₂, hc₂, hs, hp, t', ht', hu⟩ := hconn c' hc'
        have hne : c₂.socket ≠ c.socket := fun h =>
          hnd.1 (h ▸ List.mem_map_of_mem (f := Connection.socket) hc₂)
        exact ⟨c₂, List.mem_cons_of_mem _ hc₂, hs, hp, t', by rw [← ht', hL.others _ hne], hu⟩

/-- The server's connection, with an empty buffer, takes the head of the queue. -/
theorem writeDataToOutBuffer_first {m : Mux τ} (h0 : m.outConnection.wBufferPtr = 0)
    {p : OutMessage τ} {rest : List (OutMessage τ)} (hq : m.wOutMessages = p :: rest)
    (hp : p.pdu.Sendable) : ∃ b : Buffer bufferKsize,
      b.bytes.take p.pdu.frame.length = p.pdu.frame ∧ writeDataToOutBuffer m = .ok { m with
        wOutMessages := rest
        outConnection :=
          { m.outConnection with wBuffer := b, wBufferPtr := p.pdu.frame.length } } := by
  obtain ⟨b, hwrite, htake⟩ := writePdu_ok hp.1 hp.2 m.outConnection.wBuffer
  refine ⟨b, htake, ?_⟩
  unfold writeDataToOutBuffer
  rw [cAssert_ok (by rw [h0]; exact Nat.zero_le _)]
  simp only [bind, Except.bind, if_pos h0, hq, hwrite]

/-- **`write_data_to_out_buffer`** takes at most the head of `w_out_messages`. -/
theorem writeDataToOutBuffer_ok {m : Mux τ} (hk : m.outConnection.wBufferPtr ≤ bufferKsize)
    (hq : ∀ p ∈ m.wOutMessages, p.pdu.Sendable) :
    ∃ conn' q' t, writeDataToOutBuffer m = .ok { m with wOutMessages := q', outConnection := conn' } ∧
      conn'.wBufferPtr ≤ bufferKsize ∧ m.wOutMessages = t ++ q' ∧
      conn'.unsent = m.outConnection.unsent ++ frames (t.map (·.pdu)) := by
  by_cases h0 : m.outConnection.wBufferPtr = 0
  · cases hw : m.wOutMessages with
    | nil =>
      refine ⟨m.outConnection, [], [], ?_, hk, rfl, by simp⟩
      unfold writeDataToOutBuffer
      simp only [cAssert_ok hk, bind, Except.bind, if_pos h0, hw]
      rw [← hw]
    | cons p rest =>
      have hsend := hq p (by rw [hw]; exact List.mem_cons_self)
      obtain ⟨b', htake, hload⟩ := writeDataToOutBuffer_first h0 hw hsend
      refine ⟨_, _, [p], hload, hsend.frame_le, rfl, ?_⟩
      rw [unsent_empty h0]
      simpa [Connection.unsent] using htake
  · refine ⟨m.outConnection, m.wOutMessages, [], ?_, hk, rfl, by simp⟩
    unfold writeDataToOutBuffer
    simp only [cAssert_ok hk, bind, Except.bind, if_neg h0]

/-! ## Runs of the writer -/

/-- The muxer with what has been put into the two write queues, and what has been sent to the
server and on each client socket, since the run began. -/
structure SendState (τ : Type) where
  mux : Mux τ
  enqueuedIn : List (InMessage τ)
  enqueuedOut : List (OutMessage τ)
  sentIn : Socket → Bytes
  sentOut : Bytes

/-- The steps of a run: a new message, or one of the writer's functions. -/
inductive SendAction (τ : Type)
  | putIn (r : InMessage τ)
  | putOut (p : OutMessage τ)
  | writeDataToInBuffer
  | writeDataToOutBuffer
  | writeDataIn (i : ℕ) (r : SendResult)
  | writeDataOut (r : SendResult)

/-- One step. `writeDataIn i r` is `write_data` on the `i`-th connection with `send` returning
`r`; it is not called for more than the buffer holds. -/
inductive SendStep : SendState τ → SendAction τ → SendState τ → Prop
  | putIn (w r) : r.pdu.Sendable → SendStep w (.putIn r)
      { w with mux := { w.mux with wInMessages := w.mux.wInMessages ++ [r] }
               enqueuedIn := w.enqueuedIn ++ [r] }
  | putOut (w p) : p.pdu.Sendable → SendStep w (.putOut p)
      { w with mux := { w.mux with wOutMessages := w.mux.wOutMessages ++ [p] }
               enqueuedOut := w.enqueuedOut ++ [p] }
  | writeDataToInBuffer (w m) : Muxer.writeDataToInBuffer w.mux = .ok m →
      SendStep w .writeDataToInBuffer { w with mux := m }
  | writeDataToOutBuffer (w m) : Muxer.writeDataToOutBuffer w.mux = .ok m →
      SendStep w .writeDataToOutBuffer { w with mux := m }
  | writeDataIn (w i r conn ok out conn') : w.mux.connections[i]? = some conn →
      (0 < conn.wBufferPtr → r.Valid conn.wBufferPtr) → writeData conn r = .ok (ok, out, conn') →
      SendStep w (.writeDataIn i r)
        { w with mux := { w.mux with connections := w.mux.connections.set i conn' }
                 sentIn := Function.update w.sentIn conn.socket (w.sentIn conn.socket ++ out) }
  | writeDataOut (w r ok out conn') :
      (0 < w.mux.outConnection.wBufferPtr → r.Valid w.mux.outConnection.wBufferPtr) →
      writeData w.mux.outConnection r = .ok (ok, out, conn') → SendStep w (.writeDataOut r)
        { w with mux := { w.mux with outConnection := conn' }, sentOut := w.sentOut ++ out }

/-- A run starts with empty write buffers, nothing sent, and clients with distinct sockets. -/
structure SendInit (w : SendState τ) : Prop where
  sockets : (w.mux.connections.map Connection.socket).Nodup
  buffers : ∀ c ∈ w.mux.connections, c.wBufferPtr = 0
  outBuffer : w.mux.outConnection.wBufferPtr = 0
  enqueuedIn : w.enqueuedIn = w.mux.wInMessages
  enqueuedOut : w.enqueuedOut = w.mux.wOutMessages
  sendableIn : ∀ r ∈ w.mux.wInMessages, r.pdu.Sendable
  sendableOut : ∀ p ∈ w.mux.wOutMessages, p.pdu.Sendable
  sentIn : ∀ s, w.sentIn s = []
  sentOut : w.sentOut = []

/-- Sent and unsent bytes are the frames of the messages taken, in queue order. -/
structure StreamsOK (w : SendState τ) : Prop where
  out : ∃ t, w.enqueuedOut = t ++ w.mux.wOutMessages ∧
    w.sentOut ++ w.mux.outConnection.unsent = frames (t.map (·.pdu))
  conns : ∀ c ∈ w.mux.connections, ∃ t,
    addressedTo c.socket w.enqueuedIn = t ++ addressedTo c.socket w.mux.wInMessages ∧
      w.sentIn c.socket ++ c.unsent = frames (t.map (·.pdu))
  others : ∀ s, s ∉ w.mux.connections.map Connection.socket →
    addressedTo s w.mux.wInMessages = addressedTo s w.enqueuedIn
  order : w.mux.wInMessages.Sublist w.enqueuedIn

/-- The invariant of a run. -/
structure SendInv (w : SendState τ) : Prop extends StreamsOK w where
  sockets : (w.mux.connections.map Connection.socket).Nodup
  ptr_le : ∀ c ∈ w.mux.connections, c.wBufferPtr ≤ bufferKsize
  outPtr_le : w.mux.outConnection.wBufferPtr ≤ bufferKsize
  sendableIn : ∀ r ∈ w.mux.wInMessages, r.pdu.Sendable
  sendableOut : ∀ p ∈ w.mux.wOutMessages, p.pdu.Sendable

theorem SendInit.inv {w : SendState τ} (h : SendInit w) : SendInv w where
  out := ⟨[], h.enqueuedOut, by rw [h.sentOut, unsent_empty h.outBuffer]; rfl⟩
  conns c hc := ⟨[], by rw [h.enqueuedIn]; rfl,
    by rw [h.sentIn, unsent_empty (h.buffers c hc)]; rfl⟩
  others _ _ := by rw [h.enqueuedIn]
  order := by rw [h.enqueuedIn]
  sockets := h.sockets
  ptr_le c hc := by rw [h.buffers c hc]; exact Nat.zero_le _
  outPtr_le := by rw [h.outBuffer]; exact Nat.zero_le _
  sendableIn := h.sendableIn
  sendableOut := h.sendableOut

theorem addressedTo_snoc (s : Socket) (q : List (InMessage τ)) (r : InMessage τ) :
    addressedTo s (q ++ [r]) = addressedTo s q ++ addressedTo s [r] := by
  rw [addressedTo, List.filter_append]; rfl

/-- New messages go behind everything not yet taken. -/
theorem SendInv.putIn {w : SendState τ} (h : SendInv w) {r : InMessage τ} (hr : r.pdu.Sendable) :
    SendInv { w with mux := { w.mux with wInMessages := w.mux.wInMessages ++ [r] }
                     enqueuedIn := w.enqueuedIn ++ [r] } where
  toStreamsOK :=
    { out := h.out
      conns := by
        intro c hc
        obtain ⟨t, ht, hb⟩ := h.conns c hc
        exact ⟨t, by rw [addressedTo_snoc, addressedTo_snoc, ht, List.append_assoc], hb⟩
      others := fun s hs => by rw [addressedTo_snoc, addressedTo_snoc, h.others s hs]
      order := h.order.append_right [r] }
  sockets := h.sockets
  ptr_le := h.ptr_le
  outPtr_le := h.outPtr_le
  sendableIn x hx := by
    rcases List.mem_append.1 hx with hx | hx
    · exact h.sendableIn x hx
    · rw [List.mem_singleton.1 hx]; exact hr
  sendableOut := h.sendableOut

theorem SendInv.putOut {w : SendState τ} (h : SendInv w) {p : OutMessage τ} (hp : p.pdu.Sendable) :
    SendInv { w with mux := { w.mux with wOutMessages := w.mux.wOutMessages ++ [p] }
                     enqueuedOut := w.enqueuedOut ++ [p] } where
  toStreamsOK :=
    { out := by
        obtain ⟨t, ht, hb⟩ := h.out
        exact ⟨t, by rw [ht, List.append_assoc], hb⟩
      conns := h.conns
      others := h.others
      order := h.order }
  sockets := h.sockets
  ptr_le := h.ptr_le
  outPtr_le := h.outPtr_le
  sendableIn := h.sendableIn
  sendableOut x hx := by
    rcases List.mem_append.1 hx with hx | hx
    · exact h.sendableOut x hx
    · rw [List.mem_singleton.1 hx]; exact hp

/-- Loading the connections moves whole messages from the queue to the buffers. -/
theorem SendInv.writeDataToInBuffer {w : SendState τ} (h : SendInv w) :
    ∃ m, Muxer.writeDataToInBuffer w.mux = .ok m ∧ SendInv { w with mux := m } := by
  obtain ⟨conns', q', hl, hsock, hsub, hoth, hconn⟩ :=
    loadConnections_ok h.ptr_le h.sockets h.sendableIn
  refine ⟨{ w.mux with connections := conns', wInMessages := q' }, ?_, ?_⟩
  · simp only [Muxer.writeDataToInBuffer, bind, Except.bind, hl]
  · exact
      { out := h.out
        conns := by
          intro c' hc'
          obtain ⟨c, hc, hs, -, t', ht', hu⟩ := hconn c' hc'
          obtain ⟨t, ht, hb⟩ := h.conns c hc
          refine ⟨t ++ t', ?_, ?_⟩
          · rw [hs, ht, ht', List.append_assoc]
          · rw [hs, hu, ← List.append_assoc, hb, List.map_append, frames_append]
        others := by
          intro s hs
          rw [hsock] at hs
          rw [hoth s hs, h.others s hs]
        order := hsub.trans h.order
        sockets := by rw [hsock]; exact h.sockets
        ptr_le := by
          intro c' hc'
          obtain ⟨c, -, -, hp, -⟩ := hconn c' hc'
          exact hp
        outPtr_le := h.outPtr_le
        sendableIn := fun r hr => h.sendableIn r (hsub.subset hr)
        sendableOut := h.sendableOut }

theorem SendInv.writeDataToOutBuffer {w : SendState τ} (h : SendInv w) :
    ∃ m, Muxer.writeDataToOutBuffer w.mux = .ok m ∧ SendInv { w with mux := m } := by
  obtain ⟨conn', q', t', hok, hp, ht', hu⟩ := writeDataToOutBuffer_ok h.outPtr_le h.sendableOut
  refine ⟨_, hok, ?_⟩
  exact
    { out := by
        obtain ⟨t, ht, hb⟩ := h.out
        refine ⟨t ++ t', ?_, ?_⟩
        · rw [ht, ht', List.append_assoc]
        · rw [hu, ← List.append_assoc, hb, List.map_append, frames_append]
      conns := h.conns
      others := h.others
      order := h.order
      sockets := h.sockets
      ptr_le := h.ptr_le
      outPtr_le := hp
      sendableIn := h.sendableIn
      sendableOut := fun p hp => h.sendableOut p (by rw [ht']; exact List.mem_append_right _ hp) }

theorem map_socket_set {conns : List Connection} {i : ℕ} {conn : Connection} (conn' : Connection)
    (hi : conns[i]? = some conn) (hs : conn'.socket = conn.socket) :
    (conns.set i conn').map Connection.socket = conns.map Connection.socket := by
  apply List.ext_getElem?
  intro j
  rw [List.getElem?_map, List.getElem?_map, List.getElem?_set]
  by_cases hij : i = j
  · subst hij
    obtain ⟨hlt, hget⟩ := List.getElem?_eq_some_iff.1 hi
    simp [hlt, hget, hs]
  · simp [hij]

/-- A connection of the updated list is the new one, or an old one with another socket. -/
theorem mem_set_cases {conns : List Connection} (hnd : (conns.map Connection.socket).Nodup)
    {i : ℕ} {conn conn' : Connection} (hi : conns[i]? = some conn) {c : Connection}
    (hc : c ∈ conns.set i conn') : c = conn' ∨ (c ∈ conns ∧ c.socket ≠ conn.socket) := by
  obtain ⟨j, hj⟩ := List.getElem?_of_mem hc
  obtain ⟨hlt, hget⟩ := List.getElem?_eq_some_iff.1 hi
  rw [List.getElem?_set] at hj
  by_cases hij : i = j
  · subst hij
    simp only [if_true, hlt, Option.some.injEq] at hj
    exact .inl hj.symm
  · rw [if_neg hij] at hj
    obtain ⟨hjlt, hjget⟩ := List.getElem?_eq_some_iff.1 hj
    refine .inr ⟨List.mem_of_getElem? hj, fun heq => hij ?_⟩
    have hlt' : i < (conns.map Connection.socket).length := by simpa using hlt
    have hjlt' : j < (conns.map Connection.socket).length := by simpa using hjlt
    -- the sockets are distinct, so an equal socket is at the same place
    have hval : (conns.map Connection.socket)[i] = (conns.map Connection.socket)[j] := by
      simp [hget, hjget, heq]
    exact (List.Nodup.getElem_inj_iff hnd).1 hval

/-- `write_data` on a client moves bytes from its buffer to its socket. -/
theorem SendInv.writeDataIn {w : SendState τ} (h : SendInv w) {i : ℕ} {r : SendResult}
    {conn : Connection} (hi : w.mux.connections[i]? = some conn)
    (hr : 0 < conn.wBufferPtr → r.Valid conn.wBufferPtr) {ok : Bool} {out : Bytes}
    {conn' : Connection} (hw : writeData conn r = .ok (ok, out, conn')) :
    SendInv { w with mux := { w.mux with connections := w.mux.connections.set i conn' }
                     sentIn := Function.update w.sentIn conn.socket (w.sentIn conn.socket ++ out) } := by
  have hmem := List.mem_of_getElem? hi
  obtain ⟨conn₁, hok, hbytes, hs, hp⟩ := writeData_ok (h.ptr_le conn hmem) hr
  rw [hw] at hok
  cases hok
  have hsock := map_socket_set conn' hi hs
  exact
    { out := h.out
      conns := by
        intro c hc
        rcases mem_set_cases h.sockets hi hc with rfl | ⟨hc, hne⟩
        -- the bytes sent leave the front of the buffer
        · obtain ⟨t, ht, hb⟩ := h.conns conn hmem
          refine ⟨t, by rw [hs]; exact ht, ?_⟩
          simp only [hs, Function.update_self]
          rw [List.append_assoc, hbytes, hb]
        · obtain ⟨t, ht, hb⟩ := h.conns c hc
          refine ⟨t, ht, ?_⟩
          simp only [Function.update_of_ne hne]
          exact hb
      others := fun s hs' => h.others s (by rw [← hsock]; exact hs')
      order := h.order
      sockets := by simp only [hsock]; exact h.sockets
      ptr_le := by
        intro c hc
        rcases mem_set_cases h.sockets hi hc with rfl | ⟨hc, -⟩
        · exact hp
        · exact h.ptr_le c hc
      outPtr_le := h.outPtr_le
      sendableIn := h.sendableIn
      sendableOut := h.sendableOut }

theorem SendInv.writeDataOut {w : SendState τ} (h : SendInv w) {r : SendResult}
    (hr : 0 < w.mux.outConnection.wBufferPtr → r.Valid w.mux.outConnection.wBufferPtr)
    {ok : Bool} {out : Bytes} {conn' : Connection}
    (hw : writeData w.mux.outConnection r = .ok (ok, out, conn')) :
    SendInv { w with mux := { w.mux with outConnection := conn' }, sentOut := w.sentOut ++ out } := by
  obtain ⟨conn₁, hok, hbytes, -, hp⟩ := writeData_ok h.outPtr_le hr
  rw [hw] at hok
  cases hok
  exact
    { out := by
        obtain ⟨t, ht, hb⟩ := h.out
        exact ⟨t, ht, by rw [List.append_assoc, hbytes, hb]⟩
      conns := h.conns
      others := h.others
      order := h.order
      sockets := h.sockets
      ptr_le := h.ptr_le
      outPtr_le := hp
      sendableIn := h.sendableIn
      sendableOut := h.sendableOut }

/-- One step keeps the invariant. -/
theorem SendInv.step {w : SendState τ} (h : SendInv w) {a : SendAction τ} {w' : SendState τ}
    (hs : SendStep w a w') : SendInv w' := by
  cases hs with
  | putIn r hr => exact h.putIn hr
  | putOut p hp => exact h.putOut hp
  | writeDataToInBuffer m hm =>
    obtain ⟨m', hm', hinv⟩ := h.writeDataToInBuffer
    rw [hm] at hm'
    cases hm'
    exact hinv
  | writeDataToOutBuffer m hm =>
    obtain ⟨m', hm', hinv⟩ := h.writeDataToOutBuffer
    rw [hm] at hm'
    cases hm'
    exact hinv
  | writeDataIn i r conn ok out conn' hi hr hw => exact h.writeDataIn hi hr hw
  | writeDataOut r ok out conn' hr hw => exact h.writeDataOut hr hw

/-- What is counted as sent to the server is what `send` took. -/
theorem SendInv.sentOut {w w' : SendState τ} (h : SendInv w) {r : SendResult}
    (hs : SendStep w (.writeDataOut r) w') :
    w'.sentOut = w.sentOut ++ w.mux.outConnection.took r := by
  cases hs with
  | writeDataOut r ok out conn' hr hw =>
    obtain ⟨conn₁, hok, -⟩ := writeData_ok h.outPtr_le hr
    rw [hw] at hok
    cases hok
    rfl

/-- What is counted as sent to a client is what `send` took. -/
theorem SendInv.sentIn {w w' : SendState τ} (h : SendInv w) {i : ℕ} {r : SendResult}
    {conn : Connection} (hi : w.mux.connections[i]? = some conn)
    (hs : SendStep w (.writeDataIn i r) w') :
    w'.sentIn = Function.update w.sentIn conn.socket (w.sentIn conn.socket ++ conn.took r) := by
  cases hs with
  | writeDataIn i r conn₂ ok out conn' hi₂ hr hw =>
    rw [hi] at hi₂
    cases hi₂
    obtain ⟨conn₁, hok, -⟩ := writeData_ok (h.ptr_le conn (List.mem_of_getElem? hi)) hr
    rw [hw] at hok
    cases hok
    rfl

/-- **Outgoing byte streams.** In every state of every run of the writer's functions, whatever
`send` takes each time: on the server socket and on each client socket, the bytes sent so far
followed by the unsent bytes of the buffer are the frames of the messages taken from the
queue for it, in the order they were put there; messages for other sockets stay, in order. -/
theorem outgoing_integrity {w : SendState τ} {tr : List (SendAction τ × SendState τ)}
    (hinit : SendInit w) (h : Exec SendStep w tr) : ∀ v ∈ states w tr, StreamsOK v :=
  fun v hv => (h.inv (fun _ _ _ hi hs => hi.step hs) hinit.inv v hv).toStreamsOK

/-- A muxer with one fresh client on socket `s`, and empty queues. -/
def oneClient (s : Socket) : Mux Unit where
  rInMessages := []
  wInMessages := []
  rOutMessages := []
  wOutMessages := []
  connections := [allocConnection s]
  socketToRecvUnicastMsg := []
  invokeidGenCounter := 0
  outConnection := allocConnection 0

theorem sendInit_oneClient (s : Socket) :
    SendInit ⟨oneClient s, [], [], fun _ => [], []⟩ where
  sockets := List.nodup_singleton _
  buffers c hc := by rw [List.mem_singleton.1 hc]; rfl
  outBuffer := rfl
  enqueuedIn := rfl
  enqueuedOut := rfl
  sendableIn := by simp [oneClient]
  sendableOut := by simp [oneClient]
  sentIn _ := rfl
  sentOut := rfl

/-- One client, one message for it, loaded and sent in part. -/
theorem outgoing_integrity_part :
    ∃ tr : List (SendAction Unit × SendState Unit),
      Exec SendStep ⟨oneClient 5, [], [], fun _ => [], []⟩ tr ∧ tr.map Prod.fst =
        [.putIn ⟨5, ⟨[7, 9], by decide⟩, ()⟩, .writeDataToInBuffer, .writeDataIn 0 (.sent 1)] ∧
      ∀ v ∈ states (⟨oneClient 5, [], [], fun _ => [], []⟩ : SendState Unit) tr, StreamsOK v := by
  set w₀ : SendState Unit := ⟨oneClient 5, [], [], fun _ => [], []⟩
  set r : InMessage Unit := ⟨5, ⟨[7, 9], by decide⟩, ()⟩
  have hr : r.pdu.Sendable := ⟨by decide, by decide⟩
  have h₁ := (sendInit_oneClient 5).inv.putIn hr
  obtain ⟨m, hm, h₂⟩ := h₁.writeDataToInBuffer
  have hlen : 0 < m.connections.length := by
    obtain ⟨conns', q', hl, hsock, -⟩ := loadConnections_ok h₁.ptr_le h₁.sockets h₁.sendableIn
    simp only [Muxer.writeDataToInBuffer, bind, Except.bind, hl, Except.ok.injEq] at hm
    have := congrArg List.length hsock
    rw [List.length_map, List.length_map] at this
    rw [← hm, this]
    exact Nat.one_pos
  have hsend : 0 < m.connections[0].wBufferPtr →
      (SendResult.sent 1).Valid m.connections[0].wBufferPtr := fun h => ⟨Nat.le_refl 1, h⟩
  obtain ⟨conn', hw, -⟩ := writeData_ok (h₂.ptr_le _ (List.getElem_mem hlen)) hsend
  have hex : Exec SendStep w₀ [(.putIn r, _), (.writeDataToInBuffer, _),
      (.writeDataIn 0 (.sent 1), _)] :=
    .cons (.putIn w₀ r hr) (.cons (.writeDataToInBuffer _ m hm)
      (.cons (.writeDataIn _ 0 (.sent 1) _ _ _ conn' (List.getElem?_eq_getElem hlen) hsend hw)
        (.nil _)))
  exact ⟨_, hex, rfl, outgoing_integrity (sendInit_oneClient 5) hex⟩

end Muxer
