import Muxer.Proof.Memory

/-!
# What the muxer holds, and what it loses

The blocks of memory allocated, counted: every block but for queue entries is of a message, a
mapping or a connection that is queued or in a thread's hands. Of the queue entries, one is lost
for each PDU ever received.

* `blocks_allocated`: in every state of a run.
* `cleanup_leaves`: after `cleanup`.
-/

namespace Muxer.Memory

open Lib OnHeap
open Session (Sound sound_start)

instance : Fintype QueueName where
  elems := {.rInMessages, .wInMessages, .rOutMessages, .wOutMessages, .connections,
    .socketToRecvUnicastMsg, .socketToRecvMulticastMsg, .pdus}
  complete k := by cases k <;> decide

section

variable {τ : Type} {s : Store} {L : Layout τ}

theorem inMessageBlocks_size (hr : Represents s L) : s.inMessageBlocks.size =
    L.rInMessages.length + L.wInMessages.length + L.ins.length := by
  simp [hr.inMessageBlocks.size, Layout.inCells]

theorem outMessageBlocks_size (hr : Represents s L) : s.outMessageBlocks.size =
    L.rOutMessages.length + L.wOutMessages.length + L.outs.length := by
  simp [hr.outMessageBlocks.size, Layout.outCells]

theorem pduBlocks_size (hr : Represents s L) : s.pduBlocks.size =
    L.rInMessages.length + L.wInMessages.length + L.ins.length + L.rOutMessages.length +
      L.wOutMessages.length + L.outs.length + L.pdus.length := by
  simp [hr.pduBlocks.size, Layout.pduCells]

theorem queueEntries_size (hr : Represents s L) : s.queueEntries.size =
    L.rInMessages.length + L.wInMessages.length + L.rOutMessages.length + L.wOutMessages.length +
      L.connections.length + L.mappings.length + (L.cut.length + L.loose.length) := by
  rw [hr.pool.size]
  have hsum : ∑ k, (L.queue k).length =
      L.rInMessages.length + (L.wInMessages.length + (L.rOutMessages.length +
        (L.wOutMessages.length + (L.connections.length + (L.mappings.length +
          (0 + L.cut.length)))))) := by
    simp [Finset.univ, Fintype.elems, Layout.queue]
  rw [hsum]
  omega

end

/-- The request in the processing thread's hands. -/
def requestsHeld : Muxer.ProcessingPc → ℕ
  | .taken _ => 1
  | .mapped _ _ => 1
  | _ => 0

/-- The response in its hands. -/
def responsesHeld : Muxer.ProcessingPc → ℕ
  | .response _ => 1
  | _ => 0

/-- What is allocated: what the session has, what its threads hold, and an entry for each of the
PDUs received, of which `puts` have been made messages of. -/
structure Accounted (s : Store) (v : Session.State) (puts : ℕ) : Prop where
  connectionBlocks : s.connectionBlocks.size = v.mux.connections.length
  mappingBlocks : s.mappingBlocks.size = v.mux.socketToRecvUnicastMsg.length
  inMessageBlocks : s.inMessageBlocks.size =
    v.mux.rInMessages.length + v.mux.wInMessages.length + requestsHeld v.processing
  outMessageBlocks : s.outMessageBlocks.size =
    v.mux.rOutMessages.length + v.mux.wOutMessages.length + responsesHeld v.processing
  pduBlocks : s.pduBlocks.size = s.inMessageBlocks.size + s.outMessageBlocks.size + toPut v.reader
  queueEntries : s.queueEntries.size =
    v.mux.rInMessages.length + v.mux.wInMessages.length + v.mux.rOutMessages.length +
      v.mux.wOutMessages.length + v.mux.connections.length + v.mux.socketToRecvUnicastMsg.length +
      (puts + toPut v.reader)

variable {w : State} {v : Session.State} {L : Layout ℕ}

theorem ReaderAt.pdus {r : ReaderPc} {r' : Muxer.ReaderPc} (h : ReaderAt L r r') :
    L.pdus.length = toPut r' := by
  cases h with
  | idle hp => simp [hp, toPut]
  | accepted s hp => simp [hp, toPut]
  | puttingIn i cut new hi hc hp => simp [hp, toPut]
  | puttingOut cut new hc hp => simp [hp, toPut]

theorem ProcessingAt.held {r : ProcessingPc} {r' : Muxer.ProcessingPc} (h : ProcessingAt L r r') :
    L.ins.length = requestsHeld r' ∧ L.outs.length = responsesHeld r' := by
  cases h <;> simp [*, requestsHeld, responsesHeld]

theorem Simulates.accounted (h : Simulates w v L) {puts : ℕ}
    (hleft : L.left = puts + toPut v.reader) : Accounted w.store v puts := by
  have hr := h.represents
  obtain ⟨hins, houts⟩ := h.processing.held
  have hpdus := h.reader.pdus
  rw [Layout.left] at hleft
  constructor
  · simp [hr.connectionBlocks.size, h.mux, Layout.mux]
  · simp [hr.mappingBlocks.size, h.mux, Layout.mux]
  · simp [inMessageBlocks_size hr, h.mux, Layout.mux, hins]
  · simp [outMessageBlocks_size hr, h.mux, Layout.mux, houts]
  · rw [pduBlocks_size hr, inMessageBlocks_size hr, outMessageBlocks_size hr]
    omega
  · rw [queueEntries_size hr, hleft]
    simp [h.mux, Layout.mux]

/-- **What is allocated, in every state of a run.** Every block but for queue entries is of what is
queued or in a thread's hands. A queue entry is lost for each PDU that was ever made a message of. -/
theorem blocks_allocated {tr : List (Action × State)} (h : Exec Goes State.start tr) :
    ∃ str L, Exec Session.Step Session.State.start str ∧
      Simulates (final State.start tr) (final Session.State.start str) L ∧
      Accounted (final State.start tr).store (final Session.State.start str) (putCount tr) := by
  obtain ⟨str, L, hex, hs, hleft⟩ := runs h simulates_start sound_start
  have hnone : Layout.start.left = 0 ∧ toPut Session.State.start.reader = 0 := ⟨rfl, rfl⟩
  refine ⟨str, L, hex, hs, hs.accounted ?_⟩
  omega

/-- A run in memory in which a client's request is mapped. -/
theorem exists_mapped : ∃ tr str L, Exec Goes State.start tr ∧ Exec Session.Step .start str ∧
    Simulates (final State.start tr) (final Session.State.start str) L ∧
    (final State.start tr).store.mappingBlocks.size = 1 ∧
    (final Session.State.start str).Stopped := by
  obtain ⟨str, hex, -, hone, hstop⟩ := Session.exists_mapped
  obtain ⟨rt⟩ := exists_runtime
  obtain ⟨tr, hruns, hall⟩ := runs_realised rt hex simulates_start sound_start
  obtain ⟨L, hs⟩ := simulates_final hall ⟨_, simulates_start⟩
  have hsize : (final State.start tr).store.mappingBlocks.size = 1 := by
    rw [hs.represents.mappingBlocks.size]
    simpa [hs.mux, Layout.mux] using hone
  exact ⟨tr, str, L, hruns, hex, hs, hsize, hstop⟩

/-- A client's request is mapped: its mapping is allocated, and its message is on its way. -/
theorem blocks_allocated_mapped : ∃ tr, Exec Goes State.start tr ∧
    (final State.start tr).store.mappingBlocks.size = 1 ∧ ∃ str, Exec Session.Step .start str ∧
      Accounted (final State.start tr).store (final Session.State.start str) (putCount tr) := by
  obtain ⟨tr, str, L, hruns, -, -, hsize, -⟩ := exists_mapped
  obtain ⟨str', L', hex', -, haccounted⟩ := blocks_allocated hruns
  exact ⟨tr, hruns, hsize, str', hex', haccounted⟩

theorem Goes.stopped {closed : Socket → Bool} {w' : State} (h : Goes w (.cleanup closed) w') :
    w.Stopped ∧ w.cleanup closed = .ok w' := by
  unfold Goes at h
  generalize Except.ok w' = o at h ⊢
  cases h with
  | cleanup closed hstop hclosed => exact ⟨hstop, rfl⟩

/-- **What `cleanup` leaves allocated**: no message, PDU or connection. The queue entries left are
those of the mappings left, and one for each PDU that was ever made a message of. -/
theorem cleanup_leaves {tr : List (Action × State)} (h : Exec Goes State.start tr)
    {closed : Socket → Bool} {w' : State} (hs : Goes (final State.start tr) (.cleanup closed) w') :
    w'.store.inMessageBlocks.size = 0 ∧ w'.store.outMessageBlocks.size = 0 ∧
      w'.store.pduBlocks.size = 0 ∧ w'.store.connectionBlocks.size = 0 ∧
      w'.store.queueEntries.size = w'.store.mappingBlocks.size + putCount tr := by
  obtain ⟨str, L, hex, hsim, hleft⟩ := runs h simulates_start sound_start
  have hv := sound_final hex
  obtain ⟨⟨hreader, -, hprocessing⟩, hrun⟩ := hs.stopped
  have hidle := hsim.reader_of_idle hreader
  obtain ⟨-, hpdus⟩ := hsim.reader_idle hidle
  obtain ⟨-, hins, houts⟩ := hsim.processing_idle (hsim.processing_of_idle hprocessing)
  obtain ⟨s', hcleanup, hr⟩ := cleanup_ok hsim.represents (hsim.nodup hv)
  simp only [State.cleanup, hcleanup, ok_bind] at hrun
  cases hrun
  have hcount : L.cut.length + L.loose.length = putCount tr := by
    have hnone : Layout.start.left = 0 ∧ toPut Session.State.start.reader = 0 := ⟨rfl, rfl⟩
    rw [hnone.1, hnone.2, hidle] at hleft
    simpa [Layout.left, toPut] using hleft
  refine ⟨?_, ?_, ?_, ?_, ?_⟩
  · simp [inMessageBlocks_size hr, hins]
  · simp [outMessageBlocks_size hr, houts]
  · simp [pduBlocks_size hr, hins, houts, hpdus]
  · simp [hr.connectionBlocks.size]
  · simp [queueEntries_size hr, hr.mappingBlocks.size, hcount]

/-- The muxer is stopped with a request mapped, and cleaned up, with no handle closed. -/
theorem cleanup_leaves_mapped : ∃ tr w', Exec Goes State.start tr ∧
    (final State.start tr).store.mappingBlocks.size = 1 ∧
    Goes (final State.start tr) (.cleanup fun _ => false) w' ∧
    w'.store.pduBlocks.size = 0 ∧
    w'.store.queueEntries.size = w'.store.mappingBlocks.size + putCount tr := by
  obtain ⟨tr, str, L, hruns, hex, hs, hsize, hstop⟩ := exists_mapped
  have hv := sound_final hex
  have hm := Muxer.cleanup_ok hv.clients.nodup
  obtain ⟨w', hrun, -⟩ := hs.cleanup hv (fun _ => false) hstop hm
  have hcleanup : Goes (final State.start tr) (.cleanup fun _ => false) w' :=
    .of_run (.cleanup _ _ (hs.stopped_iff.2 hstop) (by simp)) hrun
  obtain ⟨-, -, hpdus, -, hentries⟩ := cleanup_leaves hruns hcleanup
  exact ⟨tr, w', hruns, hsize, hcleanup, hpdus, hentries⟩

end Muxer.Memory
