import Muxer.Proof.Sendable

/-!
# What a session reads

In every state of a session the bytes read fit the buffers, so that a read either finds the
connection broken, or cuts off PDUs, or fails the assertion on a frame's header (`receive_cases`).

* `Session.Buffered.step`: the read buffers, in every step.
* `Session.Sound.step`: this, with all else that a session is known to keep.
-/

namespace Muxer

open Lib

variable {conn conn' : Connection}

/-- The bytes read have, at some frame, a header that announces more than fits the buffer. -/
def Overlong (conn : Connection) (r : RecvResult) : Prop :=
  r.broken = false ∧ ¬pduFraming.Bounded (conn.unread ++ r.data)

/-- **What becomes of a read.** -/
theorem receive_cases (hk : conn.rBufferPtr ≤ bufferKsize) {r : RecvResult}
    (hfit : r.data.length ≤ bufferKsize - conn.rBufferPtr) :
    receive conn r = .ok (false, [], conn) ∧ ¬Overlong conn r ∨
    (∃ ps conn', receive conn r = .ok (true, ps, conn') ∧ conn'.rBufferPtr ≤ bufferKsize) ∧
      ¬Overlong conn r ∨
    receive conn r = .error .assertion ∧ Overlong conn r := by
  cases hb : r.broken with
  | true => exact .inl ⟨receive_broken hk hb, fun h => by simp [h.1] at hb⟩
  | false =>
    obtain ⟨h1, h2⟩ := receive_good hk hb hfit
    by_cases hB : pduFraming.Bounded (conn.unread ++ r.data)
    · obtain ⟨ps, conn', hrec, hd⟩ := h1 hB
      exact .inr (.inl ⟨⟨ps, conn', hrec, hd.ptr_le⟩, fun h => h.2 hB⟩)
    · exact .inr (.inr ⟨h2 hB, hb, hB⟩)

theorem receive_le (hk : conn.rBufferPtr ≤ bufferKsize) {r : RecvResult} {ps : List Pdu}
    (hfit : r.data.length ≤ bufferKsize - conn.rBufferPtr)
    (h : receive conn r = .ok (true, ps, conn')) : conn'.rBufferPtr ≤ bufferKsize := by
  rcases receive_cases hk hfit with ⟨hrec, -⟩ | ⟨⟨ps', conn₁, hrec, hle⟩, -⟩ | ⟨hrec, -⟩
  · rw [h] at hrec
    cases hrec
  · rw [h] at hrec
    cases hrec
    exact hle
  · rw [h] at hrec
    cases hrec

/-- Loading a connection leaves what it has read alone. -/
theorem loadConnection_rBufferPtr {τ : Type} {q q' : List (InMessage τ)}
    (h : loadConnection conn q = .ok (conn', q')) : conn'.rBufferPtr = conn.rBufferPtr := by
  unfold loadConnection at h
  obtain ⟨-, -, h⟩ := bind_eq_ok.1 h
  split at h
  · split at h
    · cases h
      rfl
    · obtain ⟨⟨b, ptr⟩, -, h⟩ := bind_eq_ok.1 h
      cases h
      rfl
  · cases h
    rfl

/-- What is put back where it was leaves the list as it was. -/
theorem set_getElem?_self {α : Type} {l : List α} {i : ℕ} {x : α} (h : l[i]? = some x) :
    l.set i x = l := by
  obtain ⟨hlt, rfl⟩ := List.getElem?_eq_some_iff.1 h
  exact List.set_getElem_self hlt

namespace Session

variable {w w' : State} {a : Action}

/-- What is read fits the buffers. -/
structure Buffered (w : State) : Prop where
  out : w.mux.outConnection.rBufferPtr ≤ bufferKsize
  conns : ∀ c ∈ w.mux.connections, c.rBufferPtr ≤ bufferKsize

theorem buffered_start : Buffered State.start where
  out := Nat.zero_le _
  conns := by simp [State.start, Mux.start]

theorem Buffered.step (hc : Clients w) (h : Buffered w) (hs : Step w a w') : Buffered w' := by
  cases hs with
  | insert s hr hd =>
    refine { h with conns := ?_ }
    rw [List.forall_mem_append, List.forall_mem_singleton]
    exact ⟨h.conns, Nat.zero_le _⟩
  | recvIn i r conn pdus conn' hr hfree hi hfit hrec =>
    have hle := receive_le (h.conns conn (List.mem_of_getElem? hi)) hfit hrec
    exact { h with conns := forall_mem_set h.conns hle }
  | recvOut r pdus conn' hr hd hfit hrec => exact { h with out := receive_le h.out hfit hrec }
  | loadOut m hd hm =>
    rcases writeDataToOutBuffer_cases hm with ⟨rfl, -⟩ |
      ⟨p, rest, conn', -, -, -, rfl, -, -, -, -, hptr⟩
    · exact h
    · exact { h with out := by rw [hptr]; exact h.out }
  | sendOut r out conn' hd hr hw =>
    exact { h with out := by rw [(writeData_frame hw).2.2]; exact h.out }
  | loadIn i conn conn' q hfree hi hl =>
    have hle := h.conns conn (List.mem_of_getElem? hi)
    exact { h with conns := forall_mem_set h.conns (by rwa [loadConnection_rBufferPtr hl]) }
  | sendIn i r conn out conn' hfree hi hr hw =>
    have hle := h.conns conn (List.mem_of_getElem? hi)
    exact { h with conns := forall_mem_set h.conns (by rwa [(writeData_frame hw).2.2]) }
  | unlink t s hd => exact { h with conns := fun c hc => h.conns c (List.mem_of_mem_filter hc) }
  | takeIn r m hp hm =>
    obtain ⟨rest, -, rfl⟩ := takeRInMessage_cases hm
    exact ⟨h.out, h.conns⟩
  | mapRequest r q m hp hm =>
    obtain ⟨-, -, rfl⟩ := mapRequest_cases hm
    exact ⟨h.out, h.conns⟩
  | forward r q m hp hm =>
    rcases forwardRequest_cases hm with rfl | ⟨p, rfl⟩
    · exact ⟨h.out, h.conns⟩
    · exact ⟨h.out, h.conns⟩
  | takeOut p m hp hm =>
    obtain ⟨rest, -, rfl⟩ := takeROutMessage_cases hm
    exact ⟨h.out, h.conns⟩
  | deliver p m hp hm =>
    obtain ⟨d, rs, -, -, -, rfl⟩ := deliverResponse_cases hm
    exact ⟨h.out, h.conns⟩
  | cleanup closed m hstop hclosed hm =>
    rw [cleanup_ok hc.nodup] at hm
    cases hm
    exact ⟨Nat.zero_le _, by simp⟩
  | _ => exact ⟨h.out, h.conns⟩

/-- What a session is known to keep. -/
structure Sound (w : State) : Prop where
  clients : Clients w
  positive : Positive w
  framed : Framed w
  buffered : Buffered w

theorem sound_start : Sound State.start :=
  ⟨clients_start, positive_start, framed_start, buffered_start⟩

theorem Sound.step (h : Sound w) (hs : Step w a w') : Sound w' :=
  ⟨h.clients.step hs, h.positive.step h.clients hs, h.framed.step h.clients hs,
    h.buffered.step h.clients hs⟩

end Session

end Muxer
