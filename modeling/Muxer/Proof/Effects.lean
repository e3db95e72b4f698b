import Muxer.Proof.Relay
import Muxer.System.World

/-!
# What the functions change

What is known of the parts of the muxer that a function of `Muxer.Spec` returns, given that it
returns: which fields it leaves alone, and what it does to the others.

* `receive_frame`, `writeData_frame`: each half of a connection is left alone by the other.
* `loadConnection_cases`, `writeDataToOutBuffer_cases`: at most one message is taken and copied.
* `mapRequest_cases`, `forwardRequest_cases`, `deliverResponse_cases`: the processing thread's.
-/

namespace Muxer

open Lib

variable {conn conn' : Connection} {m m' : Mux ℕ}

theorem writePdu_eq_ok {p : Pdu} {b b' : Buffer bufferKsize} {ptr : ℕ}
    (h : writePduToSendBuffer p b = .ok (b', ptr)) :
    p.Sendable ∧ ptr = p.frame.length ∧ ptr ≤ bufferKsize ∧ b'.bytes.take ptr = p.frame := by
  have hsend : p.Sendable := by
    unfold writePduToSendBuffer at h
    obtain ⟨_, hfits, h⟩ := bind_eq_ok.1 h
    obtain ⟨_, hmin, _⟩ := bind_eq_ok.1 h
    rw [cAssert_eq_ok] at hfits hmin
    exact ⟨hmin, by simp only [pduHeaderLength, bufferKsize] at *; omega⟩
  obtain ⟨b'', hb, htake⟩ := writePdu_ok hsend.1 hsend.2 b
  rw [h] at hb
  cases hb
  exact ⟨hsend, rfl, hsend.frame_le, htake⟩

/-- Reading leaves the other half of a connection alone. -/
theorem readData_frame {r : RecvResult} {ok : Bool} (h : readData conn r = .ok (ok, conn')) :
    conn'.socket = conn.socket ∧ conn'.wBuffer = conn.wBuffer ∧
      conn'.wBufferPtr = conn.wBufferPtr := by
  unfold readData at h
  obtain ⟨-, -, h⟩ := bind_eq_ok.1 h
  match r with
  | .socketError err =>
    cases h
    exact ⟨rfl, rfl, rfl⟩
  | .bytes [] =>
    cases h
    exact ⟨rfl, rfl, rfl⟩
  | .bytes (b :: bs) =>
    obtain ⟨rBuffer, -, h⟩ := bind_eq_ok.1 h
    obtain ⟨-, -, h⟩ := bind_eq_ok.1 h
    cases h
    exact ⟨rfl, rfl, rfl⟩

theorem receive_frame {r : RecvResult} {ok : Bool} {pdus : List Pdu}
    (h : receive conn r = .ok (ok, pdus, conn')) :
    conn'.socket = conn.socket ∧ conn'.wBuffer = conn.wBuffer ∧
      conn'.wBufferPtr = conn.wBufferPtr := by
  unfold receive at h
  obtain ⟨⟨good, conn₁⟩, hread, h⟩ := bind_eq_ok.1 h
  have h₁ := readData_frame hread
  cases good with
  | false =>
    cases h
    exact h₁
  | true =>
    obtain ⟨⟨ps, b, ptr⟩, -, h⟩ := bind_eq_ok.1 h
    cases h
    exact h₁

/-- Sending leaves the other half of a connection alone. -/
theorem writeData_frame {r : SendResult} {ok : Bool} {out : Bytes}
    (h : writeData conn r = .ok (ok, out, conn')) :
    conn'.socket = conn.socket ∧ conn'.rBuffer = conn.rBuffer ∧
      conn'.rBufferPtr = conn.rBufferPtr := by
  unfold writeData at h
  obtain ⟨-, -, h⟩ := bind_eq_ok.1 h
  split at h
  · match r with
    | .socketError err =>
      cases h
      exact ⟨rfl, rfl, rfl⟩
    | .sent bytes =>
      obtain ⟨o, -, h⟩ := bind_eq_ok.1 h
      split at h
      · cases h
        exact ⟨rfl, rfl, rfl⟩
      · obtain ⟨-, -, h⟩ := bind_eq_ok.1 h
        obtain ⟨rest, -, h⟩ := bind_eq_ok.1 h
        obtain ⟨b, -, h⟩ := bind_eq_ok.1 h
        cases h
        exact ⟨rfl, rfl, rfl⟩
  · cases h
    exact ⟨rfl, rfl, rfl⟩

/-- Sending leaves no more in the buffer than fits it. -/
theorem writeData_le {r : SendResult} {ok : Bool} {out : Bytes}
    (h : writeData conn r = .ok (ok, out, conn')) : conn'.wBufferPtr ≤ bufferKsize := by
  unfold writeData at h
  obtain ⟨_, hk, h⟩ := bind_eq_ok.1 h
  rw [cAssert_eq_ok] at hk
  split at h
  · match r with
    | .socketError err =>
      cases h
      exact hk
    | .sent bytes =>
      obtain ⟨o, -, h⟩ := bind_eq_ok.1 h
      split at h
      · cases h
        exact Nat.zero_le _
      · obtain ⟨_, hrest, h⟩ := bind_eq_ok.1 h
        obtain ⟨rest, -, h⟩ := bind_eq_ok.1 h
        obtain ⟨b, -, h⟩ := bind_eq_ok.1 h
        cases h
        exact cAssert_eq_ok.1 hrest
  · cases h
    exact hk

/-- **Loading a connection** does nothing, or copies the frame of the first message for it into
its empty buffer. -/
theorem loadConnection_cases {q q' : List (InMessage ℕ)}
    (h : loadConnection conn q = .ok (conn', q')) :
    (conn' = conn ∧ q' = q ∧ loaded conn q = []) ∨
    ∃ r q₁ q₂, loaded conn q = [r] ∧ q = q₁ ++ r :: q₂ ∧ q' = q₁ ++ q₂ ∧
      r.socket = conn.socket ∧ conn'.socket = conn.socket ∧ conn.unsent = [] ∧
      conn'.unsent = r.pdu.frame ∧ conn'.wBufferPtr ≤ bufferKsize := by
  unfold loadConnection at h
  obtain ⟨-, -, h⟩ := bind_eq_ok.1 h
  by_cases h0 : conn.wBufferPtr = 0
  · rw [if_pos h0] at h
    cases hf : takeFirst conn.socket q with
    | none =>
      rw [hf] at h
      cases h
      exact .inl ⟨rfl, rfl, by simp [loaded, h0, hf]⟩
    | some rq =>
      obtain ⟨r, q₀⟩ := rq
      rw [hf] at h
      obtain ⟨⟨b, ptr⟩, hwrite, h⟩ := bind_eq_ok.1 h
      cases h
      obtain ⟨hs, q₁, q₂, hq, hq', -⟩ := takeFirst_some hf
      obtain ⟨-, -, hle, htake⟩ := writePdu_eq_ok hwrite
      exact .inr ⟨r, q₁, q₂, by simp [loaded, h0, hf], hq, hq', hs, rfl, unsent_empty h0, htake, hle⟩
  · rw [if_neg h0] at h
    cases h
    exact .inl ⟨rfl, rfl, by simp [loaded, h0]⟩

theorem loadConnection_socket {τ : Type} {q q' : List (InMessage τ)}
    (h : loadConnection conn q = .ok (conn', q')) : conn'.socket = conn.socket := by
  unfold loadConnection at h
  obtain ⟨-, -, h⟩ := bind_eq_ok.1 h
  split at h
  · split at h
    · cases h
      rfl
    · obtain ⟨⟨b, ptr⟩, -, h⟩ := bind_eq_ok.1 h
      cases h
      rfl
  · cases h
    rfl

/-- **Loading the server's connection** does nothing, or copies the frame of the first message
into its empty buffer. -/
theorem writeDataToOutBuffer_cases (h : writeDataToOutBuffer m = .ok m') :
    (m' = m ∧ loadedOut m = []) ∨
    ∃ p rest conn', loadedOut m = [p] ∧ m.wOutMessages = p :: rest ∧ p.pdu.Sendable ∧
      m' = { m with wOutMessages := rest, outConnection := conn' } ∧
      m.outConnection.unsent = [] ∧ conn'.unsent = p.pdu.frame ∧ conn'.wBufferPtr ≤ bufferKsize ∧
      conn'.rBuffer = m.outConnection.rBuffer ∧ conn'.rBufferPtr = m.outConnection.rBufferPtr := by
  unfold writeDataToOutBuffer at h
  obtain ⟨-, -, h⟩ := bind_eq_ok.1 h
  by_cases h0 : m.outConnection.wBufferPtr = 0
  · rw [if_pos h0] at h
    cases hq : m.wOutMessages with
    | nil =>
      rw [hq] at h
      cases h
      exact .inl ⟨rfl, by simp [loadedOut, h0, hq]⟩
    | cons p rest =>
      rw [hq] at h
      obtain ⟨⟨b, ptr⟩, hwrite, h⟩ := bind_eq_ok.1 h
      cases h
      obtain ⟨hsend, -, hle, htake⟩ := writePdu_eq_ok hwrite
      exact .inr ⟨p, rest, _, by simp [loadedOut, h0, hq], rfl, hsend, rfl, unsent_empty h0, htake,
        hle, rfl, rfl⟩
  · rw [if_neg h0] at h
    cases h
    exact .inl ⟨rfl, by simp [loadedOut, h0]⟩

section

variable {τ : Type} {m m' : Mux τ}

/-- **Mapping a request** succeeds for a socket the assertion accepts. -/
theorem mapRequest_cases {r : InMessage τ} {q : InputType} (h : mapRequest r m = .ok (q, m')) :
    0 < r.socket ∧ decodeInPdu r.pdu = .ok (0, some q) ∧ m' = { m with
      invokeidGenCounter := generateInvokeid m.invokeidGenCounter
      socketToRecvUnicastMsg := m.socketToRecvUnicastMsg ++
        [⟨r.socket, q.invokeid.toUInt64, generateInvokeid m.invokeidGenCounter, r.tag⟩] } := by
  obtain ⟨q₀, hq₀, -⟩ := decodeInPdu_total r.pdu
  have hpos : 0 < r.socket := by
    by_contra hneg
    unfold mapRequest putIntoSocketToRecvUnicastMsg at h
    simp only [hq₀, cAssert_not hneg, bind, Except.bind] at h
    cases h
  rw [mapRequest_ok hpos hq₀ m] at h
  cases h
  exact ⟨hpos, hq₀, rfl⟩

theorem forwardRequest_cases {q : InputType} {tag : τ} (h : forwardRequest q tag m = .ok m') :
    m' = m ∨ ∃ p, m' = putPduIntoWOutMessages p tag m := by
  unfold forwardRequest at h
  obtain ⟨⟨err, p⟩, -, h⟩ := bind_eq_ok.1 h
  simp only at h
  by_cases herr : err ≠ 0
  · rw [if_pos herr] at h
    cases h
    exact .inl rfl
  · rw [if_neg herr] at h
    cases h
    exact .inr ⟨p, rfl⟩

/-- The loop over the mappings asserts the sockets of those it takes out. -/
theorem scanMappings_pos {d : OutputType} {g : UInt64} {tag : τ} {table : List (Mapping τ)}
    {kept : List (Mapping τ)} {rs : List (InMessage τ)}
    (h : scanMappings d g tag table = .ok (kept, rs)) :
    ∀ s ∈ table, s.invokeidGenerated = g → 0 < s.socket := by
  induction table generalizing kept rs with
  | nil => simp
  | cons t table ih =>
    rw [scanMappings] at h
    rw [List.forall_mem_cons]
    by_cases hg : t.invokeidGenerated = g
    · rw [if_pos hg] at h
      obtain ⟨⟨err, p⟩, -, h⟩ := bind_eq_ok.1 h
      obtain ⟨r, halloc, h⟩ := bind_eq_ok.1 h
      obtain ⟨⟨kept', rs'⟩, hscan, -⟩ := bind_eq_ok.1 h
      obtain ⟨_, hpos, -⟩ := bind_eq_ok.1 halloc
      exact ⟨fun _ => cAssert_eq_ok.1 hpos, ih hscan⟩
    · rw [if_neg hg] at h
      obtain ⟨⟨kept', rs'⟩, hscan, -⟩ := bind_eq_ok.1 h
      exact ⟨fun h => absurd h hg, ih hscan⟩

/-- **Delivering a response** takes out the mappings under its id, and replies to each. -/
theorem deliverResponse_cases {p : OutMessage τ} (h : deliverResponse p m = .ok m') :
    ∃ d rs, decodeOutPdu p.pdu = .ok (0, some d) ∧ d.Valid ∧
      List.Forall₂ (Replied d p.tag)
        (m.socketToRecvUnicastMsg.filter (·.invokeidGenerated == d.invokeid.toUInt64)) rs ∧
      m' = { m with
        socketToRecvUnicastMsg :=
          m.socketToRecvUnicastMsg.filter (·.invokeidGenerated != d.invokeid.toUInt64)
        wInMessages := m.wInMessages ++ rs } := by
  obtain ⟨d, hd, hvalid⟩ := decodeOutPdu_total p.pdu
  have hpos : ∀ s ∈ m.socketToRecvUnicastMsg, s.invokeidGenerated = d.invokeid.toUInt64 →
      0 < s.socket := by
    unfold deliverResponse at h
    simp only [hd, bind, Except.bind] at h
    split at h
    · cases h
    · exact scanMappings_pos ‹_›
  obtain ⟨rs, hdeliver, hrs⟩ := deliverResponse_ok hvalid hd hpos
  rw [h] at hdeliver
  cases hdeliver
  exact ⟨d, rs, hd, hvalid, hrs, rfl⟩

theorem takeRInMessage_cases {r : InMessage τ} (h : takeRInMessage m = some (r, m')) :
    ∃ rest, m.rInMessages = r :: rest ∧ m' = { m with rInMessages := rest } := by
  unfold takeRInMessage at h
  split at h
  · cases h
  · cases h
    exact ⟨_, ‹_›, rfl⟩

theorem takeROutMessage_cases {p : OutMessage τ} (h : takeROutMessage m = some (p, m')) :
    ∃ rest, m.rOutMessages = p :: rest ∧ m' = { m with rOutMessages := rest } := by
  unfold takeROutMessage at h
  split at h
  · cases h
  · cases h
    exact ⟨_, ‹_›, rfl⟩

end

end Muxer
