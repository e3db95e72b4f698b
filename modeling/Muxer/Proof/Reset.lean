import Muxer.Proof.Runs

/-!
# What a cleanup leaves behind

`remove_all_mappings` goes from connection to connection, so a mapping whose client is not connected
outlives the cleanup. There is none as long as requests are mapped only while their clients are
connected; but a request that waits in `r_in_messages` is mapped whether or not its client still is.

* `cleanup_resets`: when `cleanup` resets the session.
* `cleanup_fails`: a client is dropped, and then its request is mapped.
-/

namespace Muxer

open Lib

/-- No messages, connections, mappings or bytes. -/
structure Mux.Reset (m : Mux ℕ) : Prop where
  rInMessages : m.rInMessages = []
  wInMessages : m.wInMessages = []
  rOutMessages : m.rOutMessages = []
  wOutMessages : m.wOutMessages = []
  connections : m.connections = []
  socketToRecvUnicastMsg : m.socketToRecvUnicastMsg = []
  rBufferPtr : m.outConnection.rBufferPtr = 0
  wBufferPtr : m.outConnection.wBufferPtr = 0

namespace Session

variable {w w' : State} {a : Action}

/-- `cleanup` resets the session. -/
def State.Resets (w : State) : Prop := ∃ m, Muxer.cleanup w.mux = .ok m ∧ m.Reset

/-- Every mapping is for a client that is connected. -/
def State.Mapped (w : State) : Prop := ∀ s ∈ w.mux.socketToRecvUnicastMsg, s.socket ∈ w.sockets

/-- A request is mapped while its client is connected, and before the mappings of a client being
dropped have been removed. -/
def MapsConnected (w : State) (a : Action) : Prop :=
  a = .mapRequest → ∀ r, w.processing = .taken r →
    r.socket ∈ w.sockets ∧ ∀ t, w.dropping ≠ some ⟨t, r.socket, true⟩

theorem resets_iff (hc : Clients w) : w.Resets ↔ w.Mapped := by
  have hcleanup := cleanup_ok hc.nodup
  constructor
  · rintro ⟨m, hm, hreset⟩ s hs
    rw [hcleanup] at hm
    cases hm
    have hnone := List.filter_eq_nil_iff.1 hreset.socketToRecvUnicastMsg s hs
    simpa [State.sockets] using hnone
  · intro hall
    have hnone : w.mux.socketToRecvUnicastMsg.filter
        (·.socket ∉ w.mux.connections.map Connection.socket) = [] := by
      rw [List.filter_eq_nil_iff]
      intro s hs
      simpa [State.sockets] using hall s hs
    exact ⟨_, hcleanup, rfl, rfl, rfl, rfl, rfl, hnone, rfl, rfl⟩

/-- The mappings are for clients that are connected, and not for one about to be unlinked. -/
structure Live (w : State) : Prop where
  mapped : w.Mapped
  unmapped : ∀ t s, w.dropping = some ⟨t, s, true⟩ →
    ∀ e ∈ w.mux.socketToRecvUnicastMsg, e.socket ≠ s

theorem live_start : Live State.start where
  mapped := by simp [State.Mapped, State.start, Mux.start]
  unmapped := by simp [State.start]

/-- **Every step keeps the mappings with their clients**, if those it makes are. -/
theorem Live.step (hc : Clients w) (h : Live w) (hmaps : MapsConnected w a) (hs : Step w a w') :
    Live w' := by
  cases hs with
  | accept s hr hd hpos hs => exact { h with }
  | insert s hr hd =>
    exact { h with
      mapped := by
        intro e he
        rw [State.sockets, List.map_append]
        exact List.mem_append_left _ (h.mapped e he) }
  | recvIn i r conn pdus conn' hr hfree hi hfit hrec =>
    exact { h with
      mapped := by
        intro e he
        rw [State.sockets, sockets_set hi (receive_frame hrec).1]
        exact h.mapped e he }
  | putIn s p ps tag hr => exact { h with }
  | readInDone s hr => exact { h with }
  | recvOut r pdus conn' hr hd hfit hrec => exact { h with }
  | putOut p ps tag hr => exact { h with }
  | readOutDone hr => exact { h with }
  | loadOut m hd hm =>
    rcases writeDataToOutBuffer_cases hm with ⟨rfl, -⟩ | ⟨p, rest, conn', -, -, -, rfl, -⟩
    · exact h
    · exact { h with }
  | sendOut r out conn' hd hr hw => exact { h with }
  | loadIn i conn conn' q hfree hi hl =>
    exact { h with
      mapped := by
        intro e he
        rw [State.sockets, sockets_set hi (loadConnection_socket hl)]
        exact h.mapped e he }
  | sendIn i r conn out conn' hfree hi hr hw =>
    exact { h with
      mapped := by
        intro e he
        rw [State.sockets, sockets_set hi (writeData_frame hw).1]
        exact h.mapped e he }
  | sweep q r q' hfree hq hr => exact { h with }
  | drop t i closed conn hr hfree hi => exact { h with unmapped := fun t s hd => by cases hd }
  | unmap t s hd =>
    exact {
      mapped := fun e he => h.mapped e (List.mem_of_mem_filter he)
      unmapped := by
        intro t' s' hd' e he
        cases hd'
        simpa using List.of_mem_filter he }
  | unlink t s hd =>
    exact {
      mapped := by
        intro e he
        obtain ⟨c, hc, hsock⟩ := List.mem_map.1 (h.mapped e he)
        -- a mapping that is left is for another client than the one unlinked
        have hne := h.unmapped t s hd e he
        exact List.mem_map.2 ⟨c, List.mem_filter.2 ⟨hc, by simpa [hsock] using hne⟩, hsock⟩
      unmapped := fun t s hd => by cases hd }
  | connect s hp => exact { h with }
  | takeIn r m hp hm =>
    obtain ⟨rest, hrest, rfl⟩ := takeRInMessage_cases hm
    exact { h with }
  | mapRequest r q m hp hm =>
    obtain ⟨-, -, rfl⟩ := mapRequest_cases hm
    -- here the condition on the step is used
    obtain ⟨hmem, hdrop⟩ := hmaps rfl r hp
    exact {
      mapped := by
        refine List.forall_mem_append.2 ⟨h.mapped, ?_⟩
        exact List.forall_mem_singleton.2 hmem
      unmapped := by
        intro t s hd
        refine List.forall_mem_append.2 ⟨h.unmapped t s hd, ?_⟩
        refine List.forall_mem_singleton.2 ?_
        rintro rfl
        exact hdrop t hd }
  | forward r q m hp hm =>
    rcases forwardRequest_cases hm with rfl | ⟨p, rfl⟩
    · exact { h with }
    · exact { h with }
  | takeOut p m hp hm =>
    obtain ⟨rest, -, rfl⟩ := takeROutMessage_cases hm
    exact { h with }
  | deliver p m hp hm =>
    obtain ⟨d, rs, -, -, -, rfl⟩ := deliverResponse_cases hm
    exact {
      mapped := fun e he => h.mapped e (List.mem_of_mem_filter he)
      unmapped := fun t s hd e he => h.unmapped t s hd e (List.mem_of_mem_filter he) }
  | cleanup closed m hstop hclosed hm =>
    -- `cleanup` removes the mappings of the clients there are, which are all
    obtain ⟨m', hm', hreset⟩ := (resets_iff hc).2 h.mapped
    rw [hm] at hm'
    cases hm'
    exact {
      mapped := by simp [State.Mapped, hreset.socketToRecvUnicastMsg]
      unmapped := by simp [hreset.socketToRecvUnicastMsg] }

/-- **When a cleanup resets the session.** Between passes of all threads, `cleanup` empties the
queues, the connections and the mappings if and only if every mapping is for a client that is
connected; and so it does throughout a run in which every request is mapped while its client is
connected. -/
theorem cleanup_resets {tr : List (Action × State)} (h : Exec Step State.start tr) :
    (∀ w ∈ states State.start tr, w.Stopped → (w.Resets ↔ w.Mapped)) ∧
      (Steps MapsConnected State.start tr →
        ∀ w ∈ states State.start tr, w.Stopped → w.Resets) := by
  have hclients := h.inv (I := Clients) (fun w a w' hc => hc.step) clients_start
  refine ⟨fun w hw _ => resets_iff (hclients w hw), ?_⟩
  intro hmaps w hw _
  have hlive := h.inv_of_steps (I := fun w => Clients w ∧ Live w) (P := MapsConnected)
    (fun w a w' ⟨hc, hl⟩ hm hs => ⟨hc.step hs, hl.step hc hm hs⟩) ⟨clients_start, live_start⟩ hmaps
  exact (resets_iff (hclients w hw)).2 (hlive w hw).2.mapped

/-- A client's request is processed while it is connected. -/
theorem exists_mapped : ∃ tr, Exec Step State.start tr ∧ Steps MapsConnected State.start tr ∧
    (final State.start tr).mux.socketToRecvUnicastMsg.length = 1 ∧
      (final State.start tr).Stopped := by
  have h₁ := leads_connect (w := World.start) (s := 1) rfl rfl Nat.one_pos List.not_mem_nil
  obtain ⟨w₁, h₁, hw₁⟩ := h₁.exists_eq
  obtain ⟨c, hsock, -, -, h₂⟩ := leads_read (w := w₁) (i := 0) (c := allocConnection 1)
    (by simp only [hw₁]) (by rw [hw₁]; rfl) (by rw [hw₁]; rfl) rfl payloadOK_zeros
  obtain ⟨w₂, h₂, hw₂⟩ := h₂.exists_eq
  obtain ⟨tr, hex, hfinal, hlabels⟩ := leads_session (h₁.trans h₂)
  have hfinal : final State.start tr = w₂.session := hfinal
  have hsteps : Steps MapsConnected State.start tr := by
    refine steps_of_labels fun a ha t hmap => ?_
    exact absurd (hmap ▸ ha) (hlabels (by simp))
  -- the request is taken, mapped and forwarded
  set r : InMessage ℕ := ⟨1, ⟨[0, 0], by decide⟩, 0⟩
  have hr : w₂.mux.rInMessages = [r] := by rw [hw₂, hw₁]; rfl
  obtain ⟨q, hq, hvalid⟩ := decodeInPdu_total r.pdu
  have htake : takeRInMessage w₂.mux = some (r, { w₂.mux with rInMessages := [] }) := by
    unfold takeRInMessage
    rw [hr]
  have hmap := mapRequest_ok (r := r) Nat.one_pos hq { w₂.mux with rInMessages := [] }
  obtain ⟨p, hforward, -⟩ := forwardRequest_ok hvalid r.tag { w₂.mux with
    rInMessages := []
    invokeidGenCounter := generateInvokeid w₂.mux.invokeidGenCounter
    socketToRecvUnicastMsg := w₂.mux.socketToRecvUnicastMsg ++
      [⟨r.socket, q.invokeid.toUInt64, generateInvokeid w₂.mux.invokeidGenCounter, r.tag⟩] }
  have hidle : w₂.session.processing = .idle := by rw [hw₂, hw₁]; rfl
  obtain ⟨tr', hex', hsteps', htable, hstop⟩ : ∃ tr', Exec Step w₂.session tr' ∧
      Steps MapsConnected w₂.session tr' ∧
      (final w₂.session tr').mux.socketToRecvUnicastMsg.length = 1 ∧
      (final w₂.session tr').Stopped := by
    refine ⟨_, .cons (.takeIn _ r _ hidle htake) (.cons (.mapRequest _ r q _ rfl hmap)
      (.cons (.forward _ r q _ rfl hforward) (.nil _))), ⟨?_, ?_, ?_, trivial⟩, ?_, ?_⟩
    · intro hmap
      cases hmap
    · rintro - t ht
      cases ht
      have hclient : w₂.session.sockets = [1] := by
        rw [hw₂, hw₁]
        simp [State.sockets, World.session, World.start, Mux.start, hsock, allocConnection]
      refine ⟨?_, ?_⟩
      · change 1 ∈ w₂.session.sockets
        rw [hclient]
        exact List.mem_cons_self
      · intro t ht
        rw [hw₂, hw₁] at ht
        cases ht
    · intro hmap
      cases hmap
    · change (w₂.mux.socketToRecvUnicastMsg ++ _).length = 1
      rw [hw₂, hw₁]
      rfl
    · rw [hw₂, hw₁]
      exact ⟨rfl, rfl, rfl⟩
  rw [← hfinal] at hex' hsteps' htable hstop
  rw [← final_append] at htable hstop
  exact ⟨_, hex.append hex', hsteps.append hsteps', htable, hstop⟩

/-- The mapping of a connected client goes with it. -/
theorem cleanup_resets_mapped : ∃ tr, Exec Step State.start tr ∧
    (final State.start tr).mux.socketToRecvUnicastMsg.length = 1 ∧
      (final State.start tr).Stopped ∧ (final State.start tr).Resets := by
  obtain ⟨tr, hex, hmaps, hlen, hstop⟩ := exists_mapped
  exact ⟨tr, hex, hlen, hstop, (cleanup_resets hex).2 hmaps _ (final_mem_states _ _) hstop⟩

/-- A client sends a request and is dropped before the request is mapped: the mapping outlives the
cleanup. -/
theorem cleanup_fails : ∃ tr, Exec Step State.start tr ∧
    (final State.start tr).Stopped ∧ ¬(final State.start tr).Resets := by
  obtain ⟨as, w₁, c, -, h₁, honly, -⟩ := leads_only payloadOK_zeros
  have h₂ := leads_drop (i := 0) (c := c) .reader honly.reader honly.dropping
    (by rw [honly.client]; rfl)
  obtain ⟨w₂, h₂, hw₂⟩ := h₂.exists_eq
  obtain ⟨q, p, -, -, -, h₃⟩ := leads_pass (w := w₂) (by rw [hw₂]; exact honly.processing)
    (by rw [hw₂]; exact honly.turn) (by rw [hw₂]; exact honly.rOutMessages)
    (by rw [hw₂]; exact honly.rInMessages) honly.pos
  obtain ⟨w₃, h₃, hw₃⟩ := h₃.exists_eq
  obtain ⟨tr, hex, hfinal, -⟩ := leads_session (h₁.trans (h₂.trans h₃))
  have hfinal : final State.start tr = w₃.session := hfinal
  refine ⟨tr, hex, ?_, ?_⟩
  · rw [hfinal, hw₃, hw₂]
    exact ⟨honly.reader, rfl, rfl⟩
  · intro hreset
    have hc : Clients (final State.start tr) :=
      hex.inv (I := Clients) (fun w a w' hc => hc.step) clients_start _ (final_mem_states _ _)
    -- the mapping is for handle 1, and no client is left
    have hmapped := (resets_iff hc).1 hreset
    rw [hfinal, hw₃, hw₂] at hmapped
    have hmem := hmapped _ (List.mem_append_right _ List.mem_cons_self)
    simp [State.sockets, World.session, unlinkConnection, removeAllMappingsFor,
      honly.client] at hmem

end Session

end Muxer
