import Muxer.Lib.Exec
import Muxer.Proof.Effects
import Muxer.System.Session

/-!
# Sessions

What `cleanup` leaves of a session, and who its clients are.

* `cleanup_ok`: it leaves the mappings whose client is not connected, and nothing else.
* `Session.Clients.step`: clients have distinct sockets, and a socket inserted is a new one.
* `Step.session`: **a step of a world is a step of its session**, or moves nothing there.
-/

namespace Muxer

open Lib

/-! ## What `cleanup` leaves -/

section

variable {τ : Type} {m : Mux τ}

/-- There is one connection with its socket. -/
theorem filter_socket_eq {connections : List Connection} {r : Connection} (hr : r ∈ connections)
    (hnd : (connections.map Connection.socket).Nodup) :
    connections.filter (·.socket == r.socket) = [r] := by
  induction connections with
  | nil => cases hr
  | cons c connections ih =>
    rw [List.map_cons, List.nodup_cons] at hnd
    rcases List.mem_cons.1 hr with rfl | hr
    · have hne : ∀ c ∈ connections, c.socket ≠ r.socket := by
        intro c hc heq
        exact hnd.1 (heq ▸ List.mem_map_of_mem hc)
      rw [List.filter_cons_of_pos (by simp), List.filter_eq_nil_iff.2 (by simpa using hne)]
    · have hne : c.socket ≠ r.socket := by
        intro heq
        exact hnd.1 (heq ▸ List.mem_map_of_mem hr)
      rw [List.filter_cons_of_neg (by simpa using hne), ih hr hnd.2]

/-- **The one connection with a socket is removed, with its mappings.** -/
theorem removeConnection_ok {r : Connection} (hr : r ∈ m.connections)
    (hnd : (m.connections.map Connection.socket).Nodup) :
    removeConnection r.socket m =
      .ok (unlinkConnection r.socket (removeAllMappingsFor r.socket m)) := by
  unfold removeConnection
  simp only [filter_socket_eq hr hnd, cAssert_ok (show [r].length ≤ 1 by simp)]
  rfl

/-- Mappings removed for one socket, and then for others. -/
theorem filter_unmapped (s : Socket) (sockets : List Socket) (table : List (Mapping τ)) :
    (table.filter (·.socket != s)).filter (·.socket ∉ sockets) =
      table.filter (·.socket ∉ s :: sockets) := by
  rw [List.filter_filter]
  congr 1
  funext t
  simp [List.mem_cons, not_or, Bool.and_comm, bne, beq_eq_decide]

theorem removeConnections_ok {connections : List Connection} (hm : m.connections = connections)
    (hnd : (connections.map Connection.socket).Nodup) :
    removeConnections connections m = .ok { m with
      connections := []
      socketToRecvUnicastMsg := m.socketToRecvUnicastMsg.filter
        (·.socket ∉ connections.map Connection.socket) } := by
  induction connections generalizing m with
  | nil =>
    cases m
    cases hm
    simp [removeConnections]
  | cons r connections ih =>
    have hr : r ∈ m.connections := by rw [hm]; exact List.mem_cons_self
    have hne : ∀ c ∈ connections, c.socket ≠ r.socket := by
      intro c hc heq
      exact (List.nodup_cons.1 hnd).1 (heq ▸ List.mem_map_of_mem hc)
    have hkept : (unlinkConnection r.socket (removeAllMappingsFor r.socket m)).connections =
        connections := by
      change m.connections.filter (·.socket != r.socket) = connections
      rw [hm, List.filter_cons_of_neg (by simp), List.filter_eq_self.2 (by simpa using hne)]
    rw [removeConnections, removeConnection_ok hr (by rw [hm]; exact hnd)]
    simp only [bind, Except.bind]
    rw [ih hkept (List.nodup_cons.1 hnd).2, List.map_cons, ← filter_unmapped]
    rfl

theorem foldl_removeAllMappingsFor (connections : List Connection) (m : Mux τ) :
    connections.foldl (fun m r => removeAllMappingsFor r.socket m) m = { m with
      socketToRecvUnicastMsg := m.socketToRecvUnicastMsg.filter
        (·.socket ∉ connections.map Connection.socket) } := by
  induction connections generalizing m with
  | nil => simp
  | cons r connections ih =>
    rw [List.foldl_cons, ih, List.map_cons, ← filter_unmapped]
    rfl

/-- **`cleanup` empties the queues and the connections**, and keeps the mappings of clients that
are not connected. -/
theorem cleanup_ok (hnd : (m.connections.map Connection.socket).Nodup) : cleanup m = .ok { m with
    rInMessages := []
    wInMessages := []
    rOutMessages := []
    wOutMessages := []
    connections := []
    socketToRecvUnicastMsg := m.socketToRecvUnicastMsg.filter
      (·.socket ∉ m.connections.map Connection.socket)
    outConnection := { m.outConnection with rBufferPtr := 0, wBufferPtr := 0 } } := by
  unfold cleanup removeAllConnections removeAllMappings
  simp only [foldl_removeAllMappingsFor, removeAllMessages]
  rw [removeConnections_ok (by rfl) hnd]
  simp [List.filter_filter]

end

/-! ## Clients -/

/-- `shutdown_connection` closes no other handle. -/
theorem mem_closed {opened : List Socket} {r s : Socket} (closed : Bool) (hr : r ∈ opened)
    (hne : r ≠ s) : r ∈ if closed then opened.filter (· != s) else opened := by
  cases closed with
  | false => exact hr
  | true => exact List.mem_filter.2 ⟨hr, by simpa using hne⟩

/-- Clients have distinct sockets. What keeps them so is that a handle is closed only by a thread
that holds `csec_connections` until it has unlinked the client. -/
structure ClientsOK (sockets opened : List Socket) (reader : ReaderPc) (dropping : Option Drop) :
    Prop where
  nodup : sockets.Nodup
  handles : ∀ s ∈ sockets, s ∈ opened ∨ ∃ d, dropping = some d ∧ d.socket = s
  accepted : ∀ s, reader = .accepted s →
    s ∈ opened ∧ (s ∈ sockets → ∃ d, dropping = some d ∧ d.socket = s)
  puttingIn : ∀ s ps, reader = .puttingIn s ps → s ∈ sockets ∧ dropping = none

section

variable {sockets opened : List Socket} {reader : ReaderPc} {dropping : Option Drop} {s : Socket}

/-- The reader goes where neither an accepted handle nor a client's PDUs bind it. -/
theorem ClientsOK.leave (h : ClientsOK sockets opened reader dropping) {r : ReaderPc}
    (ha : ∀ s, r ≠ .accepted s) (hp : ∀ s ps, r ≠ .puttingIn s ps) :
    ClientsOK sockets opened r dropping :=
  { h with
    accepted := fun s hs => absurd hs (ha s)
    puttingIn := fun s ps hs => absurd hs (hp s ps) }

theorem ClientsOK.accept (h : ClientsOK sockets opened reader dropping) (hs : s ∉ opened) :
    ClientsOK sockets (s :: opened) (.accepted s) dropping where
  nodup := h.nodup
  handles t ht := (h.handles t ht).imp_left (List.mem_cons_of_mem s)
  accepted t ht := by
    cases ht
    exact ⟨List.mem_cons_self, fun hmem => (h.handles s hmem).resolve_left hs⟩
  puttingIn t ps ht := by cases ht

/-- A socket is inserted once its previous client is gone. -/
theorem ClientsOK.fresh (h : ClientsOK sockets opened (.accepted s) none) : s ∉ sockets := by
  intro hmem
  obtain ⟨d, hdrop, -⟩ := (h.accepted s rfl).2 hmem
  cases hdrop

theorem ClientsOK.insert (h : ClientsOK sockets opened (.accepted s) none) :
    ClientsOK (sockets ++ [s]) opened .idle none where
  nodup := by
    rw [List.nodup_append_comm]
    exact List.nodup_cons.2 ⟨h.fresh, h.nodup⟩
  handles t ht := by
    rcases List.mem_append.1 ht with ht | ht
    · exact h.handles t ht
    · rw [List.mem_singleton.1 ht]
      exact .inl (h.accepted s rfl).1
  accepted t ht := by cases ht
  puttingIn t ps ht := by cases ht

theorem ClientsOK.drop (h : ClientsOK sockets opened reader none)
    (hp : ∀ s ps, reader ≠ .puttingIn s ps) (hs : s ∈ sockets) (t : Thread) (closed : Bool) :
    ClientsOK sockets (if closed then opened.filter (· != s) else opened) reader
      (some ⟨t, s, false⟩) := by
  refine ⟨h.nodup, ?_, ?_, fun r ps hr => absurd hr (hp r ps)⟩
  · intro r hr
    by_cases heq : r = s
    · exact .inr ⟨_, rfl, heq.symm⟩
    · rcases h.handles r hr with ho | ⟨d, hd, -⟩
      · exact .inl (mem_closed closed ho heq)
      · cases hd
  · rintro r rfl
    have hfresh := h.fresh
    exact ⟨mem_closed closed (h.accepted r rfl).1 fun heq => hfresh (heq ▸ hs),
      fun hmem => absurd hmem hfresh⟩

theorem ClientsOK.unmap {t : Thread} (h : ClientsOK sockets opened reader (some ⟨t, s, false⟩)) :
    ClientsOK sockets opened reader (some ⟨t, s, true⟩) where
  nodup := h.nodup
  handles r hr := by
    rcases h.handles r hr with ho | ⟨d, hd, hds⟩
    · exact .inl ho
    · cases hd
      exact .inr ⟨_, rfl, hds⟩
  accepted r hr := by
    refine ⟨(h.accepted r hr).1, ?_⟩
    intro hmem
    obtain ⟨d, hd, hds⟩ := (h.accepted r hr).2 hmem
    cases hd
    exact ⟨_, rfl, hds⟩
  puttingIn r ps hr := by
    have := (h.puttingIn r ps hr).2
    cases this

theorem ClientsOK.unlink {t : Thread} {u : Bool}
    (h : ClientsOK sockets opened reader (some ⟨t, s, u⟩)) :
    ClientsOK (sockets.filter (· != s)) opened reader none where
  nodup := h.nodup.filter _
  handles r hr := by
    obtain ⟨hr, hne⟩ := List.mem_filter.1 hr
    rcases h.handles r hr with ho | ⟨d, hd, hds⟩
    · exact .inl ho
    · cases hd
      simp [← hds] at hne
  accepted r hr := by
    refine ⟨(h.accepted r hr).1, ?_⟩
    intro hmem
    obtain ⟨hmem, hne⟩ := List.mem_filter.1 hmem
    obtain ⟨d, hd, hds⟩ := (h.accepted r hr).2 hmem
    cases hd
    simp [← hds] at hne
  puttingIn r ps hr := by
    have := (h.puttingIn r ps hr).2
    cases this

end

namespace Session

variable {w w' : State} {a : Action} {conn conn' : Connection}

def Clients (w : State) : Prop := ClientsOK w.sockets w.opened w.reader w.dropping

theorem clients_start : Clients State.start where
  nodup := List.nodup_nil
  handles := by simp [State.sockets, State.start, Mux.start]
  accepted := by simp [State.start]
  puttingIn := by simp [State.start]

theorem sockets_set {i : ℕ} (hi : w.mux.connections[i]? = some conn)
    (hs : conn'.socket = conn.socket) :
    (w.mux.connections.set i conn').map Connection.socket = w.sockets :=
  map_socket_set conn' hi hs

theorem mem_sockets {i : ℕ} (hi : w.mux.connections[i]? = some conn) : conn.socket ∈ w.sockets :=
  List.mem_map_of_mem (List.mem_of_getElem? hi)

/-- **Every step keeps the sockets of clients distinct.** -/
theorem Clients.step (h : Clients w) (hs : Step w a w') : Clients w' := by
  unfold Clients at *
  cases hs with
  | accept s hr hd hpos hs => exact ClientsOK.accept h hs
  | insert s hr hd =>
    rw [hr, hd] at h
    have := h.insert
    simpa [State.sockets, allocConnection, hd] using this
  | recvIn i r conn pdus conn' hr hfree hi hfit hrec =>
    have hset := sockets_set hi (receive_frame hrec).1
    exact
      { nodup := by rw [State.sockets, hset]; exact h.nodup
        handles := by rw [State.sockets, hset]; exact h.handles
        accepted := fun s hs => by cases hs
        puttingIn := by
          intro s ps hs
          cases hs
          exact ⟨by rw [State.sockets, hset]; exact mem_sockets hi, hfree.1⟩ }
  | putIn s p ps tag hr =>
    exact { h.leave (r := .idle) (by simp) (by simp) with
      accepted := fun t ht => by cases ht
      puttingIn := by
        intro t ps' ht
        cases ht
        exact h.puttingIn s _ hr }
  | readInDone s hr => exact h.leave (by simp) (by simp)
  | recvOut r pdus conn' hr hd hfit hrec => exact h.leave (by simp) (by simp)
  | putOut p ps tag hr => exact h.leave (by simp) (by simp)
  | readOutDone hr => exact h.leave (by simp) (by simp)
  -- the writer changes no socket
  | loadOut m hd hm =>
    rcases writeDataToOutBuffer_cases hm with ⟨rfl, -⟩ | ⟨p, rest, conn', -, -, -, rfl, -⟩
    · exact h
    · exact h
  | sendOut r out conn' hd hr hw => exact h
  | loadIn i conn conn' q hfree hi hl =>
    rw [State.sockets, sockets_set hi (loadConnection_socket hl)]
    exact h
  | sendIn i r conn out conn' hfree hi hr hw =>
    rw [State.sockets, sockets_set hi (writeData_frame hw).1]
    exact h
  | sweep q r q' hfree hq hr => exact h
  | drop t i closed conn hr hfree hi =>
    rw [hfree.1] at h
    exact h.drop hfree.2 (mem_sockets hi) t closed
  | unmap t s hd =>
    rw [hd] at h
    exact h.unmap
  | unlink t s hd =>
    rw [hd] at h
    have := h.unlink
    simpa [State.sockets, unlinkConnection, List.filter_map, Function.comp_def] using this
  | connect s hp => exact h
  -- the processing thread does not touch the clients
  | takeIn r m hp hm =>
    obtain ⟨rest, -, rfl⟩ := takeRInMessage_cases hm
    exact h
  | mapRequest r q m hp hm =>
    obtain ⟨-, -, rfl⟩ := mapRequest_cases hm
    exact h
  | forward r q m hp hm =>
    rcases forwardRequest_cases hm with rfl | ⟨p, rfl⟩
    · exact h
    · exact h
  | takeOut p m hp hm =>
    obtain ⟨rest, -, rfl⟩ := takeROutMessage_cases hm
    exact h
  | deliver p m hp hm =>
    obtain ⟨d, rs, -, -, -, rfl⟩ := deliverResponse_cases hm
    exact h
  | cleanup closed m hstop hclosed hm =>
    -- no client is left, and the reader has none in hand
    obtain ⟨hr, hd, -⟩ := hstop
    rw [cleanup_ok h.nodup] at hm
    cases hm
    exact
      { nodup := List.nodup_nil
        handles := fun s hs => by cases hs
        accepted := fun s hs => by rw [hr] at hs; cases hs
        puttingIn := fun s ps hs => by rw [hr] at hs; cases hs }

end Session

/-! ## Worlds -/

/-- What a world has beside the network, the server and what has happened. -/
def World.session (w : World) : Session.State where
  mux := w.mux
  opened := w.opened
  reader := w.reader
  dropping := w.dropping
  processing := w.processing

/-- **A step of a world is a step of its session**, unless it is the server's. -/
theorem Step.session {w w' : World} {a : Action} (hs : Step w a w') :
    w'.session = w.session ∨
      ∃ b, Session.Step w.session b w'.session ∧ (b = .mapRequest → a = .mapRequest) := by
  cases hs with
  | accept s hr hd hpos hs => exact .inr ⟨_, .accept w.session s hr hd hpos hs, nofun⟩
  | insert s hr hd => exact .inr ⟨_, .insert w.session s hr hd, nofun⟩
  | recvIn i r conn pdus conn' hr hfree hi hfit hrec =>
    exact .inr ⟨_, .recvIn w.session i r conn pdus conn' hr hfree hi hfit hrec, nofun⟩
  | putIn s p ps hr => exact .inr ⟨_, .putIn w.session s p ps w.requests.length hr, nofun⟩
  | readInDone s hr => exact .inr ⟨_, .readInDone w.session s hr, nofun⟩
  | recvOut k pdus conn' hr hd hk hwire hfit hrec =>
    have hfit : (RecvResult.bytes (w.wire.take k)).data.length ≤
        bufferKsize - w.mux.outConnection.rBufferPtr :=
      Nat.le_trans (List.length_take_le k w.wire) hfit
    exact .inr ⟨_, .recvOut w.session _ pdus conn' hr hd hfit hrec, nofun⟩
  | putOut p ps a as hr hp => exact .inr ⟨_, .putOut w.session p ps a.tag hr, nofun⟩
  | readOutDone hr => exact .inr ⟨_, .readOutDone w.session hr, nofun⟩
  | loadOut m hd hm => exact .inr ⟨_, .loadOut w.session m hd hm, nofun⟩
  | sendOut r out conn' hd hr hw => exact .inr ⟨_, .sendOut w.session r out conn' hd hr hw, nofun⟩
  | loadIn i conn conn' q hfree hi hl =>
    exact .inr ⟨_, .loadIn w.session i conn conn' q hfree hi hl, nofun⟩
  | sendIn i r conn out conn' hfree hi hr hw =>
    exact .inr ⟨_, .sendIn w.session i r conn out conn' hfree hi hr hw, nofun⟩
  | sweep q r q' hfree hq hr => exact .inr ⟨_, .sweep w.session q r q' hfree hq hr, nofun⟩
  | drop t i closed conn hr hfree hi =>
    exact .inr ⟨_, .drop w.session t i closed conn hr hfree hi, nofun⟩
  | unmap t s hd => exact .inr ⟨_, .unmap w.session t s hd, nofun⟩
  | unlink t s hd => exact .inr ⟨_, .unlink w.session t s hd, nofun⟩
  | takeOut p m hp ht hm => exact .inr ⟨_, .takeOut w.session p m hp hm, nofun⟩
  | deliver p m hp hm => exact .inr ⟨_, .deliver w.session p m hp hm, nofun⟩
  | noneOut => exact .inl rfl
  | takeIn r m hp ht hm => exact .inr ⟨_, .takeIn w.session r m hp hm, nofun⟩
  | mapRequest r q m hp hm => exact .inr ⟨_, .mapRequest w.session r q m hp hm, fun _ => rfl⟩
  | forward r q m hp hm => exact .inr ⟨_, .forward w.session r q m hp hm, nofun⟩
  | noneIn => exact .inl rfl
  | answer k p f q d b hf hq hk hka hpos hlen hp hid => exact .inl rfl

/-- A run of a world is a run of its session. -/
theorem leads_session {w w' : World} {as : List Action} (h : Leads Step w as w') :
    ∃ tr, Exec Session.Step w.session tr ∧ final w.session tr = w'.session ∧
      (.mapRequest ∉ as → .mapRequest ∉ tr.map Prod.fst) := by
  obtain ⟨tr, hex, rfl, rfl⟩ := h
  induction hex with
  | nil w => exact ⟨[], .nil _, rfl, fun _ => List.not_mem_nil⟩
  | @cons w a w₁ tr hs _ ih =>
    obtain ⟨tr', hex', hfinal, hmap⟩ := ih
    rcases hs.session with heq | ⟨b, hb, hmapb⟩
    · rw [heq] at hex' hfinal
      exact ⟨tr', hex', hfinal, fun h => hmap (List.not_mem_of_not_mem_cons h)⟩
    · refine ⟨(b, w₁.session) :: tr', .cons hb hex', hfinal, ?_⟩
      rw [List.map_cons, List.mem_cons, not_or, List.map_cons, List.mem_cons, not_or]
      exact fun ⟨ha, htr⟩ => ⟨fun hb => ha (hmapb hb.symm).symm, hmap htr⟩

end Muxer
