import Muxer.Proof.InSocket

/-!
# What a sweep over the clients comes to

`Passed` says what a single pass does to some of the connections, and `Passed.append` puts two parts
together. So it is enough to know what is done with one connection (`Sweeper.Does`).

* `sweeps_single_pass`: **`read_in_socket` and `write_in_socket` are single passes**, which remove
  the connections that fail, with their mappings, and keep the others in order.
-/

namespace Muxer

open Lib

/-- A connection kept by a sweep: as it was, the bytes moved on its socket, as it is then, and the
messages taken from it. -/
structure Visit where
  before : Connection
  bytes : Bytes
  after : Connection
  messages : List (InMessage Unit)

/-- Whether `recv` or `send` may be called. -/
def ready (fd eFd : List Socket) (p : Connection) : Bool := p.socket ∉ eFd && p.socket ∈ fd

/-- Whether the error flag is set, or reading or writing fails. -/
def failing (fd eFd : List Socket) (broken : Connection → Bool) (p : Connection) : Bool :=
  p.socket ∈ eFd || (p.socket ∈ fd && broken p)

/-- What a sweep should come to, with `data` the bytes that `recv` returns on a socket, or that
`send` takes: no socket is called twice, those that are ready are called and move their bytes, the
connections that fail are removed with all their mappings, and the others are kept in order, with
the bytes moved accounted for. -/
structure Swept (fd eFd : List Socket) (broken : Connection → Bool) (data : Connection → Bytes)
    (accounted : Visit → Prop) (m : Mux Unit) (visits : List Visit)
    (calls : List (Socket × Bytes)) (m' : Mux Unit) : Prop where
  once : (calls.map Prod.fst).Nodup
  called : calls = (m.connections.filter (ready fd eFd)).map fun p => (p.socket, data p)
  kept : visits.map Visit.before = m.connections.filter (!failing fd eFd broken ·)
  moved : ∀ v ∈ visits, v.bytes = if ready fd eFd v.before then data v.before else []
  accounted : ∀ v ∈ visits, accounted v
  mux : m' = { m with
    connections := visits.map Visit.after
    rInMessages := m.rInMessages ++ visits.flatMap Visit.messages
    socketToRecvUnicastMsg := m.socketToRecvUnicastMsg.filter
      (·.socket ∉ (m.connections.filter (failing fd eFd broken)).map Connection.socket) }

/-! ## A pass over some of the connections -/

structure Passed (fd eFd : List Socket) (broken : Connection → Bool) (data : Connection → Bytes)
    (accounted : Visit → Prop) (connections : List Connection) (visits : List Visit) (a : Pass) :
    Prop where
  called : a.calls = (connections.filter (ready fd eFd)).map fun p => (p.socket, data p)
  dropped : a.dropped = (connections.filter (failing fd eFd broken)).map Connection.socket
  before : visits.map Visit.before = connections.filter (!failing fd eFd broken ·)
  moved : ∀ v ∈ visits, v.bytes = if ready fd eFd v.before then data v.before else []
  accounted : ∀ v ∈ visits, accounted v
  kept : a.kept = visits.map Visit.after
  messages : a.messages = visits.flatMap Visit.messages

section

variable {fd eFd : List Socket} {broken : Connection → Bool} {data : Connection → Bytes}
  {accounted : Visit → Prop} {p conn : Connection} {bytes : Bytes} {rs : List (InMessage Unit)}

theorem Passed.nil : Passed fd eFd broken data accounted [] [] ⟨[], [], [], []⟩ where
  called := rfl
  dropped := rfl
  before := rfl
  moved := by simp
  accounted := by simp
  kept := rfl
  messages := rfl

/-- **One part of the connections, and then the others.** -/
theorem Passed.append {xs ys : List Connection} {vs ws : List Visit} {a b : Pass}
    (ha : Passed fd eFd broken data accounted xs vs a)
    (hb : Passed fd eFd broken data accounted ys ws b) :
    Passed fd eFd broken data accounted (xs ++ ys) (vs ++ ws) (a.append b) where
  called := by simp [Pass.append, ha.called, hb.called]
  dropped := by simp [Pass.append, ha.dropped, hb.dropped]
  before := by rw [List.map_append, List.filter_append, ha.before, hb.before]
  moved := List.forall_mem_append.2 ⟨ha.moved, hb.moved⟩
  accounted := List.forall_mem_append.2 ⟨ha.accounted, hb.accounted⟩
  kept := by simp [Pass.append, ha.kept, hb.kept]
  messages := by simp [Pass.append, ha.messages, hb.messages]

/-! ## One connection -/

/-- What is done with a connection. -/
structure Sweeper.Does (S : Sweeper) (fd eFd : List Socket) (broken : Connection → Bool)
    (data : Connection → Bytes) (accounted : Visit → Prop) (p : Connection) : Prop where
  fails : p.socket ∉ eFd → p.socket ∈ fd → broken p = true →
    ∃ conn, S.io p = .ok (false, data p, conn)
  good : p.socket ∉ eFd → p.socket ∈ fd → broken p = false → ∃ conn rs conn',
    S.io p = .ok (true, data p, conn) ∧ S.after conn = .ok (rs, conn') ∧
      accounted ⟨p, data p, conn', rs⟩
  idle : p.socket ∉ eFd → p.socket ∉ fd → ∃ rs conn,
    S.after p = .ok (rs, conn) ∧ accounted ⟨p, [], conn, rs⟩

variable {S : Sweeper}

theorem Passed.dropped_one {calls : List (Socket × Bytes)}
    (hcalls : calls = if ready fd eFd p then [(p.socket, data p)] else [])
    (hfail : failing fd eFd broken p = true) :
    Passed fd eFd broken data accounted [p] [] ⟨[], [], [p.socket], calls⟩ where
  called := by
    rw [hcalls]
    cases hr : ready fd eFd p <;> simp [hr]
  dropped := by simp [hfail]
  before := by simp [hfail]
  moved := by simp
  accounted := by simp
  kept := rfl
  messages := rfl

theorem Passed.kept_one {calls : List (Socket × Bytes)}
    (hcalls : calls = if ready fd eFd p then [(p.socket, data p)] else [])
    (hmoved : bytes = if ready fd eFd p then data p else [])
    (hfail : failing fd eFd broken p = false) (hacc : accounted ⟨p, bytes, conn, rs⟩) :
    Passed fd eFd broken data accounted [p] [⟨p, bytes, conn, rs⟩] ⟨[conn], rs, [], calls⟩ where
  called := by
    rw [hcalls]
    cases hr : ready fd eFd p <;> simp [hr]
  dropped := by simp [hfail]
  before := by simp [hfail]
  moved := List.forall_mem_singleton.2 hmoved
  accounted := List.forall_mem_singleton.2 hacc
  kept := rfl
  messages := by simp

theorem Sweeper.Does.once (h : S.Does fd eFd broken data accounted p) :
    ∃ visits a, S.once fd eFd p = .ok a ∧ Passed fd eFd broken data accounted [p] visits a := by
  unfold Sweeper.once Sweeper.test
  by_cases he : p.socket ∈ eFd
  · rw [if_pos he]
    exact ⟨[], _, rfl, .dropped_one (by simp [ready, he]) (by simp [failing, he])⟩
  · rw [if_neg he]
    by_cases hfd : p.socket ∈ fd
    · rw [if_pos hfd]
      have hready : ready fd eFd p = true := by simp [ready, he, hfd]
      cases hb : broken p with
      | true =>
        obtain ⟨conn, hio⟩ := h.fails he hfd hb
        rw [hio]
        exact ⟨[], _, rfl, .dropped_one (if_pos hready).symm (by simp [failing, hfd, hb])⟩
      | false =>
        obtain ⟨conn, rs, conn', hio, hafter, hacc⟩ := h.good he hfd hb
        simp only [hio, hafter, bind, Except.bind, if_true]
        exact ⟨_, _, rfl, .kept_one (if_pos hready).symm (if_pos hready).symm
          (by simp [failing, he, hb]) hacc⟩
    · rw [if_neg hfd]
      obtain ⟨rs, conn, hafter, hacc⟩ := h.idle he hfd
      simp only [hafter, bind, Except.bind, if_true]
      exact ⟨_, _, rfl, .kept_one (by simp [ready, hfd]) (by simp [ready, hfd])
        (by simp [failing, he, hfd]) hacc⟩

/-- **A pass over the connections.** -/
theorem Sweeper.pass_ok {connections : List Connection}
    (h : ∀ p ∈ connections, S.Does fd eFd broken data accounted p) :
    ∃ visits a, S.pass fd eFd connections = .ok a ∧
      Passed fd eFd broken data accounted connections visits a := by
  induction connections with
  | nil => exact ⟨[], _, rfl, .nil⟩
  | cons p connections ih =>
    rw [List.forall_mem_cons] at h
    obtain ⟨vs, a, honce, ha⟩ := h.1.once
    obtain ⟨ws, b, hpass, hb⟩ := ih h.2
    refine ⟨vs ++ ws, a.append b, ?_, ha.append hb⟩
    simp only [Sweeper.pass, honce, hpass, bind, Except.bind]

/-- **What a sweep comes to.** -/
theorem Sweeper.inSocket_ok (hS : S.Steady) {m : Mux Unit}
    (hnd : (m.connections.map Connection.socket).Nodup)
    (h : ∀ p ∈ m.connections, S.Does fd eFd broken data accounted p) :
    ∃ visits calls m', S.inSocket fd eFd m = .ok (m', calls) ∧
      Swept fd eFd broken data accounted m visits calls m' := by
  obtain ⟨visits, a, hpass, ha⟩ := S.pass_ok h
  refine ⟨visits, a.calls, a.mux m, ?_, ?_⟩
  · rw [S.inSocket_eq hS hnd, hpass]
    rfl
  · exact
      { once := by
          rw [ha.called, List.map_map]
          exact (List.filter_sublist.map _).nodup hnd
        called := ha.called
        kept := ha.before
        moved := ha.moved
        accounted := ha.accounted
        mux := by rw [Pass.mux, ha.kept, ha.messages, ha.dropped] }

end

/-! ## The two sweeps -/

/-- A connection read: the frames completed are the messages taken from it, and the rest is in front
of the buffer. -/
structure Read (v : Visit) : Prop where
  socket : v.after.socket = v.before.socket
  wBuffer : v.after.wBuffer = v.before.wBuffer
  wBufferPtr : v.after.wBufferPtr = v.before.wBufferPtr
  sockets : ∀ r ∈ v.messages, r.socket = v.before.socket
  deframed : Deframed (v.before.unread ++ v.bytes) (v.messages.map InMessage.pdu) v.after.rBuffer
    v.after.rBufferPtr

/-- A connection written to: the bytes sent are the first ones of those unsent. -/
structure Wrote (v : Visit) : Prop where
  socket : v.after.socket = v.before.socket
  rBuffer : v.after.rBuffer = v.before.rBuffer
  rBufferPtr : v.after.rBufferPtr = v.before.rBufferPtr
  messages : v.messages = []
  unsent : v.bytes ++ v.after.unsent = v.before.unsent

/-- The results `read_data` fails for. -/
def readBroken (recv : Socket → RecvResult) (p : Connection) : Bool := (recv p.socket).broken

/-- The results `write_data` fails for, when there is something to send. -/
def writeBroken (send : Socket → SendResult) (p : Connection) : Bool :=
  match send p.socket with
  | .sent _ => false
  | .socketError err => 0 < p.wBufferPtr && err != wsaeWouldBlock

/-- The bytes that `recv` returns for a connection. -/
def readBytes (recv : Socket → RecvResult) (p : Connection) : Bytes := (recv p.socket).data

/-- The bytes that `send` takes of those unsent. -/
def writeBytes (send : Socket → SendResult) (p : Connection) : Bytes := p.took (send p.socket)

/-- A connection as it may be read: `recv` returns no more than it was asked for, and no header
received is too large. -/
structure ReadsOK (recv : Socket → RecvResult) (rFd eFd : List Socket) (p : Connection) :
    Prop where
  pos : 0 < p.socket
  ptr : p.rBufferPtr ≤ bufferKsize
  fits : ready rFd eFd p → (recv p.socket).data.length ≤ bufferKsize - p.rBufferPtr
  bounded : failing rFd eFd (readBroken recv) p = false →
    pduFraming.Bounded (p.unread ++ if p.socket ∈ rFd then (recv p.socket).data else [])

/-- A connection as it may be written to: `send` takes no more than it was given. -/
structure WritesOK (send : Socket → SendResult) (wFd eFd : List Socket) (p : Connection) :
    Prop where
  ptr : p.wBufferPtr ≤ bufferKsize
  fits : ready wFd eFd p → 0 < p.wBufferPtr →
    ∀ bytes, send p.socket = .sent bytes → bytes ≤ p.wBufferPtr

section

variable {fd eFd : List Socket} {p : Connection} {recv : Socket → RecvResult}
  {send : Socket → SendResult}

theorem allocInMessages_ok {socket : Socket} (hpos : 0 < socket) (pdus : List Pdu) :
    pdus.mapM (fun p => allocInMessage socket p ()) = .ok (pdus.map fun p => ⟨socket, p, ()⟩) := by
  induction pdus with
  | nil => rfl
  | cons p pdus ih =>
    rw [List.mapM_cons, ih]
    simp only [allocInMessage, cAssert_ok hpos, bind, Except.bind]
    rfl

/-- `read_data_from_in_buffer` takes the frames off the buffer, as messages of the socket. -/
theorem readDataFromInBuffer_ok (hpos : 0 < p.socket) (hk : p.rBufferPtr ≤ bufferKsize)
    (hB : pduFraming.Bounded p.unread) : ∃ rs conn, readDataFromInBuffer p = .ok (rs, conn) ∧
      conn.socket = p.socket ∧ conn.wBuffer = p.wBuffer ∧ conn.wBufferPtr = p.wBufferPtr ∧
      (∀ r ∈ rs, r.socket = p.socket) ∧
      Deframed p.unread (rs.map InMessage.pdu) conn.rBuffer conn.rBufferPtr := by
  obtain ⟨pdus, b, ptr, hread, hd⟩ := (readPdus_eq p.rBuffer hk).1 hB
  have hpdus : (pdus.map fun q => (⟨p.socket, q, ()⟩ : InMessage Unit)).map InMessage.pdu =
      pdus := by simp [Function.comp_def]
  refine ⟨pdus.map fun q => ⟨p.socket, q, ()⟩, { p with rBuffer := b, rBufferPtr := ptr }, ?_, rfl,
    rfl, rfl, by simp, ?_⟩
  · unfold readDataFromInBuffer
    simp only [hread, allocInMessages_ok hpos, bind, Except.bind]
  · rw [hpdus]
    exact hd

theorem reading_io (recv : Socket → RecvResult) (p : Connection) : (reading recv).io p =
    (readData p (recv p.socket)).map fun a => (a.1, readBytes recv p, a.2) := by
  simp only [reading, readBytes]
  cases readData p (recv p.socket) with
  | error e => rfl
  | ok a => cases recv p.socket <;> rfl

theorem ReadsOK.does (h : ReadsOK recv fd eFd p) :
    (reading recv).Does fd eFd (readBroken recv) (readBytes recv) Read p where
  fails _ _ hb := by
    rw [reading_io, readData_broken h.ptr hb]
    exact ⟨p, rfl⟩
  -- what follows is parsed from the bytes left before and those just read
  good he hfd hb := by
    obtain ⟨conn, hread, hunread, hptr⟩ := readData_good h.ptr hb
      (h.fits (by simp [ready, he, hfd]))
    obtain ⟨hs, hw, hwp⟩ := readData_frame hread
    have hB := h.bounded (by simp [failing, he, hb])
    rw [if_pos hfd, ← hunread] at hB
    obtain ⟨rs, conn', hafter, hs', hw', hwp', hrs, hd⟩ :=
      readDataFromInBuffer_ok (hs ▸ h.pos) hptr hB
    refine ⟨conn, rs, conn', ?_, hafter, ?_⟩
    · rw [reading_io, hread]
      rfl
    · exact
        { socket := hs'.trans hs
          wBuffer := hw'.trans hw
          wBufferPtr := hwp'.trans hwp
          sockets := fun r hr => (hrs r hr).trans hs
          deframed := by
            rw [readBytes, ← hunread]
            exact hd }
  -- not read in this sweep: a frame that is already complete is taken all the same
  idle he hfd := by
    have hB := h.bounded (by simp [failing, he, hfd])
    rw [if_neg hfd, List.append_nil] at hB
    obtain ⟨rs, conn, hafter, hs, hw, hwp, hrs, hd⟩ := readDataFromInBuffer_ok h.pos h.ptr hB
    exact ⟨rs, conn, hafter, hs, hw, hwp, hrs, by rw [List.append_nil]; exact hd⟩

theorem WritesOK.does (h : WritesOK send fd eFd p) :
    (writing send).Does fd eFd (writeBroken send) (writeBytes send) Wrote p where
  fails _ _ hb := by
    cases hsend : send p.socket with
    | sent bytes => simp [writeBroken, hsend] at hb
    | socketError err =>
      simp only [writeBroken, hsend, Bool.and_eq_true, decide_eq_true_eq, bne_iff_ne] at hb
      have herr : (err == wsaeWouldBlock) = false := beq_false_of_ne hb.2
      refine ⟨p, ?_⟩
      change writeData p (send p.socket) = _
      rw [writeBytes, hsend, writeData_socketError h.ptr hb.1, herr]
      rfl
  good he hfd hb := by
    have hwrite : ∃ conn, writeData p (send p.socket) = .ok (true, writeBytes send p, conn) ∧
        writeBytes send p ++ conn.unsent = p.unsent := by
      unfold writeBytes
      by_cases h0 : 0 < p.wBufferPtr
      · cases hsend : send p.socket with
        | sent bytes =>
          obtain ⟨conn, hw, hunsent, -⟩ := writeData_sent h.ptr
            (h.fits (by simp [ready, he, hfd]) h0 bytes hsend)
          exact ⟨conn, hw, by rw [hunsent]; exact List.take_append_drop _ _⟩
        | socketError err =>
          have herr : (err == wsaeWouldBlock) = true := by
            simpa [writeBroken, hsend, h0] using hb
          exact ⟨p, by rw [writeData_socketError h.ptr h0, herr]; rfl, rfl⟩
      · rw [took_empty (Nat.eq_zero_of_not_pos h0)]
        exact ⟨p, writeData_empty h0 _, rfl⟩
    obtain ⟨conn, hw, hout⟩ := hwrite
    obtain ⟨hs, hr, hrp⟩ := writeData_frame hw
    exact ⟨conn, [], conn, hw, rfl, hs, hr, hrp, rfl, hout⟩
  idle _ _ := ⟨[], p, rfl, rfl, rfl, rfl, rfl, rfl⟩

end

/-- **The sweeps are single passes over the clients.** They end; `recv` and `send` are called at
most once for a client, and exactly for those that are ready; the clients whose error flag is set,
or for which reading or writing fails, are removed with all their mappings; the others are kept in
order, with what `recv` returned or `send` took accounted for; and the messages are those a pass
from the first client to the last finds. -/
theorem sweeps_single_pass {m : Mux Unit} (hnd : (m.connections.map Connection.socket).Nodup)
    (fd eFd : List Socket) :
    (∀ recv, readInSocket recv fd eFd m =
        ((reading recv).pass fd eFd m.connections).map (fun a => (a.mux m, a.calls)) ∧
      ((∀ p ∈ m.connections, ReadsOK recv fd eFd p) → ∃ visits calls m',
        readInSocket recv fd eFd m = .ok (m', calls) ∧
          Swept fd eFd (readBroken recv) (readBytes recv) Read m visits calls m')) ∧
    (∀ send, writeInSocket send fd eFd m =
        ((writing send).pass fd eFd m.connections).map (fun a => (a.mux m, a.calls)) ∧
      ((∀ p ∈ m.connections, WritesOK send fd eFd p) → ∃ visits calls m',
        writeInSocket send fd eFd m = .ok (m', calls) ∧
          Swept fd eFd (writeBroken send) (writeBytes send) Wrote m visits calls m')) := by
  refine ⟨fun recv => ⟨?_, fun h => ?_⟩, fun send => ⟨?_, fun h => ?_⟩⟩
  · exact Sweeper.inSocket_eq (reading_steady recv) hnd fd eFd
  · exact Sweeper.inSocket_ok (reading_steady recv) hnd fun p hp => (h p hp).does
  · exact Sweeper.inSocket_eq (writing_steady send) hnd fd eFd
  · exact Sweeper.inSocket_ok (writing_steady send) hnd fun p hp => (h p hp).does

/-- Three clients. -/
def threeClients : Mux Unit :=
  { Mux.start with
    connections := [allocConnection 1, allocConnection 2, allocConnection 3]
    socketToRecvUnicastMsg := [⟨1, 7, 1, ()⟩, ⟨2, 7, 2, ()⟩, ⟨3, 7, 3, ()⟩] }

/-- The first client sends a frame, and the third one closes its connection. -/
def threeResults (s : Socket) : RecvResult := if s = 1 then .bytes [0, 2, 7, 9] else .bytes []

theorem sweeps_single_pass_first : ∃ visits calls m',
    readInSocket threeResults [1, 3] [2] threeClients = .ok (m', calls) ∧
      Swept [1, 3] [2] (readBroken threeResults) (readBytes threeResults) Read threeClients visits
        calls m' ∧
      calls = [(1, [0, 2, 7, 9]), (3, [])] ∧ visits.map Visit.before = [allocConnection 1] ∧
      m'.socketToRecvUnicastMsg = [⟨1, 7, 1, ()⟩] := by
  have hframes : ∀ p ∈ ([[7, 9]] : List Bytes), 0 < p.length ∧ p.length ≤ pduFraming.max := by
    decide
  have hbounded := (Framing.wellHeaded_frames (F := pduFraming) (by decide) hframes).bounded
  have hreadable : ∀ p ∈ threeClients.connections, ReadsOK threeResults [1, 3] [2] p := by
    intro p hp
    have hp : p = allocConnection 1 ∨ p = allocConnection 2 ∨ p = allocConnection 3 := by
      simpa [threeClients] using hp
    rcases hp with rfl | rfl | rfl
    · exact ⟨by decide, Nat.zero_le _, fun _ => by decide, fun _ => hbounded⟩
    · exact ⟨by decide, Nat.zero_le _, fun _ => by decide, fun h => absurd h (by decide)⟩
    · exact ⟨by decide, Nat.zero_le _, fun _ => by decide, fun h => absurd h (by decide)⟩
  have hnd : (threeClients.connections.map Connection.socket).Nodup := by decide
  obtain ⟨visits, calls, m', hok, hs⟩ :=
    ((sweeps_single_pass hnd [1, 3] [2]).1 threeResults).2 hreadable
  refine ⟨visits, calls, m', hok, hs, hs.called.trans (by decide), hs.kept.trans rfl, ?_⟩
  rw [hs.mux]
  rfl

end Muxer
