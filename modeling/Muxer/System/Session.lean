import Muxer.Spec.Cleanup
import Muxer.System.World

/-!
# The muxer with any clients and any server

The steps are those of the muxer's threads in `Muxer.System.World`, with nothing assumed of the
server: `recv` returns any bytes from it, as it does from the clients. The processing thread may take
requests and responses in any order, which is more than `process_data` does. Between two passes of all the
threads, `thread_cleanup` may run `cleanup`. The marks of messages are any numbers.
-/

namespace Muxer.Session

/-- The muxer, its threads, and the client handles that are open. -/
structure State where
  mux : Mux ℕ
  opened : List Socket
  reader : ReaderPc
  dropping : Option Drop
  processing : ProcessingPc

/-- The start: no clients. -/
def State.start : State where
  mux := Mux.start
  opened := []
  reader := .idle
  dropping := none
  processing := .idle

/-- The thread is in the middle of dropping a client. -/
def State.Drops (w : State) (t : Thread) : Prop := ∃ d, w.dropping = some d ∧ d.thread = t

/-- `csec_connections` is not held across steps. -/
def State.ConnectionsFree (w : State) : Prop :=
  w.dropping = none ∧ ∀ s ps, w.reader ≠ .puttingIn s ps

/-- The threads are stopped, each between two passes of its loop. -/
def State.Stopped (w : State) : Prop :=
  w.reader = .idle ∧ w.dropping = none ∧ w.processing = .idle

/-- The sockets of the clients connected. -/
def State.sockets (w : State) : List Socket := w.mux.connections.map Connection.socket

inductive Action
  | accept (s : Socket)
  | insert
  | recvIn (i : ℕ) (r : RecvResult)
  | putIn (tag : ℕ)
  | readInDone
  | recvOut (r : RecvResult)
  | putOut (tag : ℕ)
  | readOutDone
  | loadOut
  | sendOut (r : SendResult)
  | loadIn (i : ℕ)
  | sendIn (i : ℕ) (r : SendResult)
  | sweep (r : InMessage ℕ)
  | drop (t : Thread) (i : ℕ) (closed : Bool)
  | unmap
  | unlink
  | connect (s : Socket)
  | takeIn
  | mapRequest
  | forward
  | takeOut
  | deliver
  | cleanup (closed : Socket → Bool)

/-- One step of a thread, or of the network. -/
inductive Step : State → Action → State → Prop
  /-- `accept` returns a handle that is not open. -/
  | accept (w s) : w.reader = .idle → ¬w.Drops .reader → 0 < s → s ∉ w.opened →
      Step w (.accept s) { w with opened := s :: w.opened, reader := .accepted s }
  | insert (w s) : w.reader = .accepted s → w.dropping = none → Step w .insert
      { w with
        mux := { w.mux with connections := w.mux.connections ++ [allocConnection s] }
        reader := .idle }
  /-- `read_in_socket` on the `i`-th connection. -/
  | recvIn (w i r conn pdus conn') : w.reader = .idle → w.ConnectionsFree →
      w.mux.connections[i]? = some conn → r.data.length ≤ bufferKsize - conn.rBufferPtr →
      receive conn r = .ok (true, pdus, conn') → Step w (.recvIn i r)
        { w with
          mux := { w.mux with connections := w.mux.connections.set i conn' }
          reader := .puttingIn conn.socket pdus }
  | putIn (w s p ps tag) : w.reader = .puttingIn s (p :: ps) → Step w (.putIn tag)
      { w with
        mux := { w.mux with rInMessages := w.mux.rInMessages ++ [⟨s, p, tag⟩] }
        reader := .puttingIn s ps }
  | readInDone (w s) : w.reader = .puttingIn s [] → Step w .readInDone { w with reader := .idle }
  /-- `read_out_socket`. -/
  | recvOut (w r pdus conn') : w.reader = .idle → ¬w.Drops .reader →
      r.data.length ≤ bufferKsize - w.mux.outConnection.rBufferPtr →
      receive w.mux.outConnection r = .ok (true, pdus, conn') → Step w (.recvOut r)
        { w with mux := { w.mux with outConnection := conn' }, reader := .puttingOut pdus }
  | putOut (w p ps tag) : w.reader = .puttingOut (p :: ps) → Step w (.putOut tag)
      { w with
        mux := { w.mux with rOutMessages := w.mux.rOutMessages ++ [⟨p, tag⟩] }
        reader := .puttingOut ps }
  | readOutDone (w) : w.reader = .puttingOut [] → Step w .readOutDone { w with reader := .idle }
  /-- `write_data_to_out_buffer`. -/
  | loadOut (w m) : ¬w.Drops .writer → writeDataToOutBuffer w.mux = .ok m →
      Step w .loadOut { w with mux := m }
  /-- `write_out_socket`. -/
  | sendOut (w r out conn') : ¬w.Drops .writer →
      (0 < w.mux.outConnection.wBufferPtr → r.Valid w.mux.outConnection.wBufferPtr) →
      writeData w.mux.outConnection r = .ok (true, out, conn') → Step w (.sendOut r)
        { w with mux := { w.mux with outConnection := conn' } }
  /-- A round of `write_data_to_in_buffer`. -/
  | loadIn (w i conn conn' q) : w.ConnectionsFree → w.mux.connections[i]? = some conn →
      loadConnection conn w.mux.wInMessages = .ok (conn', q) → Step w (.loadIn i)
        { w with
          mux := { w.mux with connections := w.mux.connections.set i conn', wInMessages := q } }
  /-- A round of `write_in_socket`. -/
  | sendIn (w i r conn out conn') : w.ConnectionsFree → w.mux.connections[i]? = some conn →
      (0 < conn.wBufferPtr → r.Valid conn.wBufferPtr) →
      writeData conn r = .ok (true, out, conn') → Step w (.sendIn i r)
        { w with mux := { w.mux with connections := w.mux.connections.set i conn' } }
  /-- A round of `free_w_in_messages_mapped_to_invalid_sockets` that frees a message. -/
  | sweep (w q r q') : w.ConnectionsFree → w.mux.wInMessages = q ++ r :: q' →
      (∀ c ∈ w.mux.connections, c.socket ≠ r.socket) → Step w (.sweep r)
        { w with mux := { w.mux with wInMessages := q ++ q' } }
  /-- A client is shut down; its handle is closed unless `shutdown` fails. -/
  | drop (w t i closed conn) : (t = .reader → w.reader = .idle) → w.ConnectionsFree →
      w.mux.connections[i]? = some conn → Step w (.drop t i closed)
        { w with
          opened := if closed then w.opened.filter (· != conn.socket) else w.opened
          dropping := some ⟨t, conn.socket, false⟩ }
  | unmap (w t s) : w.dropping = some ⟨t, s, false⟩ → Step w .unmap
      { w with mux := removeAllMappingsFor s w.mux, dropping := some ⟨t, s, true⟩ }
  | unlink (w t s) : w.dropping = some ⟨t, s, true⟩ → Step w .unlink
      { w with mux := unlinkConnection s w.mux, dropping := none }
  /-- `connect_to_output`. -/
  | connect (w s) : w.processing = .idle → Step w (.connect s)
      { w with
        mux := { w.mux with outConnection := { w.mux.outConnection with socket := s } } }
  | takeIn (w r m) : w.processing = .idle → takeRInMessage w.mux = some (r, m) → Step w .takeIn
      { w with mux := m, processing := .taken r }
  | mapRequest (w r q m) : w.processing = .taken r → Muxer.mapRequest r w.mux = .ok (q, m) →
      Step w .mapRequest { w with mux := m, processing := .mapped r q }
  | forward (w r q m) : w.processing = .mapped r q → forwardRequest q r.tag w.mux = .ok m →
      Step w .forward { w with mux := m, processing := .idle }
  | takeOut (w p m) : w.processing = .idle → takeROutMessage w.mux = some (p, m) → Step w .takeOut
      { w with mux := m, processing := .response p }
  | deliver (w p m) : w.processing = .response p → deliverResponse p w.mux = .ok m → Step w .deliver
      { w with mux := m, processing := .idle }
  /-- `cleanup`, which closes the handles of clients unless `shutdown` fails. -/
  | cleanup (w closed m) : w.Stopped → (∀ s, closed s → s ∈ w.sockets) →
      Muxer.cleanup w.mux = .ok m → Step w (.cleanup closed)
        { w with mux := m, opened := w.opened.filter (!closed ·) }

end Muxer.Session
