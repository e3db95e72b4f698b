import Muxer.Proof.Outgoing
import Muxer.Spec.Protocol

/-!
# The muxer with its clients and its server

The three threads of the muxer run the definitions of `Muxer.Spec`, one critical section a step,
in any order; the clients send any bytes; the server answers the requests whose frames it has
received, in any order. The processing thread goes from pass to pass of `process_data`, in each of
which it looks for one response and then for one request; the event it waits for between passes is
left out, so that a pass may begin at any time. A connection is dropped in three steps, as
`shutdown_connection` and the two parts of `remove_connection`, during which its thread holds
`csec_connections`. The other holders of `csec_connections` go from connection to connection; a
round of such a loop is a step, and holders may alternate between rounds, which is more than the
lock allows.

The marks of messages and mappings are the numbers of the requests they stem from, in the order
of `requests`. A handle that is closed may be given to a new client: `inst s` counts the
connections there have been on the handle `s`.
-/

namespace Muxer

open Lib

/-- A request read from a client: its bytes, and the connection, by handle and number. -/
structure Request where
  socket : Socket
  inst : ℕ
  pdu : Pdu

/-- A message copied into the write buffer of the connection with this number on its handle. -/
structure Delivery where
  message : InMessage ℕ
  inst : ℕ

inductive Thread
  | reader
  | writer
deriving DecidableEq

/-- Where the reader is: about to insert a client accepted, or with PDUs yet to be queued. -/
inductive ReaderPc
  | idle
  | accepted (socket : Socket)
  | puttingIn (socket : Socket) (pdus : List Pdu)
  | puttingOut (pdus : List Pdu)

/-- A client being dropped: the mappings for its handle are removed before the connection is. -/
structure Drop where
  thread : Thread
  socket : Socket
  unmapped : Bool

/-- Where the processing thread is: with a request taken, one mapped, or a response taken. -/
inductive ProcessingPc
  | idle
  | taken (r : InMessage ℕ)
  | mapped (r : InMessage ℕ) (decodedInPdu : InputType)
  | response (p : OutMessage ℕ)

/-- What the processing thread looks for next: `process_data` calls `process_incoming_out_messages`,
and then `process_incoming_in_messages`. -/
inductive Turn
  | responses
  | requests
deriving DecidableEq

/-- The muxer, its threads, the network and the server, and what has happened so far. -/
structure World where
  mux : Mux ℕ
  /-- Client handles that are open. -/
  opened : List Socket
  inst : Socket → ℕ
  reader : ReaderPc
  dropping : Option Drop
  processing : ProcessingPc
  turn : Turn
  /-- Messages copied into the write buffer to the server, and the bytes sent from it. -/
  takenOut : List (OutMessage ℕ)
  sentOut : Bytes
  /-- The positions, among the frames the server received, of those it has answered. -/
  answered : List ℕ
  /-- Answers that have not reached `r_out_messages`, and the bytes of theirs still to receive. -/
  pending : List (OutMessage ℕ)
  wire : Bytes
  requests : List Request
  /-- The requests whose response has been processed. -/
  processed : List ℕ
  delivered : List Delivery
  /-- The bytes sent to the present client on each handle. -/
  sentIn : Socket → Bytes

/-- The start: no clients, nothing sent. -/
def World.start : World where
  mux := Mux.start
  opened := []
  inst := fun _ => 0
  reader := .idle
  dropping := none
  processing := .idle
  turn := .responses
  takenOut := []
  sentOut := []
  answered := []
  pending := []
  wire := []
  requests := []
  processed := []
  delivered := []
  sentIn := fun _ => []

/-- The thread is in the middle of dropping a client. -/
def World.Drops (w : World) (t : Thread) : Prop := ∃ d, w.dropping = some d ∧ d.thread = t

/-- `csec_connections` is not held across steps. -/
def World.ConnectionsFree (w : World) : Prop :=
  w.dropping = none ∧ ∀ s ps, w.reader ≠ .puttingIn s ps

/-- The message that `loadConnection` takes from the queue. -/
def loaded (conn : Connection) (q : List (InMessage ℕ)) : List (InMessage ℕ) :=
  if conn.wBufferPtr = 0 then ((takeFirst conn.socket q).map Prod.fst).toList else []

/-- The message that `write_data_to_out_buffer` takes from the queue. -/
def loadedOut (m : Mux ℕ) : List (OutMessage ℕ) :=
  if m.outConnection.wBufferPtr = 0 then m.wOutMessages.head?.toList else []

inductive Action
  | accept (s : Socket)
  | insert
  | recvIn (i : ℕ) (r : RecvResult)
  | putIn
  | readInDone
  | recvOut (k : ℕ)
  | putOut
  | readOutDone
  | loadOut
  | sendOut (r : SendResult)
  | loadIn (i : ℕ)
  | sendIn (i : ℕ) (r : SendResult)
  | sweep (r : InMessage ℕ)
  | drop (t : Thread) (i : ℕ) (closed : Bool)
  | unmap
  | unlink
  | takeOut
  | deliver
  | noneOut
  | takeIn
  | mapRequest
  | forward
  | noneIn
  | answer (k : ℕ) (p : Pdu)

/-- One step of a thread, of the network or of the server. -/
inductive Step : World → Action → World → Prop
  /-- `accept` returns a handle that is not open. -/
  | accept (w s) : w.reader = .idle → ¬w.Drops .reader → 0 < s → s ∉ w.opened →
      Step w (.accept s) { w with opened := s :: w.opened, reader := .accepted s }
  | insert (w s) : w.reader = .accepted s → w.dropping = none → Step w .insert
      { w with
        mux := { w.mux with connections := w.mux.connections ++ [allocConnection s] }
        inst := Function.update w.inst s (w.inst s + 1)
        sentIn := Function.update w.sentIn s []
        reader := .idle }
  /-- `read_in_socket` on the `i`-th connection. -/
  | recvIn (w i r conn pdus conn') : w.reader = .idle → w.ConnectionsFree →
      w.mux.connections[i]? = some conn → r.data.length ≤ bufferKsize - conn.rBufferPtr →
      receive conn r = .ok (true, pdus, conn') → Step w (.recvIn i r)
        { w with
          mux := { w.mux with connections := w.mux.connections.set i conn' }
          reader := .puttingIn conn.socket pdus }
  | putIn (w s p ps) : w.reader = .puttingIn s (p :: ps) → Step w .putIn
      { w with
        mux := { w.mux with rInMessages := w.mux.rInMessages ++ [⟨s, p, w.requests.length⟩] }
        requests := w.requests ++ [⟨s, w.inst s, p⟩]
        reader := .puttingIn s ps }
  | readInDone (w s) : w.reader = .puttingIn s [] → Step w .readInDone { w with reader := .idle }
  /-- `read_out_socket`, with `recv` returning the next `k` bytes. -/
  | recvOut (w k pdus conn') : w.reader = .idle → ¬w.Drops .reader → 0 < k → k ≤ w.wire.length →
      k ≤ bufferKsize - w.mux.outConnection.rBufferPtr →
      receive w.mux.outConnection (.bytes (w.wire.take k)) = .ok (true, pdus, conn') →
      Step w (.recvOut k)
        { w with
          mux := { w.mux with outConnection := conn' }
          wire := w.wire.drop k
          reader := .puttingOut pdus }
  /-- The PDU put is that of the first answer pending, whose mark it is given. -/
  | putOut (w p ps a as) : w.reader = .puttingOut (p :: ps) → w.pending = a :: as → Step w .putOut
      { w with
        mux := { w.mux with rOutMessages := w.mux.rOutMessages ++ [⟨p, a.tag⟩] }
        pending := as
        reader := .puttingOut ps }
  | readOutDone (w) : w.reader = .puttingOut [] → Step w .readOutDone { w with reader := .idle }
  /-- `write_data_to_out_buffer`. -/
  | loadOut (w m) : ¬w.Drops .writer → writeDataToOutBuffer w.mux = .ok m → Step w .loadOut
      { w with mux := m, takenOut := w.takenOut ++ loadedOut w.mux }
  /-- `write_out_socket`. -/
  | sendOut (w r out conn') : ¬w.Drops .writer →
      (0 < w.mux.outConnection.wBufferPtr → r.Valid w.mux.outConnection.wBufferPtr) →
      writeData w.mux.outConnection r = .ok (true, out, conn') → Step w (.sendOut r)
        { w with
          mux := { w.mux with outConnection := conn' }
          sentOut := w.sentOut ++ out }
  /-- A round of `write_data_to_in_buffer`. -/
  | loadIn (w i conn conn' q) : w.ConnectionsFree → w.mux.connections[i]? = some conn →
      loadConnection conn w.mux.wInMessages = .ok (conn', q) → Step w (.loadIn i)
        { w with
          mux := { w.mux with connections := w.mux.connections.set i conn', wInMessages := q }
          delivered := w.delivered ++
            (loaded conn w.mux.wInMessages).map fun r => ⟨r, w.inst conn.socket⟩ }
  /-- A round of `write_in_socket`. -/
  | sendIn (w i r conn out conn') : w.ConnectionsFree → w.mux.connections[i]? = some conn →
      (0 < conn.wBufferPtr → r.Valid conn.wBufferPtr) →
      writeData conn r = .ok (true, out, conn') → Step w (.sendIn i r)
        { w with
          mux := { w.mux with connections := w.mux.connections.set i conn' }
          sentIn := Function.update w.sentIn conn.socket (w.sentIn conn.socket ++ out) }
  /-- A round of `free_w_in_messages_mapped_to_invalid_sockets` that frees a message. -/
  | sweep (w q r q') : w.ConnectionsFree → w.mux.wInMessages = q ++ r :: q' →
      (∀ c ∈ w.mux.connections, c.socket ≠ r.socket) → Step w (.sweep r)
        { w with mux := { w.mux with wInMessages := q ++ q' } }
  /-- A client is shut down; its handle is closed unless `shutdown` fails. -/
  | drop (w t i closed conn) : (t = .reader → w.reader = .idle) → w.ConnectionsFree →
      w.mux.connections[i]? = some conn → Step w (.drop t i closed)
        { w with
          opened := if closed then w.opened.filter (· != conn.socket) else w.opened
          dropping := some ⟨t, conn.socket, false⟩ }
  | unmap (w t s) : w.dropping = some ⟨t, s, false⟩ → Step w .unmap
      { w with mux := removeAllMappingsFor s w.mux, dropping := some ⟨t, s, true⟩ }
  | unlink (w t s) : w.dropping = some ⟨t, s, true⟩ → Step w .unlink
      { w with mux := unlinkConnection s w.mux, dropping := none }
  | takeOut (w p m) : w.processing = .idle → w.turn = .responses →
      takeROutMessage w.mux = some (p, m) → Step w .takeOut
        { w with mux := m, processing := .response p }
  | deliver (w p m) : w.processing = .response p → deliverResponse p w.mux = .ok m → Step w .deliver
      { w with
        mux := m
        processed := w.processed ++ [p.tag]
        processing := .idle
        turn := .requests }
  /-- `process_incoming_out_messages` finds no message. -/
  | noneOut (w) : w.processing = .idle → w.turn = .responses → w.mux.rOutMessages = [] →
      Step w .noneOut { w with turn := .requests }
  | takeIn (w r m) : w.processing = .idle → w.turn = .requests →
      takeRInMessage w.mux = some (r, m) → Step w .takeIn
        { w with mux := m, processing := .taken r }
  | mapRequest (w r q m) : w.processing = .taken r → Muxer.mapRequest r w.mux = .ok (q, m) →
      Step w .mapRequest { w with mux := m, processing := .mapped r q }
  | forward (w r q m) : w.processing = .mapped r q → forwardRequest q r.tag w.mux = .ok m →
      Step w .forward { w with mux := m, processing := .idle, turn := .responses }
  /-- `process_incoming_in_messages` finds no message. -/
  | noneIn (w) : w.processing = .idle → w.turn = .requests → w.mux.rInMessages = [] →
      Step w .noneIn { w with turn := .responses }
  /-- The server answers the `k`-th request it received, once, with a PDU that carries its id. -/
  | answer (w k p f q d a) : (pduFraming.cut w.sentOut).1[k]? = some (Pdu.buffer f) →
      decodeInPdu f = .ok (0, some q) → w.takenOut[k]? = some a → k ∉ w.answered →
      0 < p.length → p.length ≤ bufferKsize - pduHeaderLength →
      decodeOutPdu p = .ok (0, some d) → d.invokeid = q.invokeid → Step w (.answer k p)
        { w with
          answered := w.answered ++ [k]
          pending := w.pending ++ [⟨p, a.tag⟩]
          wire := w.wire ++ p.frame }

end Muxer
