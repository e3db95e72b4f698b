import Muxer.Proof.Outgoing
import Muxer.Spec.StoreThreads
import Muxer.System.World

/-!
# The muxer in memory, with any clients and any server

The threads of `Muxer.System.Session` with the pointers they hold, on one heap. `malloc` and `time`
give anything at each step. A step may end the program, so what it leads to is a state or a `Stop`.

As there, a step is a critical section, or a round of a loop in one; and a thread that goes along
the connections or the messages may be at any of them. `write_data_to_out_buffer` is one step, though
it frees its entry once it has left `csec_w_out_messages`: `Muxer.System.OutQueue` has its steps.
-/

namespace Muxer.Memory

open Lib OnHeap

/-- Where the reader is: about to insert a client accepted, or along its queue `pdus`, from `qe`. -/
inductive ReaderPc
  | idle
  | accepted (socket : Socket)
  | puttingIn (clientConnection qe : Ptr)
  | puttingOut (qe : Ptr)

/-- Where the processing thread is: with a request taken, one mapped, or a response taken. -/
inductive ProcessingPc
  | idle
  | taken (r : Ptr)
  | mapped (r : Ptr) (decodedInPdu : InputType)
  | response (p : Ptr)

/-- The memory, the client handles that are open, and the threads. -/
structure State where
  store : Store
  opened : List Socket
  reader : ReaderPc
  dropping : Option Drop
  processing : ProcessingPc

/-- The start: no clients. -/
def State.start : State where
  store := .start
  opened := []
  reader := .idle
  dropping := none
  processing := .idle

/-- The thread is in the middle of dropping a client. -/
def State.Drops (w : State) (t : Thread) : Prop := ∃ d, w.dropping = some d ∧ d.thread = t

/-- `csec_connections` is not held across steps. -/
def State.ConnectionsFree (w : State) : Prop :=
  w.dropping = none ∧ ∀ p qe, w.reader ≠ .puttingIn p qe

/-- The threads are stopped, each between two passes of its loop. -/
def State.Stopped (w : State) : Prop :=
  w.reader = .idle ∧ w.dropping = none ∧ w.processing = .idle

/-- What `send` may return for so many bytes. -/
def Possible (wBufferPtr : ℕ) : SendResult → Prop
  | .sent bytes => 1 ≤ bytes ∧ bytes ≤ wBufferPtr
  | .socketError _ => True

/-! ## Along a queue -/

/-- The `i`-th entry from `qe` on, if the queue goes so far. -/
def entryFrom (s : Store) : ℕ → Ptr → Except Stop Ptr
  | _, none => .ok none
  | 0, some a => .ok (some a)
  | i + 1, some a => do
    let e ← heap (s.queueEntries.load (some a))
    entryFrom s i e.next

/-- The `i`-th connection, and the pointer to it. -/
def connectionAt (s : Store) (i : ℕ) : Except Stop (Option (Ptr × Connection)) := do
  let qe ← entryFrom s i s.connections.head
  if qe ≠ none then do
    let e ← heap (s.queueEntries.load qe)
    let p := e.ref
    heap (assertThat (p ≠ none))
    let conn ← heap (s.connectionBlocks.load p)
    .ok (some (p, conn))
  else .ok none

/-- A client with the socket is connected. -/
def HasClient (s : Store) (socket : Socket) : Prop :=
  ∃ i p conn, connectionAt s i = .ok (some (p, conn)) ∧ conn.socket = socket

/-! ## What the threads do -/

namespace State

variable (rt : Runtime) (w : State)

/-- `read_in_socket` on the `i`-th connection, up to the loop of `read_data_from_in_buffer`. -/
def recvIn (i : ℕ) (r : RecvResult) : Except Stop State := do
  match ← connectionAt w.store i with
  | none => .ok w
  | some (p, _) =>
    let (ok, s) ← receiveIn rt p r w.store
    .ok { w with store := s, reader := if ok then .puttingIn p s.pdus.head else .idle }

/-- `read_out_socket`, up to the loop of `read_data_from_out_buffer`. -/
def recvOut (r : RecvResult) : Except Stop State := do
  let (ok, s) ← receiveOut rt r w.store
  .ok { w with store := s, reader := if ok then .puttingOut s.pdus.head else .idle }

def insert (socket : Socket) : Except Stop State := do
  let s ← insertConnection rt socket w.store
  .ok { w with store := s, reader := .idle }

def putIn (clientConnection : Ptr) (qe : Addr) : Except Stop State := do
  let (next, s) ← readInRound rt clientConnection qe w.store
  .ok { w with store := s, reader := .puttingIn clientConnection next }

def putOut (qe : Addr) : Except Stop State := do
  let (next, s) ← readOutRound rt qe w.store
  .ok { w with store := s, reader := .puttingOut next }

def loadOut : Except Stop State := do
  let s ← writeDataToOutBuffer w.store
  .ok { w with store := s }

def sendOut (r : SendResult) : Except Stop State := do
  let (_, _, s) ← writeDataOut r w.store
  .ok { w with store := s }

/-- `write_data_to_in_buffer` on the `i`-th connection. -/
def loadIn (i : ℕ) : Except Stop State := do
  let qeConn ← entryFrom w.store i w.store.connections.head
  if qeConn ≠ none then
    let s ← loadConnection qeConn w.store
    .ok { w with store := s }
  else .ok w

/-- `write_in_socket` on the `i`-th connection. -/
def sendIn (i : ℕ) (r : SendResult) : Except Stop State := do
  match ← connectionAt w.store i with
  | none => .ok w
  | some (p, _) =>
    let (_, _, s) ← writeDataIn p r w.store
    .ok { w with store := s }

/-- `free_w_in_messages_mapped_to_invalid_sockets` on the `i`-th message. -/
def sweep (i : ℕ) : Except Stop State := do
  match ← entryFrom w.store i w.store.wInMessages.head with
  | none => .ok w
  | some qeMsg =>
    let (_, s) ← freeWInMessagesRound qeMsg w.store
    .ok { w with store := s }

/-- `shutdown_connection` of the `i`-th connection. -/
def drop (t : Thread) (i : ℕ) (closed : Bool) : Except Stop State := do
  match ← connectionAt w.store i with
  | none => .ok w
  | some (_, conn) =>
    .ok { w with
      opened := if closed then w.opened.filter (· != conn.socket) else w.opened
      dropping := some ⟨t, conn.socket, false⟩ }

def unmap (t : Thread) (socket : Socket) : Except Stop State := do
  let s ← removeAllMappingsFor socket w.store
  .ok { w with store := s, dropping := some ⟨t, socket, true⟩ }

def unlink (socket : Socket) : Except Stop State := do
  let s ← unlinkConnection socket w.store
  .ok { w with store := s, dropping := none }

def takeIn : Except Stop State := do
  let (r, s) ← takeRInMessage rt w.store
  .ok { w with store := s, processing := if r ≠ none then .taken r else .idle }

def mapRequest (r : Ptr) : Except Stop State := do
  let (decodedInPdu, s) ← Memory.mapRequest rt r w.store
  .ok { w with store := s, processing := .mapped r decodedInPdu }

def forward (r : Ptr) (decodedInPdu : InputType) : Except Stop State := do
  let s ← forwardRequest rt r decodedInPdu w.store
  .ok { w with store := s, processing := .idle }

def takeOut : Except Stop State := do
  let (p, s) ← takeROutMessage rt w.store
  .ok { w with store := s, processing := if p ≠ none then .response p else .idle }

def deliver (p : Ptr) : Except Stop State := do
  let s ← deliverResponse rt p w.store
  .ok { w with store := s, processing := .idle }

def cleanup (closed : Socket → Bool) : Except Stop State := do
  let s ← Memory.cleanup w.store
  .ok { w with store := s, opened := w.opened.filter (!closed ·) }

end State

inductive Action
  | accept (s : Socket)
  | insert
  | recvIn (i : ℕ) (r : RecvResult)
  | putIn
  | readInDone
  | recvOut (r : RecvResult)
  | putOut
  | readOutDone
  | loadOut
  | sendOut (r : SendResult)
  | loadIn (i : ℕ)
  | sendIn (i : ℕ) (r : SendResult)
  | sweep (i : ℕ)
  | drop (t : Thread) (i : ℕ) (closed : Bool)
  | unmap
  | unlink
  | connect (s : Socket)
  | takeIn
  | mapRequest
  | forward
  | takeOut
  | deliver
  | cleanup (closed : Socket → Bool)

/-- One step of a thread, or of the network: the state it leads to, or how it ends the program. -/
inductive Step : State → Action → Except Stop State → Prop
  /-- `accept` returns a handle that is not open. -/
  | accept (w s) : w.reader = .idle → ¬w.Drops .reader → 0 < s → s ∉ w.opened →
      Step w (.accept s) (.ok { w with opened := s :: w.opened, reader := .accepted s })
  | insert (w rt s) : w.reader = .accepted s → w.dropping = none →
      Step w .insert (w.insert rt s)
  /-- `recv` returns no more than is asked for. -/
  | recvIn (w rt i r) : w.reader = .idle → w.ConnectionsFree →
      (∀ p conn, connectionAt w.store i = .ok (some (p, conn)) →
        r.data.length ≤ bufferKsize - conn.rBufferPtr) → Step w (.recvIn i r) (w.recvIn rt i r)
  | putIn (w rt p qe) : w.reader = .puttingIn p (some qe) → Step w .putIn (w.putIn rt p qe)
  | readInDone (w p) : w.reader = .puttingIn p none →
      Step w .readInDone (.ok { w with reader := .idle })
  | recvOut (w rt r) : w.reader = .idle → ¬w.Drops .reader →
      r.data.length ≤ bufferKsize - w.store.outConnection.rBufferPtr →
      Step w (.recvOut r) (w.recvOut rt r)
  | putOut (w rt qe) : w.reader = .puttingOut (some qe) → Step w .putOut (w.putOut rt qe)
  | readOutDone (w) : w.reader = .puttingOut none →
      Step w .readOutDone (.ok { w with reader := .idle })
  | loadOut (w) : ¬w.Drops .writer → Step w .loadOut w.loadOut
  | sendOut (w r) : ¬w.Drops .writer →
      (0 < w.store.outConnection.wBufferPtr → Possible w.store.outConnection.wBufferPtr r) →
      Step w (.sendOut r) (w.sendOut r)
  | loadIn (w i) : w.ConnectionsFree → Step w (.loadIn i) (w.loadIn i)
  | sendIn (w i r) : w.ConnectionsFree →
      (∀ p conn, connectionAt w.store i = .ok (some (p, conn)) → 0 < conn.wBufferPtr →
        Possible conn.wBufferPtr r) → Step w (.sendIn i r) (w.sendIn i r)
  | sweep (w i) : w.ConnectionsFree → Step w (.sweep i) (w.sweep i)
  /-- A client is shut down; its handle is closed unless `shutdown` fails. -/
  | drop (w t i closed) : (t = .reader → w.reader = .idle) → w.ConnectionsFree →
      Step w (.drop t i closed) (w.drop t i closed)
  | unmap (w t s) : w.dropping = some ⟨t, s, false⟩ → Step w .unmap (w.unmap t s)
  | unlink (w t s) : w.dropping = some ⟨t, s, true⟩ → Step w .unlink (w.unlink s)
  /-- `connect_to_output`. -/
  | connect (w s) : w.processing = .idle → Step w (.connect s) (.ok { w with
      store := { w.store with outConnection := { w.store.outConnection with socket := s } } })
  | takeIn (w rt) : w.processing = .idle → Step w .takeIn (w.takeIn rt)
  | mapRequest (w rt r) : w.processing = .taken r → Step w .mapRequest (w.mapRequest rt r)
  | forward (w rt r q) : w.processing = .mapped r q → Step w .forward (w.forward rt r q)
  | takeOut (w rt) : w.processing = .idle → Step w .takeOut (w.takeOut rt)
  | deliver (w rt p) : w.processing = .response p → Step w .deliver (w.deliver rt p)
  /-- `cleanup`, which closes the handles of clients unless `shutdown` fails. -/
  | cleanup (w closed) : w.Stopped → (∀ s, closed s → HasClient w.store s) →
      Step w (.cleanup closed) (w.cleanup closed)

/-- A step that does not end the program. -/
def Goes (w : State) (a : Action) (w' : State) : Prop := Step w a (.ok w')

end Muxer.Memory
