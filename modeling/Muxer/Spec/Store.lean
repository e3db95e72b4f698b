import Muxer.Lib.Loop
import Muxer.Spec.OnHeap

/-!
# All the muxer has in memory (`message.c`, `mapping.c`, `connection.c`, `pdu.c`)

The queues, and what they are filled with, as they lie on the heap: a block of memory for each
message, PDU, mapping, connection and queue entry. `memalloc` gives any address that is not
allocated. What is only logged is left out.
-/

namespace Muxer.Memory

open Lib OnHeap

/-- What `malloc` and `time` give. -/
structure Runtime where
  addr : {α : Type} → Heap α → Addr
  fresh : ∀ {α : Type} (h : Heap α), h.get (addr h) = none
  time : ℤ

/-- What ends the program: something the heap does not allow or a failed assertion on what lies
there, or a fault of the code on values. -/
inductive Stop
  | trap (t : Trap)
  | fault (f : Fault)
deriving DecidableEq, Repr

/-- What is done to the heap. -/
def heap {α : Type} : Except Trap α → Except Stop α
  | .ok a => .ok a
  | .error t => .error (.trap t)

/-- What is done to values. -/
def code {α : Type} : Except Fault α → Except Stop α
  | .ok a => .ok a
  | .error f => .error (.fault f)

/-- `out_message_t`, with its PDU on the heap. -/
structure OutMessageBlock where
  pdu : Ptr

/-- The queues: the global ones, and the local `pdus` of `read_data_from_in_buffer` and
`read_data_from_out_buffer`. -/
inductive QueueName
  | rInMessages
  | wInMessages
  | rOutMessages
  | wOutMessages
  | connections
  | socketToRecvUnicastMsg
  | socketToRecvMulticastMsg
  | pdus
deriving DecidableEq, Repr

/-- The queues, the heap by type, and the other globals. -/
structure Store extends Globals where
  rInMessages : Queue
  rOutMessages : Queue
  wOutMessages : Queue
  pdus : Queue
  outMessageBlocks : Heap OutMessageBlock
  invokeidGenCounter : UInt64
  outConnection : Connection

/-- The start: nothing allocated, every queue empty. -/
def Store.start : Store where
  toGlobals := .start
  rInMessages := .empty
  rOutMessages := .empty
  wOutMessages := .empty
  pdus := .empty
  outMessageBlocks := .empty
  invokeidGenCounter := 0
  outConnection := Muxer.allocConnection 0

def Store.queue (s : Store) : QueueName → Queue
  | .rInMessages => s.rInMessages
  | .wInMessages => s.wInMessages
  | .rOutMessages => s.rOutMessages
  | .wOutMessages => s.wOutMessages
  | .connections => s.connections
  | .socketToRecvUnicastMsg => s.socketToRecvUnicastMsg
  | .socketToRecvMulticastMsg => s.socketToRecvMulticastMsg
  | .pdus => s.pdus

def Store.setQueue (s : Store) (q : Queue) : QueueName → Store
  | .rInMessages => { s with rInMessages := q }
  | .wInMessages => { s with wInMessages := q }
  | .rOutMessages => { s with rOutMessages := q }
  | .wOutMessages => { s with wOutMessages := q }
  | .connections => { s with connections := q }
  | .socketToRecvUnicastMsg => { s with socketToRecvUnicastMsg := q }
  | .socketToRecvMulticastMsg => { s with socketToRecvMulticastMsg := q }
  | .pdus => { s with pdus := q }

variable (rt : Runtime)

/-! ## Queues -/

/-- `q_alloc`. -/
def qAlloc (p : Ptr) (s : Store) : Except Stop (Ptr × Store) := do
  let (qe, entries) ← heap (Muxer.qAlloc p (rt.addr s.queueEntries) s.queueEntries)
  .ok (qe, { s with queueEntries := entries })

/-- `q_put`. -/
def qPut (k : QueueName) (qe : Ptr) (s : Store) : Except Stop Store := do
  let (_, q, entries) ← heap (Muxer.qPut (s.queue k) qe rt.time s.queueEntries)
  .ok ({ s with queueEntries := entries }.setQueue q k)

/-- `q_get`. -/
def qGet (k : QueueName) (s : Store) : Except Stop (Ptr × Store) := do
  let (qe, q) ← heap (Muxer.qGet (s.queue k) s.queueEntries)
  .ok (qe, s.setQueue q k)

/-- `q_free`. -/
def qFree (k : QueueName) (qe : Ptr) (s : Store) : Except Stop Store := do
  let (q, entries) ← heap (Muxer.qFree (s.queue k) qe s.queueEntries)
  .ok ({ s with queueEntries := entries }.setQueue q k)

/-- `qe->ref = NULL`. -/
def clearRef (qe : Ptr) (s : Store) : Except Stop Store := do
  let entries ← heap (s.queueEntries.update qe fun e => { e with ref := none })
  .ok { s with queueEntries := entries }

/-- A `while` loop along a queue, from `qe` on. -/
def along {σ : Type} (round : Addr → σ → Except Stop (Ptr × σ)) (s : Store) (qe : Ptr) (x : σ) :
    Except Stop σ :=
  whilePtr (.trap .endless) round s.queueEntries.size qe x

/-! ## PDUs -/

/-- `memalloc(sizeof(pdu_t))`, with what is copied into it. -/
def newPdu (pdu : Pdu) (s : Store) : Ptr × Store :=
  (some (rt.addr s.pduBlocks), { s with pduBlocks := s.pduBlocks.set (rt.addr s.pduBlocks) pdu })

/-- `free_pdu`. -/
def freePdu (pdu : Ptr) (s : Store) : Except Stop Store := do
  let pdus ← heap (s.pduBlocks.free pdu)
  .ok { s with pduBlocks := pdus }

/-- The `while` loop of `read_pdus_from_recv_buffer`, which puts what it allocates into `pdus`. -/
def readPdusLoop {n : ℕ} (usHLen : ℕ) (recvbuf : Buffer n) (recvbufptr : ℕ) (s : Store) :
    Except Stop (Buffer n × ℕ × Store) :=
  if pduHeaderLength ≤ recvbufptr ∧ (0 < usHLen ∧ usHLen ≤ recvbufptr - pduHeaderLength) then do
    let pdu ← code ((recvbuf.read pduHeaderLength usHLen) >>= copyIntoPdu)
    let (recvPdu, s) := newPdu rt pdu s
    let ptr := recvbufptr - (usHLen + pduHeaderLength)
    let rest ← code (recvbuf.read (usHLen + pduHeaderLength) ptr)
    let recvbuf ← code (recvbuf.write 0 rest)
    code (cAssert (ptr ≤ n))
    let (newQueueEntry, s) ← qAlloc rt recvPdu s
    let s ← qPut rt .pdus newQueueEntry s
    if pduHeaderLength ≤ ptr then do
      let usHLen ← code (ntohs <$> recvbuf.read 0 pduHeaderLength)
      code (cAssert (usHLen ≤ n - pduHeaderLength))
      readPdusLoop usHLen recvbuf ptr s
    else .ok (recvbuf, ptr, s)
  else .ok (recvbuf, recvbufptr, s)
termination_by recvbufptr
decreasing_by simp only [pduHeaderLength] at *; omega

/-- `read_pdus_from_recv_buffer`. -/
def readPdusFromRecvBuffer {n : ℕ} (recvbuf : Buffer n) (recvbufptr : ℕ) (s : Store) :
    Except Stop (Buffer n × ℕ × Store) := do
  code (cAssert (recvbufptr ≤ n))
  if recvbufptr < pduHeaderLength then .ok (recvbuf, recvbufptr, s)
  else
    let usHLen ← code (ntohs <$> recvbuf.read 0 pduHeaderLength)
    code (cAssert (usHLen ≤ n - pduHeaderLength))
    readPdusLoop rt usHLen recvbuf recvbufptr s

/-! ## Messages -/

/-- `alloc_in_message`. -/
def allocInMessage (socket : Socket) (pdu : Ptr) (s : Store) : Except Stop (Ptr × Store) := do
  heap (assertThat (0 < socket))
  heap (assertThat (pdu ≠ none))
  let a := rt.addr s.inMessageBlocks
  .ok (some a, { s with inMessageBlocks := s.inMessageBlocks.set a ⟨socket, pdu⟩ })

/-- `alloc_out_message`. -/
def allocOutMessage (pdu : Ptr) (s : Store) : Except Stop (Ptr × Store) := do
  heap (assertThat (pdu ≠ none))
  let a := rt.addr s.outMessageBlocks
  .ok (some a, { s with outMessageBlocks := s.outMessageBlocks.set a ⟨pdu⟩ })

/-- `free_in_message`. -/
def freeInMessage (msg : Ptr) (s : Store) : Except Stop Store := do
  let (messages, pdus) ← heap (OnHeap.freeInMessage msg s.inMessageBlocks s.pduBlocks)
  .ok { s with inMessageBlocks := messages, pduBlocks := pdus }

/-- `free_out_message`. -/
def freeOutMessage (msg : Ptr) (s : Store) : Except Stop Store :=
  if msg ≠ none then do
    let b ← heap (s.outMessageBlocks.load msg)
    let s ← if b.pdu ≠ none then do
        let s ← freePdu b.pdu s
        let blocks ← heap (s.outMessageBlocks.update msg fun b => { b with pdu := none })
        .ok { s with outMessageBlocks := blocks }
      else .ok s
    let blocks ← heap (s.outMessageBlocks.free msg)
    .ok { s with outMessageBlocks := blocks }
  else .ok s

/-- The loop of `FREE_Q_MESSAGES`. -/
def freeMessagesLoop (k : QueueName) (freeMessage : Ptr → Store → Except Stop Store) :
    ℕ → Store → Except Stop Store
  | 0, s => if (s.queue k).head ≠ none then .error (.trap .endless) else .ok s
  | n + 1, s =>
    if (s.queue k).head ≠ none then do
      let (qe, s) ← qGet k s
      let s ← if qe ≠ none then do
          let e ← heap (s.queueEntries.load qe)
          let tmp := e.ref
          heap (assertThat (tmp ≠ none))
          let s ← qFree k qe s
          freeMessage tmp s
        else .ok s
      freeMessagesLoop k freeMessage n s
    else .ok s

/-- `FREE_Q_MESSAGES`. -/
def freeMessages (k : QueueName) (freeMessage : Ptr → Store → Except Stop Store) (s : Store) :
    Except Stop Store :=
  freeMessagesLoop k freeMessage s.queueEntries.size s

/-- `free_r_in_messages`. -/
def freeRInMessages : Store → Except Stop Store := freeMessages .rInMessages freeInMessage

/-- `free_w_in_messages`. -/
def freeWInMessages : Store → Except Stop Store := freeMessages .wInMessages freeInMessage

/-- `free_r_out_messages`. -/
def freeROutMessages : Store → Except Stop Store := freeMessages .rOutMessages freeOutMessage

/-- `free_w_out_messages`. -/
def freeWOutMessages : Store → Except Stop Store := freeMessages .wOutMessages freeOutMessage

/-- `remove_all_messages`. -/
def removeAllMessages (s : Store) : Except Stop Store := do
  let s ← freeRInMessages s
  let s ← freeWInMessages s
  let s ← freeROutMessages s
  freeWOutMessages s

/-! ## Mappings -/

/-- `alloc_socket_invokeid_mapping`. -/
def allocSocketInvokeidMapping (socket : Socket) (invokeidOriginal invokeidGenerated : UInt64)
    (s : Store) : Except Stop (Ptr × Store) := do
  heap (assertThat (0 < socket))
  let a := rt.addr s.mappingBlocks
  .ok (some a, { s with
    mappingBlocks := s.mappingBlocks.set a ⟨socket, invokeidOriginal, invokeidGenerated, ()⟩ })

/-- `free_socket_invokeid_mapping`. -/
def freeSocketInvokeidMapping (p : Ptr) (s : Store) : Except Stop Store := do
  let mappings ← heap (OnHeap.freeSocketInvokeidMapping p s.mappingBlocks)
  .ok { s with mappingBlocks := mappings }

/-- `remove_all_mappings_for`. -/
def removeAllMappingsFor (socket : Socket) (s : Store) : Except Stop Store := do
  let g ← heap (OnHeap.removeAllMappingsFor socket s.toGlobals)
  .ok { s with toGlobals := g }

/-- A round of the loop of `remove_all_mappings`, for `qe_connections`. -/
def removeAllMappingsRound (qeConnections : Addr) (s : Store) : Except Stop (Ptr × Store) := do
  let e ← heap (s.queueEntries.load (some qeConnections))
  let r := e.ref
  heap (assertThat (r ≠ none))
  let conn ← heap (s.connectionBlocks.load r)
  let s ← removeAllMappingsFor conn.socket s
  -- `qe_connections->next` was read before
  .ok (e.next, s)

/-- `remove_all_mappings`. -/
def removeAllMappings (s : Store) : Except Stop Store :=
  along removeAllMappingsRound s s.connections.head s

/-! ## Connections -/

/-- `alloc_connection`. -/
def allocConnection (socket : Socket) (s : Store) : Except Stop (Ptr × Store) := do
  heap (assertThat (0 < socket))
  let a := rt.addr s.connectionBlocks
  .ok (some a, { s with
    connectionBlocks := s.connectionBlocks.set a (Muxer.allocConnection socket) })

/-- `free_connection`. -/
def freeConnection (p : Ptr) (s : Store) : Except Stop Store :=
  if p ≠ none then do
    let blocks ← heap (s.connectionBlocks.free p)
    .ok { s with connectionBlocks := blocks }
  else .ok s

/-- A round of the loop of `remove_connection`, for `qe`, with `removeMappings` in the place of
`remove_all_mappings_for`. -/
def removeConnectionRound (removeMappings : Socket → Store → Except Stop Store) (socket : Socket)
    (qe : Addr) : ℕ × Store → Except Stop (Ptr × ℕ × Store)
  | (count, s) => do
    let e ← heap (s.queueEntries.load (some qe))
    let p := e.ref
    heap (assertThat (p ≠ none))
    let conn ← heap (s.connectionBlocks.load p)
    if conn.socket = socket then
      let s ← removeMappings conn.socket s
      let s ← clearRef (some qe) s
      let e ← heap (s.queueEntries.load (some qe))
      let s ← qFree .connections (some qe) s
      let s ← freeConnection p s
      .ok (e.next, count + 1, s)
    else .ok (e.next, count, s)

/-- `remove_connection`, with `removeMappings` in the place of `remove_all_mappings_for`. -/
def removeConnectionWith (removeMappings : Socket → Store → Except Stop Store) (socket : Socket)
    (s : Store) : Except Stop Store := do
  let (count, s) ←
    along (removeConnectionRound removeMappings socket) s s.connections.head (0, s)
  heap (assertThat (count ≤ 1))
  .ok s

/-- `remove_connection`. -/
def removeConnection (socket : Socket) (s : Store) : Except Stop Store :=
  removeConnectionWith removeAllMappingsFor socket s

/-- The rest of `remove_connection`, once `remove_all_mappings_for` has returned. -/
def unlinkConnection (socket : Socket) (s : Store) : Except Stop Store :=
  removeConnectionWith (fun _ => .ok) socket s

/-- A round of the loop of `remove_all_connections`, for `qe_connections`. -/
def removeAllConnectionsRound (qeConnections : Addr) (s : Store) : Except Stop (Ptr × Store) := do
  let e ← heap (s.queueEntries.load (some qeConnections))
  let r := e.ref
  heap (assertThat (r ≠ none))
  let conn ← heap (s.connectionBlocks.load r)
  let s ← removeConnection conn.socket s
  -- `qe_connections->next` was read before
  .ok (e.next, s)

/-- `remove_all_connections`. -/
def removeAllConnections (s : Store) : Except Stop Store :=
  along removeAllConnectionsRound s s.connections.head s

end Muxer.Memory
