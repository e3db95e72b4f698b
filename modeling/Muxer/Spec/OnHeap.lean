import Muxer.Spec.Queue
import Muxer.Spec.State

/-!
# Removing while iterating (`mapping.c`, `dispatcher.c`, `message.c`)

The two loops that take entries out of the queue they go along, on the heap: a block of memory for
each type of object. They give, next to the new state, the entries their rounds were for. The
critical sections they run in, and the counts they log, are left out.
-/

namespace Muxer.OnHeap

open Lib

/-- `in_message_t`, with its PDU on the heap. -/
structure InMessageBlock where
  socket : Socket
  pdu : Ptr

/-- The queues, and the heap by type. -/
structure Globals where
  wInMessages : Queue
  connections : Queue
  socketToRecvUnicastMsg : Queue
  socketToRecvMulticastMsg : Queue
  queueEntries : Heap QueueEntry
  mappingBlocks : Heap (Mapping Unit)
  connectionBlocks : Heap Connection
  inMessageBlocks : Heap InMessageBlock
  pduBlocks : Heap Pdu

/-- The start: nothing allocated, every queue empty. -/
def Globals.start : Globals where
  wInMessages := .empty
  connections := .empty
  socketToRecvUnicastMsg := .empty
  socketToRecvMulticastMsg := .empty
  queueEntries := .empty
  mappingBlocks := .empty
  connectionBlocks := .empty
  inMessageBlocks := .empty
  pduBlocks := .empty

/-- `free_socket_invokeid_mapping`. -/
def freeSocketInvokeidMapping (p : Ptr) (mappings : Heap (Mapping Unit)) :
    Except Trap (Heap (Mapping Unit)) :=
  if p ≠ none then mappings.free p else .ok mappings

/-- A round of the loop of `REMOVE_MAPPINGS`, for `qe`. -/
def removeMappingsRound (socket : Socket) (qe : Addr) :
    Queue × Heap QueueEntry × Heap (Mapping Unit) →
      Except Trap (Ptr × Queue × Heap QueueEntry × Heap (Mapping Unit))
  | (q, entries, mappings) => do
    let e ← entries.load (some qe)
    let p := e.ref
    assertThat (p ≠ none)
    let mapping ← mappings.load p
    if mapping.socket = socket then
      let entries ← entries.update (some qe) fun e => { e with ref := none }
      let e ← entries.load (some qe)
      let (q, entries) ← qFree q (some qe) entries
      let mappings ← freeSocketInvokeidMapping p mappings
      .ok (e.next, q, entries, mappings)
    else .ok (e.next, q, entries, mappings)

/-- `REMOVE_MAPPINGS`, of the queue `q`. -/
def removeMappings (q : Queue) (socket : Socket) (entries : Heap QueueEntry)
    (mappings : Heap (Mapping Unit)) :
    Except Trap (List Addr × Queue × Heap QueueEntry × Heap (Mapping Unit)) :=
  whileSome (removeMappingsRound socket) entries.size q.head (q, entries, mappings)

/-- `remove_socket_to_recv_unicast_msg_mappings_for`. -/
def removeSocketToRecvUnicastMsgMappingsFor (socket : Socket) (g : Globals) :
    Except Trap (List Addr × Globals) := do
  let (visited, q, entries, mappings) ←
    removeMappings g.socketToRecvUnicastMsg socket g.queueEntries g.mappingBlocks
  .ok (visited, { g with
    socketToRecvUnicastMsg := q, queueEntries := entries, mappingBlocks := mappings })

/-- `remove_socket_to_recv_multicast_msg_mappings_for`. -/
def removeSocketToRecvMulticastMsgMappingsFor (socket : Socket) (g : Globals) :
    Except Trap (List Addr × Globals) := do
  let (visited, q, entries, mappings) ←
    removeMappings g.socketToRecvMulticastMsg socket g.queueEntries g.mappingBlocks
  .ok (visited, { g with
    socketToRecvMulticastMsg := q, queueEntries := entries, mappingBlocks := mappings })

/-- `remove_all_mappings_for`. -/
def removeAllMappingsFor (socket : Socket) (g : Globals) : Except Trap Globals := do
  let (_, g) ← removeSocketToRecvUnicastMsgMappingsFor socket g
  let (_, g) ← removeSocketToRecvMulticastMsgMappingsFor socket g
  .ok g

/-- `free_in_message`, with `free_pdu`. -/
def freeInMessage (msg : Ptr) (messages : Heap InMessageBlock) (pdus : Heap Pdu) :
    Except Trap (Heap InMessageBlock × Heap Pdu) :=
  if msg ≠ none then do
    let b ← messages.load msg
    let (messages, pdus) ← if b.pdu ≠ none then do
        let pdus ← pdus.free b.pdu
        let messages ← messages.update msg fun b => { b with pdu := none }
        .ok (messages, pdus)
      else .ok (messages, pdus)
    let messages ← messages.free msg
    .ok (messages, pdus)
  else .ok (messages, pdus)

/-- A round of the loop over the connections, for `qeConn`, that looks for the socket of the
message `r` and is left with `break` where it meets it. -/
def existsAssocSocketRound (g : Globals) (r : Ptr) (qeConn : Addr) (existsAssocSocket : Bool) :
    Except Trap (Ptr × Bool) := do
  let e ← g.queueEntries.load (some qeConn)
  let p := e.ref
  assertThat (p ≠ none)
  let conn ← g.connectionBlocks.load p
  assertThat (conn.wBufferPtr ≤ bufferKsize)
  let msg ← g.inMessageBlocks.load r
  if msg.socket = conn.socket then .ok (none, true)
  else .ok (e.next, existsAssocSocket)

/-- A round of the loop of `free_w_in_messages_mapped_to_invalid_sockets`, for `qeMsg`. -/
def freeWInMessagesRound (qeMsg : Addr) (g : Globals) : Except Trap (Ptr × Globals) := do
  let e ← g.queueEntries.load (some qeMsg)
  let r := e.ref
  assertThat (r ≠ none)
  let (_, existsAssocSocket) ← whileSome (existsAssocSocketRound g r) g.queueEntries.size
    g.connections.head false
  let e ← g.queueEntries.load (some qeMsg)
  if existsAssocSocket ≠ true then
    let (q, entries) ← qFree g.wInMessages (some qeMsg) g.queueEntries
    let (messages, pdus) ← freeInMessage r g.inMessageBlocks g.pduBlocks
    .ok (e.next, { g with
      wInMessages := q, queueEntries := entries, inMessageBlocks := messages, pduBlocks := pdus })
  else .ok (e.next, g)

/-- `free_w_in_messages_mapped_to_invalid_sockets`. -/
def freeWInMessagesMappedToInvalidSockets (g : Globals) : Except Trap (List Addr × Globals) :=
  whileSome freeWInMessagesRound g.queueEntries.size g.wInMessages.head g

end Muxer.OnHeap
