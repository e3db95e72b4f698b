import Muxer.Spec.Dispatcher
import Muxer.Spec.Protocol
import Muxer.Spec.Store

/-!
# What the threads do with it (`protocol.c`, `dispatcher.c`)

The functions of the three threads and of `thread_cleanup`, with the pointers they hold. Each
definition is one critical section of the source, or one round of a loop within one.
-/

namespace Muxer.Memory

open Lib OnHeap

variable (rt : Runtime)

/-! ## The reader -/

/-- `read_listener_socket`, once `accept` has returned the socket. -/
def insertConnection (socket : Socket) (s : Store) : Except Stop Store := do
  let (newConnection, s) ← allocConnection rt socket s
  let (newQe, s) ← qAlloc rt newConnection s
  qPut rt .connections newQe s

/-- `read_data` of a client's connection. -/
def readDataIn (p : Ptr) (r : RecvResult) (s : Store) : Except Stop (Bool × Store) := do
  let conn ← heap (s.connectionBlocks.load p)
  let (ok, conn) ← code (readData conn r)
  let blocks ← heap (s.connectionBlocks.update p fun _ => conn)
  .ok (ok, { s with connectionBlocks := blocks })

/-- `read_data(&out_connection)`. -/
def readDataOut (r : RecvResult) (s : Store) : Except Stop (Bool × Store) := do
  let (ok, conn) ← code (readData s.outConnection r)
  .ok (ok, { s with outConnection := conn })

/-- `read_data_from_in_buffer` up to its loop. The entries that an earlier call left in its `pdus`
are not reached any more. -/
def readDataFromInBuffer (clientConnection : Ptr) (s : Store) : Except Stop Store := do
  let s := s.setQueue .empty .pdus
  let conn ← heap (s.connectionBlocks.load clientConnection)
  let (rBuffer, rBufferPtr, s) ← readPdusFromRecvBuffer rt conn.rBuffer conn.rBufferPtr s
  let blocks ← heap (s.connectionBlocks.update clientConnection fun conn =>
    { conn with rBuffer := rBuffer, rBufferPtr := rBufferPtr })
  .ok { s with connectionBlocks := blocks }

/-- `read_data_from_out_buffer` up to its loop. -/
def readDataFromOutBuffer (s : Store) : Except Stop Store := do
  let s := s.setQueue .empty .pdus
  let (rBuffer, rBufferPtr, s) ←
    readPdusFromRecvBuffer rt s.outConnection.rBuffer s.outConnection.rBufferPtr s
  .ok { s with outConnection :=
    { s.outConnection with rBuffer := rBuffer, rBufferPtr := rBufferPtr } }

/-- `read_in_socket` up to the loop of `read_data_from_in_buffer`. -/
def receiveIn (p : Ptr) (r : RecvResult) (s : Store) : Except Stop (Bool × Store) := do
  let (ok, s) ← readDataIn p r s
  if ok then
    let s ← readDataFromInBuffer rt p s
    .ok (true, s)
  else .ok (false, s)

/-- `read_out_socket` up to the loop of `read_data_from_out_buffer`. -/
def receiveOut (r : RecvResult) (s : Store) : Except Stop (Bool × Store) := do
  let (ok, s) ← readDataOut r s
  if ok then
    let s ← readDataFromOutBuffer rt s
    .ok (true, s)
  else .ok (false, s)

/-- A round of the loop of `read_data_from_in_buffer`, for `qe`. -/
def readInRound (clientConnection : Ptr) (qe : Addr) (s : Store) : Except Stop (Ptr × Store) := do
  let e ← heap (s.queueEntries.load (some qe))
  let p := e.ref
  let conn ← heap (s.connectionBlocks.load clientConnection)
  let (newClientMessage, s) ← allocInMessage rt conn.socket p s
  let (newQueueEntry, s) ← qAlloc rt newClientMessage s
  let s ← qPut rt .rInMessages newQueueEntry s
  let e ← heap (s.queueEntries.load (some qe))
  .ok (e.next, s)

/-- A round of the loop of `read_data_from_out_buffer`, for `qe`. -/
def readOutRound (qe : Addr) (s : Store) : Except Stop (Ptr × Store) := do
  let e ← heap (s.queueEntries.load (some qe))
  let p := e.ref
  let (newOutMessage, s) ← allocOutMessage rt p s
  let (newQueueEntry, s) ← qAlloc rt newOutMessage s
  let s ← qPut rt .rOutMessages newQueueEntry s
  let e ← heap (s.queueEntries.load (some qe))
  .ok (e.next, s)

/-! ## The processing thread -/

/-- `copy_pdu`: the copy. -/
def copyPdu (src : Ptr) (s : Store) : Except Stop (Ptr × Store) := do
  let pdu ← heap (s.pduBlocks.load src)
  .ok (newPdu rt pdu s)

/-- `copy_in_message`: the copy. -/
def copyInMessage (src : Ptr) (s : Store) : Except Stop (Ptr × Store) := do
  heap (assertThat (src ≠ none))
  let msg ← heap (s.inMessageBlocks.load src)
  let (recvPdu, s) ← copyPdu rt msg.pdu s
  let msg ← heap (s.inMessageBlocks.load src)
  allocInMessage rt msg.socket recvPdu s

/-- `copy_out_message`: the copy. -/
def copyOutMessage (src : Ptr) (s : Store) : Except Stop (Ptr × Store) := do
  heap (assertThat (src ≠ none))
  let msg ← heap (s.outMessageBlocks.load src)
  let (recvPdu, s) ← copyPdu rt msg.pdu s
  allocOutMessage rt recvPdu s

/-- The beginning of `process_incoming_in_messages`: a copy of the message taken from
`r_in_messages`, if there is one. -/
def takeRInMessage (s : Store) : Except Stop (Ptr × Store) := do
  let (mQe, s) ← qGet .rInMessages s
  if mQe ≠ none then
    let e ← heap (s.queueEntries.load mQe)
    let tmp := e.ref
    heap (assertThat (tmp ≠ none))
    let s ← qFree .rInMessages mQe s
    let (r, s) ← copyInMessage rt tmp s
    let s ← freeInMessage tmp s
    .ok (r, s)
  else .ok (none, s)

/-- `put_into_socket_to_recv_unicast_msg`. -/
def putIntoSocketToRecvUnicastMsg (socket : Socket) (invokeid : UInt64) (pdu : Ptr) (s : Store) :
    Except Stop Store := do
  heap (assertThat (pdu ≠ none))
  let s := { s with invokeidGenCounter := generateInvokeid s.invokeidGenCounter }
  let (newMapping, s) ← allocSocketInvokeidMapping rt socket invokeid s.invokeidGenCounter s
  let (newQueueEntry, s) ← qAlloc rt newMapping s
  qPut rt .socketToRecvUnicastMsg newQueueEntry s

/-- What follows in `process_incoming_in_messages`: the message decoded, and mapped. -/
def mapRequest (r : Ptr) (s : Store) : Except Stop (InputType × Store) := do
  let msg ← heap (s.inMessageBlocks.load r)
  let pdu ← heap (s.pduBlocks.load msg.pdu)
  match ← code (decodeInPdu pdu) with
  | (_, some decodedInPdu) =>
    let s ← putIntoSocketToRecvUnicastMsg rt msg.socket decodedInPdu.invokeid.toUInt64 msg.pdu s
    .ok (decodedInPdu, s)
  | (_, none) => .error (.fault .uninit)

/-- `put_pdu_into_w_out_messages`. -/
def putPduIntoWOutMessages (pdu : Ptr) (s : Store) : Except Stop Store := do
  let (newOutMessage, s) ← allocOutMessage rt pdu s
  let (newQueueEntry, s) ← qAlloc rt newOutMessage s
  qPut rt .wOutMessages newQueueEntry s

/-- The rest of `process_incoming_in_messages`. A PDU that could not be encoded is not freed. -/
def forwardRequest (r : Ptr) (decodedInPdu : InputType) (s : Store) : Except Stop Store := do
  let (errRes, pdu) ←
    code (encodeInPdu { decodedInPdu with invokeid := s.invokeidGenCounter.toInt64 })
  let (reencodedPdu, s) := newPdu rt pdu s
  if errRes ≠ 0 then freeInMessage r s
  else
    let s ← putPduIntoWOutMessages rt reencodedPdu s
    freeInMessage r s

/-- The beginning of `process_incoming_out_messages`: a copy of the message taken from
`r_out_messages`, if there is one. -/
def takeROutMessage (s : Store) : Except Stop (Ptr × Store) := do
  let (mQe, s) ← qGet .rOutMessages s
  if mQe ≠ none then
    let e ← heap (s.queueEntries.load mQe)
    let tmp := e.ref
    heap (assertThat (tmp ≠ none))
    let s ← qFree .rOutMessages mQe s
    let (p, s) ← copyOutMessage rt tmp s
    let s ← freeOutMessage tmp s
    .ok (p, s)
  else .ok (none, s)

/-- `put_pdu_into_w_in_messages`. -/
def putPduIntoWInMessages (socket : Socket) (pdu : Ptr) (s : Store) : Except Stop Store := do
  let (newInMessage, s) ← allocInMessage rt socket pdu s
  let (newQEntry, s) ← qAlloc rt newInMessage s
  qPut rt .wInMessages newQEntry s

/-- A round of the loop of `process_incoming_out_messages` over the mappings, for `m_qe_assoc`. -/
def deliverRound (decodedOutPdu : OutputType) (invokeidGenerated : UInt64) (mQeAssoc : Addr)
    (s : Store) : Except Stop (Ptr × Store) := do
  let e ← heap (s.queueEntries.load (some mQeAssoc))
  let p := e.ref
  heap (assertThat (p ≠ none))
  let m ← heap (s.mappingBlocks.load p)
  if m.invokeidGenerated = invokeidGenerated then
    let (_, pdu) ← code (encodeOutPdu { decodedOutPdu with invokeid := m.invokeidOriginal.toInt64 })
    let (reencodedPdu, s) := newPdu rt pdu s
    let (recvPdu, s) ← copyPdu rt reencodedPdu s
    let s ← putPduIntoWInMessages rt m.socket recvPdu s
    let s ← freePdu reencodedPdu s
    let s ← clearRef (some mQeAssoc) s
    let e ← heap (s.queueEntries.load (some mQeAssoc))
    let s ← qFree .socketToRecvUnicastMsg (some mQeAssoc) s
    let s ← freeSocketInvokeidMapping p s
    .ok (e.next, s)
  else .ok (e.next, s)

/-- The rest of `process_incoming_out_messages`: the message decoded, and sent to the clients. -/
def deliverResponse (p : Ptr) (s : Store) : Except Stop Store := do
  let msg ← heap (s.outMessageBlocks.load p)
  let pdu ← heap (s.pduBlocks.load msg.pdu)
  match ← code (decodeOutPdu pdu) with
  | (_, some decodedOutPdu) =>
    let s ← along (deliverRound rt decodedOutPdu decodedOutPdu.invokeid.toUInt64) s
      s.socketToRecvUnicastMsg.head s
    freeOutMessage p s
  | (_, none) => .error (.fault .uninit)

/-! ## The writer -/

/-- `write_data_to_out_buffer`. -/
def writeDataToOutBuffer (s : Store) : Except Stop Store := do
  code (cAssert (s.outConnection.wBufferPtr ≤ bufferKsize))
  if s.outConnection.wBufferPtr = 0 then
    let (qe, s) ← qGet .wOutMessages s
    if qe ≠ none then
      let e ← heap (s.queueEntries.load qe)
      let p := e.ref
      let msg ← heap (s.outMessageBlocks.load p)
      let pdu ← heap (s.pduBlocks.load msg.pdu)
      let (wBuffer, wBufferPtr) ← code (writePduToSendBuffer pdu s.outConnection.wBuffer)
      let s := { s with outConnection :=
        { s.outConnection with wBuffer := wBuffer, wBufferPtr := wBufferPtr } }
      let s ← qFree .wOutMessages qe s
      freeOutMessage p s
    else .ok s
  else .ok s

/-- A round of the loop of `write_data_to_in_buffer` over the messages, for the connection `p`. It
is left with `break` where a message is for the connection. -/
def loadMessageRound (p : Ptr) (qeMsg : Addr) (s : Store) : Except Stop (Ptr × Store) := do
  let e ← heap (s.queueEntries.load (some qeMsg))
  let r := e.ref
  heap (assertThat (r ≠ none))
  let msg ← heap (s.inMessageBlocks.load r)
  let conn ← heap (s.connectionBlocks.load p)
  if msg.socket = conn.socket then
    let pdu ← heap (s.pduBlocks.load msg.pdu)
    let (wBuffer, wBufferPtr) ← code (writePduToSendBuffer pdu conn.wBuffer)
    let blocks ← heap (s.connectionBlocks.update p fun conn =>
      { conn with wBuffer := wBuffer, wBufferPtr := wBufferPtr })
    let s ← qFree .wInMessages (some qeMsg) { s with connectionBlocks := blocks }
    let s ← freeInMessage r s
    .ok (none, s)
  else .ok (e.next, s)

/-- A round of the loop of `write_data_to_in_buffer`, for `qe_conn`. -/
def loadConnection (qeConn : Ptr) (s : Store) : Except Stop Store := do
  let e ← heap (s.queueEntries.load qeConn)
  let p := e.ref
  heap (assertThat (p ≠ none))
  let conn ← heap (s.connectionBlocks.load p)
  code (cAssert (conn.wBufferPtr ≤ bufferKsize))
  if conn.wBufferPtr = 0 then along (loadMessageRound p) s s.wInMessages.head s
  else .ok s

/-- A round of the loop of `free_w_in_messages_mapped_to_invalid_sockets`, for `qe_msg`. -/
def freeWInMessagesRound (qeMsg : Addr) (s : Store) : Except Stop (Ptr × Store) := do
  let (p, g) ← heap (OnHeap.freeWInMessagesRound qeMsg s.toGlobals)
  .ok (p, { s with toGlobals := g })

/-- `write_data` of a client's connection. -/
def writeDataIn (p : Ptr) (r : SendResult) (s : Store) : Except Stop (Bool × Bytes × Store) := do
  let conn ← heap (s.connectionBlocks.load p)
  let (ok, out, conn) ← code (writeData conn r)
  let blocks ← heap (s.connectionBlocks.update p fun _ => conn)
  .ok (ok, out, { s with connectionBlocks := blocks })

/-- `write_data(&out_connection)`. -/
def writeDataOut (r : SendResult) (s : Store) : Except Stop (Bool × Bytes × Store) := do
  let (ok, out, conn) ← code (writeData s.outConnection r)
  .ok (ok, out, { s with outConnection := conn })

/-! ## `thread_cleanup` -/

/-- `cleanup`. The handles it shuts down are not in memory. -/
def cleanup (s : Store) : Except Stop Store := do
  let s := { s with outConnection := { s.outConnection with rBufferPtr := 0, wBufferPtr := 0 } }
  let s ← removeAllMessages s
  let s ← removeAllMappings s
  removeAllConnections s

end Muxer.Memory
