import Muxer.Spec.Buffers

/-!
# Loading and unloading the queues (`dispatcher.c`, `connection.c`, `mapping.c`)

Each definition is one critical section of the source, or, where the source loops over the
connections taking an inner critical section for each, one round of the loop and then the
loop.
-/

namespace Muxer

variable {τ : Type}

/-- The messages of a queue addressed to a socket. -/
def addressedTo (socket : Socket) (q : List (InMessage τ)) : List (InMessage τ) :=
  q.filter (·.socket == socket)

/-- `write_data_to_out_buffer`: the head of `w_out_messages`, once the buffer is empty. -/
def writeDataToOutBuffer (m : Mux τ) : Except Fault (Mux τ) := do
  cAssert (m.outConnection.wBufferPtr ≤ bufferKsize)
  if m.outConnection.wBufferPtr = 0 then
    match m.wOutMessages with
    | [] => .ok m
    | p :: rest =>
      let (wBuffer, wBufferPtr) ← writePduToSendBuffer p.pdu m.outConnection.wBuffer
      .ok { m with
        wOutMessages := rest
        outConnection := { m.outConnection with wBuffer := wBuffer, wBufferPtr := wBufferPtr } }
  else .ok m

/-- The first message addressed to a socket, and the queue without it. -/
def takeFirst (socket : Socket) : List (InMessage τ) → Option (InMessage τ × List (InMessage τ))
  | [] => none
  | r :: q =>
    if r.socket = socket then some (r, q)
    else (takeFirst socket q).map fun (r', q') => (r', r :: q')

/-- One round of `write_data_to_in_buffer`: the first message of `w_in_messages` addressed to
the connection, once its buffer is empty. -/
def loadConnection (conn : Connection) (q : List (InMessage τ)) :
    Except Fault (Connection × List (InMessage τ)) := do
  cAssert (conn.wBufferPtr ≤ bufferKsize)
  if conn.wBufferPtr = 0 then
    match takeFirst conn.socket q with
    | none => .ok (conn, q)
    | some (r, q) =>
      let (wBuffer, wBufferPtr) ← writePduToSendBuffer r.pdu conn.wBuffer
      .ok ({ conn with wBuffer := wBuffer, wBufferPtr := wBufferPtr }, q)
  else .ok (conn, q)

/-- The loop of `write_data_to_in_buffer` over the connections. -/
def loadConnections : List Connection → List (InMessage τ) →
    Except Fault (List Connection × List (InMessage τ))
  | [], q => .ok ([], q)
  | conn :: conns, q => do
    let (conn, q) ← loadConnection conn q
    let (conns, q) ← loadConnections conns q
    .ok (conn :: conns, q)

/-- `write_data_to_in_buffer`. -/
def writeDataToInBuffer (m : Mux τ) : Except Fault (Mux τ) := do
  let (conns, q) ← loadConnections m.connections m.wInMessages
  .ok { m with connections := conns, wInMessages := q }

/-- `free_w_in_messages_mapped_to_invalid_sockets`. -/
def freeWInMessagesMappedToInvalidSockets (m : Mux τ) : Mux τ :=
  { m with wInMessages := m.wInMessages.filter fun r =>
      m.connections.any fun p => p.socket == r.socket }

/-- `remove_all_mappings_for`. -/
def removeAllMappingsFor (socket : Socket) (m : Mux τ) : Mux τ :=
  { m with socketToRecvUnicastMsg := m.socketToRecvUnicastMsg.filter (·.socket != socket) }

/-- The unlinking `remove_connection` ends with. -/
def unlinkConnection (socket : Socket) (m : Mux τ) : Mux τ :=
  { m with connections := m.connections.filter (·.socket != socket) }

/-- `remove_connection`: the mappings of each connection with the socket, and the connection;
it asserts that there was at most one. -/
def removeConnection (socket : Socket) (m : Mux τ) : Except Fault (Mux τ) := do
  let found := m.connections.filter (·.socket == socket)
  let m := if found.isEmpty then m else unlinkConnection socket (removeAllMappingsFor socket m)
  cAssert (found.length ≤ 1)
  .ok m

end Muxer
