import Muxer.Spec.State

/-!
# Socket data in and out of a connection's buffers (`dispatcher.c`)

The results of `recv`, `send` and the `SO_ERROR` read after a failure are the
environment's.
-/

namespace Muxer

/-- `WSAEWOULDBLOCK`. -/
def wsaeWouldBlock : ℕ := 10035

/-- What `recv` returns: so many bytes (none: the peer closed), or `SOCKET_ERROR` with the
`SO_ERROR` of the socket. -/
inductive RecvResult
  | bytes (bs : Bytes)
  | socketError (err : ℕ)

/-- What `send` returns: how many bytes it took, or `SOCKET_ERROR` with the `SO_ERROR` of the
socket. -/
inductive SendResult
  | sent (bytes : ℕ)
  | socketError (err : ℕ)

/-- `read_data`: whether the connection is still good, and the connection. -/
def readData (conn : Connection) (r : RecvResult) : Except Fault (Bool × Connection) := do
  cAssert (conn.rBufferPtr ≤ bufferKsize)
  match r with
  | .socketError err => .ok (err == wsaeWouldBlock, conn)
  | .bytes [] => .ok (false, conn)
  | .bytes bs =>
    let rBuffer ← conn.rBuffer.write conn.rBufferPtr bs
    cAssert (conn.rBufferPtr + bs.length ≤ bufferKsize)
    .ok (true, { conn with rBuffer := rBuffer, rBufferPtr := conn.rBufferPtr + bs.length })

/-- What `read_in_socket` and `read_out_socket` do with a readable connection: `read_data`,
then `read_pdus_from_recv_buffer` unless it reported the connection broken. -/
def receive (conn : Connection) (r : RecvResult) :
    Except Fault (Bool × List Pdu × Connection) := do
  let (ok, conn) ← readData conn r
  if ok then
    let (pdus, rBuffer, rBufferPtr) ← readPdusFromRecvBuffer conn.rBuffer conn.rBufferPtr
    .ok (true, pdus, { conn with rBuffer := rBuffer, rBufferPtr := rBufferPtr })
  else .ok (false, [], conn)

/-- A connection read again and again until it is reported broken, with the PDUs extracted. -/
def receives (conn : Connection) : List RecvResult → Except Fault (Bool × List Pdu × Connection)
  | [] => .ok (true, [], conn)
  | r :: rs => do
    let (ok, pdus, conn) ← receive conn r
    if ok then
      let (ok, pdus', conn) ← receives conn rs
      .ok (ok, pdus ++ pdus', conn)
    else .ok (false, pdus, conn)

/-- `write_data`: whether the connection is still good, the bytes sent, and the connection. -/
def writeData (conn : Connection) (r : SendResult) : Except Fault (Bool × Bytes × Connection) := do
  cAssert (conn.wBufferPtr ≤ bufferKsize)
  if 0 < conn.wBufferPtr then
    match r with
    | .socketError err => .ok (err == wsaeWouldBlock, [], conn)
    | .sent bytes =>
      let out ← conn.wBuffer.read 0 bytes
      if bytes = conn.wBufferPtr then
        .ok (true, out, { conn with wBufferPtr := 0 })
      else
        -- part of the data was sent: move what remains to the front
        let wBufferPtr := conn.wBufferPtr - bytes
        cAssert (wBufferPtr ≤ bufferKsize)
        let rest ← conn.wBuffer.read bytes wBufferPtr
        let wBuffer ← conn.wBuffer.write 0 rest
        .ok (true, out, { conn with wBuffer := wBuffer, wBufferPtr := wBufferPtr })
  else .ok (true, [], conn)

/-- Bytes written so far and not yet sent. -/
def Connection.unsent (conn : Connection) : Bytes := conn.wBuffer.bytes.take conn.wBufferPtr

/-- Bytes received and not yet cut off as PDUs. -/
def Connection.unread (conn : Connection) : Bytes := conn.rBuffer.bytes.take conn.rBufferPtr

end Muxer
