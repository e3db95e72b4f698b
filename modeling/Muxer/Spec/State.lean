import Muxer.Spec.Pdu

/-!
# The data the muxer keeps (`connection.h`, `message.h`, `mapping.h`, `protocol.c`)

Queues are lists, head first: `q_put` of a fresh entry appends, `q_get` takes the head,
`q_free` of a queued entry removes it. Messages and mappings carry a mark `tag : τ` that the
code neither reads nor changes: it says which request an item stems from. The program itself
is the case `τ = Unit`.
-/

namespace Muxer

/-- `SOCKET`: a handle, reused by the operating system once closed. -/
abbrev Socket := ℕ

/-- `connection_t` (the peer's `ip_address` is only logged, and left out). -/
structure Connection where
  socket : Socket
  rBuffer : Buffer bufferKsize
  rBufferPtr : ℕ
  wBuffer : Buffer bufferKsize
  wBufferPtr : ℕ

/-- `alloc_connection`. -/
def allocConnection (socket : Socket) : Connection :=
  ⟨socket, Buffer.zero _, 0, Buffer.zero _, 0⟩

/-- `in_message_t`. -/
structure InMessage (τ : Type) where
  socket : Socket
  pdu : Pdu
  tag : τ

/-- `out_message_t`. -/
structure OutMessage (τ : Type) where
  pdu : Pdu
  tag : τ

/-- `socket_invokeid_mapping_t`. -/
@[ext] structure Mapping (τ : Type) where
  socket : Socket
  invokeidOriginal : UInt64
  invokeidGenerated : UInt64
  tag : τ

/-- The queues, tables and connections, and the counter of generated invoke ids. -/
structure Mux (τ : Type) where
  rInMessages : List (InMessage τ)
  wInMessages : List (InMessage τ)
  rOutMessages : List (OutMessage τ)
  wOutMessages : List (OutMessage τ)
  connections : List Connection
  socketToRecvUnicastMsg : List (Mapping τ)
  invokeidGenCounter : UInt64
  outConnection : Connection

/-- The muxer as it starts: nothing queued, mapped or connected. -/
def Mux.start {τ : Type} : Mux τ where
  rInMessages := []
  wInMessages := []
  rOutMessages := []
  wOutMessages := []
  connections := []
  socketToRecvUnicastMsg := []
  invokeidGenCounter := 0
  outConnection := allocConnection 0

end Muxer
