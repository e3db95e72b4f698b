import Muxer.Spec.Dispatcher

/-!
# Cleaning up a session (`dispatcher.c`, `message.c`, `mapping.c`, `connection.c`)

What `cleanup` does to the data the muxer keeps, once the server is lost. The handles that
`remove_all_connections` shuts down are not part of that data.
-/

namespace Muxer

variable {τ : Type}

/-- `remove_all_messages`. -/
def removeAllMessages (m : Mux τ) : Mux τ :=
  { m with rInMessages := [], wInMessages := [], rOutMessages := [], wOutMessages := [] }

/-- `remove_all_mappings`: the mappings of each connection. -/
def removeAllMappings (m : Mux τ) : Mux τ :=
  m.connections.foldl (fun m r => removeAllMappingsFor r.socket m) m

/-- The loop of `remove_all_connections`, which has the next connection before it removes one. -/
def removeConnections : List Connection → Mux τ → Except Fault (Mux τ)
  | [], m => .ok m
  | r :: connections, m => do
    let m ← removeConnection r.socket m
    removeConnections connections m

/-- `remove_all_connections`. -/
def removeAllConnections (m : Mux τ) : Except Fault (Mux τ) := removeConnections m.connections m

/-- `cleanup`. -/
def cleanup (m : Mux τ) : Except Fault (Mux τ) :=
  let m := { m with outConnection := { m.outConnection with rBufferPtr := 0, wBufferPtr := 0 } }
  removeAllConnections (removeAllMappings (removeAllMessages m))

end Muxer
