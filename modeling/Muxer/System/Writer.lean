import Muxer.Spec.FdSet

/-!
# The writer and the event that wakes it

The loop of `thread_comm_write` with `h_event_new_message`, each critical section, each round of a
loop within one, and each unlocked test a step. The other threads put messages, let clients come and
go, connect to the server and clean up, between any two steps that the locks allow. The outcomes of
`select` and `send` are the environment's. The wait for `h_event_start_threads` that precedes the
wait for a message is left out, and so are the parts of the muxer that the writer does not read.
-/

namespace Muxer.Writer

variable {τ : Type}

/-- `write_fd` and `except_fd`. -/
structure FdSets where
  write : List Socket
  except : List Socket

/-- Where the writer is. -/
inductive Pc
  /-- At `WaitForSingleObject(h_event_new_message)`. -/
  | waitMessage
  | loadOut
  /-- In `free_w_in_messages_mapped_to_invalid_sockets`, at a message. -/
  | sweep (i : ℕ)
  /-- In `write_data_to_in_buffer`, at a connection. -/
  | loadIn (i : ℕ)
  | setupFdSet
  | select (fds : List Socket)
  | writeOut (fds : FdSets)
  /-- In `write_in_socket`, at a connection. -/
  | writeIn (i : ℕ) (fds : FdSets)
  /-- At `w_in_messages.head != NULL`. -/
  | testIn
  /-- At `w_out_messages.head != NULL`. -/
  | testOut
  /-- At `SetEvent(h_event_new_message)`. -/
  | setEvent

/-- The writer holds `csec_connections` between its steps. -/
def Pc.HoldsConnections : Pc → Prop
  | .loadIn _ => True
  | .writeIn _ _ => True
  | _ => False

/-- The writer holds `csec_w_in_messages` between its steps. -/
def Pc.HoldsWIn : Pc → Prop
  | .sweep _ => True
  | _ => False

/-- The muxer, the writer, and what wakes it. -/
structure State (τ : Type) where
  mux : Mux τ
  isOutConnectionOK : Bool
  pc : Pc
  count : ℕ
  /-- Whether `h_event_new_message`, an auto-reset event, is set. -/
  newMessage : Bool
  /-- How many threads are between their `q_put` and the `SetEvent` that follows. -/
  producers : ℕ

/-- As the writer comes to its first wait. -/
def State.start : State τ where
  mux := Mux.start
  isOutConnectionOK := false
  pc := .waitMessage
  count := 1
  newMessage := false
  producers := 0

inductive Action (τ : Type)
  | waitMessage
  | loadOut
  | sweepKeep
  | sweepFree
  | sweepDone
  | loadIn
  | loadInDone
  | setupFdSet
  | select (fds : FdSets)
  | selectFailed
  | skipOut
  | exceptOut
  | writeOut (r : SendResult)
  | unsetOut
  | exceptIn
  | writeIn (r : SendResult)
  | dropIn (r : SendResult)
  | unsetIn
  | writeInDone
  | testIn
  | testOut
  | setEvent
  | putIn (r : InMessage τ)
  | putOut (p : OutMessage τ)
  | signal
  | wake
  | connectToOutput (s : Socket) (ok : Bool)
  | accept (s : Socket)
  | remove (s : Socket)
  | resetOut
  | freeWIn
  | freeWOut

/-- `setup_w_fd_set`: what it puts into both sets. -/
def setupWFdSet (s : State τ) : List Socket :=
  (s.mux.connections.map Connection.socket).foldl fdSet
    (if s.isOutConnectionOK then fdSet [] s.mux.outConnection.socket else [])

/-- What `send` may return for a buffer: part or all of it taken, or an error. -/
def Sends (r : SendResult) (wBufferPtr : ℕ) : Prop :=
  match r with
  | .sent bytes => 1 ≤ bytes ∧ bytes ≤ wBufferPtr
  | .socketError _ => True

/-- One step, of the writer or of another thread. -/
inductive Step : State τ → Action τ → State τ → Prop
  | waitMessage (s) : s.pc = .waitMessage → s.newMessage = true →
      Step s .waitMessage { s with newMessage := false, pc := .loadOut }
  /-- `write_data_to_out_buffer`, and the count of the passes. -/
  | loadOut (s m) : s.pc = .loadOut → writeDataToOutBuffer s.mux = .ok m → Step s .loadOut
      { s with
        mux := m
        count := if (s.count + 1) % 1000 = 0 then 1 else s.count + 1
        pc := if (s.count + 1) % 1000 = 0 then .sweep 0 else .loadIn 0 }
  | sweepKeep (s i r) : s.pc = .sweep i → s.mux.wInMessages[i]? = some r →
      (∃ c ∈ s.mux.connections, c.socket = r.socket) →
      Step s .sweepKeep { s with pc := .sweep (i + 1) }
  | sweepFree (s i r) : s.pc = .sweep i → s.mux.wInMessages[i]? = some r →
      (∀ c ∈ s.mux.connections, c.socket ≠ r.socket) → Step s .sweepFree
        { s with mux := { s.mux with wInMessages := s.mux.wInMessages.eraseIdx i } }
  | sweepDone (s i) : s.pc = .sweep i → s.mux.wInMessages[i]? = none →
      Step s .sweepDone { s with pc := .loadIn 0 }
  /-- A round of `write_data_to_in_buffer`. -/
  | loadIn (s i conn conn' q) : s.pc = .loadIn i → s.mux.connections[i]? = some conn →
      loadConnection conn s.mux.wInMessages = .ok (conn', q) → Step s .loadIn
        { s with
          mux := { s.mux with connections := s.mux.connections.set i conn', wInMessages := q }
          pc := .loadIn (i + 1) }
  | loadInDone (s i) : s.pc = .loadIn i → s.mux.connections[i]? = none →
      Step s .loadInDone { s with pc := .setupFdSet }
  | setupFdSet (s) : s.pc = .setupFdSet →
      Step s .setupFdSet { s with pc := .select (setupWFdSet s) }
  /-- `select` leaves some of the sockets in the sets. -/
  | select (s fds sets) : s.pc = .select fds → sets.write ⊆ fds → sets.except ⊆ fds →
      0 < sets.write.length + sets.except.length →
      Step s (.select sets) { s with pc := .writeOut sets }
  | selectFailed (s fds) : s.pc = .select fds → Step s .selectFailed { s with pc := .testIn }
  /-- There is no connection to the server. -/
  | skipOut (s sets) : s.pc = .writeOut sets → s.isOutConnectionOK = false →
      Step s .skipOut { s with pc := .writeIn 0 sets }
  /-- `write_out_socket`: a cleanup is requested. -/
  | exceptOut (s sets) : s.pc = .writeOut sets → s.isOutConnectionOK = true →
      s.mux.outConnection.socket ∈ sets.except →
      Step s .exceptOut
        { s with
          pc := .writeIn 0
            { sets with except := fdClr sets.except s.mux.outConnection.socket } }
  /-- `write_out_socket`: a cleanup is requested unless `write_data` reports success. -/
  | writeOut (s sets r ok out conn') : s.pc = .writeOut sets → s.isOutConnectionOK = true →
      s.mux.outConnection.socket ∉ sets.except → s.mux.outConnection.socket ∈ sets.write →
      (0 < s.mux.outConnection.wBufferPtr → Sends r s.mux.outConnection.wBufferPtr) →
      writeData s.mux.outConnection r = .ok (ok, out, conn') → Step s (.writeOut r)
        { s with
          mux := { s.mux with outConnection := conn' }
          pc := .writeIn 0 { sets with write := fdClr sets.write s.mux.outConnection.socket } }
  | unsetOut (s sets) : s.pc = .writeOut sets → s.isOutConnectionOK = true →
      s.mux.outConnection.socket ∉ sets.except → s.mux.outConnection.socket ∉ sets.write →
      Step s .unsetOut { s with pc := .writeIn 0 sets }
  /-- A round of `write_in_socket` that drops a connection, and starts again from the first. -/
  | exceptIn (s i sets conn m) : s.pc = .writeIn i sets → s.mux.connections[i]? = some conn →
      conn.socket ∈ sets.except → removeConnection conn.socket s.mux = .ok m → Step s .exceptIn
        { s with
          mux := m
          pc := .writeIn 0 { sets with except := fdClr sets.except conn.socket } }
  | writeIn (s i sets r conn out conn') : s.pc = .writeIn i sets →
      s.mux.connections[i]? = some conn → conn.socket ∉ sets.except → conn.socket ∈ sets.write →
      (0 < conn.wBufferPtr → Sends r conn.wBufferPtr) →
      writeData conn r = .ok (true, out, conn') → Step s (.writeIn r)
        { s with
          mux := { s.mux with connections := s.mux.connections.set i conn' }
          pc := .writeIn (i + 1) { sets with write := fdClr sets.write conn.socket } }
  | dropIn (s i sets r conn out conn' m) : s.pc = .writeIn i sets →
      s.mux.connections[i]? = some conn → conn.socket ∉ sets.except → conn.socket ∈ sets.write →
      (0 < conn.wBufferPtr → Sends r conn.wBufferPtr) →
      writeData conn r = .ok (false, out, conn') → removeConnection conn.socket s.mux = .ok m →
      Step s (.dropIn r)
        { s with
          mux := m
          pc := .writeIn 0 { sets with write := fdClr sets.write conn.socket } }
  | unsetIn (s i sets conn) : s.pc = .writeIn i sets → s.mux.connections[i]? = some conn →
      conn.socket ∉ sets.except → conn.socket ∉ sets.write →
      Step s .unsetIn { s with pc := .writeIn (i + 1) sets }
  | writeInDone (s i sets) : s.pc = .writeIn i sets → s.mux.connections[i]? = none →
      Step s .writeInDone { s with pc := .testIn }
  /-- The test for another pass. -/
  | testIn (s) : s.pc = .testIn → Step s .testIn
      { s with pc := if s.mux.wInMessages.isEmpty then .testOut else .setEvent }
  | testOut (s) : s.pc = .testOut → Step s .testOut
      { s with pc := if s.mux.wOutMessages.isEmpty then .waitMessage else .setEvent }
  | setEvent (s) : s.pc = .setEvent →
      Step s .setEvent { s with newMessage := true, pc := .waitMessage }
  /-- `put_pdu_into_w_in_messages`, up to its `SetEvent`. -/
  | putIn (s r) : ¬s.pc.HoldsWIn → 0 < r.socket → Step s (.putIn r)
      { s with
        mux := { s.mux with wInMessages := s.mux.wInMessages ++ [r] }
        producers := s.producers + 1 }
  /-- `put_pdu_into_w_out_messages`, up to its `SetEvent`. -/
  | putOut (s p) : Step s (.putOut p)
      { s with
        mux := { s.mux with wOutMessages := s.mux.wOutMessages ++ [p] }
        producers := s.producers + 1 }
  | signal (s n) : s.producers = n + 1 →
      Step s .signal { s with newMessage := true, producers := n }
  /-- `thread_cleanup` sets the event. -/
  | wake (s) : Step s .wake { s with newMessage := true }
  /-- `process_data` connects to the server, or fails to. -/
  | connectToOutput (s sock ok) : s.isOutConnectionOK = false → Step s (.connectToOutput sock ok)
      { s with
        mux := { s.mux with outConnection := { s.mux.outConnection with socket := sock } }
        isOutConnectionOK := ok }
  /-- The reader accepts a client. -/
  | accept (s sock) : ¬s.pc.HoldsConnections → 0 < sock →
      (∀ c ∈ s.mux.connections, c.socket ≠ sock) → Step s (.accept sock)
        { s with
          mux := { s.mux with connections := s.mux.connections ++ [allocConnection sock] } }
  /-- The reader drops a client, or `cleanup` one of all. -/
  | remove (s sock m) : ¬s.pc.HoldsConnections → removeConnection sock s.mux = .ok m →
      Step s (.remove sock) { s with mux := m }
  /-- `cleanup` gives up the connection to the server. -/
  | resetOut (s) : Step s .resetOut
      { s with
        mux := { s.mux with
          outConnection := { s.mux.outConnection with rBufferPtr := 0, wBufferPtr := 0 } }
        isOutConnectionOK := false }
  | freeWIn (s) : ¬s.pc.HoldsWIn →
      Step s .freeWIn { s with mux := { s.mux with wInMessages := [] } }
  | freeWOut (s) : Step s .freeWOut { s with mux := { s.mux with wOutMessages := [] } }

end Muxer.Writer
