import Muxer.Spec.Cleanup
import Muxer.Spec.Protocol

/-!
# The processing thread and the event that wakes it

The loop of `thread_processing` with `h_event_process_data`, each critical section and each unlocked
test a step. The reader puts messages, and `thread_cleanup` frees them and sets the event, between
any two steps. What `connect_to_output` returns is the environment's. The wait for
`h_event_start_threads` that precedes the wait for data is left out, and so are the parts of the
muxer that the processing thread does not read.
-/

namespace Muxer.Processing

variable {τ : Type}

/-- Where the processing thread is. -/
inductive Pc (τ : Type)
  /-- At `WaitForSingleObject(h_event_process_data)`. -/
  | waitData
  /-- In `process_data`, before `csec_out_connection`. -/
  | connect
  /-- At the beginning of `process_incoming_out_messages`. -/
  | takeOut
  | deliver (p : OutMessage τ)
  /-- At the beginning of `process_incoming_in_messages`. -/
  | takeIn
  | map (r : InMessage τ)
  | forward (r : InMessage τ) (decodedInPdu : InputType)
  /-- At `r_in_messages.head != NULL`. -/
  | testIn
  /-- At `r_out_messages.head != NULL`. -/
  | testOut
  /-- At `SetEvent(h_event_process_data)`. -/
  | setEvent

/-- The muxer, the processing thread, and what wakes it. -/
structure State (τ : Type) where
  mux : Mux τ
  isOutConnectionOK : Bool
  pc : Pc τ
  /-- Whether `h_event_process_data`, an auto-reset event, is set. -/
  processData : Bool
  /-- How many threads are between their `q_put` and the `SetEvent` that follows. -/
  producers : ℕ

/-- As the processing thread comes to its first wait. -/
def State.start : State τ where
  mux := Mux.start
  isOutConnectionOK := false
  pc := .waitData
  processData := false
  producers := 0

inductive Action (τ : Type)
  | waitData
  | connected
  | connectToOutput (s : Socket) (ok : Bool)
  | takeOut
  | noneOut
  | deliver
  | takeIn
  | noneIn
  | map
  | forward
  | testIn
  | testOut
  | setEvent
  | putIn (r : InMessage τ)
  | putOut (p : OutMessage τ)
  | signal
  | wake
  | resetOut
  | freeMessages
  | removeMappings (s : Socket)

/-- One step, of the processing thread or of another one. -/
inductive Step : State τ → Action τ → State τ → Prop
  | waitData (s) : s.pc = .waitData → s.processData = true →
      Step s .waitData { s with processData := false, pc := .connect }
  | connected (s) : s.pc = .connect → s.isOutConnectionOK = true →
      Step s .connected { s with pc := .takeOut }
  /-- When `connect_to_output` fails, `process_data` returns after a while. -/
  | connectToOutput (s sock ok) : s.pc = .connect → s.isOutConnectionOK = false →
      Step s (.connectToOutput sock ok)
        { s with
          mux := { s.mux with outConnection := { s.mux.outConnection with socket := sock } }
          isOutConnectionOK := ok
          pc := if ok then .takeOut else .testIn }
  | takeOut (s p m) : s.pc = .takeOut → takeROutMessage s.mux = some (p, m) →
      Step s .takeOut { s with mux := m, pc := .deliver p }
  | noneOut (s) : s.pc = .takeOut → takeROutMessage s.mux = none →
      Step s .noneOut { s with pc := .takeIn }
  | deliver (s p m) : s.pc = .deliver p → deliverResponse p s.mux = .ok m →
      Step s .deliver { s with mux := m, pc := .takeIn }
  | takeIn (s r m) : s.pc = .takeIn → takeRInMessage s.mux = some (r, m) →
      Step s .takeIn { s with mux := m, pc := .map r }
  | noneIn (s) : s.pc = .takeIn → takeRInMessage s.mux = none →
      Step s .noneIn { s with pc := .testIn }
  | map (s r q m) : s.pc = .map r → mapRequest r s.mux = .ok (q, m) →
      Step s .map { s with mux := m, pc := .forward r q }
  | forward (s r q m) : s.pc = .forward r q → forwardRequest q r.tag s.mux = .ok m →
      Step s .forward { s with mux := m, pc := .testIn }
  /-- The test for another pass. -/
  | testIn (s) : s.pc = .testIn → Step s .testIn
      { s with pc := if s.mux.rInMessages.isEmpty then .testOut else .setEvent }
  | testOut (s) : s.pc = .testOut → Step s .testOut
      { s with pc := if s.mux.rOutMessages.isEmpty then .waitData else .setEvent }
  | setEvent (s) : s.pc = .setEvent →
      Step s .setEvent { s with processData := true, pc := .waitData }
  /-- A round of `read_data_from_in_buffer`, up to its `SetEvent`. -/
  | putIn (s r) : 0 < r.socket → Step s (.putIn r)
      { s with
        mux := { s.mux with rInMessages := s.mux.rInMessages ++ [r] }
        producers := s.producers + 1 }
  /-- A round of `read_data_from_out_buffer`, up to its `SetEvent`. -/
  | putOut (s p) : Step s (.putOut p)
      { s with
        mux := { s.mux with rOutMessages := s.mux.rOutMessages ++ [p] }
        producers := s.producers + 1 }
  | signal (s n) : s.producers = n + 1 →
      Step s .signal { s with processData := true, producers := n }
  /-- `thread_cleanup` sets the event. -/
  | wake (s) : Step s .wake { s with processData := true }
  /-- `cleanup` gives up the connection to the server. -/
  | resetOut (s) : Step s .resetOut { s with isOutConnectionOK := false }
  | freeMessages (s) : Step s .freeMessages { s with mux := removeAllMessages s.mux }
  /-- A client is dropped. -/
  | removeMappings (s sock) :
      Step s (.removeMappings sock) { s with mux := removeAllMappingsFor sock s.mux }

end Muxer.Processing
