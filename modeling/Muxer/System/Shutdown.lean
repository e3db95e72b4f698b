import Muxer.System.Handshake

/-!
# The end of the muxer

What an interrupt does: `sigint_handler` and the ends of all the threads, with each `SetEvent`,
`ResetEvent` and wait a step. In their loop bodies the workers set events as they like; `select`
returns at some time. The state is that after `spawn_threads`. Time is left out: the wait for the
workers' ends may be given up at any time.
-/

namespace Muxer.Shutdown

open Handshake (Worker)

/-- The events that other threads than the cleanup thread set while the muxer runs. -/
inductive Event
  | doCleanup
  | newMessage
  | processData
deriving DecidableEq

/-- The auto-reset event at which a worker waits for work. -/
def awaits : Worker → Option Event
  | .commRead => none
  | .commWrite => some .newMessage
  | .processing => some .processData

/-- The events that a worker sets in its loop body. -/
def sets : Worker → Event → Bool
  | .commRead, e => e = .processData || e = .doCleanup
  | .commWrite, e => e = .newMessage || e = .doCleanup
  | .processing, e => e = .newMessage || e = .processData

/-- Where a worker is. -/
inductive WorkerPc
  /-- Before `SetEvent` of its stopped event, at the head of its loop. -/
  | setStopped
  /-- At `WaitForSingleObject(h_event_start_threads)`. -/
  | waitStart
  | resetStopped
  /-- At the wait for the event it awaits. -/
  | waitWork
  | body
  /-- At `while (is_app_active)`. -/
  | testActive
  /-- After the loop: `thread_comm_write` shuts down the connection to the server. -/
  | closeOut
  | setStoppedLast
  | setEnded
  | ended
deriving DecidableEq

/-- Where the cleanup thread is. It sets the events that workers await before it waits for the
workers to stop, and once more when `cleanup` is done. -/
inductive CleanupPc
  | waitDoCleanup
  | resetStart
  | setNewMessage (done : Bool)
  | setProcessData (done : Bool)
  /-- At `WaitForMultipleObjects(h_stop_events)`. -/
  | waitStopped
  | cleanup
  | resetDoCleanup
  | setStart
  | testActive
  /-- At `WaitForMultipleObjects(h_end_events)`. -/
  | waitEnded
  | setCleanupEnded
  | ended
deriving DecidableEq

/-- Where `main` is, after `spawn_threads`. -/
inductive MainPc
  | waitCleanupEnded
  | closeListener
  | deleteCriticalSections
  | done
deriving DecidableEq

/-- Where `sigint_handler` is. The handler is for one interrupt only. -/
inductive HandlerPc
  | idle
  | setDoCleanup
  | done
deriving DecidableEq

/-- The events, by whether they are set, and the threads. -/
structure State where
  startThreads : Bool
  cleanupEnded : Bool
  isSet : Event → Bool
  stopped : Worker → Bool
  endedEvent : Worker → Bool
  isAppActive : Bool
  worker : Worker → WorkerPc
  cleanup : CleanupPc
  main : MainPc
  handler : HandlerPc

/-- As `create_events` and `spawn_threads` leave them. -/
def State.start : State where
  startThreads := true
  cleanupEnded := false
  isSet := fun _ => false
  stopped := fun _ => false
  endedEvent := fun _ => false
  isAppActive := true
  worker := fun _ => .setStopped
  cleanup := .waitDoCleanup
  main := .waitCleanupEnded
  handler := .idle

/-- A step of a thread, an event set in a worker's loop body, the end of the wait for the workers'
ends after ten seconds, and an interrupt. -/
inductive Action
  | worker (t : Worker)
  | signal (t : Worker) (e : Event)
  | cleanup
  | timeout
  | main
  | interrupt
  | handler
deriving DecidableEq

def State.setEvent (s : State) (e : Event) (b : Bool) : State :=
  { s with isSet := Function.update s.isSet e b }

def State.goto (s : State) (t : Worker) (pc : WorkerPc) : State :=
  { s with worker := Function.update s.worker t pc }

def State.setStoppedEvent (s : State) (t : Worker) (b : Bool) : State :=
  { s with stopped := Function.update s.stopped t b }

/-- The worker goes on from where it is. -/
def workerStep (s : State) (t : Worker) : Option State :=
  match s.worker t with
  | .setStopped => some ((s.setStoppedEvent t true).goto t .waitStart)
  | .waitStart => if s.startThreads then some (s.goto t .resetStopped) else none
  | .resetStopped =>
    some ((s.setStoppedEvent t false).goto t (if (awaits t).isSome then .waitWork else .body))
  | .waitWork =>
    match awaits t with
    | some e => if s.isSet e then some ((s.setEvent e false).goto t .body) else none
    | none => none
  | .body => some (s.goto t .testActive)
  | .testActive =>
    if s.isAppActive then some (s.goto t .setStopped)
    else if t = .commWrite then some (s.goto t .closeOut)
    else some (s.goto t .setStoppedLast)
  | .closeOut => some (s.goto t .setStoppedLast)
  | .setStoppedLast => some ((s.setStoppedEvent t true).goto t .setEnded)
  | .setEnded =>
    some ({ s with endedEvent := Function.update s.endedEvent t true }.goto t .ended)
  | .ended => none

/-- `thread_cleanup` goes on from where it is. -/
def cleanupStep (s : State) : Option State :=
  match s.cleanup with
  | .waitDoCleanup => if s.isSet .doCleanup then some { s with cleanup := .resetStart } else none
  | .resetStart => some { s with startThreads := false, cleanup := .setNewMessage false }
  | .setNewMessage done => some { s.setEvent .newMessage true with cleanup := .setProcessData done }
  | .setProcessData done =>
    some { s.setEvent .processData true with cleanup := if done then .setStart else .waitStopped }
  | .waitStopped =>
    if s.stopped .processing && s.stopped .commWrite && s.stopped .commRead then
      some { s with cleanup := .cleanup }
    else none
  | .cleanup => some { s with cleanup := .resetDoCleanup }
  | .resetDoCleanup => some { s.setEvent .doCleanup false with cleanup := .setNewMessage true }
  | .setStart => some { s with startThreads := true, cleanup := .testActive }
  | .testActive =>
    some { s with cleanup := if s.isAppActive then .waitDoCleanup else .waitEnded }
  | .waitEnded =>
    -- the ended events are auto-reset, and the wait for all of them resets them together
    if s.endedEvent .processing && s.endedEvent .commWrite && s.endedEvent .commRead then
      some { s with endedEvent := fun _ => false, cleanup := .setCleanupEnded }
    else none
  | .setCleanupEnded => some { s with cleanupEnded := true, cleanup := .ended }
  | .ended => none

/-- `main` goes on from where it is. -/
def mainStep (s : State) : Option State :=
  match s.main with
  | .waitCleanupEnded => if s.cleanupEnded then some { s with main := .closeListener } else none
  | .closeListener => some { s with main := .deleteCriticalSections }
  | .deleteCriticalSections => some { s with main := .done }
  | .done => none

def handlerStep (s : State) : Option State :=
  match s.handler with
  | .setDoCleanup => some { s.setEvent .doCleanup true with handler := .done }
  | _ => none

def step (s : State) : Action → Option State
  | .worker t => workerStep s t
  | .signal t e => if s.worker t = .body ∧ sets t e then some (s.setEvent e true) else none
  | .cleanup => cleanupStep s
  | .timeout => if s.cleanup = .waitEnded then some { s with cleanup := .setCleanupEnded } else none
  | .main => mainStep s
  | .interrupt =>
    if s.handler = .idle then some { s with isAppActive := false, handler := .setDoCleanup } else none
  | .handler => handlerStep s

/-- One step, of any thread. -/
def Step (s : State) (a : Action) (s' : State) : Prop := step s a = some s'

/-- No thread can go on. -/
def State.Quiet (s : State) : Prop :=
  (∀ t, workerStep s t = none) ∧ cleanupStep s = none ∧ mainStep s = none ∧ handlerStep s = none

/-- All threads have ended. -/
def State.Over (s : State) : Prop :=
  (∀ t, s.worker t = .ended) ∧ s.cleanup = .ended ∧ s.main = .done

end Muxer.Shutdown
