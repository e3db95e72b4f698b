import Mathlib.Logic.Function.Basic

/-!
# Stopping the threads for a cleanup

The events by which `thread_cleanup` stops the worker threads while it runs `cleanup`, with each
`SetEvent`, `ResetEvent` and wait a step. All of them are manual-reset: a wait leaves them set. The
bodies of the loops, `cleanup`, and the events that wake the bodies up are left out. A cleanup may be
requested at any time, which is more than a worker in its body and an interrupt do.
-/

namespace Muxer.Handshake

/-- The worker threads. -/
inductive Worker
  | commRead
  | commWrite
  | processing
deriving DecidableEq

/-- Where a worker is. -/
inductive WorkerPc
  /-- Before its first `SetEvent` of its stopped event. -/
  | begin
  /-- At `WaitForSingleObject(h_event_start_threads)`. -/
  | waitStart
  /-- Past it, at `ResetEvent` of its stopped event. -/
  | resetStopped
  | body
  /-- Before the next `SetEvent` of its stopped event, in the loop or after it. -/
  | setStopped (again : Bool)
  | ended
deriving DecidableEq

/-- Where the cleanup thread is. -/
inductive CleanupPc
  | waitDoCleanup
  | resetStart
  /-- At `WaitForMultipleObjects(h_stop_events)`. -/
  | waitStopped
  | cleanup
  | resetDoCleanup
  | setStart
  | ended
deriving DecidableEq

/-- The events, by whether they are set, and the threads. -/
structure State where
  startThreads : Bool
  doCleanup : Bool
  stopped : Worker → Bool
  isAppActive : Bool
  worker : Worker → WorkerPc
  cleanup : CleanupPc

/-- As `create_events` and `spawn_threads` leave them. -/
def State.start : State where
  startThreads := true
  doCleanup := false
  stopped := fun _ => false
  isAppActive := true
  worker := fun _ => .begin
  cleanup := .waitDoCleanup

/-- A step of a worker, one of the cleanup thread, or what a broken connection to the server and
an interrupt do. -/
inductive Action
  | worker (t : Worker)
  | cleanup
  | requestCleanup
  | deactivate
deriving DecidableEq

/-- The worker goes on from where it is: its events and its place. -/
def workerStep (s : State) (t : Worker) : Option State :=
  let goto (stopped : Bool) (pc : WorkerPc) : State :=
    { s with stopped := Function.update s.stopped t stopped, worker := Function.update s.worker t pc }
  match s.worker t with
  | .begin => some (goto true .waitStart)
  | .waitStart => if s.startThreads then some (goto (s.stopped t) .resetStopped) else none
  | .resetStopped => some (goto false .body)
  | .body => some (goto (s.stopped t) (.setStopped s.isAppActive))
  | .setStopped again => some (goto true (if again then .waitStart else .ended))
  | .ended => none

/-- `thread_cleanup` goes on from where it is. -/
def cleanupStep (s : State) : Option State :=
  match s.cleanup with
  | .waitDoCleanup => if s.doCleanup then some { s with cleanup := .resetStart } else none
  | .resetStart => some { s with startThreads := false, cleanup := .waitStopped }
  | .waitStopped =>
    if s.stopped .processing && s.stopped .commWrite && s.stopped .commRead then
      some { s with cleanup := .cleanup }
    else none
  | .cleanup => some { s with cleanup := .resetDoCleanup }
  | .resetDoCleanup => some { s with doCleanup := false, cleanup := .setStart }
  | .setStart =>
    some { s with
      startThreads := true
      cleanup := if s.isAppActive then .waitDoCleanup else .ended }
  | .ended => none

def step (s : State) : Action → Option State
  | .worker t => workerStep s t
  | .cleanup => cleanupStep s
  | .requestCleanup => some { s with doCleanup := true }
  | .deactivate => some { s with isAppActive := false }

/-- One step, of any thread. -/
def Step (s : State) (a : Action) (s' : State) : Prop := step s a = some s'

/-- Past its wait for the start, and before the next `SetEvent` of its stopped event. -/
def WorkerPc.Inside : WorkerPc → Prop
  | .resetStopped => True
  | .body => True
  | .setStopped _ => True
  | _ => False

end Muxer.Handshake
