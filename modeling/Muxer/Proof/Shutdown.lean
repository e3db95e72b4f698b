import Muxer.Lib.Exec
import Muxer.System.Shutdown

/-!
# How the muxer ends

An interrupt clears the flag that the threads test in their loops, and asks for a cleanup. A worker
that waits for work tests the flag only once its event is set, which the cleanup thread does for a
cleanup, and then no more.

* `EventsOK.step`: which events are set and which threads have stopped, in every step.
* `shutdown_quiet`: what is left when no thread can go on.
* `shutdown_bounded`: that is soon.
* `sections_deleted`: the critical sections that `main` deletes are no longer in use.
-/

namespace Muxer.Shutdown

open Lib
open Handshake (Worker)

variable {s s' : State} {a : Action} {t : Worker} {e : Event}

/-! ## Steps -/

/-- **What a worker can do.** -/
inductive Moves (s : State) (t : Worker) : State → Prop
  | setStopped : s.worker t = .setStopped →
      Moves s t ((s.setStoppedEvent t true).goto t .waitStart)
  | waitStart : s.worker t = .waitStart → s.startThreads = true → Moves s t (s.goto t .resetStopped)
  | awaiting : s.worker t = .resetStopped → (awaits t).isSome = true →
      Moves s t ((s.setStoppedEvent t false).goto t .waitWork)
  | working : s.worker t = .resetStopped → (awaits t).isSome = false →
      Moves s t ((s.setStoppedEvent t false).goto t .body)
  | waitWork (e : Event) : s.worker t = .waitWork → awaits t = some e → s.isSet e = true →
      Moves s t ((s.setEvent e false).goto t .body)
  | body : s.worker t = .body → Moves s t (s.goto t .testActive)
  | again : s.worker t = .testActive → s.isAppActive = true → Moves s t (s.goto t .setStopped)
  | closing : s.worker t = .testActive → s.isAppActive = false → t = .commWrite →
      Moves s t (s.goto t .closeOut)
  | leaves : s.worker t = .testActive → s.isAppActive = false → t ≠ .commWrite →
      Moves s t (s.goto t .setStoppedLast)
  | closeOut : s.worker t = .closeOut → Moves s t (s.goto t .setStoppedLast)
  | setStoppedLast : s.worker t = .setStoppedLast →
      Moves s t ((s.setStoppedEvent t true).goto t .setEnded)
  | setEnded : s.worker t = .setEnded → Moves s t
      ({ s with endedEvent := Function.update s.endedEvent t true }.goto t .ended)

theorem workerStep_moves (h : workerStep s t = some s') : Moves s t s' := by
  unfold workerStep at h
  cases hpc : s.worker t with
  | setStopped =>
    simp only [hpc, Option.some.injEq] at h
    exact h ▸ .setStopped hpc
  | waitStart =>
    simp only [hpc, Option.ite_none_right_eq_some, Option.some.injEq] at h
    exact h.2 ▸ .waitStart hpc h.1
  | resetStopped =>
    simp only [hpc, Option.some.injEq] at h
    by_cases hsome : (awaits t).isSome = true
    · rw [if_pos hsome] at h
      exact h ▸ .awaiting hpc hsome
    · rw [if_neg hsome] at h
      exact h ▸ .working hpc (Bool.not_eq_true _ ▸ hsome)
  | waitWork =>
    simp only [hpc] at h
    split at h
    · next e he =>
      simp only [Option.ite_none_right_eq_some, Option.some.injEq] at h
      exact h.2 ▸ .waitWork e hpc he h.1
    · cases h
  | body =>
    simp only [hpc, Option.some.injEq] at h
    exact h ▸ .body hpc
  | testActive =>
    simp only [hpc] at h
    split at h
    · next hactive => exact (Option.some.inj h) ▸ .again hpc hactive
    · next hactive =>
      rw [Bool.not_eq_true] at hactive
      split at h
      · next ht => exact (Option.some.inj h) ▸ .closing hpc hactive ht
      · next ht => exact (Option.some.inj h) ▸ .leaves hpc hactive ht
  | closeOut =>
    simp only [hpc, Option.some.injEq] at h
    exact h ▸ .closeOut hpc
  | setStoppedLast =>
    simp only [hpc, Option.some.injEq] at h
    exact h ▸ .setStoppedLast hpc
  | setEnded =>
    simp only [hpc, Option.some.injEq] at h
    exact h ▸ .setEnded hpc
  | ended =>
    simp only [hpc] at h
    cases h

/-- **What the cleanup thread can do.** -/
inductive Cleans (s : State) : State → Prop
  | waitDoCleanup : s.cleanup = .waitDoCleanup → s.isSet .doCleanup = true →
      Cleans s { s with cleanup := .resetStart }
  | resetStart : s.cleanup = .resetStart →
      Cleans s { s with startThreads := false, cleanup := .setNewMessage false }
  | setNewMessage (done : Bool) : s.cleanup = .setNewMessage done →
      Cleans s { s.setEvent .newMessage true with cleanup := .setProcessData done }
  | setProcessData (done : Bool) : s.cleanup = .setProcessData done → Cleans s
      { s.setEvent .processData true with cleanup := if done then .setStart else .waitStopped }
  | waitStopped : s.cleanup = .waitStopped → (∀ t, s.stopped t = true) →
      Cleans s { s with cleanup := .cleanup }
  | cleanup : s.cleanup = .cleanup → Cleans s { s with cleanup := .resetDoCleanup }
  | resetDoCleanup : s.cleanup = .resetDoCleanup →
      Cleans s { s.setEvent .doCleanup false with cleanup := .setNewMessage true }
  | setStart : s.cleanup = .setStart →
      Cleans s { s with startThreads := true, cleanup := .testActive }
  | again : s.cleanup = .testActive → s.isAppActive = true →
      Cleans s { s with cleanup := .waitDoCleanup }
  | leaves : s.cleanup = .testActive → s.isAppActive = false →
      Cleans s { s with cleanup := .waitEnded }
  | waitEnded : s.cleanup = .waitEnded → (∀ t, s.endedEvent t = true) →
      Cleans s { s with endedEvent := fun _ => false, cleanup := .setCleanupEnded }
  | setCleanupEnded : s.cleanup = .setCleanupEnded →
      Cleans s { s with cleanupEnded := true, cleanup := .ended }

theorem all_workers {f : Worker → Bool} :
    (f .processing && f .commWrite && f .commRead) = true ↔ ∀ t, f t = true := by
  simp only [Bool.and_eq_true]
  constructor
  · rintro ⟨⟨hp, hw⟩, hr⟩ t
    cases t with
    | commRead => exact hr
    | commWrite => exact hw
    | processing => exact hp
  · exact fun h => ⟨⟨h _, h _⟩, h _⟩

theorem cleanupStep_cleans (h : cleanupStep s = some s') : Cleans s s' := by
  unfold cleanupStep at h
  cases hpc : s.cleanup with
  | waitDoCleanup =>
    simp only [hpc, Option.ite_none_right_eq_some, Option.some.injEq] at h
    exact h.2 ▸ .waitDoCleanup hpc h.1
  | resetStart =>
    simp only [hpc, Option.some.injEq] at h
    exact h ▸ .resetStart hpc
  | setNewMessage done =>
    simp only [hpc, Option.some.injEq] at h
    exact h ▸ .setNewMessage done hpc
  | setProcessData done =>
    simp only [hpc, Option.some.injEq] at h
    exact h ▸ .setProcessData done hpc
  | waitStopped =>
    simp only [hpc, Option.ite_none_right_eq_some, Option.some.injEq, all_workers] at h
    exact h.2 ▸ .waitStopped hpc h.1
  | cleanup =>
    simp only [hpc, Option.some.injEq] at h
    exact h ▸ .cleanup hpc
  | resetDoCleanup =>
    simp only [hpc, Option.some.injEq] at h
    exact h ▸ .resetDoCleanup hpc
  | setStart =>
    simp only [hpc, Option.some.injEq] at h
    exact h ▸ .setStart hpc
  | testActive =>
    simp only [hpc, Option.some.injEq] at h
    by_cases hactive : s.isAppActive = true
    · rw [if_pos hactive] at h
      exact h ▸ .again hpc hactive
    · rw [if_neg hactive] at h
      exact h ▸ .leaves hpc (Bool.not_eq_true _ ▸ hactive)
  | waitEnded =>
    simp only [hpc, Option.ite_none_right_eq_some, Option.some.injEq, all_workers] at h
    exact h.2 ▸ .waitEnded hpc h.1
  | setCleanupEnded =>
    simp only [hpc, Option.some.injEq] at h
    exact h ▸ .setCleanupEnded hpc
  | ended =>
    simp only [hpc] at h
    cases h

/-! ## What a worker leaves alone -/

/-- Only one worker awaits an event. -/
theorem awaits_injective {u : Worker} (ht : awaits t = some e) (hu : awaits u = some e) : t = u := by
  have heq := ht.trans hu.symm
  cases t <;> cases u <;> first | rfl | exact absurd heq (by decide)

namespace Moves

theorem same (h : Moves s t s') : s'.startThreads = s.startThreads ∧
    s'.cleanupEnded = s.cleanupEnded ∧ s'.isAppActive = s.isAppActive ∧ s'.cleanup = s.cleanup ∧
    s'.main = s.main ∧ s'.handler = s.handler := by
  cases h <;> exact ⟨rfl, rfl, rfl, rfl, rfl, rfl⟩

theorem other (h : Moves s t s') {u : Worker} (hu : u ≠ t) : s'.worker u = s.worker u ∧
    s'.stopped u = s.stopped u ∧ s'.endedEvent u = s.endedEvent u := by
  cases h <;> simp [State.goto, State.setStoppedEvent, State.setEvent, hu]

/-- Only the worker that awaits an event resets it. -/
theorem isSet (h : Moves s t s') (he : awaits t ≠ some e) : s'.isSet e = s.isSet e := by
  cases h with
  | waitWork e' _ he' _ =>
    have hne : e ≠ e' := fun heq => he (heq ▸ he')
    simp [State.goto, State.setEvent, hne]
  | setStopped | waitStart | awaiting | working | body | again | closing | leaves | closeOut
  | setStoppedLast | setEnded => rfl

end Moves

/-! ## Invariants -/

/-- The threads are kept from starting. -/
def CleanupPc.holdsStart : CleanupPc → Bool
  | .setNewMessage _ => true
  | .setProcessData _ => true
  | .waitStopped => true
  | .cleanup => true
  | .resetDoCleanup => true
  | .setStart => true
  | _ => false

/-- The event has been set, for the worker that awaits it to stop. -/
def CleanupPc.woke (e : Event) : CleanupPc → Bool
  | .setProcessData false => e = .newMessage
  | .waitStopped => e ≠ .doCleanup
  | _ => false

/-- The event has been set for the last time in this round. -/
def CleanupPc.called (e : Event) : CleanupPc → Bool
  | .setProcessData true => e = .newMessage
  | .setStart => e ≠ .doCleanup
  | .testActive => e ≠ .doCleanup
  | .waitEnded => e ≠ .doCleanup
  | .setCleanupEnded => e ≠ .doCleanup
  | .ended => e ≠ .doCleanup
  | _ => false

/-- The cleanup thread is past its loop. -/
def CleanupPc.left : CleanupPc → Bool
  | .waitEnded => true
  | .setCleanupEnded => true
  | .ended => true
  | _ => false

/-- The wait for the workers' ends is over. -/
def CleanupPc.gathered : CleanupPc → Bool
  | .setCleanupEnded => true
  | .ended => true
  | _ => false

/-- Where the stopped event is set. -/
def WorkerPc.looksStopped : WorkerPc → Bool
  | .waitStart => true
  | .resetStopped => true
  | .setEnded => true
  | .ended => true
  | _ => false

/-- The worker is about to wait for work. -/
def WorkerPc.waits : WorkerPc → Bool
  | .resetStopped => true
  | .waitWork => true
  | _ => false

/-- The worker has work, or has left its loop. -/
def WorkerPc.works : WorkerPc → Bool
  | .body => true
  | .testActive => true
  | .closeOut => true
  | .setStoppedLast => true
  | .setEnded => true
  | .ended => true
  | _ => false

/-- What the events say about the threads. -/
structure EventsOK (s : State) : Prop where
  start : s.startThreads = !s.cleanup.holdsStart
  stopped : ∀ t, (s.worker t).looksStopped = true → s.stopped t = true
  endedEvent : s.cleanup.gathered = false → ∀ t, s.worker t = .ended → s.endedEvent t = true
  ended : ∀ t, s.endedEvent t = true → s.worker t = .ended
  active : s.isAppActive = true ↔ s.handler = .idle
  left : s.cleanup.left = true → s.isAppActive = false
  asked : s.handler = .done → s.cleanup = .waitDoCleanup → s.isSet .doCleanup = true
  cleanupEnded : s.cleanupEnded = true ↔ s.cleanup = .ended
  woken : ∀ t e, awaits t = some e → s.cleanup.woke e = true → s.isSet e = true ∨
    (s.worker t).waits = false
  awaits : ∀ t, s.worker t = .waitWork → (awaits t).isSome = true

theorem EventsOK.start_ok : EventsOK State.start where
  start := rfl
  stopped _ h := by cases h
  endedEvent _ _ h := by cases h
  ended _ h := by cases h
  active := ⟨fun _ => rfl, fun _ => rfl⟩
  left h := by cases h
  asked h := by cases h
  cleanupEnded := ⟨fun h => (by cases h), fun h => (by cases h)⟩
  woken _ _ _ h := by cases h
  awaits _ h := by cases h

namespace Moves

variable (h : Moves s t s')
include h

theorem looksStopped (hs : (s.worker t).looksStopped = true → s.stopped t = true)
    (hl : (s'.worker t).looksStopped = true) : s'.stopped t = true := by
  cases h <;> simp_all [State.goto, State.setStoppedEvent, State.setEvent, WorkerPc.looksStopped]

theorem endedEvent (hl : s'.worker t = .ended) : s'.endedEvent t = true := by
  cases h <;> simp_all [State.goto, State.setStoppedEvent, State.setEvent]

theorem ended (hs : s.endedEvent t = true → s.worker t = .ended)
    (hl : s'.endedEvent t = true) : s'.worker t = .ended := by
  cases h with
  | setEnded hpc => exact Function.update_self ..
  | setStopped hpc | body hpc | closeOut hpc | setStoppedLast hpc =>
    exact absurd (hs hl) (by simp [hpc])
  | waitStart hpc _ | awaiting hpc _ | working hpc _ | again hpc _ | closing hpc _ _
  | leaves hpc _ _ | waitWork _ hpc _ _ => exact absurd (hs hl) (by simp [hpc])

theorem waits (hs : s.startThreads = false) (hw : s.isSet e = true ∨ (s.worker t).waits = false)
    (he : awaits t = some e) : s'.isSet e = true ∨ (s'.worker t).waits = false := by
  cases h <;> simp_all [State.goto, State.setStoppedEvent, State.setEvent, WorkerPc.waits]

theorem isSome (hw : s'.worker t = .waitWork) : (awaits t).isSome = true := by
  cases h <;> simp_all [State.goto, State.setStoppedEvent, State.setEvent]

end Moves

theorem EventsOK.worker (h : EventsOK s) (hm : Moves s t s') : EventsOK s' := by
  obtain ⟨hstart, hce, hactive, hcleanup, -, hhandler⟩ := hm.same
  have hdo : s'.isSet .doCleanup = s.isSet .doCleanup := hm.isSet (by cases t <;> simp [Shutdown.awaits])
  constructor
  · rw [hstart, hcleanup]
    exact h.start
  · intro u
    by_cases hu : u = t
    · subst hu
      exact hm.looksStopped (h.stopped u)
    · obtain ⟨hw, hs, -⟩ := hm.other hu
      rw [hw, hs]
      exact h.stopped u
  · intro hg u
    rw [hcleanup] at hg
    by_cases hu : u = t
    · subst hu
      exact hm.endedEvent
    · obtain ⟨hw, -, he⟩ := hm.other hu
      rw [hw, he]
      exact h.endedEvent hg u
  · intro u
    by_cases hu : u = t
    · subst hu
      exact hm.ended (h.ended u)
    · obtain ⟨hw, -, he⟩ := hm.other hu
      rw [hw, he]
      exact h.ended u
  · rw [hactive, hhandler]
    exact h.active
  · rw [hcleanup, hactive]
    exact h.left
  · rw [hhandler, hcleanup, hdo]
    exact h.asked
  · rw [hce, hcleanup]
    exact h.cleanupEnded
  · intro u e he hwoke
    rw [hcleanup] at hwoke
    -- until the workers have stopped they may not start again
    have hheld : s.startThreads = false := by
      rw [h.start]
      cases hc : s.cleanup <;> simp_all [CleanupPc.woke, CleanupPc.holdsStart]
    by_cases hu : u = t
    · subst hu
      exact hm.waits hheld (h.woken u e he hwoke) he
    -- no other worker awaits the event and resets it
    · have hne : Shutdown.awaits t ≠ some e := fun heq => hu (awaits_injective he heq)
      obtain ⟨hw, -, -⟩ := hm.other hu
      rw [hw, hm.isSet hne]
      exact h.woken u e he hwoke
  · intro u
    by_cases hu : u = t
    · subst hu
      exact hm.isSome
    · rw [(hm.other hu).1]
      exact h.awaits u

/-- The events are set for the workers to stop. -/
theorem Cleans.woken (hc : Cleans s s') (h : EventsOK s) (he : awaits t = some e)
    (hwoke : s'.cleanup.woke e = true) : s'.isSet e = true ∨ (s'.worker t).waits = false := by
  cases hc with
  | setNewMessage done hpc =>
    cases done with
    | true => cases hwoke
    | false =>
      simp only [CleanupPc.woke, decide_eq_true_eq] at hwoke
      subst hwoke
      exact .inl (by simp [State.setEvent])
  | setProcessData done hpc =>
    cases done with
    | true => cases hwoke
    | false =>
      cases e with
      | doCleanup => cases hwoke
      | processData => exact .inl (by simp [State.setEvent])
      | newMessage => exact h.woken t _ he (by rw [hpc]; rfl)
  | waitDoCleanup | resetStart | waitStopped | cleanup | resetDoCleanup | setStart | again | leaves
  | waitEnded | setCleanupEnded => cases hwoke

theorem EventsOK.cleanup (h : EventsOK s) (hc : Cleans s s') : EventsOK s' := by
  have hstart := h.start
  have hended := h.endedEvent
  have hce := h.cleanupEnded
  have hactive := h.active
  have hleft := h.left
  have hwoken := fun t e => hc.woken (t := t) (e := e) h
  cases hc with
  | waitDoCleanup hpc _ | resetStart hpc | waitStopped hpc _ | cleanup hpc | setStart hpc
  | again hpc _ | leaves hpc _ =>
    refine ⟨?_, h.stopped, ?_, h.ended, h.active, ?_, ?_, ?_, hwoken, h.awaits⟩ <;>
      simp_all [CleanupPc.holdsStart, CleanupPc.gathered, CleanupPc.left]
  | setNewMessage done hpc | resetDoCleanup hpc =>
    refine ⟨?_, h.stopped, ?_, h.ended, h.active, ?_, ?_, ?_, hwoken, h.awaits⟩ <;>
      simp_all [CleanupPc.holdsStart, CleanupPc.gathered, CleanupPc.left, State.setEvent]
  | setProcessData done hpc =>
    refine ⟨?_, h.stopped, ?_, h.ended, h.active, ?_, ?_, ?_, hwoken, h.awaits⟩ <;>
      cases done <;>
        simp_all [CleanupPc.holdsStart, CleanupPc.gathered, CleanupPc.left, State.setEvent]
  | waitEnded hpc hall =>
    refine ⟨?_, h.stopped, ?_, ?_, h.active, ?_, ?_, ?_, hwoken, h.awaits⟩ <;>
      simp_all [CleanupPc.holdsStart, CleanupPc.gathered, CleanupPc.left]
  | setCleanupEnded hpc =>
    refine ⟨?_, h.stopped, ?_, h.ended, h.active, ?_, ?_, ?_, hwoken, h.awaits⟩ <;>
      simp_all [CleanupPc.holdsStart, CleanupPc.gathered, CleanupPc.left]

theorem EventsOK.set (h : EventsOK s) (e : Event) : EventsOK (s.setEvent e true) := by
  have hset : ∀ e', s.isSet e' = true → (s.setEvent e true).isSet e' = true := by
    intro e' he'
    simp only [State.setEvent, Function.update_apply]
    split
    · rfl
    · exact he'
  exact ⟨h.start, h.stopped, h.endedEvent, h.ended, h.active, h.left,
    fun hd hc => hset _ (h.asked hd hc), h.cleanupEnded,
    fun t e' he hw => (h.woken t e' he hw).imp_left (hset e'), h.awaits⟩

theorem mainStep_cases (h : mainStep s = some s') :
    s.main = .waitCleanupEnded ∧ s.cleanupEnded = true ∧ s' = { s with main := .closeListener } ∨
    s.main = .closeListener ∧ s' = { s with main := .deleteCriticalSections } ∨
    s.main = .deleteCriticalSections ∧ s' = { s with main := .done } := by
  unfold mainStep at h
  cases hpc : s.main with
  | waitCleanupEnded =>
    simp only [hpc, Option.ite_none_right_eq_some, Option.some.injEq] at h
    exact .inl ⟨rfl, h.1, h.2.symm⟩
  | closeListener =>
    simp only [hpc, Option.some.injEq] at h
    exact .inr (.inl ⟨rfl, h.symm⟩)
  | deleteCriticalSections =>
    simp only [hpc, Option.some.injEq] at h
    exact .inr (.inr ⟨rfl, h.symm⟩)
  | done =>
    simp only [hpc] at h
    cases h

/-- `main` leaves the other threads alone. -/
theorem mainStep_eq (h : mainStep s = some s') : ∃ pc, s' = { s with main := pc } := by
  rcases mainStep_cases h with ⟨-, -, rfl⟩ | ⟨-, rfl⟩ | ⟨-, rfl⟩ <;> exact ⟨_, rfl⟩

theorem handlerStep_eq (h : handlerStep s = some s') :
    s.handler = .setDoCleanup ∧ s' = { s.setEvent .doCleanup true with handler := .done } := by
  unfold handlerStep at h
  split at h
  · next hpc => exact ⟨hpc, (Option.some.inj h).symm⟩
  · cases h

/-- A worker in its loop body sets an event. -/
theorem signalStep_eq {t : Worker} {e : Event} (h : Step s (.signal t e) s') :
    (s.worker t = .body ∧ sets t e = true) ∧ s' = s.setEvent e true := by
  simp only [Step, step, Option.ite_none_right_eq_some, Option.some.injEq] at h
  exact ⟨h.1, h.2.symm⟩

/-- The wait for the workers' ends is given up. -/
theorem timeoutStep_eq (h : Step s .timeout s') :
    s.cleanup = .waitEnded ∧ s' = { s with cleanup := .setCleanupEnded } := by
  simp only [Step, step, Option.ite_none_right_eq_some, Option.some.injEq] at h
  exact ⟨h.1, h.2.symm⟩

theorem interruptStep_eq (h : Step s .interrupt s') :
    s.handler = .idle ∧ s' = { s with isAppActive := false, handler := .setDoCleanup } := by
  simp only [Step, step, Option.ite_none_right_eq_some, Option.some.injEq] at h
  exact ⟨h.1, h.2.symm⟩

theorem EventsOK.step (h : EventsOK s) (hs : Step s a s') : EventsOK s' := by
  cases a with
  | worker t => exact h.worker (workerStep_moves hs)
  | cleanup => exact h.cleanup (cleanupStep_cleans hs)
  | signal t e =>
    obtain ⟨-, rfl⟩ := signalStep_eq hs
    exact h.set e
  | timeout =>
    obtain ⟨hpc, rfl⟩ := timeoutStep_eq hs
    -- the cleanup thread has left its loop
    have hleft := h.left (by rw [hpc]; rfl)
    have hstart : s.startThreads = true := by rw [h.start, hpc]; rfl
    have hce : s.cleanupEnded ≠ true := fun hce => by simp [h.cleanupEnded, hpc] at hce
    exact ⟨hstart, h.stopped, fun hg => (by cases hg), h.ended, h.active, fun _ => hleft,
      fun _ hc => (by cases hc), ⟨fun hc => absurd hc hce, fun hc => (by cases hc)⟩,
      fun _ _ _ hw => (by cases hw), h.awaits⟩
  | main =>
    obtain ⟨pc, rfl⟩ := mainStep_eq hs
    exact ⟨h.start, h.stopped, h.endedEvent, h.ended, h.active, h.left, h.asked, h.cleanupEnded,
      h.woken, h.awaits⟩
  | interrupt =>
    obtain ⟨-, rfl⟩ := interruptStep_eq hs
    exact ⟨h.start, h.stopped, h.endedEvent, h.ended, ⟨fun hc => (by cases hc), fun hc => (by cases hc)⟩,
      fun _ => rfl, fun hc => (by cases hc), h.cleanupEnded, h.woken, h.awaits⟩
  | handler =>
    obtain ⟨hpc, rfl⟩ := handlerStep_eq hs
    have hinactive : s.isAppActive ≠ true := fun hc => by simp [h.active, hpc] at hc
    have hset := h.set .doCleanup
    exact ⟨hset.start, hset.stopped, hset.endedEvent, hset.ended,
      ⟨fun hc => absurd hc hinactive, fun hc => (by cases hc)⟩, hset.left,
      fun _ _ => (by simp [State.setEvent]), hset.cleanupEnded, hset.woken, hset.awaits⟩

/-! ## Events set for the last time -/

/-- The event that a worker awaits is set in time for the end: it has been set since the interrupt,
or is to be. -/
def Prompt (e : Event) (s : State) (a : Action) : Prop :=
  a = .interrupt → s.cleanup.called e = false

/-- Once it is set for the last time, the worker that awaits it finds it. -/
structure Called (e : Event) (s : State) : Prop where
  ok : EventsOK s
  called : s.isAppActive = false → s.cleanup.called e = true → ∀ t, awaits t = some e →
    s.isSet e = true ∨ (s.worker t).works = true

theorem Moves.works (h : Moves s t s') (hactive : s.isAppActive = false) (he : awaits t = some e)
    (hw : s.isSet e = true ∨ (s.worker t).works = true) :
    s'.isSet e = true ∨ (s'.worker t).works = true := by
  cases h <;> simp_all [State.goto, State.setStoppedEvent, State.setEvent, WorkerPc.works]

/-- An event counts as set for the last time from its last `SetEvent` on. -/
theorem Cleans.called (h : Cleans s s') (hc : s'.cleanup.called e = true) :
    s'.worker = s.worker ∧ s'.isAppActive = s.isAppActive ∧
      (s'.isSet e = true ∨ s.cleanup.called e = true ∧ s'.isSet e = s.isSet e) := by
  cases h with
  | setNewMessage done hpc =>
    cases done with
    | false => cases hc
    | true =>
      simp only [CleanupPc.called, decide_eq_true_eq] at hc
      subst hc
      exact ⟨rfl, rfl, .inl (by simp [State.setEvent])⟩
  | setProcessData done hpc =>
    cases done with
    | false => cases hc
    | true =>
      refine ⟨rfl, rfl, ?_⟩
      cases e with
      | doCleanup => cases hc
      | processData => exact .inl (by simp [State.setEvent])
      | newMessage => exact .inr ⟨by rw [hpc]; rfl, by simp [State.setEvent]⟩
  | setStart hpc | leaves hpc _ | waitEnded hpc _ | setCleanupEnded hpc =>
    exact ⟨rfl, rfl, .inr ⟨by rw [hpc]; exact hc, rfl⟩⟩
  | waitDoCleanup | resetStart | waitStopped | cleanup | resetDoCleanup | again => cases hc

theorem Called.start : Called e State.start := ⟨.start_ok, fun h => (by cases h)⟩

theorem Called.step (h : Called e s) (hP : Prompt e s a) (hs : Step s a s') : Called e s' := by
  refine ⟨h.ok.step hs, fun hactive hc u he => ?_⟩
  cases a with
  | worker t =>
    have hm := workerStep_moves hs
    obtain ⟨-, -, hsame, hcleanup, -, -⟩ := hm.same
    rw [hsame] at hactive
    rw [hcleanup] at hc
    have hold := h.called hactive hc u he
    by_cases hu : u = t
    · subst hu
      exact hm.works hactive he hold
    -- a worker resets the event it awaits, and no other
    · have hne : awaits t ≠ some e := fun heq => hu (awaits_injective he heq)
      rw [hm.isSet hne, (hm.other hu).1]
      exact hold
  | cleanup =>
    obtain ⟨hworker, hsame, hset | ⟨hold, hset⟩⟩ := (cleanupStep_cleans hs).called hc
    · exact .inl hset
    · rw [hworker, hset]
      exact h.called (hsame ▸ hactive) hold u he
  | signal t e' =>
    obtain ⟨-, rfl⟩ := signalStep_eq hs
    refine (h.called hactive hc u he).imp_left fun hset => ?_
    simp only [State.setEvent, Function.update_apply]
    split
    · rfl
    · exact hset
  | timeout =>
    obtain ⟨hpc, rfl⟩ := timeoutStep_eq hs
    exact h.called hactive (by rw [hpc]; exact hc) u he
  | main =>
    obtain ⟨pc, rfl⟩ := mainStep_eq hs
    exact h.called hactive hc u he
  | interrupt =>
    obtain ⟨-, rfl⟩ := interruptStep_eq hs
    -- here the step is prompt: the event is yet to be set
    simp [hP rfl] at hc
  | handler =>
    obtain ⟨-, rfl⟩ := handlerStep_eq hs
    have hne : e ≠ .doCleanup := by
      rintro rfl
      cases u <;> cases he
    have hset : (s.setEvent .doCleanup true).isSet e = s.isSet e := by simp [State.setEvent, hne]
    exact hset ▸ h.called hactive hc u he

/-! ## Quiet states -/

/-- A worker that can go no further has ended, or waits. -/
theorem workerStep_none (h : workerStep s t = none) : s.worker t = .ended ∨
    s.worker t = .waitStart ∧ s.startThreads = false ∨
    s.worker t = .waitWork ∧ ∀ e, awaits t = some e → s.isSet e = false := by
  unfold workerStep at h
  cases hpc : s.worker t with
  | ended => exact .inl rfl
  | waitStart =>
    simp only [hpc, ite_eq_right_iff, reduceCtorEq, imp_false, Bool.not_eq_true] at h
    exact .inr (.inl ⟨rfl, h⟩)
  | waitWork =>
    refine .inr (.inr ⟨rfl, fun e he => ?_⟩)
    simpa only [hpc, he, ite_eq_right_iff, reduceCtorEq, imp_false, Bool.not_eq_true] using h
  | testActive =>
    simp only [hpc] at h
    split at h
    · cases h
    · split at h <;> cases h
  | setStopped | resetStopped | body | closeOut | setStoppedLast | setEnded =>
    simp only [hpc] at h
    cases h

theorem cleanupStep_none (h : cleanupStep s = none) :
    s.cleanup = .waitDoCleanup ∧ s.isSet .doCleanup = false ∨
    s.cleanup = .waitStopped ∧ (∃ t, s.stopped t = false) ∨
    s.cleanup = .waitEnded ∧ (∃ t, s.endedEvent t = false) ∨ s.cleanup = .ended := by
  unfold cleanupStep at h
  cases hpc : s.cleanup with
  | waitDoCleanup =>
    simp only [hpc, ite_eq_right_iff, reduceCtorEq, imp_false, Bool.not_eq_true] at h
    exact .inl ⟨rfl, h⟩
  | waitStopped =>
    simp only [hpc, all_workers, ite_eq_right_iff, reduceCtorEq, imp_false, not_forall,
      Bool.not_eq_true] at h
    exact .inr (.inl ⟨rfl, h⟩)
  | waitEnded =>
    simp only [hpc, all_workers, ite_eq_right_iff, reduceCtorEq, imp_false, not_forall,
      Bool.not_eq_true] at h
    exact .inr (.inr (.inl ⟨rfl, h⟩))
  | ended => exact .inr (.inr (.inr rfl))
  | resetStart | setNewMessage | setProcessData | cleanup | resetDoCleanup | setStart | testActive
  | setCleanupEnded =>
    simp only [hpc] at h
    cases h

theorem mainStep_none (h : mainStep s = none) :
    s.main = .done ∨ s.main = .waitCleanupEnded ∧ s.cleanupEnded = false := by
  unfold mainStep at h
  cases hpc : s.main with
  | waitCleanupEnded =>
    simp only [hpc, ite_eq_right_iff, reduceCtorEq, imp_false, Bool.not_eq_true] at h
    exact .inr ⟨rfl, h⟩
  | done => exact .inl rfl
  | closeListener | deleteCriticalSections =>
    simp only [hpc] at h
    cases h

/-- The interrupt has been handled. -/
theorem EventsOK.handled (h : EventsOK s) (hactive : s.isAppActive = false)
    (hq : handlerStep s = none) : s.handler = .done := by
  have hidle : s.handler ≠ .idle := fun hidle => by simp [h.active.2 hidle] at hactive
  unfold handlerStep at hq
  cases hpc : s.handler with
  | idle => exact absurd hpc hidle
  | setDoCleanup =>
    rw [hpc] at hq
    cases hq
  | done => rfl

/-- The cleanup thread is past its loop. -/
theorem EventsOK.quiet_left (h : EventsOK s) (hactive : s.isAppActive = false) (hq : s.Quiet) :
    s.cleanup = .waitEnded ∧ (∃ t, s.endedEvent t = false) ∨ s.cleanup = .ended := by
  obtain ⟨hworkers, hcleanup, -, hhandler⟩ := hq
  rcases cleanupStep_none hcleanup with ⟨hpc, hset⟩ | ⟨hpc, t, hstopped⟩ | hleft
  · have := h.asked (h.handled hactive hhandler) hpc
    rw [hset] at this
    cases this
  · -- a worker that has not stopped has work
    rcases workerStep_none (hworkers t) with hw | ⟨hw, -⟩ | ⟨hw, hwork⟩
    · have := h.stopped t (by rw [hw]; rfl)
      rw [hstopped] at this
      cases this
    · have := h.stopped t (by rw [hw]; rfl)
      rw [hstopped] at this
      cases this
    · obtain ⟨e, he⟩ := Option.isSome_iff_exists.1 (h.awaits t hw)
      have hwoke : s.cleanup.woke e = true := by
        rw [hpc]
        cases t <;> cases he <;> rfl
      rcases h.woken t e he hwoke with hset | hwaits
      · rw [hwork e he] at hset
        cases hset
      · rw [hw] at hwaits
        cases hwaits
  · exact hleft

/-- The worker waits for ever: it waits for work, and its event was set for the last time before the
interrupt. -/
def Missed (tr : List (Action × State)) (t : Worker) : Prop :=
  ∃ e, awaits t = some e ∧ (final State.start tr).worker t = .waitWork ∧
    (final State.start tr).isSet e = false ∧ ¬Steps (Prompt e) State.start tr

/-- The most steps a worker takes from there on, once the muxer is to end. -/
def WorkerPc.rank : WorkerPc → ℕ
  | .setStopped => 9
  | .waitStart => 8
  | .resetStopped => 7
  | .waitWork => 6
  | .body => 5
  | .testActive => 4
  | .closeOut => 3
  | .setStoppedLast => 2
  | .setEnded => 1
  | .ended => 0

def CleanupPc.rank : CleanupPc → ℕ
  | .waitDoCleanup => 13
  | .resetStart => 12
  | .setNewMessage false => 11
  | .setProcessData false => 10
  | .waitStopped => 9
  | .cleanup => 8
  | .resetDoCleanup => 7
  | .setNewMessage true => 6
  | .setProcessData true => 5
  | .setStart => 4
  | .testActive => 3
  | .waitEnded => 2
  | .setCleanupEnded => 1
  | .ended => 0

def MainPc.rank : MainPc → ℕ
  | .waitCleanupEnded => 3
  | .closeListener => 2
  | .deleteCriticalSections => 1
  | .done => 0

def HandlerPc.rank : HandlerPc → ℕ
  | .idle => 0
  | .setDoCleanup => 1
  | .done => 0

def State.rank (s : State) : ℕ :=
  (s.worker .commRead).rank + (s.worker .commWrite).rank + (s.worker .processing).rank +
    s.cleanup.rank + s.main.rank + s.handler.rank

/-- The muxer is to end. -/
structure Ending (s : State) : Prop where
  inactive : s.isAppActive = false
  handler : s.handler ≠ .idle

/-- Not an event set in a loop body. -/
def Action.goesOn : Action → Bool
  | .signal _ _ => false
  | _ => true

theorem Moves.rank (h : Moves s t s') (hactive : s.isAppActive = false) :
    (s'.worker t).rank < (s.worker t).rank := by
  cases h <;> simp_all [State.goto, State.setStoppedEvent, State.setEvent, WorkerPc.rank]

theorem Cleans.rank (h : Cleans s s') (hactive : s.isAppActive = false) :
    s'.cleanup.rank < s.cleanup.rank ∧ s'.worker = s.worker ∧ s'.main = s.main ∧
      s'.handler = s.handler ∧ s'.isAppActive = s.isAppActive := by
  cases h with
  | setNewMessage done hpc | setProcessData done hpc =>
    cases done <;> simp [hpc, CleanupPc.rank, State.setEvent]
  | again hpc hsome =>
    rw [hactive] at hsome
    cases hsome
  | waitDoCleanup hpc _ | resetStart hpc | waitStopped hpc _ | cleanup hpc | setStart hpc
  | leaves hpc _ | resetDoCleanup hpc | waitEnded hpc _ | setCleanupEnded hpc =>
    simp [hpc, CleanupPc.rank, State.setEvent]

theorem Ending.step (h : Ending s) (hs : Step s a s') :
    Ending s' ∧ s'.rank + (if a.goesOn then 1 else 0) ≤ s.rank := by
  cases a with
  | worker t =>
    have hm := workerStep_moves hs
    obtain ⟨-, -, hactive, hcleanup, hmain, hhandler⟩ := hm.same
    -- only this worker moves
    have hlt := hm.rank h.inactive
    refine ⟨⟨hactive.trans h.inactive, hhandler ▸ h.handler⟩, ?_⟩
    simp only [State.rank, hcleanup, hmain, hhandler, Action.goesOn, if_true]
    cases t with
    | commRead =>
      rw [(hm.other (u := .commWrite) (by decide)).1, (hm.other (u := .processing) (by decide)).1]
      omega
    | commWrite =>
      rw [(hm.other (u := .commRead) (by decide)).1, (hm.other (u := .processing) (by decide)).1]
      omega
    | processing =>
      rw [(hm.other (u := .commRead) (by decide)).1, (hm.other (u := .commWrite) (by decide)).1]
      omega
  | cleanup =>
    obtain ⟨hlt, hworker, hmain, hhandler, hactive⟩ := (cleanupStep_cleans hs).rank h.inactive
    refine ⟨⟨hactive.trans h.inactive, hhandler ▸ h.handler⟩, ?_⟩
    simp only [State.rank, hworker, hmain, hhandler, Action.goesOn, if_true]
    omega
  | signal t e =>
    obtain ⟨-, rfl⟩ := signalStep_eq hs
    exact ⟨⟨h.inactive, h.handler⟩, Nat.le_refl _⟩
  | timeout =>
    obtain ⟨hpc, rfl⟩ := timeoutStep_eq hs
    refine ⟨⟨h.inactive, h.handler⟩, ?_⟩
    simp only [State.rank, hpc, CleanupPc.rank, Action.goesOn, if_true]
    omega
  | main =>
    rcases mainStep_cases hs with ⟨hpc, -, rfl⟩ | ⟨hpc, rfl⟩ | ⟨hpc, rfl⟩ <;>
      refine ⟨⟨h.inactive, h.handler⟩, ?_⟩ <;>
      simp only [State.rank, hpc, MainPc.rank, Action.goesOn, if_true] <;> omega
  | interrupt =>
    exact absurd (interruptStep_eq hs).1 h.handler
  | handler =>
    obtain ⟨hpc, rfl⟩ := handlerStep_eq hs
    refine ⟨⟨h.inactive, by simp⟩, ?_⟩
    simp only [State.rank, State.setEvent, hpc, HandlerPc.rank, Action.goesOn, if_true]
    omega

theorem rank_le (s : State) : s.rank ≤ 44 := by
  have hworker : ∀ t, (s.worker t).rank ≤ 9 := by
    intro t
    cases s.worker t <;> decide
  have hcleanup : s.cleanup.rank ≤ 13 := by
    unfold CleanupPc.rank
    split <;> decide
  have hmain : s.main.rank ≤ 3 := by
    cases s.main <;> decide
  have hhandler : s.handler.rank ≤ 1 := by
    cases s.handler <;> decide
  have hr := hworker .commRead
  have hw := hworker .commWrite
  have hp := hworker .processing
  unfold State.rank
  omega

/-- **An interrupted muxer ends soon**: from there on its threads take at most 44 steps, the events set
in loop bodies apart. -/
theorem shutdown_bounded {tr tr' : List (Action × State)} (h : Exec Step State.start tr)
    (hactive : (final State.start tr).isAppActive = false)
    (h' : Exec Step (final State.start tr) tr') : (tr'.countP fun x => x.1.goesOn) ≤ 44 := by
  have hok : EventsOK (final State.start tr) :=
    h.inv (I := EventsOK) (fun _ _ _ hI hs => hI.step hs) .start_ok _ (final_mem_states _ _)
  have hending : Ending (final State.start tr) :=
    ⟨hactive, fun hidle => by simp [hok.active.2 hidle] at hactive⟩
  have hcount := h'.count_le (I := Ending) (f := State.rank) (p := Action.goesOn)
    (fun _ _ _ hI hs => (hI.step hs).1) (fun _ _ _ hI hs => (hI.step hs).2) hending
  have hrank := rank_le (final State.start tr)
  omega

/-! ## What `main` waits for -/

/-- The wait for the workers' ends is not given up. -/
def Waits (_ : State) (a : Action) : Prop := a ≠ .timeout

/-- The workers have ended by the time the cleanup thread has. -/
structure Gathered (s : State) : Prop where
  ok : EventsOK s
  ended : s.cleanup.gathered = true → ∀ t, s.worker t = .ended

theorem Moves.ended_ne (h : Moves s t s') : s.worker t ≠ .ended := by
  intro heq
  cases h <;> simp_all

theorem Gathered.step (h : Gathered s) (hP : Waits s a) (hs : Step s a s') : Gathered s' := by
  refine ⟨h.ok.step hs, fun hg u => ?_⟩
  cases a with
  | worker t =>
    have hm := workerStep_moves hs
    obtain ⟨-, -, -, hcleanup, -, -⟩ := hm.same
    rw [hcleanup] at hg
    -- a worker that has ended takes no step
    exact absurd (h.ended hg t) hm.ended_ne
  | cleanup =>
    cases cleanupStep_cleans hs with
    | waitEnded hpc hall => exact h.ok.ended u (hall u)
    | setCleanupEnded hpc => exact h.ended (by rw [hpc]; rfl) u
    | setProcessData done hpc => cases done <;> cases hg
    | waitDoCleanup | resetStart | setNewMessage | waitStopped | cleanup | resetDoCleanup | setStart
    | again | leaves => cases hg
  | signal t e =>
    obtain ⟨-, rfl⟩ := signalStep_eq hs
    exact h.ended hg u
  | timeout => exact absurd rfl hP
  | main =>
    obtain ⟨pc, rfl⟩ := mainStep_eq hs
    exact h.ended hg u
  | interrupt =>
    obtain ⟨-, rfl⟩ := interruptStep_eq hs
    exact h.ended hg u
  | handler =>
    obtain ⟨-, rfl⟩ := handlerStep_eq hs
    exact h.ended hg u

/-- `main` goes on when the cleanup thread has ended. -/
structure MainOK (s : State) : Prop where
  ok : EventsOK s
  waited : s.main ≠ .waitCleanupEnded → s.cleanupEnded = true

theorem MainOK.step (h : MainOK s) (hs : Step s a s') : MainOK s' := by
  refine ⟨h.ok.step hs, fun hmain => ?_⟩
  cases a with
  | worker t =>
    obtain ⟨-, hce, -, -, hsame, -⟩ := (workerStep_moves hs).same
    rw [hsame] at hmain
    rw [hce]
    exact h.waited hmain
  | cleanup =>
    cases cleanupStep_cleans hs with
    | setCleanupEnded => rfl
    | waitDoCleanup | resetStart | setNewMessage | setProcessData | waitStopped | cleanup
    | resetDoCleanup | setStart | again | leaves | waitEnded => exact h.waited hmain
  | signal t e =>
    obtain ⟨-, rfl⟩ := signalStep_eq hs
    exact h.waited hmain
  | timeout =>
    obtain ⟨-, rfl⟩ := timeoutStep_eq hs
    exact h.waited hmain
  | main =>
    rcases mainStep_cases hs with ⟨-, hce, rfl⟩ | ⟨hpc, rfl⟩ | ⟨hpc, rfl⟩
    · exact hce
    · exact h.waited (by simp [hpc])
    · exact h.waited (by simp [hpc])
  | interrupt =>
    obtain ⟨-, rfl⟩ := interruptStep_eq hs
    exact h.waited hmain
  | handler =>
    obtain ⟨-, rfl⟩ := handlerStep_eq hs
    exact h.waited hmain

/-- **What `main` deletes is not in use**: when it closes the listener and deletes the critical
sections, the other threads have ended, unless the wait for the workers was given up. -/
theorem sections_deleted {tr : List (Action × State)} (h : Exec Step State.start tr)
    (hmain : (final State.start tr).main ≠ .waitCleanupEnded) :
    (final State.start tr).cleanup = .ended ∧
      ((∀ t, (final State.start tr).worker t = .ended) ∨ ¬Steps Waits State.start tr) := by
  have hok : MainOK (final State.start tr) :=
    h.inv (I := MainOK) (fun _ _ _ hI hs => hI.step hs) ⟨.start_ok, fun hne => absurd rfl hne⟩ _
      (final_mem_states _ _)
  have hpc := hok.ok.cleanupEnded.1 (hok.waited hmain)
  refine ⟨hpc, ?_⟩
  by_cases hP : Steps Waits State.start tr
  · have hgathered : Gathered (final State.start tr) := h.inv_of_steps (I := Gathered)
      (fun _ _ _ hI hP hs => hI.step hP hs) ⟨.start_ok, fun hg => (by cases hg)⟩ hP _
      (final_mem_states _ _)
    exact .inl (hgathered.ended (by rw [hpc]; rfl))
  · exact .inr hP

/-! ## Two runs -/

/-- A cleanup is done, the writer takes the call that ends it for a call to write, and the interrupt
comes before the cleanup thread tests for it. -/
def missing : List Action :=
  [.worker .commRead, .worker .commRead, .worker .commRead, .signal .commRead .doCleanup,
    .worker .commRead, .worker .commRead, .worker .commRead, .worker .commWrite,
    .worker .processing, .cleanup, .cleanup, .cleanup, .cleanup, .cleanup, .cleanup, .cleanup,
    .cleanup, .cleanup, .cleanup, .worker .commWrite, .worker .commWrite, .worker .commWrite,
    .worker .commWrite, .worker .commWrite, .worker .commWrite, .worker .commWrite,
    .worker .commWrite, .interrupt]

/-- What the threads still do then. -/
def leaving : List Action :=
  [.cleanup, .handler, .worker .commRead, .worker .commRead, .worker .commRead, .worker .commRead,
    .worker .commRead, .worker .commRead, .worker .processing, .worker .processing,
    .worker .processing, .worker .processing, .worker .processing, .worker .processing,
    .worker .processing]

/-- All threads wait when a cleanup that the interrupt asks for is done, and then end. -/
def orderly : List Action :=
  [.worker .commRead, .worker .commWrite, .worker .processing, .interrupt, .handler, .cleanup,
    .cleanup, .cleanup, .cleanup, .cleanup, .cleanup, .cleanup, .cleanup, .cleanup, .cleanup,
    .cleanup, .worker .commRead, .worker .commRead, .worker .commRead, .worker .commRead,
    .worker .commRead, .worker .commRead, .worker .commWrite, .worker .commWrite,
    .worker .commWrite, .worker .commWrite, .worker .commWrite, .worker .commWrite,
    .worker .commWrite, .worker .commWrite, .worker .processing, .worker .processing,
    .worker .processing, .worker .processing, .worker .processing, .worker .processing,
    .worker .processing, .cleanup, .cleanup, .main, .main, .main]

instance (s : State) : Decidable s.Quiet :=
  decidable_of_iff ((workerStep s .commRead).isNone ∧ (workerStep s .commWrite).isNone ∧
    (workerStep s .processing).isNone ∧ (cleanupStep s).isNone ∧ (mainStep s).isNone ∧
    (handlerStep s).isNone) (by
      simp only [Option.isNone_iff_eq_none]
      refine ⟨fun ⟨hr, hw, hp, hrest⟩ => ⟨fun t => ?_, hrest⟩, fun ⟨h, hrest⟩ => ⟨h _, h _, h _, hrest⟩⟩
      cases t
      · exact hr
      · exact hw
      · exact hp)

/-- An interrupted muxer, with fifteen steps left. -/
theorem shutdown_bounded_missing : ∃ tr tr', Exec Step State.start tr ∧
    (final State.start tr).isAppActive = false ∧ Exec Step (final State.start tr) tr' ∧
    tr'.map Prod.fst = leaving ∧ (tr'.countP fun x => x.1.goesOn) ≤ 44 := by
  obtain ⟨s, ⟨tr, hex, -, rfl⟩, hs⟩ := exists_leads (f := step) (s := State.start)
    (fun _ _ _ h => h) missing
    (fun s => s.isAppActive = false ∧ (leaving.foldlM step s).isSome) (by decide)
  obtain ⟨hactive, hsome⟩ := of_decide_eq_true hs
  obtain ⟨s', hs'⟩ := Option.isSome_iff_exists.1 hsome
  obtain ⟨tr', hex', hlabels, -⟩ := leads_of_foldlM (fun _ _ _ h => h) hs'
  exact ⟨tr, tr', hex, hactive, hex', hlabels, shutdown_bounded hex hactive hex'⟩

/-- `main` comes to its end, with nothing given up. -/
theorem sections_deleted_orderly : ∃ tr, Exec Step State.start tr ∧
    (final State.start tr).main = .done ∧ (final State.start tr).cleanup = .ended := by
  obtain ⟨s, ⟨tr, hex, -, rfl⟩, hs⟩ := exists_leads (f := step) (s := State.start)
    (fun _ _ _ h => h) orderly
    (fun s => s.main = .done) (by decide)
  have hdone := of_decide_eq_true hs
  have hmain : (final State.start tr).main ≠ .waitCleanupEnded := by
    rw [hdone]
    decide
  exact ⟨tr, hex, hdone, (sections_deleted hex hmain).1⟩

end Muxer.Shutdown
