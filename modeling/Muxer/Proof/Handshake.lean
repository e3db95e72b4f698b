import Muxer.Lib.Exec
import Muxer.System.Handshake

/-!
# When a cleanup has the muxer to itself

A worker lowers its stopped event only after it has passed the wait for the start, so that in
between it looks stopped although it is in its loop body.

* `cleanup_alone_iff`: no worker is in its body during `cleanup` exactly when the wait for the
  stopped events never returns with a worker in between.
* `cleanup_not_alone`: a run in which it does.
-/

namespace Muxer.Handshake

open Lib

variable {s s' : State} {a : Action}

/-- No worker is in its loop body while `cleanup` runs. -/
def Alone (s : State) : Prop := s.cleanup = .cleanup → ∀ t, ¬(s.worker t).Inside

/-- The wait for the stopped events returns when no worker is about to lower its own. -/
def Settled (s : State) (a : Action) : Prop :=
  a = .cleanup → s.cleanup = .waitStopped → ∀ t, s.worker t ≠ .resetStopped

/-- The threads are kept from starting. -/
def CleanupPc.holdsStart : CleanupPc → Bool
  | .waitStopped => true
  | .cleanup => true
  | .resetDoCleanup => true
  | .setStart => true
  | _ => false

/-- What the events say about the threads. -/
structure EventsOK (s : State) : Prop where
  /-- A worker in its body has lowered its stopped event. -/
  lowered : ∀ t, (s.worker t).Inside → s.worker t ≠ .resetStopped → s.stopped t = false
  held : s.cleanup.holdsStart = true → s.startThreads = false

theorem EventsOK.start : EventsOK State.start where
  lowered _ h := h.elim
  held h := nomatch h

/-! ## Steps of a worker -/

/-- A worker moves, from a place to another. -/
inductive Moves (startThreads : Bool) : WorkerPc → Bool → WorkerPc → Bool → Prop
  | begin (b) : Moves startThreads .begin b .waitStart true
  | waitStart (b) : startThreads = true → Moves startThreads .waitStart b .resetStopped b
  | resetStopped (b) : Moves startThreads .resetStopped b .body false
  | body (b again) : Moves startThreads .body b (.setStopped again) b
  | again (b) : Moves startThreads (.setStopped true) b .waitStart true
  | ended (b) : Moves startThreads (.setStopped false) b .ended true

/-- **What a step of a worker does.** -/
theorem workerStep_cases {t : Worker} (h : workerStep s t = some s') :
    ∃ pc b, Moves s.startThreads (s.worker t) (s.stopped t) pc b ∧
      s' = { s with
        stopped := Function.update s.stopped t b
        worker := Function.update s.worker t pc } := by
  unfold workerStep at h
  cases hpc : s.worker t with
  | begin =>
    rw [hpc] at h
    cases h
    exact ⟨_, _, .begin _, rfl⟩
  | waitStart =>
    rw [hpc] at h
    by_cases hstart : s.startThreads = true
    · simp only [if_pos hstart] at h
      cases h
      exact ⟨_, _, .waitStart _ hstart, rfl⟩
    · simp only [if_neg hstart] at h
      cases h
  | resetStopped =>
    rw [hpc] at h
    cases h
    exact ⟨_, _, .resetStopped _, rfl⟩
  | body =>
    rw [hpc] at h
    cases h
    exact ⟨_, _, .body _ _, rfl⟩
  | setStopped again =>
    rw [hpc] at h
    cases h
    cases again with
    | true => exact ⟨_, _, .again _, rfl⟩
    | false => exact ⟨_, _, .ended _, rfl⟩
  | ended =>
    rw [hpc] at h
    cases h

theorem Moves.lowered {startThreads b b' : Bool} {pc pc' : WorkerPc}
    (h : Moves startThreads pc b pc' b') (hb : pc.Inside → pc ≠ .resetStopped → b = false)
    (hin : pc'.Inside) (hne : pc' ≠ .resetStopped) : b' = false := by
  cases h with
  | resetStopped => rfl
  | body => exact hb trivial (by simp)
  | waitStart => exact absurd rfl hne
  | begin => exact hin.elim
  | again => exact hin.elim
  | ended => exact hin.elim

/-- A worker gets into its body only when the threads may start. -/
theorem Moves.inside {startThreads b b' : Bool} {pc pc' : WorkerPc}
    (h : Moves startThreads pc b pc' b') (hstart : startThreads = false) (hin : pc'.Inside) :
    pc.Inside := by
  cases h with
  | waitStart _ hs =>
    rw [hstart] at hs
    cases hs
  | resetStopped => trivial
  | body => trivial
  | begin => exact hin.elim
  | again => exact hin.elim
  | ended => exact hin.elim

/-! ## Steps of the cleanup thread -/

/-- **What a step of the cleanup thread does.** -/
theorem cleanupStep_cases (h : cleanupStep s = some s') :
    s'.worker = s.worker ∧ s'.stopped = s.stopped ∧
      (s'.cleanup.holdsStart = true → s'.startThreads = false ∨
        (s.cleanup.holdsStart = true ∧ s'.startThreads = s.startThreads)) ∧
      (s'.cleanup = .cleanup → s.cleanup = .waitStopped ∧ ∀ t, s.stopped t = true) := by
  unfold cleanupStep at h
  cases hpc : s.cleanup with
  | waitDoCleanup =>
    simp only [hpc] at h
    split at h
    · cases h
      exact ⟨rfl, rfl, fun hh => (nomatch hh), fun hh => (nomatch hh)⟩
    · cases h
  | resetStart =>
    simp only [hpc] at h
    cases h
    exact ⟨rfl, rfl, fun _ => .inl rfl, fun hh => (nomatch hh)⟩
  | waitStopped =>
    simp only [hpc] at h
    -- the wait for all three stopped events
    by_cases hall : (s.stopped .processing && s.stopped .commWrite && s.stopped .commRead) = true
    · rw [if_pos hall] at h
      cases h
      refine ⟨rfl, rfl, fun _ => .inr ⟨rfl, rfl⟩, fun _ => ⟨rfl, fun t => ?_⟩⟩
      simp only [Bool.and_eq_true] at hall
      cases t with
      | commRead => exact hall.2
      | commWrite => exact hall.1.2
      | processing => exact hall.1.1
    · rw [if_neg hall] at h
      cases h
  | cleanup =>
    simp only [hpc] at h
    cases h
    exact ⟨rfl, rfl, fun _ => .inr ⟨rfl, rfl⟩, fun hh => (nomatch hh)⟩
  | resetDoCleanup =>
    simp only [hpc] at h
    cases h
    exact ⟨rfl, rfl, fun _ => .inr ⟨rfl, rfl⟩, fun hh => (nomatch hh)⟩
  | setStart =>
    simp only [hpc] at h
    cases h
    refine ⟨rfl, rfl, fun hh => ?_, fun hh => ?_⟩
    · split at hh
      · cases hh
      · cases hh
    · split at hh
      · cases hh
      · cases hh
  | ended =>
    simp only [hpc] at h
    cases h

/-! ## Runs -/

theorem EventsOK.step (h : EventsOK s) (hs : Step s a s') : EventsOK s' := by
  cases a with
  | worker t =>
    obtain ⟨pc, b, hmove, rfl⟩ := workerStep_cases hs
    refine ⟨fun u hin hne => ?_, h.held⟩
    by_cases hut : u = t
    · subst hut
      simp only [Function.update_self] at hin hne ⊢
      exact hmove.lowered (h.lowered u) hin hne
    · simp only [Function.update_of_ne hut] at hin hne ⊢
      exact h.lowered u hin hne
  | cleanup =>
    obtain ⟨hworker, hstopped, hheld, -⟩ := cleanupStep_cases hs
    refine ⟨by rw [hworker, hstopped]; exact h.lowered, ?_⟩
    intro hh
    rcases hheld hh with hstart | ⟨hold, hstart⟩
    · exact hstart
    · rw [hstart]
      exact h.held hold
  | requestCleanup =>
    cases hs
    exact ⟨h.lowered, h.held⟩
  | deactivate =>
    cases hs
    exact ⟨h.lowered, h.held⟩

/-- **One step keeps the cleanup alone exactly when** it does not end the wait for the stopped
events too early. -/
theorem alone_step (h : EventsOK s) (halone : Alone s) (hs : Step s a s') :
    Alone s' ↔ Settled s a := by
  cases a with
  | worker t =>
    refine ⟨fun _ ha => (nomatch ha), fun _ hc u hin => ?_⟩
    obtain ⟨pc, b, hmove, rfl⟩ := workerStep_cases hs
    have hold : s.cleanup = .cleanup := hc
    by_cases hut : u = t
    · subst hut
      simp only [Function.update_self] at hin
      -- the start is held back while `cleanup` runs, so it was inside before
      exact halone hold u (hmove.inside (h.held (by rw [hold]; rfl)) hin)
    · simp only [Function.update_of_ne hut] at hin
      exact halone hold u hin
  | cleanup =>
    obtain ⟨hworker, -, -, hwait⟩ := cleanupStep_cases hs
    constructor
    · intro halone' _ hc t hreset
      have hc' : s'.cleanup = .cleanup := by
        unfold Step step cleanupStep at hs
        simp only [hc] at hs
        split at hs
        · cases hs
          rfl
        · cases hs
      exact halone' hc' t (by rw [hworker, hreset]; trivial)
    · intro hsettled hc t hin
      obtain ⟨hpc, hstopped⟩ := hwait hc
      rw [hworker] at hin
      -- it is past the reset, so its stopped event is down, and the wait would not have returned
      have hlow := h.lowered t hin (hsettled rfl hpc t)
      rw [hstopped t] at hlow
      cases hlow
  | requestCleanup =>
    cases hs
    exact ⟨fun _ ha => (nomatch ha), fun _ => halone⟩
  | deactivate =>
    cases hs
    exact ⟨fun _ ha => (nomatch ha), fun _ => halone⟩

/-- **`cleanup` never runs while a worker is in its loop body, exactly when** the wait for the
stopped events never returns while a worker is between its wait for the start and the reset of its
stopped event. -/
theorem cleanup_alone_iff {tr : List (Action × State)} (h : Exec Step State.start tr) :
    (∀ v ∈ states State.start tr, Alone v) ↔ Steps Settled State.start tr :=
  h.states_iff (I := EventsOK) (Q := Alone) (P := Settled) (fun _ _ _ hI hs => hI.step hs)
    (fun _ _ _ hI hQ hs => alone_step hI hQ hs) EventsOK.start (fun hc => (nomatch hc))

/-! ## Two runs -/

/-- A worker is in its body when a cleanup is requested, and stops before it starts. -/
theorem cleanup_alone_iff_waits : ∃ tr, Exec Step State.start tr ∧
    (final State.start tr).cleanup = .cleanup ∧ ∀ v ∈ states State.start tr, Alone v := by
  have hrun : Exec Step State.start
      [(.worker .commRead, _), (.worker .commWrite, _), (.worker .processing, _),
        (.worker .commRead, _), (.worker .commRead, _), (.requestCleanup, _), (.cleanup, _),
        (.cleanup, _), (.worker .commRead, _), (.worker .commRead, _), (.cleanup, _)] :=
    .cons rfl (.cons rfl (.cons rfl (.cons rfl (.cons rfl (.cons rfl (.cons rfl (.cons rfl
      (.cons rfl (.cons rfl (.cons rfl (.nil _)))))))))))
  refine ⟨_, hrun, rfl, (cleanup_alone_iff hrun).2 ?_⟩
  exact ⟨fun h => (nomatch h), fun h => (nomatch h), fun h => (nomatch h), fun h => (nomatch h),
    fun h => (nomatch h), fun h => (nomatch h), fun _ h => (nomatch h), fun _ h => (nomatch h),
    fun h => (nomatch h), fun h => (nomatch h), fun _ _ t => by cases t <;> decide, trivial⟩

/-- The writer requests a cleanup from its body and stops; the reader passes its wait for the start,
and `cleanup` starts before it lowers its stopped event. -/
theorem cleanup_not_alone : ∃ tr, Exec Step State.start tr ∧ ¬Alone (final State.start tr) := by
  have hrun : Exec Step State.start
      [(.worker .commRead, _), (.worker .commWrite, _), (.worker .processing, _),
        (.worker .commWrite, _), (.worker .commWrite, _), (.requestCleanup, _),
        (.worker .commWrite, _), (.worker .commWrite, _), (.worker .commRead, _), (.cleanup, _),
        (.cleanup, _), (.cleanup, _)] :=
    .cons rfl (.cons rfl (.cons rfl (.cons rfl (.cons rfl (.cons rfl (.cons rfl (.cons rfl
      (.cons rfl (.cons rfl (.cons rfl (.cons rfl (.nil _))))))))))))
  exact ⟨_, hrun, fun halone => halone rfl .commRead trivial⟩

end Muxer.Handshake
