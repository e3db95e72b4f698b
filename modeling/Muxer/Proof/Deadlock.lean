import Muxer.System.Locks

/-!
# The one deadlock of the critical sections

The writer's sweep of stale messages enters `csec_connections` inside `csec_w_in_messages`; a drop
of a client enters the mappings inside `csec_connections`; and the delivery of a response enters
`csec_w_in_messages` inside the mappings. Without any one of these the sections are
entered in an order.

* `deadlocked_iff`: in every state reached, the threads are deadlocked exactly when three of
  them are about to enter these inner sections.
* `not_deadlocked_iff`: the exact condition, over every run.
* `deadlock_reached`: a run that ends so.
-/

namespace Muxer.Locks

open Lib

variable {s : Threads}

/-- The sweep is about to look at the connections. -/
def Sweeps (s : Threads) : Prop :=
  wants (s .commWrite) = some .connections ∧ Csec.wInMessages ∈ held (s .commWrite)

/-- Another thread is about to remove the mappings of a client, whose connection it drops. -/
def Drops (s : Threads) (t : ThreadName) : Prop :=
  t ≠ .commWrite ∧ wants (s t) = some .socketToRecvUnicastMsg ∧ Csec.connections ∈ held (s t)

/-- A response is about to be put into `w_in_messages`. -/
def Delivers (s : Threads) : Prop :=
  wants (s .processing) = some .wInMessages ∧ Csec.socketToRecvUnicastMsg ∈ held (s .processing)

/-- A sweep, a drop and a delivery are each about to enter their inner section. -/
def Entangled (s : Threads) : Prop := Sweeps s ∧ (∃ t, Drops s t) ∧ Delivers s

instance : DecidablePred Sweeps := fun s => inferInstanceAs (Decidable
  (wants (s .commWrite) = some .connections ∧ Csec.wInMessages ∈ held (s .commWrite)))

instance (t : ThreadName) : Decidable (Drops s t) := inferInstanceAs (Decidable
  (t ≠ .commWrite ∧ wants (s t) = some .socketToRecvUnicastMsg ∧ Csec.connections ∈ held (s t)))

instance : DecidablePred Delivers := fun s => inferInstanceAs (Decidable
  (wants (s .processing) = some .wInMessages ∧
    Csec.socketToRecvUnicastMsg ∈ held (s .processing)))

instance : DecidablePred Entangled := fun s =>
  inferInstanceAs (Decidable (Sweeps s ∧ (∃ t, Drops s t) ∧ Delivers s))

/-! ## Orders of the sections -/

/-- The order but for the sweep. -/
def rankDrop : Csec → ℕ
  | .outConnection => 0
  | .connections => 1
  | .socketToRecvUnicastMsg => 2
  | _ => 3

/-- The order but for drops. -/
def rankSweep : Csec → ℕ
  | .outConnection => 0
  | .socketToRecvUnicastMsg => 1
  | .wInMessages => 2
  | .connections => 3
  | _ => 4

/-- The order but for deliveries. -/
def rankNoDelivery : Csec → ℕ
  | .outConnection => 0
  | .wInMessages => 1
  | .connections => 2
  | _ => 3

theorem rankDrop_lt (t : ThreadName) : ∀ e ∈ nests [] (code t),
    e ≠ (.wInMessages, .connections) → rankDrop e.1 < rankDrop e.2 := by
  cases t <;> decide

theorem rankSweep_lt (t : ThreadName) : ∀ e ∈ nests [] (code t),
    e ≠ (.connections, .socketToRecvUnicastMsg) → (t = .commWrite → e.2 = .connections) →
      rankSweep e.1 < rankSweep e.2 := by
  cases t <;> decide

theorem rankNoDelivery_lt (t : ThreadName) : ∀ e ∈ nests [] (code t),
    e ≠ (.socketToRecvUnicastMsg, .wInMessages) → (t = .commWrite → e.2 = .connections) →
      rankNoDelivery e.1 < rankNoDelivery e.2 := by
  cases t <;> decide

/-- Only the writer sweeps. -/
theorem commWrite_of_sweep (t : ThreadName) :
    (.wInMessages, .connections) ∈ nests [] (code t) → t = .commWrite := by
  cases t <;> decide

/-- Only the processing thread delivers. -/
theorem processing_of_delivery (t : ThreadName) :
    (.socketToRecvUnicastMsg, .wInMessages) ∈ nests [] (code t) → t = .processing := by
  cases t <;> decide

/-! ## The deadlock -/

section

variable {tr : List ((ThreadName × Bool) × Threads)}

theorem sweeps_of_deadlocked (h : Exec LockStep (atStart code) tr)
    (hs : s ∈ states (atStart code) tr) (hd : Deadlocked s) : Sweeps s := by
  by_contra hnot
  refine not_deadlocked rankDrop (fun t l m hl hm => ?_) hd
  have hmem := wants_holds h hs hl hm
  refine rankDrop_lt t _ hmem fun heq => hnot ?_
  cases heq
  rw [commWrite_of_sweep t hmem] at hl hm
  exact ⟨hl, hm⟩

theorem drops_of_deadlocked (h : Exec LockStep (atStart code) tr)
    (hs : s ∈ states (atStart code) tr) (hd : Deadlocked s) : ∃ t, Drops s t := by
  have hsweep := sweeps_of_deadlocked h hs hd
  by_contra hnot
  refine not_deadlocked rankSweep (fun t l m hl hm => ?_) hd
  -- the writer wants `csec_connections`, so it drops no client itself
  have hwriter : t = .commWrite → l = .connections := by
    rintro rfl
    rw [hsweep.1] at hl
    exact (Option.some.inj hl).symm
  refine rankSweep_lt t _ (wants_holds h hs hl hm) (fun heq => hnot ⟨t, ?_⟩) hwriter
  cases heq
  exact ⟨fun ht => absurd (hwriter ht) (by decide), hl, hm⟩

theorem delivers_of_deadlocked (h : Exec LockStep (atStart code) tr)
    (hs : s ∈ states (atStart code) tr) (hd : Deadlocked s) : Delivers s := by
  have hsweep := sweeps_of_deadlocked h hs hd
  by_contra hnot
  refine not_deadlocked rankNoDelivery (fun t l m hl hm => ?_) hd
  have hwriter : t = .commWrite → l = .connections := by
    rintro rfl
    rw [hsweep.1] at hl
    exact (Option.some.inj hl).symm
  have hmem := wants_holds h hs hl hm
  refine rankNoDelivery_lt t _ hmem (fun heq => hnot ?_) hwriter
  cases heq
  rw [processing_of_delivery t hmem] at hl hm
  exact ⟨hl, hm⟩

end

/-- The writer waits for the thread that drops, that one for the processing thread, and this
one for the writer. -/
theorem Entangled.deadlocked (h : Entangled s) : Deadlocked s := by
  obtain ⟨⟨hwant, hheld⟩, ⟨t, hne, hwant', hheld'⟩, hwant'', hheld''⟩ := h
  have hprocessing : ThreadName.processing ≠ t := by
    rintro rfl
    rw [hwant''] at hwant'
    cases hwant'
  have h₁ : Waits s .commWrite t := ⟨hne, _, hwant, hheld'⟩
  have h₂ : Waits s t .processing := ⟨hprocessing, _, hwant', hheld''⟩
  have h₃ : Waits s .processing .commWrite := ⟨by decide, _, hwant'', hheld⟩
  exact ⟨.commWrite, .tail (.tail (.single h₁) h₂) h₃⟩

variable {tr : List ((ThreadName × Bool) × Threads)}

/-- **The threads are deadlocked exactly when** a sweep, a drop and a delivery are each about to
enter their inner section. -/
theorem deadlocked_iff (h : Exec LockStep (atStart code) tr) (hs : s ∈ states (atStart code) tr) :
    Deadlocked s ↔ Entangled s :=
  ⟨fun hd => ⟨sweeps_of_deadlocked h hs hd, drops_of_deadlocked h hs hd,
    delivers_of_deadlocked h hs hd⟩, Entangled.deadlocked⟩

/-- **No cycle of waiting threads is reached in a run exactly when** a sweep, a drop and a delivery
never are all about to enter their inner sections. -/
theorem not_deadlocked_iff (h : Exec LockStep (atStart code) tr) :
    (∀ v ∈ states (atStart code) tr, ¬Deadlocked v) ↔
      ∀ v ∈ states (atStart code) tr, ¬Entangled v := by
  constructor
  · intro hall v hv hent
    exact hall v hv hent.deadlocked
  · intro hall v hv hd
    exact hall v hv ((deadlocked_iff h hv).1 hd)

/-! ## Runs up to the inner sections -/

/-- The steps of one thread, by the branches it takes. -/
def steps (t : ThreadName) (bs : List Bool) : List (ThreadName × Bool) := bs.map (t, ·)

/-- The writer gets to the sweep, with a message in `w_in_messages`. -/
def toSweep : List (ThreadName × Bool) :=
  steps .commWrite [false, false, false, false, false, false, false, false, true, false, true]

/-- The reader gets to a client whose connection is broken. -/
def toDrop : List (ThreadName × Bool) :=
  steps .commRead [false, false, false, false, false, true, false, false, false, false, false,
    false, false, true, true, true, true, false]

/-- The processing thread gets to a response with a mapping. -/
def toDelivery : List (ThreadName × Bool) :=
  steps .processing [false, false, false, false, false, true, false, false, false, false, false,
    true, false, true, true]

set_option maxRecDepth 4000 in
/-- A sweep and a delivery alone are in no cycle. -/
theorem not_deadlocked_iff_noDrop : ∃ tr, Exec LockStep (atStart code) tr ∧
    Sweeps (final (atStart code) tr) ∧ Delivers (final (atStart code) tr) ∧
      ∀ v ∈ states (atStart code) tr, ¬Deadlocked v := by
  have hlegal : Legal (atStart code) (toSweep ++ toDelivery) := by decide
  have hexec := exec_trace hlegal
  exact ⟨_, hexec, by decide, by decide, (not_deadlocked_iff hexec).2 (by decide)⟩

set_option maxRecDepth 4000 in
/-- A sweep, a drop and a delivery wait for each other. -/
theorem deadlock_reached : ∃ tr, Exec LockStep (atStart code) tr ∧
    Deadlocked (final (atStart code) tr) := by
  have hlegal : Legal (atStart code) (toSweep ++ (toDrop ++ toDelivery)) := by decide
  have hent : Entangled (final (atStart code) (trace (atStart code)
      (toSweep ++ (toDrop ++ toDelivery)))) := by decide
  exact ⟨_, exec_trace hlegal, hent.deadlocked⟩

end Muxer.Locks
