import Muxer.Proof.Runs
import Muxer.System.Writer

/-!
# When the writer sleeps with output pending

Before it waits, the writer looks for messages in the queues, but not for bytes left in the write
buffers.

* `Step.effect`: what a step can do to the writer's wait.
* `notStuck_iff`: whenever the writer is left waiting there is no output pending exactly when the
  test for another pass never finds the queues empty with bytes left in a buffer.
-/

namespace Muxer.Writer

open Lib

variable {τ : Type} {s s' : State τ} {a : Action τ} {m : Mux τ}

/-- The write buffers are empty. -/
structure BuffersEmpty (m : Mux τ) : Prop where
  out : m.outConnection.wBufferPtr = 0
  conns : ∀ c ∈ m.connections, c.wBufferPtr = 0

/-- No output is pending. -/
structure NothingPending (m : Mux τ) : Prop extends BuffersEmpty m where
  wIn : ∀ r ∈ m.wInMessages, ∀ c ∈ m.connections, c.socket ≠ r.socket
  wOut : m.wOutMessages = []

/-- The writer waits, the event is not set, and no one is about to set it. -/
structure Asleep (s : State τ) : Prop where
  pc : s.pc = .waitMessage
  newMessage : s.newMessage = false
  producers : s.producers = 0

/-- No wake-up is lost. -/
def NotStuck (s : State τ) : Prop := Asleep s → NothingPending s.mux

/-- The test for another pass finds no message only when no bytes are left in the buffers, or else
someone sets the event anyway. -/
def Drained (s : State τ) (a : Action τ) : Prop :=
  a = .testOut → s.mux.wOutMessages = [] → s.newMessage = false → s.producers = 0 →
    BuffersEmpty s.mux

/-! ## What a step does -/

/-- A step of another thread that gives the writer nothing to do. -/
structure Quiet (s s' : State τ) : Prop where
  pc : s'.pc = s.pc
  newMessage : s'.newMessage = s.newMessage
  producers : s'.producers = s.producers
  wIn : s.mux.wInMessages = [] → s'.mux.wInMessages = []
  wOut : s.mux.wOutMessages = [] → s'.mux.wOutMessages = []
  buffers : BuffersEmpty s.mux → BuffersEmpty s'.mux

/-- What a step does to the wait of the writer. -/
inductive Effect : State τ → Action τ → State τ → Prop
  /-- The writer goes on within its pass. -/
  | inside {t b t'} : b ≠ .testOut → t'.pc ≠ .testOut → t'.pc ≠ .waitMessage → Effect t b t'
  | quiet {t b t'} : b ≠ .testOut → Quiet t t' → Effect t b t'
  /-- The event is set, or someone is about to set it. -/
  | wakes {t b t'} : b ≠ .testOut → t'.newMessage = true ∨ 0 < t'.producers → Effect t b t'
  | noneIn (t) : t.mux.wInMessages = [] → Effect t .testIn { t with pc := .testOut }
  | noneOut (t) : t.pc = .testOut → t.mux.wOutMessages = [] →
      Effect t .testOut { t with pc := .waitMessage }
  | someOut (t) : t.mux.wOutMessages ≠ [] → Effect t .testOut { t with pc := .setEvent }

/-- What is left of the muxer when a connection is removed. -/
theorem removeConnection_eq {sock : Socket} {m' : Mux τ} (h : removeConnection sock m = .ok m') :
    ∃ mappings, m' =
      { m with
        connections := m.connections.filter (·.socket != sock)
        socketToRecvUnicastMsg := mappings } := by
  unfold removeConnection at h
  obtain ⟨-, -, h⟩ := bind_eq_ok.1 h
  cases h
  split
  case isTrue hnone =>
    refine ⟨m.socketToRecvUnicastMsg, ?_⟩
    have hkeep : m.connections.filter (·.socket != sock) = m.connections := by
      refine List.filter_eq_self.2 fun c hc => ?_
      rw [List.isEmpty_iff, List.filter_eq_nil_iff] at hnone
      simpa using hnone c hc
    rw [hkeep]
  case isFalse => exact ⟨_, rfl⟩

theorem quiet_remove {sock : Socket} (h : removeConnection sock s.mux = .ok m) :
    Quiet s { s with mux := m } := by
  obtain ⟨mappings, rfl⟩ := removeConnection_eq h
  exact
    { pc := rfl
      newMessage := rfl
      producers := rfl
      wIn := id
      wOut := id
      buffers := fun hb => ⟨hb.out, fun c hc => hb.conns c (List.mem_of_mem_filter hc)⟩ }

/-- **What a step can do to the wait of the writer.** -/
theorem Step.effect (h : Step s a s') : Effect s a s' := by
  cases h with
  | waitMessage => exact .inside nofun nofun nofun
  | loadOut m hpc hload =>
    refine .inside nofun ?_ ?_
    · split <;> nofun
    · split <;> nofun
  | sweepKeep => exact .inside nofun nofun nofun
  | sweepFree i r hpc => exact .inside nofun (by simp [hpc]) (by simp [hpc])
  | sweepDone => exact .inside nofun nofun nofun
  | loadIn => exact .inside nofun nofun nofun
  | loadInDone => exact .inside nofun nofun nofun
  | setupFdSet => exact .inside nofun nofun nofun
  | select => exact .inside nofun nofun nofun
  | selectFailed => exact .inside nofun nofun nofun
  | skipOut => exact .inside nofun nofun nofun
  | exceptOut => exact .inside nofun nofun nofun
  | writeOut => exact .inside nofun nofun nofun
  | unsetOut => exact .inside nofun nofun nofun
  | exceptIn => exact .inside nofun nofun nofun
  | writeIn => exact .inside nofun nofun nofun
  | dropIn => exact .inside nofun nofun nofun
  | unsetIn => exact .inside nofun nofun nofun
  | writeInDone => exact .inside nofun nofun nofun
  -- the two tests are where the writer decides to wait
  | testIn hpc =>
    cases hq : s.mux.wInMessages with
    | nil => exact .noneIn s hq
    | cons => exact .inside nofun nofun nofun
  | testOut hpc =>
    cases hq : s.mux.wOutMessages with
    | nil => exact .noneOut s hpc hq
    | cons => exact .someOut s (by rw [hq]; nofun)
  | setEvent => exact .wakes nofun (.inl rfl)
  | putIn r => exact .wakes nofun (.inr (Nat.succ_pos _))
  | putOut p => exact .wakes nofun (.inr (Nat.succ_pos _))
  | signal => exact .wakes nofun (.inl rfl)
  | wake => exact .wakes nofun (.inl rfl)
  | connectToOutput =>
    exact .quiet nofun ⟨rfl, rfl, rfl, id, id, fun hb => ⟨hb.out, hb.conns⟩⟩
  | accept sock =>
    refine .quiet nofun ⟨rfl, rfl, rfl, id, id, fun hb => ⟨hb.out, fun c hc => ?_⟩⟩
    rcases List.mem_append.1 hc with hc | hc
    · exact hb.conns c hc
    · rw [List.mem_singleton.1 hc]
      rfl
  | remove sock m _ hrem => exact .quiet nofun (quiet_remove hrem)
  | resetOut => exact .quiet nofun ⟨rfl, rfl, rfl, id, id, fun hb => ⟨rfl, hb.conns⟩⟩
  | freeWIn =>
    exact .quiet nofun ⟨rfl, rfl, rfl, fun _ => rfl, id, fun hb => ⟨hb.out, hb.conns⟩⟩
  | freeWOut =>
    exact .quiet nofun ⟨rfl, rfl, rfl, id, fun _ => rfl, fun hb => ⟨hb.out, hb.conns⟩⟩

/-! ## Runs -/

/-- What the tests for another pass have found still holds, as long as the event is not set and no
one is about to set it. -/
structure Tested (s : State τ) : Prop where
  wIn : s.pc = .testOut ∨ s.pc = .waitMessage → s.newMessage = false → s.producers = 0 →
    s.mux.wInMessages = []
  wOut : s.pc = .waitMessage → s.newMessage = false → s.producers = 0 → s.mux.wOutMessages = []

theorem Tested.start : Tested (State.start : State τ) := ⟨fun _ _ _ => rfl, fun _ _ _ => rfl⟩

theorem Tested.step (h : Tested s) (hs : Step s a s') : Tested s' := by
  cases hs.effect with
  | inside _ hout hwait =>
    refine ⟨fun hpc => ?_, fun hpc => absurd hpc hwait⟩
    rcases hpc with hpc | hpc
    · exact absurd hpc hout
    · exact absurd hpc hwait
  | quiet _ hq =>
    refine ⟨fun hpc hm hp => hq.wIn (h.wIn ?_ ?_ ?_), fun hpc hm hp => hq.wOut (h.wOut ?_ ?_ ?_)⟩
    · rwa [← hq.pc]
    · rwa [← hq.newMessage]
    · rwa [← hq.producers]
    · rwa [← hq.pc]
    · rwa [← hq.newMessage]
    · rwa [← hq.producers]
  | wakes _ hset =>
    -- the writer will find the event set, whatever the queues hold
    have hawake : s'.newMessage = false → s'.producers = 0 → False := by
      intro hm hp
      rw [hm, hp] at hset
      simp at hset
    exact ⟨fun _ hm hp => (hawake hm hp).elim, fun _ hm hp => (hawake hm hp).elim⟩
  | noneIn hq => exact ⟨fun _ _ _ => hq, nofun⟩
  | noneOut hpc hq => exact ⟨fun _ hm hp => h.wIn (.inl hpc) hm hp, fun _ _ _ => hq⟩
  | someOut => exact ⟨fun hpc => by simp at hpc, nofun⟩

/-- While the writer sleeps the queues are empty, so that only the buffers matter. -/
theorem Tested.notStuck_iff_empty (h : Tested s) :
    NotStuck s ↔ (Asleep s → BuffersEmpty s.mux) := by
  refine ⟨fun hn hsl => (hn hsl).toBuffersEmpty, fun hb hsl => ?_⟩
  have hwIn := h.wIn (.inr hsl.pc) hsl.newMessage hsl.producers
  exact
    { toBuffersEmpty := hb hsl
      wIn := fun r hr => by rw [hwIn] at hr; cases hr
      wOut := h.wOut hsl.pc hsl.newMessage hsl.producers }

/-- **A step leaves the writer stuck exactly when** it is a test for another pass that finds the
queues empty with bytes left in the buffers. -/
theorem notStuck_step (h : Tested s) (hn : NotStuck s) (hs : Step s a s') :
    NotStuck s' ↔ Drained s a := by
  rw [(h.step hs).notStuck_iff_empty]
  rw [h.notStuck_iff_empty] at hn
  cases hs.effect with
  | inside ha _ hwait => exact ⟨fun _ ha' => absurd ha' ha, fun _ hsl => absurd hsl.pc hwait⟩
  | quiet ha hq =>
    refine ⟨fun _ ha' => absurd ha' ha, fun _ hsl => hq.buffers (hn ?_)⟩
    exact
      { pc := by rw [← hq.pc]; exact hsl.pc
        newMessage := by rw [← hq.newMessage]; exact hsl.newMessage
        producers := by rw [← hq.producers]; exact hsl.producers }
  | wakes ha hset =>
    refine ⟨fun _ ha' => absurd ha' ha, fun _ hsl => ?_⟩
    rw [hsl.newMessage, hsl.producers] at hset
    simp at hset
  | noneIn => exact ⟨fun _ ha => (nomatch ha), fun _ hsl => (nomatch hsl.pc)⟩
  -- the last test: the event may have been set since, or be about to be
  | noneOut _ hq =>
    exact ⟨fun hb _ _ hm hp => hb ⟨rfl, hm, hp⟩, fun hd hsl => hd rfl hq hsl.newMessage hsl.producers⟩
  | someOut hq => exact ⟨fun _ _ hq' => absurd hq' hq, fun _ hsl => (nomatch hsl.pc)⟩

theorem notStuck_start : NotStuck (State.start : State τ) := fun _ =>
  { out := rfl
    conns := fun _ hc => (nomatch hc)
    wIn := fun _ hr => (nomatch hr)
    wOut := rfl }

/-- **No wake-up of the writer is lost, exactly when** the test for another pass never finds both
queues empty, the event not set and no one about to set it, with bytes left in the write buffer of
the server or of a client. -/
theorem notStuck_iff {tr : List (Action τ × State τ)} (h : Exec Step State.start tr) :
    (∀ v ∈ states State.start tr, NotStuck v) ↔ Steps Drained State.start tr :=
  h.states_iff (I := Tested) (Q := NotStuck) (P := Drained) (fun _ _ _ hI hs => hI.step hs)
    (fun _ _ _ hI hQ hs => notStuck_step hI hQ hs) Tested.start notStuck_start

end Muxer.Writer
