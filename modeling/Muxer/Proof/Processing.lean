import Muxer.Lib.WakeUp
import Muxer.Proof.Relay
import Muxer.System.Processing

/-!
# The processing thread does not sleep with messages waiting

A pass takes one message of each queue at most, and none when the server cannot be reached; what is
left, or comes later, sets the event again.

* `Step.effect`: what a step does to the wait of the processing thread.
* `no_lost_wakeup`: whenever it sleeps, both queues are empty.
-/

namespace Muxer.Processing

open Lib

variable {τ : Type} {s s' : State τ} {a : Action τ}

/-- The processing thread waits, the event is not set, and no one is about to set it. -/
structure Asleep (s : State τ) : Prop where
  pc : s.pc = .waitData
  processData : s.processData = false
  producers : s.producers = 0

/-- The queues tested. -/
inductive Queue
  | rIn
  | rOut

/-- The wait for data, behind the two tests. -/
def wait : Wait (State τ) Queue where
  passed
    | .rIn, s => s.pc = .testOut ∨ s.pc = .waitData
    | .rOut, s => s.pc = .waitData
  idle
    | .rIn, s => s.mux.rInMessages = []
    | .rOut, s => s.mux.rOutMessages = []
  signalled s := s.processData = true ∨ 0 < s.producers

/-- The processing thread goes on within its pass. -/
theorem effect_resumes (hout : s'.pc ≠ .testOut) (hwait : s'.pc ≠ .waitData) :
    wait.Effect s s' := by
  refine .resumes fun k => ?_
  cases k with
  | rIn => exact fun h => h.elim hout hwait
  | rOut => exact hwait

/-- Another thread leaves the queues as they are, or empties them. -/
theorem effect_quiet (hpc : s'.pc = s.pc) (hsig : wait.signalled s → wait.signalled s')
    (hin : s.mux.rInMessages = [] → s'.mux.rInMessages = [])
    (hout : s.mux.rOutMessages = [] → s'.mux.rOutMessages = []) : wait.Effect s s' := by
  refine .quiet (fun k => ?_) hsig fun k => ?_
  · cases k with
    | rIn => simp only [wait, hpc, imp_self]
    | rOut => simp only [wait, hpc, imp_self]
  · cases k with
    | rIn => exact hin
    | rOut => exact hout

/-- **What a step does to the wait of the processing thread.** -/
theorem Step.effect (h : Step s a s') : wait.Effect s s' := by
  cases h with
  | waitData hpc => exact effect_resumes nofun nofun
  | connected hpc => exact effect_resumes nofun nofun
  | connectToOutput sock ok hpc =>
    cases ok with
    | false => exact effect_resumes nofun nofun
    | true => exact effect_resumes nofun nofun
  | takeOut p m hpc hm => exact effect_resumes nofun nofun
  | noneOut hpc hm => exact effect_resumes nofun nofun
  | deliver p m hpc hm => exact effect_resumes nofun nofun
  | takeIn r m hpc hm => exact effect_resumes nofun nofun
  | noneIn hpc hm => exact effect_resumes nofun nofun
  | map r q m hpc hm => exact effect_resumes nofun nofun
  | forward r q m hpc hm => exact effect_resumes nofun nofun
  | testIn hpc =>
    cases hq : s.mux.rInMessages with
    | nil =>
      refine .passes .rIn hq (fun k hk h => ?_) id fun k h => ?_
      · cases k with
        | rIn => exact absurd rfl hk
        | rOut => cases h
      · cases k <;> exact h
    | cons r rest => exact effect_resumes nofun nofun
  | testOut hpc =>
    cases hq : s.mux.rOutMessages with
    | nil =>
      refine .passes .rOut hq (fun k hk h => ?_) id fun k h => ?_
      · cases k with
        | rIn => exact .inl hpc
        | rOut => exact absurd rfl hk
      · cases k <;> exact h
    | cons p rest => exact effect_resumes nofun nofun
  | setEvent hpc => exact .signals (.inl rfl)
  | putIn r hr => exact .signals (.inr (Nat.succ_pos _))
  | putOut p => exact .signals (.inr (Nat.succ_pos _))
  | signal n hn => exact .signals (.inl rfl)
  | wake => exact .signals (.inl rfl)
  | resetOut => exact effect_quiet rfl id id id
  | freeMessages => exact effect_quiet rfl id (fun _ => rfl) fun _ => rfl
  | removeMappings sock => exact effect_quiet rfl id id id

theorem tested_start : wait.Tested (State.start : State τ) := by
  intro k _ _
  cases k <;> rfl

/-- **No wake-up of the processing thread is lost.** Whenever it waits, with the event not set and
no one between `q_put` and `SetEvent`, both queues it reads are empty. -/
theorem no_lost_wakeup {tr : List (Action τ × State τ)} (h : Exec Step State.start tr) :
    ∀ s ∈ states State.start tr, Asleep s → s.mux.rInMessages = [] ∧ s.mux.rOutMessages = [] := by
  intro s hs hsleep
  have htested := h.tested (fun _ _ _ hst => hst.effect) tested_start s hs
  have hnot : ¬wait.signalled s := by
    rintro (hset | hpos)
    · rw [hsleep.processData] at hset
      cases hset
    · rw [hsleep.producers] at hpos
      exact absurd hpos (Nat.lt_irrefl 0)
  exact ⟨htested .rIn (.inr hsleep.pc) hnot, htested .rOut hsleep.pc hnot⟩

/-- A request comes; the first attempt to connect fails, the second does not, and the request is
processed. -/
theorem no_lost_wakeup_retried : ∃ tr : List (Action Unit × State Unit),
    Exec Step State.start tr ∧ Asleep (final State.start tr) ∧
      (final State.start tr).mux.wOutMessages.length = 1 ∧
      (final State.start tr).mux.rInMessages = [] ∧ (final State.start tr).mux.rOutMessages = [] := by
  set r : InMessage Unit := ⟨5, ⟨[0, 0], by decide⟩, ()⟩
  obtain ⟨q, hq, hvalid⟩ := decodeInPdu_total r.pdu
  have hmap := mapRequest_ok (r := r) (by decide) hq
    { (Mux.start : Mux Unit) with outConnection := allocConnection 7 }
  obtain ⟨p, hforward, -⟩ := forwardRequest_ok hvalid r.tag
    { (Mux.start : Mux Unit) with
      outConnection := allocConnection 7
      invokeidGenCounter := generateInvokeid 0
      socketToRecvUnicastMsg := [⟨r.socket, q.invokeid.toUInt64, generateInvokeid 0, ()⟩] }
  obtain ⟨tr, hex, hsleep, hlen⟩ : ∃ tr : List (Action Unit × State Unit),
      Exec Step State.start tr ∧ Asleep (final State.start tr) ∧
        (final State.start tr).mux.wOutMessages.length = 1 := by
    refine ⟨_,
      .cons (.putIn _ r (by decide)) <| .cons (.signal _ 0 rfl) <|
      .cons (.waitData _ rfl rfl) <| .cons (.connectToOutput _ 7 false rfl rfl) <|
      .cons (.testIn _ rfl) <| .cons (.setEvent _ rfl) <|
      .cons (.waitData _ rfl rfl) <| .cons (.connectToOutput _ 7 true rfl rfl) <|
      .cons (.noneOut _ rfl rfl) <| .cons (.takeIn _ r _ rfl rfl) <|
      .cons (.map _ r q _ rfl hmap) <| .cons (.forward _ r q _ rfl hforward) <|
      .cons (.testIn _ rfl) <| .cons (.testOut _ rfl) <| .nil _, ⟨rfl, rfl, rfl⟩, rfl⟩
  exact ⟨tr, hex, hsleep, hlen, no_lost_wakeup hex _ (final_mem_states _ _) hsleep⟩

end Muxer.Processing
