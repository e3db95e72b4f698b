import Muxer.Proof.Effects
import Muxer.Proof.Processing

/-!
# The processing thread comes to rest

Whatever is queued, and whatever events are set, the processing thread goes back to sleep after a bounded
number of steps, if nothing more comes; each failure to reach the server costs it another pass. A
pass that takes no message sets the event again only for a message that came meanwhile.

* `Works.work_le`: every step is paid for by what is queued (`State.work`).
* `exists_works`: unless it sleeps, it can go on.
* `processing_rests`: the bound, and what there is at the end.
-/

namespace Muxer.Processing

open Lib

variable {τ : Type} {s s' : State τ} {a : Action τ}

/-! ## The work there is -/

/-- A step of the processing thread, or a `SetEvent` that is due: no message comes, and `cleanup` does
not run. -/
def Action.Own : Action τ → Prop
  | .putIn _ | .putOut _ | .wake | .resetOut | .freeMessages | .removeMappings _ => False
  | _ => True

def Works (s : State τ) (a : Action τ) (s' : State τ) : Prop := Step s a s' ∧ a.Own

/-- The server cannot be reached. -/
def Action.fails : Action τ → Bool
  | .connectToOutput _ ok => !ok
  | _ => false

/-- The pass that follows for so many messages. -/
def passFor (n : ℕ) : ℕ := 10 * min 1 n

/-- What is left of the pass, with so many messages in the two queues: the steps to its end, and those
of the next pass where it sets the event without taking a message first. -/
def Pc.work (ins outs : ℕ) : Pc τ → ℕ
  | .waitData => 0
  | .connect => 8
  | .takeOut => 7
  -- a request that is there is taken in this pass
  | .deliver _ => 6 + (passFor (ins + outs) - passFor ins)
  | .takeIn => 5 + (passFor (ins + outs) - passFor ins)
  | .map _ => 4 + passFor (ins + outs)
  | .forward _ _ => 3 + passFor (ins + outs)
  | .testIn => 2 + passFor (ins + outs)
  | .testOut => 1 + passFor outs
  | .setEvent => 10

/-- The work that is left: that of the pass, of one for the event, and of one for each message and for
each `SetEvent` that is due. -/
def State.work (s : State τ) : ℕ :=
  s.pc.work s.mux.rInMessages.length s.mux.rOutMessages.length +
    (if s.processData then 9 else 0) + 10 * s.producers +
    10 * (s.mux.rInMessages.length + s.mux.rOutMessages.length)

/-! ## Each step is paid for -/

theorem takeRInMessage_none {m : Mux τ} (h : takeRInMessage m = none) : m.rInMessages = [] := by
  unfold takeRInMessage at h
  split at h
  · assumption
  · cases h

theorem takeROutMessage_none {m : Mux τ} (h : takeROutMessage m = none) : m.rOutMessages = [] := by
  unfold takeROutMessage at h
  split at h
  · assumption
  · cases h

theorem work_le {n : ℕ} (h : s'.work < s.work) : s'.work + 1 ≤ s.work + n := by
  omega

/-- **Every step leaves less work**, but for a failure to reach the server. -/
theorem Works.work_le (h : Works s a s') : s'.work + 1 ≤ s.work + if a.fails then 10 else 0 := by
  obtain ⟨hs, ha⟩ := h
  cases hs with
  -- the 9 of the event pay for the pass
  | waitData hpc hset =>
    refine Processing.work_le ?_
    simp only [State.work, Pc.work, hpc, hset, Bool.false_eq_true, if_false, if_true]
    omega
  | connected hpc hok =>
    refine Processing.work_le ?_
    simp only [State.work, Pc.work, hpc]
    omega
  | connectToOutput sock ok hpc hok =>
    cases ok with
    | true =>
      refine Processing.work_le ?_
      simp only [State.work, Pc.work, hpc, if_true]
      omega
    | false =>
      -- a failed attempt sets the event again, and the pass begins once more
      simp only [State.work, Pc.work, passFor, hpc, Action.fails, Bool.not_false, Bool.false_eq_true,
        if_false, if_true]
      omega
  -- a message taken pays 10 for the pass after this one
  | takeOut p m hpc hm =>
    obtain ⟨rest, hq, rfl⟩ := takeROutMessage_cases hm
    refine Processing.work_le ?_
    simp only [State.work, Pc.work, passFor, hpc, hq, List.length_cons]
    omega
  | noneOut hpc hm =>
    have hq := takeROutMessage_none hm
    refine Processing.work_le ?_
    simp only [State.work, Pc.work, passFor, hpc, hq, List.length_nil]
    omega
  | deliver p m hpc hm =>
    obtain ⟨d, rs, -, -, -, rfl⟩ := deliverResponse_cases hm
    refine Processing.work_le ?_
    simp only [State.work, Pc.work, passFor, hpc]
    omega
  | takeIn r m hpc hm =>
    obtain ⟨rest, hq, rfl⟩ := takeRInMessage_cases hm
    refine Processing.work_le ?_
    simp only [State.work, Pc.work, passFor, hpc, hq, List.length_cons]
    omega
  | noneIn hpc hm =>
    have hq := takeRInMessage_none hm
    refine Processing.work_le ?_
    simp only [State.work, Pc.work, passFor, hpc, hq, List.length_nil]
    omega
  | map r q m hpc hm =>
    obtain ⟨-, -, rfl⟩ := mapRequest_cases hm
    refine Processing.work_le ?_
    simp only [State.work, Pc.work, passFor, hpc]
    omega
  | forward r q m hpc hm =>
    refine Processing.work_le ?_
    rcases forwardRequest_cases hm with rfl | ⟨p, rfl⟩
    · simp only [State.work, Pc.work, passFor, hpc]
      omega
    · simp only [State.work, Pc.work, passFor, hpc, putPduIntoWOutMessages]
      omega
  -- the pass ends with the event set where a message is left
  | testIn hpc =>
    refine Processing.work_le ?_
    cases hq : s.mux.rInMessages with
    | nil =>
      simp only [State.work, Pc.work, passFor, hpc, hq, List.isEmpty_nil, if_true, List.length_nil]
      omega
    | cons r rest =>
      simp only [State.work, Pc.work, passFor, hpc, hq, List.isEmpty_cons, Bool.false_eq_true, if_false,
        List.length_cons]
      omega
  | testOut hpc =>
    refine Processing.work_le ?_
    cases hq : s.mux.rOutMessages with
    | nil =>
      simp only [State.work, Pc.work, passFor, hpc, hq, List.isEmpty_nil, if_true, List.length_nil]
      omega
    | cons p rest =>
      simp only [State.work, Pc.work, passFor, hpc, hq, List.isEmpty_cons, Bool.false_eq_true, if_false,
        List.length_cons]
      omega
  | setEvent hpc =>
    refine Processing.work_le ?_
    simp only [State.work, Pc.work, hpc, if_true]
    omega
  | signal n hn =>
    refine Processing.work_le ?_
    simp only [State.work, hn, if_true]
    omega
  -- steps of the other threads
  | putIn r hr => cases ha
  | putOut p => cases ha
  | wake => cases ha
  | resetOut => cases ha
  | freeMessages => cases ha
  | removeMappings sock => cases ha

/-! ## Unless it sleeps, it can go on -/

/-- What the processing thread does next with what it has in hand succeeds. -/
structure Ready (s : State τ) : Prop where
  waiting : ∀ r ∈ s.mux.rInMessages, 0 < r.socket
  taken : ∀ r, s.pc = .map r → 0 < r.socket
  mapped : ∀ r q, s.pc = .forward r q → q.Valid
  table : ∀ t ∈ s.mux.socketToRecvUnicastMsg, 0 < t.socket

theorem ready_start : Ready (State.start : State τ) := by
  constructor <;> simp [State.start, Mux.start]

/-- A step that puts nothing in hand. -/
theorem Ready.goto (h : Ready s) (hin : s'.mux.rInMessages ⊆ s.mux.rInMessages)
    (htable : s'.mux.socketToRecvUnicastMsg ⊆ s.mux.socketToRecvUnicastMsg)
    (hmap : ∀ r, s'.pc ≠ .map r) (hforward : ∀ r q, s'.pc ≠ .forward r q) : Ready s' where
  waiting r hr := h.waiting r (hin hr)
  taken r hr := absurd hr (hmap r)
  mapped r q hr := absurd hr (hforward r q)
  table t ht := h.table t (htable ht)

theorem Ready.step (h : Ready s) (hs : Step s a s') : Ready s' := by
  cases hs with
  | waitData hpc hset => exact h.goto (List.Subset.refl _) (List.Subset.refl _) nofun nofun
  | connected hpc hok => exact h.goto (List.Subset.refl _) (List.Subset.refl _) nofun nofun
  | connectToOutput sock ok hpc hok =>
    cases ok with
    | false => exact h.goto (List.Subset.refl _) (List.Subset.refl _) nofun nofun
    | true => exact h.goto (List.Subset.refl _) (List.Subset.refl _) nofun nofun
  | takeOut p m hpc hm =>
    obtain ⟨rest, hq, rfl⟩ := takeROutMessage_cases hm
    exact h.goto (List.Subset.refl _) (List.Subset.refl _) nofun nofun
  | noneOut hpc hm => exact h.goto (List.Subset.refl _) (List.Subset.refl _) nofun nofun
  | deliver p m hpc hm =>
    obtain ⟨d, rs, -, -, -, rfl⟩ := deliverResponse_cases hm
    exact h.goto (List.Subset.refl _) List.filter_sublist.subset nofun nofun
  | takeIn r m hpc hm =>
    obtain ⟨rest, hq, rfl⟩ := takeRInMessage_cases hm
    -- the request in hand was waiting
    have hwaiting := h.waiting
    rw [hq, List.forall_mem_cons] at hwaiting
    exact ⟨hwaiting.2, fun t ht => by cases ht; exact hwaiting.1, nofun, h.table⟩
  | noneIn hpc hm => exact h.goto (List.Subset.refl _) (List.Subset.refl _) nofun nofun
  | map r q m hpc hm =>
    obtain ⟨hpos, hq, rfl⟩ := mapRequest_cases hm
    -- every PDU is decoded as some valid request
    obtain ⟨q', hq', hvalid⟩ := decodeInPdu_total r.pdu
    rw [hq] at hq'
    cases hq'
    refine ⟨h.waiting, nofun, fun t q ht => by cases ht; exact hvalid, ?_⟩
    rw [List.forall_mem_append, List.forall_mem_singleton]
    exact ⟨h.table, hpos⟩
  | forward r q m hpc hm =>
    rcases forwardRequest_cases hm with rfl | ⟨p, rfl⟩
    · exact h.goto (List.Subset.refl _) (List.Subset.refl _) nofun nofun
    · exact h.goto (List.Subset.refl _) (List.Subset.refl _) nofun nofun
  | testIn hpc =>
    refine h.goto (List.Subset.refl _) (List.Subset.refl _) (fun r hr => ?_) fun r q hr => ?_
    · simp only at hr
      split at hr <;> cases hr
    · simp only at hr
      split at hr <;> cases hr
  | testOut hpc =>
    refine h.goto (List.Subset.refl _) (List.Subset.refl _) (fun r hr => ?_) fun r q hr => ?_
    · simp only at hr
      split at hr <;> cases hr
    · simp only at hr
      split at hr <;> cases hr
  | setEvent hpc => exact h.goto (List.Subset.refl _) (List.Subset.refl _) nofun nofun
  | putIn r hr =>
    refine { h with waiting := ?_ }
    rw [List.forall_mem_append, List.forall_mem_singleton]
    exact ⟨h.waiting, hr⟩
  | putOut p => exact { h with }
  | signal n hn => exact { h with }
  | wake => exact { h with }
  | resetOut => exact { h with }
  | freeMessages => exact { h with waiting := fun r hr => by cases hr }
  | removeMappings sock =>
    exact { h with table := fun t ht => h.table t (List.mem_of_mem_filter ht) }

/-- **Unless it sleeps, the processing thread can go on**, or an event is still to be set. -/
theorem exists_works (h : Ready s) (hnot : ¬Asleep s) : ∃ a s', Works s a s' := by
  cases hn : s.producers with
  | succ n => exact ⟨_, _, Step.signal s n hn, trivial⟩
  | zero =>
    cases hpc : s.pc with
    | waitData =>
      cases hset : s.processData with
      | true => exact ⟨_, _, Step.waitData s hpc hset, trivial⟩
      | false => exact absurd ⟨hpc, hset, hn⟩ hnot
    | connect =>
      cases hok : s.isOutConnectionOK with
      | true => exact ⟨_, _, Step.connected s hpc hok, trivial⟩
      | false => exact ⟨_, _, Step.connectToOutput s 0 false hpc hok, trivial⟩
    | takeOut =>
      cases hm : takeROutMessage s.mux with
      | none => exact ⟨_, _, Step.noneOut s hpc hm, trivial⟩
      | some pm => exact ⟨_, _, Step.takeOut s pm.1 pm.2 hpc hm, trivial⟩
    | deliver p =>
      obtain ⟨d, hd, hvalid⟩ := decodeOutPdu_total p.pdu
      obtain ⟨rs, hm, -⟩ := deliverResponse_ok hvalid hd fun t ht _ => h.table t ht
      exact ⟨_, _, Step.deliver s p _ hpc hm, trivial⟩
    | takeIn =>
      cases hm : takeRInMessage s.mux with
      | none => exact ⟨_, _, Step.noneIn s hpc hm, trivial⟩
      | some rm => exact ⟨_, _, Step.takeIn s rm.1 rm.2 hpc hm, trivial⟩
    | map r =>
      obtain ⟨q, hq, -⟩ := decodeInPdu_total r.pdu
      exact ⟨_, _, Step.map s r q _ hpc (mapRequest_ok (h.taken r hpc) hq s.mux), trivial⟩
    | forward r q =>
      obtain ⟨p, hm, -⟩ := forwardRequest_ok (h.mapped r q hpc) r.tag s.mux
      exact ⟨_, _, Step.forward s r q _ hpc hm, trivial⟩
    | testIn => exact ⟨_, _, Step.testIn s hpc, trivial⟩
    | testOut => exact ⟨_, _, Step.testOut s hpc, trivial⟩
    | setEvent => exact ⟨_, _, Step.setEvent s hpc, trivial⟩

/-! ## At rest -/

theorem Asleep.not_works (h : Asleep s) : ¬Works s a s' := by
  rintro ⟨hs, ha⟩
  have hpc := h.pc
  cases hs with
  | waitData _ hset =>
    rw [h.processData] at hset
    cases hset
  | signal n hn =>
    rw [h.producers] at hn
    cases hn
  | putIn r hr => cases ha
  | putOut p => cases ha
  | wake => cases ha
  | resetOut => cases ha
  | freeMessages => cases ha
  | removeMappings sock => cases ha
  | _ => simp_all

theorem Ready.asleep_iff (h : Ready s) : (∀ a s', ¬Works s a s') ↔ Asleep s := by
  constructor
  · intro hstuck
    by_contra hnot
    obtain ⟨a, s', hw⟩ := exists_works h hnot
    exact hstuck a s' hw
  · exact fun hsleep _ _ => hsleep.not_works

/-- Whoever sleeps has found both queues empty. -/
theorem Asleep.empty (h : Asleep s) (ht : wait.Tested s) :
    s.mux.rInMessages = [] ∧ s.mux.rOutMessages = [] := by
  have hnot : ¬wait.signalled s := by
    rintro (hset | hpos)
    · rw [h.processData] at hset
      cases hset
    · rw [h.producers] at hpos
      exact absurd hpos (Nat.lt_irrefl 0)
  exact ⟨ht .rIn (.inr h.pc) hnot, ht .rOut h.pc hnot⟩

/-- **The processing thread comes to rest.** If nothing more comes, it takes at most so many steps from
any state of a run, and ten more for each failure to reach the server. It cannot go on exactly when it
sleeps, and then both queues are empty. -/
theorem processing_rests {tr tr' : List (Action τ × State τ)} (h : Exec Step State.start tr)
    (h' : Exec Works (final State.start tr) tr') :
    tr'.length ≤ (final State.start tr).work + 10 * tr'.countP (fun x => x.1.fails) ∧
      ((∀ a s, ¬Works (final (final State.start tr) tr') a s) ↔
        Asleep (final (final State.start tr) tr')) ∧
      (Asleep (final (final State.start tr) tr') →
        (final (final State.start tr) tr').mux.rInMessages = [] ∧
          (final (final State.start tr) tr').mux.rOutMessages = []) := by
  have hready := h.inv (I := fun s => Ready s ∧ wait.Tested s)
    (fun _ _ _ hI hs => ⟨hI.1.step hs, hs.effect.tested hI.2⟩) ⟨ready_start, tested_start⟩ _
    (final_mem_states _ _)
  have hend := h'.inv (I := fun s => Ready s ∧ wait.Tested s)
    (fun _ _ _ hI hs => ⟨hI.1.step hs.1, hs.1.effect.tested hI.2⟩) hready _ (final_mem_states _ _)
  refine ⟨?_, hend.1.asleep_iff, fun hsleep => hsleep.empty hend.2⟩
  have hcount := h'.count_le_add (I := fun _ => True) (p := fun _ => true) (fun _ _ _ _ _ => trivial)
    (fun _ _ _ _ hs => by simpa using hs.work_le) trivial
  rw [List.countP_true] at hcount
  omega

/-- A request comes, the server cannot be reached at first, and then the thread comes to rest. -/
theorem processing_rests_retried : ∃ tr tr' : List (Action Unit × State Unit),
    Exec Step State.start tr ∧ Exec Works (final State.start tr) tr' ∧
      tr'.countP (fun x => x.1.fails) = 1 ∧
      tr'.length ≤ (final State.start tr).work + 10 ∧
      (final (final State.start tr) tr').pc = .waitData ∧
      (final (final State.start tr) tr').mux.rInMessages = [] := by
  set r : InMessage Unit := ⟨5, ⟨[0, 0], by decide⟩, ()⟩
  obtain ⟨q, hq, hvalid⟩ := decodeInPdu_total r.pdu
  have hmap := mapRequest_ok (r := r) (by decide) hq
    { (Mux.start : Mux Unit) with outConnection := allocConnection 7 }
  obtain ⟨p, hforward, -⟩ := forwardRequest_ok hvalid r.tag
    { (Mux.start : Mux Unit) with
      outConnection := allocConnection 7
      invokeidGenCounter := generateInvokeid 0
      socketToRecvUnicastMsg := [⟨r.socket, q.invokeid.toUInt64, generateInvokeid 0, ()⟩] }
  obtain ⟨tr, tr', hex, hex', hsleep, hcount⟩ : ∃ tr tr' : List (Action Unit × State Unit),
      Exec Step State.start tr ∧ Exec Works (final State.start tr) tr' ∧
        Asleep (final (final State.start tr) tr') ∧ tr'.countP (fun x => x.1.fails) = 1 := by
    refine ⟨_, _, .cons (.putIn _ r (by decide)) (.nil _),
      .cons ⟨.signal _ 0 rfl, trivial⟩ <| .cons ⟨.waitData _ rfl rfl, trivial⟩ <|
      .cons ⟨.connectToOutput _ 7 false rfl rfl, trivial⟩ <| .cons ⟨.testIn _ rfl, trivial⟩ <|
      .cons ⟨.setEvent _ rfl, trivial⟩ <| .cons ⟨.waitData _ rfl rfl, trivial⟩ <|
      .cons ⟨.connectToOutput _ 7 true rfl rfl, trivial⟩ <| .cons ⟨.noneOut _ rfl rfl, trivial⟩ <|
      .cons ⟨.takeIn _ r _ rfl rfl, trivial⟩ <| .cons ⟨.map _ r q _ rfl hmap, trivial⟩ <|
      .cons ⟨.forward _ r q _ rfl hforward, trivial⟩ <| .cons ⟨.testIn _ rfl, trivial⟩ <|
      .cons ⟨.testOut _ rfl, trivial⟩ <| .nil _, ⟨rfl, rfl, rfl⟩, rfl⟩
  obtain ⟨hlength, -, hempty⟩ := processing_rests hex hex'
  rw [hcount] at hlength
  exact ⟨tr, tr', hex, hex', hcount, hlength, hsleep.pc, (hempty hsleep).1⟩

end Muxer.Processing
