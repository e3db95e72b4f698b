import Muxer.System.Queue
import Muxer.Proof.Queue
import Muxer.Lib.Exec

/-!
# Every use of a queue is one of a list

* `call_ok`: what one call does and returns is what it does to the list.
* `queue_refines_list`: after any calls, the chain of entries is the list these calls make, and
  the next call returns.
-/

namespace Muxer.Queues

open Lib

variable {s s' : State} {op : Op} {l : List Addr} {a : Addr}

/-- The chain is the list. -/
theorem chain_ok (hq : IsQueue s.queue s.heap l) : s.chain = .ok l := by
  let I (before after : List Addr) (_ : Unit) : Prop := before ++ after = l
  have hround : ∀ before b after u, I before (b :: after) u → ∃ u',
      s.follow b u = .ok ((after.map id).head?, u') ∧ I (before ++ [b]) after u' := by
    intro before b after u hl
    have hlinked : Seg (nextOf s.heap) (before ++ b :: after) none := hl ▸ hq.linked
    obtain ⟨e, he, hnext⟩ := seg_get (seg_append.1 hlinked).2
    rw [first_none] at hnext
    rw [List.map_id]
    refine ⟨(), ?_, (List.append_assoc ..).trans hl⟩
    simp only [State.follow, Heap.load_ok he, bind, Except.bind, hnext]
  have hstart : I [] l () := List.nil_append l
  obtain ⟨_, hrun, -⟩ := whileSome_all id hround hstart hq.length_le
  rw [List.map_id] at hrun
  unfold State.chain
  rw [hq.head, hrun]
  rfl

/-- **One call.** It returns, with what the list operation returns and leaves. -/
theorem call_ok (hq : IsQueue s.queue s.heap l) (hop : op.Allowed s) :
    ∃ s', op.call s = .ok ((op.onList l).1, s') ∧ IsQueue s'.queue s'.heap (op.onList l).2 := by
  cases op with
  | alloc qe ref =>
    have hne : some ref ≠ (none : Ptr) := nofun
    refine ⟨⟨s.queue, s.heap.set qe ⟨none, none, some ref⟩⟩, ?_, hq.congr fun b hb => ?_⟩
    · simp only [Op.call, qAlloc, assertThat_ok hne, bind, Except.bind, Op.onList]
    -- the block is new: no entry of the queue is at its address
    · refine Heap.get_set_of_ne _ _ fun hbq => ?_
      have hsome := hq.isSome hb
      rw [hbq, show s.heap.get qe = none from hop] at hsome
      simp at hsome
  | put qe timestamp =>
    simp only [Op.onList]
    by_cases hmem : qe ∈ l
    · refine ⟨s, ?_, by rwa [if_pos hmem]⟩
      simp only [Op.call, qPut_present hq hmem, bind, Except.bind]
    · obtain ⟨e, he⟩ := Option.isSome_iff_exists.1 hop
      obtain ⟨q', h', hrun, hq', -⟩ := qPut_absent hq hmem he timestamp
      refine ⟨⟨q', h'⟩, ?_, by rwa [if_neg hmem]⟩
      simp only [Op.call, hrun, bind, Except.bind]
  | get =>
    obtain ⟨q', hrun, hq'⟩ := qGet_ok hq
    refine ⟨⟨q', s.heap⟩, ?_, hq'⟩
    simp only [Op.call, hrun, bind, Except.bind, Op.onList]
  | free qe =>
    obtain ⟨q', h', hrun, hq', -⟩ := qFree_ok hq hop
    refine ⟨⟨q', h'.drop qe⟩, ?_, hq'⟩
    simp only [Op.call, hrun, bind, Except.bind, Op.onList]

theorem step_refines (hq : IsQueue s.queue s.heap l) (hs : Step s op s') :
    IsQueue s'.queue s'.heap (op.onList l).2 := by
  obtain ⟨hop, p, hcall⟩ := hs
  obtain ⟨s'', hcall', hq'⟩ := call_ok hq hop
  rw [hcall'] at hcall
  simp only [Except.ok.injEq, Prod.mk.injEq] at hcall
  exact hcall.2 ▸ hq'

/-- After any calls, the queue is the list they make. -/
theorem run_refines {heap : Heap QueueEntry} {tr : List (Op × State)}
    (hex : Exec Step (.start heap) tr) :
    IsQueue (final (.start heap) tr).queue (final (.start heap) tr).heap
      (contents (tr.map Prod.fst)) :=
  hex.refines (R := fun s l => IsQueue s.queue s.heap l)
    (fun _ _ _ _ hq hs => step_refines hq hs) (IsQueue.empty heap)

/-- An entry that was just dequeued is freed, and the queue is as it was. -/
theorem free_dequeued (hq : IsQueue s.queue s.heap (a :: l)) :
    ∃ s₁ s₂, Op.get.call s = .ok (some a, s₁) ∧ (Op.free a).call s₁ = .ok (none, s₂) ∧
      s₂.queue = s₁.queue ∧ IsQueue s₁.queue s₁.heap l ∧ IsQueue s₂.queue s₂.heap l := by
  obtain ⟨q₁, hget, hq₁⟩ := qGet_ok hq
  rw [List.tail_cons] at hq₁
  have hnot : a ∉ l := (List.nodup_cons.1 hq.nodup).1
  obtain ⟨q₂, h₂, hfree, hq₂, -, hsame⟩ := qFree_ok hq₁ (hq.isSome List.mem_cons_self)
  obtain ⟨rfl, rfl⟩ := hsame hnot
  rw [List.erase_of_not_mem hnot] at hq₂
  refine ⟨⟨q₂, s.heap⟩, ⟨q₂, s.heap.drop a⟩, ?_, ?_, rfl, hq₁, hq₂⟩
  · simp only [Op.call, hget, bind, Except.bind, List.head?_cons]
  · simp only [Op.call, hfree, bind, Except.bind]

/-- **The pointer queue refines a list.** After any calls, the chain from the head is the list they
make: it ends at the tail, where `next` is `NULL`, and has no entry twice. Every call that keeps to
the conditions returns, without a failed assertion, what it returns on the list. -/
theorem queue_refines_list {heap : Heap QueueEntry} {tr : List (Op × State)}
    (hex : Exec Step (.start heap) tr) :
    let s := final (.start heap) tr
    let l := contents (tr.map Prod.fst)
    s.chain = .ok l ∧ l.Nodup ∧ s.queue.head = l.head? ∧ s.queue.tail = l.getLast? ∧
      (s.queue.head = none ↔ s.queue.tail = none) ∧
      (∀ a, s.queue.tail = some a → nextOf s.heap a = some none) ∧
      (∀ op : Op, op.Allowed s → ∃ s', op.call s = .ok ((op.onList l).1, s')) ∧
      (∀ a ∈ l, (Op.free a).Allowed s) ∧
      ∀ a s₁, Op.get.call s = .ok (some a, s₁) → ∃ s₂, (Op.free a).call s₁ = .ok (none, s₂) ∧
        s₂.queue = s₁.queue ∧ s₂.chain = s₁.chain := by
  intro s l
  have hq : IsQueue s.queue s.heap l := run_refines hex
  refine ⟨chain_ok hq, hq.nodup, hq.head, hq.tail, ?_, fun a ha => hq.tail_next ha, ?_,
    fun a ha => hq.isSome ha, ?_⟩
  · rw [hq.head_eq_none, hq.tail_eq_none]
  · intro op hop
    obtain ⟨s', hcall, -⟩ := call_ok hq hop
    exact ⟨s', hcall⟩
  · intro a s₁ hget
    have hop : Op.get.Allowed s := trivial
    obtain ⟨_, hcall, -⟩ := call_ok hq hop
    rw [hget, Except.ok.injEq, Prod.mk.injEq] at hcall
    -- what `q_get` returned was the first of the list
    obtain ⟨rest, hl⟩ := List.head?_eq_some_iff.1 hcall.1.symm
    obtain ⟨s₁', s₂, hget', hfree, hsame, hq₁, hq₂⟩ := free_dequeued (hl ▸ hq)
    obtain rfl : s₁ = s₁' := by
      rw [hget, Except.ok.injEq, Prod.mk.injEq] at hget'
      exact hget'.2
    exact ⟨s₂, hfree, hsame, (chain_ok hq₂).trans (chain_ok hq₁).symm⟩

/-- Three entries are put into the queue, one of them twice; the second one is freed, and the head
taken and freed. -/
theorem queue_refines_list_run : ∃ tr : List (Op × State), Exec Step (.start .empty) tr ∧
    tr.map Prod.fst = [.alloc 1 9, .alloc 2 9, .alloc 3 9, .put 1 0, .put 2 0, .put 3 0, .put 2 0,
      .free 2, .get, .free 1] ∧ (final (.start .empty) tr).chain = .ok [3] := by
  obtain ⟨tr, hex, hops, -⟩ : Leads Step (.start .empty) [.alloc 1 9, .alloc 2 9, .alloc 3 9,
      .put 1 0, .put 2 0, .put 3 0, .put 2 0, .free 2, .get, .free 1] _ :=
    .cons ⟨rfl, _, rfl⟩ (.cons ⟨rfl, _, rfl⟩ (.cons ⟨rfl, _, rfl⟩ (.cons ⟨rfl, _, rfl⟩
      (.cons ⟨rfl, _, rfl⟩ (.cons ⟨rfl, _, rfl⟩ (.cons ⟨rfl, _, rfl⟩ (.cons ⟨rfl, _, rfl⟩
      (.cons ⟨trivial, _, rfl⟩ (.cons ⟨rfl, _, rfl⟩ (.refl _))))))))))
  have hchain := (queue_refines_list hex).1
  rw [hops] at hchain
  exact ⟨tr, hex, hops, hchain⟩

end Muxer.Queues
