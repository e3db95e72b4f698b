import Muxer.Spec.Queue
import Muxer.Lib.Linked
import Mathlib.Tactic.Set

/-!
# A pointer queue is a list

`IsQueue q h l`: the entries of `q` are those of `l`, head first.

* `qPut_absent`, `qPut_present`: `q_put` appends an entry that is not in the queue.
* `qGet_ok`: `q_get` takes the head.
* `qUnlink_ok`, `qFree_ok`: `q_free` erases the entry, wherever it is, and changes nothing else of
  the queue; of an entry that is not in it, it changes nothing.
-/

namespace Muxer

open Lib

variable {q : Queue} {h h' : Heap QueueEntry} {l : List Addr} {a b : Addr} {e : QueueEntry}

/-- The field `next` of an entry, if it is allocated. -/
def nextOf (h : Heap QueueEntry) (a : Addr) : Option Ptr := (h.get a).map (·.next)

/-- The entries of a queue: from its head to its tail, where the chain ends. -/
structure IsQueue (q : Queue) (h : Heap QueueEntry) (l : List Addr) : Prop where
  head : q.head = l.head?
  tail : q.tail = l.getLast?
  linked : Seg (nextOf h) l none

/-- Only entries of `l` have changed, and not in what they refer to; none is freed. -/
structure Relinked (l : List Addr) (h h' : Heap QueueEntry) : Prop where
  refs : ∀ a, (h'.get a).map (·.ref) = (h.get a).map (·.ref)
  outside : ∀ a ∉ l, h'.get a = h.get a
  freed : h'.freed = h.freed

theorem Relinked.refl (l : List Addr) (h : Heap QueueEntry) : Relinked l h h :=
  ⟨fun _ => rfl, fun _ _ => rfl, rfl⟩

theorem Relinked.trans {h'' : Heap QueueEntry} (h₁ : Relinked l h h') (h₂ : Relinked l h' h'') :
    Relinked l h h'' where
  refs a := (h₂.refs a).trans (h₁.refs a)
  outside a ha := (h₂.outside a ha).trans (h₁.outside a ha)
  freed := h₂.freed.trans h₁.freed

theorem Relinked.isSome (hr : Relinked l h h') (ha : (h.get a).isSome) : (h'.get a).isSome := by
  have := congrArg Option.isSome (hr.refs a)
  rw [Option.isSome_map, Option.isSome_map] at this
  rw [this, ha]

/-- An entry of `l` is given another `next`. -/
theorem Relinked.set (ha : h.get a = some e) (hl : a ∈ l) {e' : QueueEntry} (he : e'.ref = e.ref) :
    Relinked l h (h.set a e') where
  refs b := by
    rw [Heap.get_set]
    split
    · next hb => rw [hb, ha, Option.map_some, Option.map_some, he]
    · rfl
  outside b hb := Heap.get_set_of_ne h e' fun hba => hb (hba ▸ hl)
  freed := rfl

@[simp] theorem nextOf_set_self (h : Heap QueueEntry) (a : Addr) (e : QueueEntry) :
    nextOf (h.set a e) a = some e.next := by
  rw [nextOf, Heap.get_set_self, Option.map_some]

theorem nextOf_set_of_ne (h : Heap QueueEntry) (e : QueueEntry) (hb : b ≠ a) :
    nextOf (h.set a e) b = nextOf h b := by
  rw [nextOf, Heap.get_set_of_ne h e hb, nextOf]

theorem nextOf_eq (he : h.get a = some e) : nextOf h a = some e.next := by
  rw [nextOf, he, Option.map_some]

/-- An entry of a segment is read there. -/
theorem seg_get {p : Ptr} (hs : Seg (nextOf h) (a :: l) p) :
    ∃ e, h.get a = some e ∧ e.next = first l p := by
  have hnext := hs.1
  rw [nextOf, Option.map_eq_some_iff] at hnext
  exact hnext

theorem seg_isSome {p : Ptr} (hs : Seg (nextOf h) l p) (ha : a ∈ l) : (h.get a).isSome := by
  have := hs.isSome ha
  rwa [nextOf, Option.isSome_map] at this

theorem IsQueue.empty (h : Heap QueueEntry) : IsQueue .empty h [] := ⟨rfl, rfl, trivial⟩

theorem IsQueue.nodup (hq : IsQueue q h l) : l.Nodup := hq.linked.nodup

theorem IsQueue.isSome (hq : IsQueue q h l) (ha : a ∈ l) : (h.get a).isSome :=
  seg_isSome hq.linked ha

theorem IsQueue.length_le (hq : IsQueue q h l) : l.length ≤ h.size :=
  Heap.length_le_size hq.nodup fun _ ha => hq.isSome ha

/-- The queue does not depend on other cells. -/
theorem IsQueue.congr (hq : IsQueue q h l) (heq : ∀ a ∈ l, h'.get a = h.get a) :
    IsQueue q h' l where
  head := hq.head
  tail := hq.tail
  linked := hq.linked.congr fun a ha => by rw [nextOf, heq a ha, nextOf]

theorem IsQueue.head_eq_none (hq : IsQueue q h l) : q.head = none ↔ l = [] := by
  rw [hq.head, List.head?_eq_none_iff]

theorem IsQueue.tail_eq_none (hq : IsQueue q h l) : q.tail = none ↔ l = [] := by
  rw [hq.tail, List.getLast?_eq_none_iff]

/-- The entry the tail points to is the last of the chain. -/
theorem IsQueue.tail_next (hq : IsQueue q h l) (ha : q.tail = some a) : nextOf h a = some none := by
  rw [hq.tail] at ha
  obtain ⟨xs, rfl⟩ := List.getLast?_eq_some_iff.1 ha
  exact (seg_append.1 hq.linked).2.1

/-- The head is the tail only where there is no other entry. -/
theorem IsQueue.tail_eq_head (hq : IsQueue q h (a :: l)) :
    q.tail = some a ↔ l = [] := by
  rw [hq.tail]
  constructor
  · intro hlast
    obtain _ | ⟨b, l⟩ := l
    · rfl
    · rw [List.getLast?_cons_cons] at hlast
      exact absurd (List.mem_of_getLast? hlast) (List.nodup_cons.1 hq.nodup).1
  · rintro rfl
    rfl

/-! ## `q_get` -/

theorem qGet_ok (hq : IsQueue q h l) :
    ∃ q', qGet q h = .ok (l.head?, q') ∧ IsQueue q' h l.tail := by
  obtain ⟨hhead, htail, hlinked⟩ := hq
  unfold qGet
  obtain _ | ⟨a, l⟩ := l
  · rw [List.head?_nil] at hhead
    rw [if_pos hhead]
    refine ⟨_, rfl, ?_, ?_, trivial⟩
    · split <;> exact hhead
    · split
      · rfl
      · exact htail
  · rw [List.head?_cons] at hhead
    obtain ⟨e, he, hnext⟩ := seg_get hlinked
    rw [first_none] at hnext
    rw [if_neg (by simp [hhead]), hhead]
    simp only [Heap.load_ok he, bind, Except.bind]
    refine ⟨_, rfl, hnext, ?_, hlinked.2⟩
    rw [htail, List.tail_cons]
    obtain _ | ⟨b, l⟩ := l
    · rw [if_pos (by simp)]
      rfl
    · have hne : q.tail ≠ some a := fun hlast => by
        simpa using (IsQueue.tail_eq_head ⟨hhead, htail, hlinked⟩).1 hlast
      rw [htail] at hne
      rw [if_neg hne, ← List.getLast?_cons_cons, htail]

/-! ## `q_put` -/

/-- The search of `q_put` finds the entry if and only if it is in the queue. -/
theorem qPut_found (hq : IsQueue q h l) (a : Addr) :
    ∃ visited, whileSome (qPutRound (some a) h) h.size q.head false =
      .ok (visited, decide (a ∈ l)) := by
  let I (before after : List Addr) (found : Bool) : Prop :=
    before ++ after = l ∧ a ∉ before ∧ found = false
  have hend : ∀ before found, I before [] found → found = decide (a ∈ l) := by
    rintro before _ ⟨hl, hbefore, rfl⟩
    rw [List.append_nil] at hl
    simp [← hl, hbefore]
  have hround : ∀ before b after found, I before (b :: after) found →
      ∃ p found', qPutRound (some a) h b found = .ok (p, found') ∧
        (p = (after.map id).head? ∧ I (before ++ [b]) after found' ∨
          p = none ∧ found' = decide (a ∈ l)) := by
    rintro before b after _ ⟨rfl, hbefore, rfl⟩
    unfold qPutRound
    by_cases hba : b = a
    · subst hba
      exact ⟨none, true, if_pos rfl, .inr ⟨rfl, by simp⟩⟩
    · obtain ⟨m, hm, hnext⟩ := seg_get (seg_append.1 hq.linked).2
      rw [if_neg (by simpa using hba)]
      simp only [Heap.load_ok hm, bind, Except.bind]
      refine ⟨_, _, rfl, .inl ⟨by rw [hnext, first_none, List.map_id], by simp, ?_, rfl⟩⟩
      simp [hbefore, Ne.symm hba]
  obtain ⟨visited, found, hrun, hfound⟩ := whileSome_ok id hend hround
    ⟨List.nil_append l, List.not_mem_nil, rfl⟩ hq.length_le
  rw [List.map_id, List.map_id] at hrun
  exact ⟨visited, by rw [hq.head, hrun, hfound]⟩

theorem qPut_present (hq : IsQueue q h l) (ha : a ∈ l) (timestamp : ℤ) :
    qPut q (some a) timestamp h = .ok (some a, q, h) := by
  obtain ⟨visited, hfound⟩ := qPut_found hq a
  have hne : some a ≠ (none : Ptr) := nofun
  simp only [qPut, assertThat_ok hne, hfound, bind, Except.bind, ha, decide_true, if_true]

/-- The entry put into an empty queue. -/
theorem qAppend_empty (hq : IsQueue q h []) (ha : h.get a = some e) (timestamp : ℤ) :
    ∃ q' h', qAppend q (some a) timestamp h = .ok (q', h') ∧ IsQueue q' h' [a] ∧
      Relinked [a] h h' := by
  have hhead := hq.head_eq_none.2 rfl
  have htail := hq.tail_eq_none.2 rfl
  have hne : some a ≠ (none : Ptr) := nofun
  have hget := Heap.get_set_self h a { e with next := none }
  refine ⟨⟨some a, some a⟩, (h.set a { e with next := none }).set a
    { e with next := none, timestamp := some timestamp }, ?_, ⟨rfl, rfl, ?_, trivial⟩, ?_⟩
  · simp only [qAppend, htail, hhead, ne_eq, not_true_eq_false, if_false, if_true, bind,
      Except.bind, Heap.update_ok ha, Heap.update_ok hget, assertThat_ok hne]
  · rw [nextOf_set_self, first_nil]
  · have hr : Relinked [a] h (h.set a { e with next := none }) := .set ha (by simp) rfl
    exact hr.trans (.set hget (by simp) rfl)

/-- The entry put behind the last one. -/
theorem qAppend_last {xs : List Addr} {t : Addr} (hq : IsQueue q h (xs ++ [t]))
    (hnot : a ∉ xs ++ [t]) (ha : h.get a = some e) (timestamp : ℤ) :
    ∃ q' h', qAppend q (some a) timestamp h = .ok (q', h') ∧ IsQueue q' h' (xs ++ [t] ++ [a]) ∧
      Relinked (xs ++ [t] ++ [a]) h h' := by
  have hhead : q.head ≠ none := fun hnone => by simpa using hq.head_eq_none.1 hnone
  have htail : q.tail = some t := by rw [hq.tail, List.getLast?_append]; rfl
  -- the new entry is not the tail, so that the two writes do not meet
  have hta : a ≠ t := fun hat => hnot (by simp [hat])
  obtain ⟨m, hm, -⟩ := seg_get (seg_append.1 hq.linked).2
  set h₁ := h.set t { m with next := some a } with h₁_def
  have ha₁ : h₁.get a = some e := by rw [h₁_def, Heap.get_set_of_ne _ _ hta, ha]
  set h₂ := h₁.set a { e with next := none } with h₂_def
  have ha₂ : h₂.get a = some { e with next := none } := Heap.get_set_self ..
  refine ⟨⟨q.head, some a⟩, h₂.set a { e with next := none, timestamp := some timestamp },
    ?_, ⟨?_, ?_, ?_⟩, ?_⟩
  · simp only [qAppend, htail, hhead, ne_eq, reduceCtorEq, not_false_eq_true, if_true, if_false,
      assertThat_true, bind, Except.bind, Heap.update_ok hm, Heap.update_ok ha₁,
      Heap.update_ok ha₂, ← h₁_def, ← h₂_def]
  · rw [hq.head]
    simp
  · rw [List.getLast?_append]
    rfl
  · -- the last entry pointed to the new one, which points nowhere
    have hs₁ : Seg (nextOf h₁) (xs ++ [t]) (some a) :=
      hq.linked.redirect hq.nodup (nextOf_set_self h t _) fun b hb => nextOf_set_of_ne h _ hb
    refine seg_append.2 ⟨hs₁.congr fun b hb => ?_, nextOf_set_self h₂ a _, trivial⟩
    have hba : b ≠ a := fun heq => hnot (heq ▸ hb)
    rw [nextOf_set_of_ne h₂ _ hba, nextOf_set_of_ne h₁ _ hba]
  · have hr₁ : Relinked (xs ++ [t] ++ [a]) h h₁ := .set hm (by simp) rfl
    have hr₂ : Relinked (xs ++ [t] ++ [a]) h₁ h₂ := .set ha₁ (by simp) rfl
    exact (hr₁.trans hr₂).trans (.set ha₂ (by simp) rfl)

theorem qPut_absent (hq : IsQueue q h l) (hnot : a ∉ l) (ha : h.get a = some e)
    (timestamp : ℤ) :
    ∃ q' h', qPut q (some a) timestamp h = .ok (some a, q', h') ∧ IsQueue q' h' (l ++ [a]) ∧
      Relinked (l ++ [a]) h h' := by
  obtain ⟨visited, hfound⟩ := qPut_found hq a
  have happend : ∃ q' h', qAppend q (some a) timestamp h = .ok (q', h') ∧
      IsQueue q' h' (l ++ [a]) ∧ Relinked (l ++ [a]) h h' := by
    rcases List.eq_nil_or_concat l with rfl | ⟨xs, t, rfl⟩
    · exact qAppend_empty hq ha timestamp
    · rw [List.concat_eq_append] at *
      exact qAppend_last hq hnot ha timestamp
  obtain ⟨q', h', hrun, hq', hr⟩ := happend
  refine ⟨q', h', ?_, hq', hr⟩
  have hne : some a ≠ (none : Ptr) := nofun
  simp only [qPut, assertThat_ok hne, hfound, bind, Except.bind, hnot, decide_false,
    Bool.false_eq_true, if_false, hrun]

/-! ## `q_free` -/

theorem erase_concat_of_ne (l : List Addr) (hb : b ≠ a) :
    (l ++ [b]).erase a = l.erase a ++ [b] := by
  rw [List.erase_append]
  split
  · rfl
  · next hnot => rw [List.erase_of_not_mem hnot, List.erase_of_not_mem (by simpa using hb.symm)]

theorem erase_concat_self (hl : a ∉ l) : (l ++ [a]).erase a = l := by
  rw [List.erase_append_right _ hl, List.erase_cons_head, List.append_nil]

theorem getLast?_erase_of_ne (hl : l.getLast? ≠ some a) : (l.erase a).getLast? = l.getLast? := by
  rcases List.eq_nil_or_concat l with rfl | ⟨xs, b, rfl⟩
  · rfl
  · rw [List.concat_eq_append] at *
    have hba : b ≠ a := fun hba => hl (by rw [List.getLast?_concat, hba])
    rw [erase_concat_of_ne xs hba, List.getLast?_concat, List.getLast?_concat]

/-- Between the rounds of the scan for `a`, with the entries `x :: before` behind it: `a` is out of
the chain if it was among them, and `m_qe_prev` is the last of the others. -/
structure Scanned (h : Heap QueueEntry) (l : List Addr) (a x : Addr) (before after : List Addr)
    (s : Ptr × Heap QueueEntry) : Prop where
  split : x :: (before ++ after) = l
  prev : s.1 = ((x :: before).erase a).getLast?
  linked : Seg (nextOf s.2) ((x :: before).erase a ++ after) none
  relinked : Relinked l h s.2
  same : a ∉ before → s.2 = h

/-- The round that meets the entry takes it out of the chain. -/
theorem qFreeRound_match {x : Addr} {before after : List Addr} {s : Ptr × Heap QueueEntry}
    (hhead : q.head ≠ none) (htail : q.tail ≠ none) (hnot : a ∉ x :: before)
    (hs : Scanned h l a x before (a :: after) s) :
    ∃ s', qFreeRound q (some a) a s = .ok (after.head?, s') ∧
      Scanned h l a x (before ++ [a]) after s' := by
  obtain ⟨mQePrev, h₁⟩ := s
  obtain ⟨hsplit, hprev, hlinked, hr, hsame⟩ := hs
  simp only at hprev hlinked hr hsame
  -- the entry before it, which `m_qe_prev` is
  obtain ⟨xs, p, hxs⟩ : ∃ xs p, x :: before = xs ++ [p] :=
    ⟨_, _, (List.dropLast_append_getLast (List.cons_ne_nil x before)).symm⟩
  rw [List.erase_of_not_mem hnot, hxs] at hprev hlinked
  rw [List.getLast?_concat] at hprev
  obtain ⟨m, hm, hmnext⟩ := seg_get (seg_append.1 hlinked).2
  obtain ⟨e, he, -⟩ := seg_get (seg_append.1 (seg_append.1 hlinked).1).2
  have hap : a ≠ p := fun hap => hnot (by rw [hxs, hap]; simp)
  have hm₂ : (h₁.set p { e with next := m.next }).get a = some m := by
    rw [Heap.get_set_of_ne _ _ hap, hm]
  refine ⟨⟨some p, h₁.set p { e with next := m.next }⟩, ?_, ?_, ?_, ?_, ?_, ?_⟩
  · simp only [qFreeRound, hprev, hhead, htail, ne_eq, reduceCtorEq, not_false_eq_true,
      assertThat_true, bind, Except.bind, if_true, Heap.load_ok hm, Heap.update_ok he,
      Heap.load_ok hm₂]
    rw [hmnext, first_none]
  · rw [← hsplit]
    simp
  · rw [← List.cons_append, erase_concat_self hnot, hxs, List.getLast?_concat]
  · rw [← List.cons_append, erase_concat_self hnot, hxs]
    -- that one now points to what the entry pointed to
    refine hlinked.unlink hlinked.nodup ?_ fun c hc => nextOf_set_of_ne h₁ _ hc
    rw [nextOf_set_self, hmnext]
  · refine hr.trans (.set he ?_ rfl)
    rw [← hsplit, ← List.cons_append, hxs]
    simp
  · intro hnotin
    simp at hnotin

/-- **A round of the scan.** -/
theorem qFreeRound_ok (hq : IsQueue q h l) {x : Addr} (hax : a ≠ x) {before after : List Addr}
    {s : Ptr × Heap QueueEntry} (hs : Scanned h l a x before (b :: after) s) :
    ∃ s', qFreeRound q (some a) b s = .ok ((after.map id).head?, s') ∧
      Scanned h l a x (before ++ [b]) after s' := by
  rw [List.map_id]
  have hne : l ≠ [] := by simp [← hs.split]
  have hhead : q.head ≠ none := fun hnone => hne (hq.head_eq_none.1 hnone)
  have htail : q.tail ≠ none := fun hnone => hne (hq.tail_eq_none.1 hnone)
  by_cases hba : b = a
  · subst hba
    have hnodup : (x :: before ++ b :: after).Nodup := by
      rw [List.cons_append, hs.split]
      exact hq.nodup
    have hnot : b ∉ x :: before := fun hb =>
      (List.disjoint_of_nodup_append hnodup) hb List.mem_cons_self
    exact qFreeRound_match hhead htail hnot hs
  obtain ⟨mQePrev, h₁⟩ := s
  obtain ⟨hsplit, hprev, hlinked, hr, hsame⟩ := hs
  simp only at hprev hlinked hr hsame
  -- another entry: the chain stays as it is, and `m_qe_prev` moves on
  have hkept : (x :: (before ++ [b])).erase a = (x :: before).erase a ++ [b] :=
    erase_concat_of_ne (x :: before) hba
  have hprev' : mQePrev ≠ none := by
    rw [hprev, List.erase_cons_tail (by simpa using Ne.symm hax)]
    simp
  obtain ⟨m, hm, hmnext⟩ := seg_get (seg_append.1 hlinked).2
  refine ⟨⟨some b, h₁⟩, ?_, ?_, ?_, ?_, hr, fun hnotin => hsame fun ha => hnotin (by simp [ha])⟩
  · have hba' : ¬ some b = some a := by simpa using hba
    simp only [qFreeRound, hhead, htail, hprev', ne_eq, not_false_eq_true, assertThat_true, bind,
      Except.bind, if_neg hba', Heap.load_ok hm, hmnext, first_none]
  · rw [← hsplit]
    simp
  · rw [hkept, List.getLast?_concat]
  · rw [hkept, List.append_assoc]
    exact hlinked

/-- The scan of a queue whose head is another entry. -/
theorem qFreeScan_ok {x : Addr} {rest : List Addr} (hq : IsQueue q h (x :: rest)) (hax : a ≠ x) :
    ∃ q' h', qFreeScan q (some a) h = .ok (q', h') ∧ IsQueue q' h' ((x :: rest).erase a) ∧
      Relinked (x :: rest) h h' ∧ (a ∉ x :: rest → q' = q ∧ h' = h) := by
  have hhead : q.head = some x := hq.head
  obtain ⟨e, he, hnext⟩ := seg_get hq.linked
  rw [first_none] at hnext
  have hstart : Scanned h (x :: rest) a x [] rest (q.head, h) := by
    refine ⟨rfl, ?_, ?_, Relinked.refl _ h, fun _ => rfl⟩
    · rw [List.erase_of_not_mem (by simpa using hax), hhead]
      rfl
    · rw [List.erase_of_not_mem (by simpa using hax)]
      exact hq.linked
  have hlength : rest.length ≤ h.size := Nat.le_of_succ_le hq.length_le
  obtain ⟨⟨mQePrev, h'⟩, hscan, -, hprev, hlinked, hr, hsame⟩ :=
    whileSome_all id (fun before b after s hs => qFreeRound_ok hq hax hs) hstart hlength
  rw [List.map_id] at hscan
  have hkept : (x :: rest).erase a = x :: rest.erase a :=
    List.erase_cons_tail (by simpa using hax.symm)
  simp only [List.append_nil, hkept] at hprev hlinked
  rw [hkept]
  have hrun : qFreeScan q (some a) h = if some a ≠ q.head ∧ some a = q.tail then do
      assertThat (q.head ≠ none)
      assertThat (mQePrev ≠ none)
      .ok ({ q with tail := mQePrev }, h') else .ok (q, h') := by
    have hloop : whileSome (qFreeRound q (some a)) h.size e.next (q.head, h) =
        .ok (rest, mQePrev, h') := hnext ▸ hscan
    rw [qFreeScan, hhead, Heap.load_ok he]
    rw [hhead] at hloop
    simp only [bind, Except.bind, hloop]
  -- the tail is moved back if it was the entry
  by_cases htail : q.tail = some a
  · have hmem : a ∈ x :: rest := List.mem_of_getLast? (hq.tail ▸ htail)
    have hprev' : mQePrev ≠ none := by simp [hprev]
    refine ⟨{ q with tail := mQePrev }, h', ?_, ⟨hhead, hprev, hlinked⟩, hr, absurd hmem⟩
    rw [hrun, if_pos ⟨by simpa [hhead] using hax, htail.symm⟩, assertThat_ok (by simp [hhead]),
      assertThat_ok hprev']
    rfl
  · refine ⟨q, h', ?_, ⟨hhead, ?_, hlinked⟩, hr, fun hnot => ⟨rfl, hsame fun ha => ?_⟩⟩
    · rw [hrun, if_neg fun hand => htail hand.2.symm]
    · rw [← hkept, getLast?_erase_of_ne (hq.tail ▸ htail), hq.tail]
    · exact hnot (List.mem_cons_of_mem x ha)

/-- **Unlinking erases the entry**, whether it is the only one, the head, a later one or absent. -/
theorem qUnlink_ok (hq : IsQueue q h l) (a : Addr) :
    ∃ q' h', qUnlink q (some a) h = .ok (q', h') ∧ IsQueue q' h' (l.erase a) ∧
      Relinked l h h' ∧ (a ∉ l → q' = q ∧ h' = h) := by
  have hr := Relinked.refl l h
  unfold qUnlink
  obtain _ | ⟨x, rest⟩ := l
  · have htail : q.tail = none := hq.tail
    have hhead : q.head = none := hq.head
    rw [if_pos hhead, assertThat_ok htail]
    exact ⟨q, h, rfl, hq, hr, fun _ => ⟨rfl, rfl⟩⟩
  have hhead : q.head = some x := hq.head
  rw [if_neg (by simp [hhead])]
  by_cases hax : a = x
  · subst hax
    have hmem : a ∈ a :: rest := List.mem_cons_self
    rw [List.erase_cons_head]
    by_cases htail : q.tail = some a
    · obtain rfl : rest = [] := hq.tail_eq_head.1 htail
      rw [if_pos ⟨hhead.symm, htail.symm⟩, assertThat_ok (hhead.trans htail.symm)]
      exact ⟨_, h, rfl, IsQueue.empty h, hr, absurd hmem⟩
    · obtain ⟨q', hget, hq'⟩ := qGet_ok hq
      obtain ⟨e, he, -⟩ := seg_get hq.linked
      have htail' : q.tail ≠ none := fun hnone => by simpa using hq.tail_eq_none.1 hnone
      -- the head is taken as `q_get` takes it
      have hsame : q' = { q with head := e.next } := by
        rw [qGet, if_neg (by simp [hhead]), if_neg (hhead ▸ htail), hhead, Heap.load_ok he] at hget
        simpa [bind, Except.bind] using hget.symm
      rw [if_neg fun hand => htail hand.2.symm, if_pos ⟨hhead.symm, fun heq => htail heq.symm⟩,
        assertThat_ok htail', hhead, Heap.load_ok he]
      exact ⟨q', h, by rw [hsame]; rfl, hq', hr, absurd hmem⟩
  · rw [if_neg fun hand => hax (by simpa [hhead] using hand.1),
      if_neg fun hand => hax (by simpa [hhead] using hand.1)]
    exact qFreeScan_ok hq hax

/-- **`q_free` erases the entry** and frees it. -/
theorem qFree_ok (hq : IsQueue q h l) (ha : (h.get a).isSome) :
    ∃ q' h', qFree q (some a) h = .ok (q', h'.drop a) ∧ IsQueue q' (h'.drop a) (l.erase a) ∧
      Relinked l h h' ∧ (a ∉ l → q' = q ∧ h' = h) := by
  obtain ⟨q', h', hrun, hq', hr, hsame⟩ := qUnlink_ok hq a
  obtain ⟨e, he⟩ := Option.isSome_iff_exists.1 (hr.isSome ha)
  refine ⟨q', h', ?_, hq'.congr fun b hb => ?_, hr, hsame⟩
  · have hne : some a ≠ (none : Ptr) := nofun
    simp only [qFree, assertThat_ok hne, hrun, bind, Except.bind, Heap.free_ok he]
  · exact Heap.get_drop_of_ne h' fun hba => hq.nodup.not_mem_erase (hba ▸ hb)

end Muxer
