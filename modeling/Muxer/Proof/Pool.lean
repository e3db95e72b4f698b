import Muxer.Proof.Queue
import Mathlib.Algebra.BigOperators.Group.Finset.Basic
import Mathlib.Data.Fintype.Basic

/-!
# Queues that share a heap

The entries of several queues lie on one heap, and so do the entries that no queue has: those taken
from a queue and not freed yet, and those that were lost. `Pool q h L loose`: the queue `q k` has
the entries of `L k`, each with the address it refers to, no entry is in two places, and no other is
allocated.

* `Pool.put`, `Pool.get`, `Pool.free`: an allocation and `q_put`, `q_get`, and `q_free` of an entry
  that is in no queue.
* `Pool.remove`: `q_free` of an entry wherever it is in its queue.
* `Pool.forget`: a queue given up with its entries in it.
* `Pool.size`: how many entries there are.
-/

namespace Muxer

open Lib

variable {κ : Type} {q : κ → Queue} {h : Heap QueueEntry} {L : κ → List (Addr × Addr)}
  {loose : List Addr} {k : κ} {a o : Addr} {rest xs ys : List (Addr × Addr)}

/-- Each queue with its entries and what they refer to, and the entries in no queue. -/
structure Pool (q : κ → Queue) (h : Heap QueueEntry) (L : κ → List (Addr × Addr))
    (loose : List Addr) : Prop where
  queues : ∀ k, IsQueue (q k) h ((L k).map Prod.fst)
  refs : ∀ k, ∀ i ∈ L k, (h.get i.1).map (·.ref) = some (some i.2)
  apart : ∀ k k' a, a ∈ (L k).map Prod.fst → a ∈ (L k').map Prod.fst → k = k'
  looseNodup : loose.Nodup
  looseApart : ∀ a ∈ loose, ∀ k, a ∉ (L k).map Prod.fst
  all : ∀ a, (h.get a).isSome ↔ a ∈ loose ∨ ∃ k, a ∈ (L k).map Prod.fst

namespace Pool

theorem start : Pool (fun _ : κ => .empty) .empty (fun _ => []) [] where
  queues k := .empty _
  refs k i hi := by cases hi
  apart k k' a ha := by cases ha
  looseNodup := List.nodup_nil
  looseApart a ha := by cases ha
  all a := by simp [Heap.get, Heap.empty]

/-- An entry on the way, what it refers to, and the entry after it. -/
theorem entry (hp : Pool q h L loose) (hL : L k = xs ++ (a, o) :: ys) :
    ∃ e, h.get a = some e ∧ e.ref = some o ∧ e.next = (ys.map Prod.fst).head? := by
  have hlinked := (hp.queues k).linked
  rw [hL, List.map_append, List.map_cons] at hlinked
  obtain ⟨e, he, hnext⟩ := seg_get (seg_append.1 hlinked).2
  have href := hp.refs k (a, o) (by simp [hL])
  rw [he, Option.map_some, Option.some.injEq] at href
  exact ⟨e, he, href, by rw [hnext, first_none]⟩

/-- An address that is not allocated is nowhere. -/
theorem fresh (hp : Pool q h L loose) (ha : h.get a = none) :
    a ∉ loose ∧ ∀ k, a ∉ (L k).map Prod.fst := by
  have hnone := (hp.all a).not.1 (by simp [ha])
  rw [not_or, not_exists] at hnone
  exact hnone

theorem length_le (hp : Pool q h L loose) (k : κ) : (L k).length ≤ h.size := by
  have := (hp.queues k).length_le
  rwa [List.length_map] at this

/-- **`q_free` of an entry in no queue** frees it, and changes nothing else. -/
theorem free (hp : Pool q h L (a :: loose)) (k : κ) :
    qFree (q k) (some a) h = .ok (q k, h.drop a) ∧ Pool q (h.drop a) L loose := by
  have hapart := hp.looseApart a List.mem_cons_self
  have hnodup := List.nodup_cons.1 hp.looseNodup
  obtain ⟨q', h', hrun, -, -, hsame⟩ :=
    qFree_ok (hp.queues k) ((hp.all a).2 (.inl List.mem_cons_self))
  obtain ⟨rfl, rfl⟩ := hsame (hapart k)
  refine ⟨hrun, ?_, ?_, hp.apart, hnodup.2,
    fun b hb => hp.looseApart b (List.mem_cons_of_mem a hb), ?_⟩
  · intro k'
    exact (hp.queues k').congr fun b hb => Heap.get_drop_of_ne h' fun hba => hapart k' (hba ▸ hb)
  · intro k' i hi
    have hne : i.1 ≠ a := fun hia => hapart k' (hia ▸ List.mem_map_of_mem hi)
    rw [Heap.get_drop_of_ne h' hne]
    exact hp.refs k' i hi
  · intro b
    by_cases hba : b = a
    · subst hba
      simp [hnodup.1, hapart]
    · rw [Heap.get_drop_of_ne h' hba, hp.all b, List.mem_cons]
      simp [hba]

section

variable [DecidableEq κ]

/-- Where an entry is once it is put into the queue `k`. -/
theorem mem_added {k' : κ} {b : Addr} :
    b ∈ (Function.update L k (L k ++ [(a, o)]) k').map Prod.fst ↔
      b ∈ (L k').map Prod.fst ∨ k' = k ∧ b = a := by
  by_cases hk : k' = k
  · subst hk
    simp
  · simp [hk]

/-- Where an entry is once the entry `a` is out of the queue `k`. -/
theorem mem_removed (hp : Pool q h L loose) (hL : L k = xs ++ (a, o) :: ys) {k' : κ} {b : Addr} :
    b ∈ (Function.update L k (xs ++ ys) k').map Prod.fst ↔ b ∈ (L k').map Prod.fst ∧ b ≠ a := by
  have ha : a ∈ (L k).map Prod.fst := by simp [hL]
  by_cases hk : k' = k
  · subst hk
    have hnodup := (hp.queues k').nodup
    rw [hL, List.map_append, List.map_cons, List.nodup_middle, List.nodup_cons,
      ← List.map_append] at hnodup
    have hmiddle : b ∈ (L k').map Prod.fst ↔ b = a ∨ b ∈ (xs ++ ys).map Prod.fst := by
      rw [hL, List.map_append, List.map_cons, List.mem_append, List.mem_cons, List.map_append,
        List.mem_append, or_left_comm]
    rw [Function.update_self, hmiddle]
    constructor
    · intro hb
      exact ⟨.inr hb, fun hba => hnodup.1 (hba ▸ hb)⟩
    · rintro ⟨hb, hne⟩
      exact hb.resolve_left hne
  · rw [Function.update_of_ne hk]
    exact ⟨fun hb => ⟨hb, fun hba => hk (hp.apart k' k a (hba ▸ hb) ha)⟩, And.left⟩

/-- **A new entry put into a queue.** -/
theorem put (hp : Pool q h L loose) (ha : h.get a = none) (o : Addr) (timestamp : ℤ) (k : κ) :
    ∃ q' h', qPut (q k) (some a) timestamp (h.set a ⟨none, none, some o⟩) =
        .ok (some a, q', h') ∧
      Pool (Function.update q k q') h' (Function.update L k (L k ++ [(a, o)])) loose := by
  obtain ⟨hloose, hnone⟩ := hp.fresh ha
  set h₁ := h.set a ⟨none, none, some o⟩ with h₁_def
  have hsame : ∀ b ≠ a, h₁.get b = h.get b := fun b hb => Heap.get_set_of_ne h _ hb
  have hq : ∀ k, IsQueue (q k) h₁ ((L k).map Prod.fst) := fun k =>
    (hp.queues k).congr fun b hb => hsame b fun hba => hnone k (hba ▸ hb)
  obtain ⟨q', h', hrun, hq', hr⟩ :=
    qPut_absent (hq k) (hnone k) (Heap.get_set_self h a _) timestamp
  refine ⟨q', h', hrun, ?_, ?_, ?_, hp.looseNodup, ?_, ?_⟩
  · intro k'
    by_cases hk : k' = k
    · subst hk
      rw [Function.update_self, Function.update_self, List.map_append]
      exact hq'
    · rw [Function.update_of_ne hk, Function.update_of_ne hk]
      -- the entries of another queue are not touched
      refine (hq k').congr fun b hb => hr.outside b fun hmem => ?_
      rcases List.mem_append.1 hmem with hmem | hmem
      · exact hk (hp.apart k' k b hb hmem)
      · exact hnone k' (List.mem_singleton.1 hmem ▸ hb)
  · intro k' i hi
    have hcases : i ∈ L k' ∨ i = (a, o) := by
      by_cases hk : k' = k
      · subst hk
        simpa using hi
      · rw [Function.update_of_ne hk] at hi
        exact .inl hi
    rw [hr.refs]
    rcases hcases with hi | rfl
    · have hne : i.1 ≠ a := fun hia => hnone k' (hia ▸ List.mem_map_of_mem hi)
      rw [hsame i.1 hne]
      exact hp.refs k' i hi
    · rw [Heap.get_set_self, Option.map_some]
  · intro k₁ k₂ b h₁ h₂
    rw [mem_added] at h₁ h₂
    rcases h₁ with h₁ | ⟨hk₁, rfl⟩ <;> rcases h₂ with h₂ | ⟨hk₂, hb⟩
    · exact hp.apart k₁ k₂ b h₁ h₂
    · exact absurd (hb ▸ h₁) (hnone k₁)
    · exact absurd h₂ (hnone k₂)
    · rw [hk₁, hk₂]
  · intro b hb k'
    rw [mem_added]
    rintro (hmem | ⟨-, rfl⟩)
    · exact hp.looseApart b hb k' hmem
    · exact hloose hb
  · intro b
    have hsome : (h'.get b).isSome ↔ b = a ∨ (h.get b).isSome := by
      have := congrArg Option.isSome (hr.refs b)
      rw [Option.isSome_map, Option.isSome_map, h₁_def, Heap.get_set] at this
      rw [this]
      by_cases hba : b = a <;> simp [hba]
    simp only [hsome, hp.all b, mem_added, exists_or, exists_eq_left]
    tauto

/-- **An entry taken from a queue** is in no queue. -/
theorem get (hp : Pool q h L loose) (hL : L k = (a, o) :: rest) :
    ∃ q', qGet (q k) h = .ok (some a, q') ∧
      Pool (Function.update q k q') h (Function.update L k rest) (a :: loose) := by
  obtain ⟨q', hrun, hq'⟩ := qGet_ok (hp.queues k)
  rw [hL, List.map_cons, List.head?_cons] at hrun
  rw [hL, List.map_cons, List.tail_cons] at hq'
  have ha : a ∈ (L k).map Prod.fst := by simp [hL]
  -- the entries of the queues are those of before but for `a`
  have hremoved : ∀ k' b, b ∈ (Function.update L k rest k').map Prod.fst ↔
      b ∈ (L k').map Prod.fst ∧ b ≠ a :=
    fun k' b => hp.mem_removed (hL.trans (List.nil_append _).symm)
  refine ⟨q', hrun, ?_, ?_, ?_, ?_, ?_, ?_⟩
  · intro k'
    by_cases hk : k' = k
    · subst hk
      rw [Function.update_self, Function.update_self]
      exact hq'
    · rw [Function.update_of_ne hk, Function.update_of_ne hk]
      exact hp.queues k'
  · intro k' i hi
    refine hp.refs k' i ?_
    by_cases hk : k' = k
    · subst hk
      rw [Function.update_self] at hi
      exact hL ▸ List.mem_cons_of_mem _ hi
    · rwa [Function.update_of_ne hk] at hi
  · intro k₁ k₂ b h₁ h₂
    exact hp.apart k₁ k₂ b ((hremoved k₁ b).1 h₁).1 ((hremoved k₂ b).1 h₂).1
  · exact List.nodup_cons.2 ⟨fun hloose => hp.looseApart a hloose k ha, hp.looseNodup⟩
  · intro b hb k' hmem
    obtain ⟨hmem, hne⟩ := (hremoved k' b).1 hmem
    rcases List.mem_cons.1 hb with rfl | hb
    · exact hne rfl
    · exact hp.looseApart b hb k' hmem
  · intro b
    rw [hp.all b, List.mem_cons]
    simp only [hremoved]
    by_cases hba : b = a
    · subst hba
      simp only [true_or, iff_true]
      exact .inr ⟨k, ha⟩
    · simp [hba]

/-- **`q_free` of an entry of the queue**, whatever it was made to refer to before. -/
theorem remove (hp : Pool q h L loose) (hL : L k = xs ++ (a, o) :: ys) {h₁ : Heap QueueEntry}
    (hsame : ∀ b ≠ a, h₁.get b = h.get b) (hnext : nextOf h₁ a = nextOf h a) :
    ∃ q' h', qFree (q k) (some a) h₁ = .ok (q', h') ∧
      Pool (Function.update q k q') h' (Function.update L k (xs ++ ys)) loose := by
  have ha : a ∈ (L k).map Prod.fst := by simp [hL]
  -- the links are as they were, which is all that a queue depends on
  have hlinks : ∀ b, nextOf h₁ b = nextOf h b := by
    intro b
    by_cases hba : b = a
    · rw [hba, hnext]
    · rw [nextOf, hsame b hba, nextOf]
  have hq : ∀ k, IsQueue (q k) h₁ ((L k).map Prod.fst) := fun k =>
    ⟨(hp.queues k).head, (hp.queues k).tail, (hp.queues k).linked.congr fun b _ => hlinks b⟩
  obtain ⟨q', h', hrun, hq', hr, -⟩ := qFree_ok (hq k) ((hq k).isSome ha)
  -- the entry is in the queue once
  have herase : ((L k).map Prod.fst).erase a = (xs ++ ys).map Prod.fst := by
    have hnodup := (hp.queues k).nodup
    rw [hL, List.map_append, List.map_cons] at hnodup ⊢
    have hnot : a ∉ xs.map Prod.fst := fun hmem =>
      (List.nodup_middle.1 hnodup).notMem (List.mem_append_left _ hmem)
    rw [List.erase_append_right _ hnot, List.erase_cons_head, List.map_append]
  rw [herase] at hq'
  -- the others refer to what they did
  have href : ∀ b ≠ a, ((h'.drop a).get b).map (·.ref) = (h.get b).map (·.ref) := by
    intro b hb
    rw [Heap.get_drop_of_ne h' hb, hr.refs, hsame b hb]
  refine ⟨q', h'.drop a, hrun, ?_, ?_, ?_, hp.looseNodup, ?_, ?_⟩
  · intro k'
    by_cases hk : k' = k
    · subst hk
      rw [Function.update_self, Function.update_self]
      exact hq'
    · rw [Function.update_of_ne hk, Function.update_of_ne hk]
      refine (hp.queues k').congr fun b hb => ?_
      have hba : b ≠ a := fun hba => hk (hp.apart k' k a (hba ▸ hb) ha)
      rw [Heap.get_drop_of_ne h' hba, hr.outside b fun hmem => hk (hp.apart k' k b hb hmem),
        hsame b hba]
  · intro k' i hi
    have hmem := (hp.mem_removed hL).1 (List.mem_map_of_mem (f := Prod.fst) hi)
    rw [href i.1 hmem.2]
    refine hp.refs k' i ?_
    by_cases hk : k' = k
    · subst hk
      rw [Function.update_self] at hi
      rw [hL]
      exact ((List.sublist_cons_self (a, o) ys).append_left xs).subset hi
    · rwa [Function.update_of_ne hk] at hi
  · intro k₁ k₂ b h₁ h₂
    exact hp.apart k₁ k₂ b ((hp.mem_removed hL).1 h₁).1 ((hp.mem_removed hL).1 h₂).1
  · intro b hb k' hmem
    exact hp.looseApart b hb k' ((hp.mem_removed hL).1 hmem).1
  · intro b
    simp only [hp.mem_removed hL]
    by_cases hba : b = a
    · subst hba
      have hloose : b ∉ loose := fun hb => hp.looseApart b hb k ha
      simp [hloose]
    · have hsome := congrArg Option.isSome (href b hba)
      rw [Option.isSome_map, Option.isSome_map] at hsome
      rw [hsome, hp.all b]
      simp [hba]

/-- **A queue given up** with its entries in it. -/
theorem forget (hp : Pool q h L loose) (k : κ) :
    Pool (Function.update q k .empty) h (Function.update L k [])
      ((L k).map Prod.fst ++ loose) := by
  -- the other queues keep their entries
  have hleft : ∀ k' b, b ∈ (Function.update L k [] k').map Prod.fst ↔
      b ∈ (L k').map Prod.fst ∧ k' ≠ k := by
    intro k' b
    by_cases hk : k' = k
    · subst hk
      simp
    · simp [hk]
  refine ⟨?_, ?_, ?_, ?_, ?_, ?_⟩
  · intro k'
    by_cases hk : k' = k
    · subst hk
      rw [Function.update_self, Function.update_self]
      exact .empty h
    · rw [Function.update_of_ne hk, Function.update_of_ne hk]
      exact hp.queues k'
  · intro k' i hi
    by_cases hk : k' = k
    · subst hk
      simp at hi
    · rw [Function.update_of_ne hk] at hi
      exact hp.refs k' i hi
  · intro k₁ k₂ b h₁ h₂
    exact hp.apart k₁ k₂ b ((hleft k₁ b).1 h₁).1 ((hleft k₂ b).1 h₂).1
  · refine List.nodup_append.2 ⟨(hp.queues k).nodup, hp.looseNodup, ?_⟩
    rintro b hb c hc rfl
    exact hp.looseApart b hc k hb
  · intro b hb k' hmem
    obtain ⟨hmem, hk⟩ := (hleft k' b).1 hmem
    rcases List.mem_append.1 hb with hb | hb
    · exact hk (hp.apart k' k b hmem hb)
    · exact hp.looseApart b hb k' hmem
  · intro b
    rw [hp.all b, List.mem_append]
    simp only [hleft]
    constructor
    · rintro (hb | ⟨k', hb⟩)
      · exact .inl (.inr hb)
      · by_cases hk : k' = k
        · exact .inl (.inl (hk ▸ hb))
        · exact .inr ⟨k', hb, hk⟩
    · rintro ((hb | hb) | ⟨k', hb, -⟩)
      · exact .inr ⟨k, hb⟩
      · exact .inl hb
      · exact .inr ⟨k', hb⟩

end

/-- **How many entries there are**: those of the queues, and those in no queue. -/
theorem size [Fintype κ] (hp : Pool q h L loose) :
    h.size = ∑ k, (L k).length + loose.length := by
  have hkeys : h.cells.keys =
      (Finset.univ.biUnion fun k => ((L k).map Prod.fst).toFinset) ∪ loose.toFinset := by
    ext a
    rw [Finmap.mem_keys, ← Finmap.lookup_isSome, Finset.mem_union, Finset.mem_biUnion]
    simp only [Finset.mem_univ, true_and, List.mem_toFinset]
    exact (hp.all a).trans or_comm
  have hdisjoint : Disjoint (Finset.univ.biUnion fun k => ((L k).map Prod.fst).toFinset)
      loose.toFinset := by
    rw [Finset.disjoint_right]
    intro a ha hmem
    obtain ⟨k, -, hk⟩ := Finset.mem_biUnion.1 hmem
    exact hp.looseApart a (List.mem_toFinset.1 ha) k (List.mem_toFinset.1 hk)
  rw [Heap.size, hkeys, Finset.card_union_of_disjoint hdisjoint,
    List.toFinset_card_of_nodup hp.looseNodup, Finset.card_biUnion]
  · congr 1
    refine Finset.sum_congr rfl fun k _ => ?_
    rw [List.toFinset_card_of_nodup (hp.queues k).nodup, List.length_map]
  · intro k _ k' _ hne
    refine Finset.disjoint_left.2 fun a ha ha' => ?_
    exact hne (hp.apart k k' a (List.mem_toFinset.1 ha) (List.mem_toFinset.1 ha'))

end Pool

end Muxer
