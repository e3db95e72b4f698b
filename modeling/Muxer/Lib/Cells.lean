import Muxer.Lib.Heap
import Mathlib.Tactic.Abel

/-!
# What a heap holds, to the last cell

`Heap.Exactly h s`: the cells of `h` are those of the multiset `s`, each with its address. Nothing
else is allocated, so that what a program still holds and what it has lost are counted together.

* `Exactly.alloc`, `Exactly.set`, `Exactly.drop`: a cell more, one with another content, one less.
* `Exactly.size`: how many cells there are.
-/

namespace Muxer.Lib

variable {α : Type} {h : Heap α} {s t : Multiset (Addr × α)} {a : Addr} {c d : α}

/-- The cells of the heap are those of `s`, at distinct addresses. -/
structure Heap.Exactly (h : Heap α) (s : Multiset (Addr × α)) : Prop where
  nodup : (s.map Prod.fst).Nodup
  get_iff : ∀ a c, h.get a = some c ↔ (a, c) ∈ s

namespace Heap.Exactly

theorem congr (h' : h.Exactly s) (hs : s = t) : h.Exactly t := hs ▸ h'

theorem empty : (Heap.empty : Heap α).Exactly 0 where
  nodup := Multiset.nodup_zero
  get_iff a c := by simp [Heap.get, Heap.empty]

theorem get (h' : h.Exactly s) (hs : s = {(a, c)} + t) : h.get a = some c :=
  (h'.get_iff a c).2 (by simp [hs])

theorem mem (h' : h.Exactly s) (hc : (a, c) ∈ s) : h.get a = some c := (h'.get_iff a c).2 hc

/-- No other cell has the address. -/
theorem fst_notMem (h' : h.Exactly ({(a, c)} + t)) : a ∉ t.map Prod.fst := by
  have hnodup := h'.nodup
  rw [Multiset.singleton_add, Multiset.map_cons, Multiset.nodup_cons] at hnodup
  exact hnodup.1

theorem fresh (h' : h.Exactly s) (ha : h.get a = none) : a ∉ s.map Prod.fst := by
  intro hmem
  obtain ⟨⟨b, c⟩, hc, rfl⟩ := Multiset.mem_map.1 hmem
  have hsome := h'.mem hc
  rw [ha] at hsome
  cases hsome

/-- **A cell more**, where there was none. -/
theorem alloc (h' : h.Exactly s) (ha : h.get a = none) (c : α) :
    (h.set a c).Exactly ({(a, c)} + s) where
  nodup := by
    rw [Multiset.singleton_add, Multiset.map_cons, Multiset.nodup_cons]
    exact ⟨h'.fresh ha, h'.nodup⟩
  get_iff b d := by
    rw [Heap.get_set, Multiset.singleton_add, Multiset.mem_cons, Prod.mk.injEq]
    split
    · next hba =>
      have hnot : (b, d) ∉ s := fun hmem => h'.fresh ha (Multiset.mem_map.2 ⟨_, hmem, hba⟩)
      simp only [hba, Option.some.injEq, true_and]
      rw [hba] at hnot
      simp [hnot, eq_comm]
    · next hba => simp [hba, h'.get_iff]

/-- **A cell less.** -/
theorem drop (h' : h.Exactly s) (hs : s = {(a, c)} + t) : (h.drop a).Exactly t := by
  subst hs
  have hnot := h'.fst_notMem
  refine ⟨?_, fun b d => ?_⟩
  · have hnodup := h'.nodup
    rw [Multiset.singleton_add, Multiset.map_cons, Multiset.nodup_cons] at hnodup
    exact hnodup.2
  · by_cases hba : b = a
    · subst hba
      have hmem : (b, d) ∉ t := fun hmem => hnot (Multiset.mem_map.2 ⟨_, hmem, rfl⟩)
      simp [hmem]
    · rw [Heap.get_drop_of_ne h hba, h'.get_iff]
      simp [hba]

/-- **A cell with another content.** -/
theorem set (h' : h.Exactly s) (hs : s = {(a, c)} + t) (d : α) :
    (h.set a d).Exactly ({(a, d)} + t) := by
  subst hs
  have hnot := h'.fst_notMem
  refine ⟨?_, fun b e => ?_⟩
  · simpa using h'.nodup
  · rw [Heap.get_set]
    split
    · next hba =>
      subst hba
      have hmem : (b, e) ∉ t := fun hmem => hnot (Multiset.mem_map.2 ⟨_, hmem, rfl⟩)
      simp [hmem, eq_comm]
    · next hba =>
      rw [h'.get_iff]
      simp [hba]

/-- The heap has as many cells. -/
theorem size (h' : h.Exactly s) : h.size = s.card := by
  have hkeys : h.cells.keys = (s.map Prod.fst).toFinset := by
    ext a
    rw [Finmap.mem_keys, ← Finmap.lookup_isSome, Multiset.mem_toFinset, Option.isSome_iff_exists,
      Multiset.mem_map]
    constructor
    · rintro ⟨c, hc⟩
      exact ⟨(a, c), (h'.get_iff a c).1 hc, rfl⟩
    · rintro ⟨⟨b, c⟩, hc, rfl⟩
      exact ⟨c, (h'.get_iff b c).2 hc⟩
  rw [Heap.size, hkeys, Multiset.toFinset_card_of_nodup h'.nodup, Multiset.card_map]

end Heap.Exactly

/-- The cells of the items of a list. -/
def cells {ι : Type} (f : ι → Addr × α) (l : List ι) : Multiset (Addr × α) := l.map f

section

variable {ι : Type} {f : ι → Addr × α} {i : ι} {l l' : List ι}

@[simp] theorem cells_nil : cells f [] = 0 := rfl

@[simp] theorem cells_cons : cells f (i :: l) = {f i} + cells f l := rfl

@[simp] theorem cells_append : cells f (l ++ l') = cells f l + cells f l' := by
  simp [cells]

@[simp] theorem card_cells : (cells f l).card = l.length := by
  simp [cells]

theorem cells_perm (h : l.Perm l') : cells f l = cells f l' := Multiset.coe_eq_coe.2 (h.map f)

theorem mem_cells {c : Addr × α} : c ∈ cells f l ↔ ∃ i ∈ l, f i = c := by
  simp [cells]

end

end Muxer.Lib
