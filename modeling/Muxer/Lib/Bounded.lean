import Mathlib.Data.Finset.Card
import Mathlib.Data.List.Dedup

/-!
# Sets with a fixed capacity

A set is a list without repetition. Putting something into a set that is full does nothing.

* `mem_foldl_put_iff`: everything put in is in the set exactly when there is room for all of it.
-/

namespace Muxer.Lib

variable {α : Type*} [DecidableEq α] {cap : ℕ} {set l : List α} {x : α}

/-- `x` put into `set`, which holds at most `cap` elements. -/
def put (cap : ℕ) (set : List α) (x : α) : List α :=
  if x ∈ set ∨ cap ≤ set.length then set else set ++ [x]

theorem subset_put : set ⊆ put cap set x := by
  unfold put
  split
  · exact List.Subset.refl set
  · exact List.subset_append_left set [x]

theorem put_subset : put cap set x ⊆ set ++ [x] := by
  unfold put
  split
  · exact List.subset_append_left set [x]
  · exact List.Subset.refl _

theorem nodup_put (h : set.Nodup) : (put cap set x).Nodup := by
  unfold put
  split
  case isTrue => exact h
  case isFalse hx =>
    refine List.nodup_append.2 ⟨h, List.nodup_singleton x, ?_⟩
    intro y hy z hz heq
    rw [List.mem_singleton.1 hz] at heq
    exact hx (.inl (heq ▸ hy))

theorem length_put_le (h : set.length ≤ cap) : (put cap set x).length ≤ cap := by
  unfold put
  split
  case isTrue => exact h
  case isFalse hx =>
    rw [List.length_append, List.length_singleton]
    have := fun hcap => hx (.inr hcap)
    omega

theorem mem_put (h : x ∈ set ∨ set.length < cap) : x ∈ put cap set x := by
  unfold put
  split
  case isTrue hx => exact h.elim id fun hlt => hx.resolve_right (Nat.not_le.2 hlt)
  case isFalse => exact List.mem_append_right set (List.mem_singleton.2 rfl)

theorem subset_foldl_put : set ⊆ l.foldl (put cap) set := by
  induction l generalizing set with
  | nil => exact List.Subset.refl set
  | cons x l ih => exact fun y hy => ih (subset_put hy)

theorem nodup_foldl_put (h : set.Nodup) : (l.foldl (put cap) set).Nodup := by
  induction l generalizing set with
  | nil => exact h
  | cons x l ih => exact ih (nodup_put h)

theorem length_foldl_put_le (h : set.length ≤ cap) : (l.foldl (put cap) set).length ≤ cap := by
  induction l generalizing set with
  | nil => exact h
  | cons x l ih => exact ih (length_put_le h)

/-- With room for all, nothing put in is left out. -/
theorem mem_foldl_put (hset : set.Nodup) (h : (set ++ l).toFinset.card ≤ cap) (hx : x ∈ l) :
    x ∈ l.foldl (put cap) set := by
  induction l generalizing set with
  | nil => cases hx
  | cons y l ih =>
    have hy : y ∈ put cap set y := by
      refine mem_put (or_iff_not_imp_left.2 fun hnew => ?_)
      -- the set and `y` are among what there is room for
      have hsub : (set ++ [y]).toFinset ⊆ (set ++ y :: l).toFinset := by
        intro z hz
        simp only [List.mem_toFinset, List.mem_append, List.mem_cons] at hz ⊢
        tauto
      have hnodup : (set ++ [y]).Nodup :=
        List.nodup_append.2 ⟨hset, List.nodup_singleton y, fun z hz w hw heq =>
          hnew (by rw [← List.mem_singleton.1 hw, ← heq]; exact hz)⟩
      have hcard := Finset.card_le_card hsub
      rw [List.toFinset_card_of_nodup hnodup, List.length_append, List.length_singleton] at hcard
      omega
    rw [List.foldl_cons]
    rcases List.mem_cons.1 hx with rfl | hx
    · exact subset_foldl_put hy
    · refine ih (nodup_put hset) (Nat.le_trans (Finset.card_le_card ?_) h) hx
      intro z hz
      rw [List.mem_toFinset, List.mem_append] at hz ⊢
      rcases hz with hz | hz
      · rcases List.mem_append.1 (put_subset hz) with hz | hz
        · exact .inl hz
        · exact .inr (List.mem_cons.2 (.inl (List.mem_singleton.1 hz)))
      · exact .inr (List.mem_cons_of_mem y hz)

/-- **Everything put in is in the set exactly when there is room for all of it.** -/
theorem mem_foldl_put_iff :
    (∀ x ∈ l, x ∈ l.foldl (put cap) []) ↔ l.toFinset.card ≤ cap := by
  constructor
  · intro h
    have hsub : l.toFinset ⊆ (l.foldl (put cap) []).toFinset := by
      intro x hx
      exact List.mem_toFinset.2 (h x (List.mem_toFinset.1 hx))
    have hlen : (l.foldl (put cap) []).length ≤ cap := length_foldl_put_le (Nat.zero_le cap)
    have hcard := Finset.card_le_card hsub
    rw [List.toFinset_card_of_nodup (nodup_foldl_put List.nodup_nil)] at hcard
    omega
  · intro h x hx
    exact mem_foldl_put List.nodup_nil h hx

end Muxer.Lib
