import Mathlib.Data.List.Nodup

/-!
# Linked segments

`link a` is where the cell `a` points to, if there is such a cell: to a cell, or nowhere.
`Seg link l p`: the cells of `l` are linked in its order, and the last one points to `p`.

* `seg_append`: a segment is two segments, the first one up to where the second begins.
* `Seg.unique`, `Seg.nodup`: where the end points nowhere, the first cell determines the
  segment, and no cell occurs twice.
* `Seg.redirect`, `Seg.unlink`: the last cell pointed elsewhere, a cell taken out.
-/

namespace Muxer.Lib

variable {α : Type*} {link link' : α → Option (Option α)} {a b : α} {xs ys l l' : List α}
  {p q : Option α}

/-- Where a segment that ends in `p` begins. -/
def first (l : List α) (p : Option α) : Option α := l.head?.or p

@[simp] theorem first_nil (p : Option α) : first [] p = p := rfl

@[simp] theorem first_none (l : List α) : first l none = l.head? := Option.or_none

theorem first_append (xs ys : List α) (p : Option α) :
    first (xs ++ ys) p = first xs (first ys p) := by
  cases xs <;> rfl

def Seg (link : α → Option (Option α)) : List α → Option α → Prop
  | [], _ => True
  | a :: l, p => link a = some (first l p) ∧ Seg link l p

theorem seg_append : Seg link (xs ++ ys) p ↔ Seg link xs (first ys p) ∧ Seg link ys p := by
  induction xs with
  | nil => simp [Seg]
  | cons a xs ih => simp only [List.cons_append, Seg, first_append, ih, and_assoc]

/-- A segment depends on its own cells only. -/
theorem Seg.congr (h : Seg link l p) (heq : ∀ a ∈ l, link' a = link a) : Seg link' l p := by
  induction l with
  | nil => trivial
  | cons a l ih =>
    rw [List.forall_mem_cons] at heq
    exact ⟨heq.1.trans h.1, ih h.2 heq.2⟩

/-- The cells of a segment are there. -/
theorem Seg.isSome (h : Seg link l p) (ha : a ∈ l) : (link a).isSome := by
  induction l with
  | nil => simp at ha
  | cons b l ih =>
    rcases List.mem_cons.1 ha with rfl | ha
    · rw [h.1]
      rfl
    · exact ih h.2 ha

/-- Where the end points nowhere, the first cell determines the segment. -/
theorem Seg.unique (h : Seg link l none) (h' : Seg link l' none) (heq : l.head? = l'.head?) :
    l = l' := by
  induction l generalizing l' with
  | nil => exact (List.head?_eq_none_iff.1 heq.symm).symm
  | cons a l ih =>
    obtain _ | ⟨b, l'⟩ := l'
    · simp at heq
    obtain rfl : a = b := by simpa using heq
    have hnext : first l none = first l' none := by
      have := h.1.symm.trans h'.1
      simpa using this
    rw [ih h.2 h'.2 (by simpa using hnext)]

/-- **A segment whose end points nowhere has no cell twice**: it does not go round. -/
theorem Seg.nodup (h : Seg link l none) : l.Nodup := by
  induction l with
  | nil => exact List.nodup_nil
  | cons a l ih =>
    refine List.nodup_cons.2 ⟨fun ha => ?_, ih h.2⟩
    -- a second occurrence would start the same segment again, within itself
    obtain ⟨xs, ys, rfl⟩ := List.append_of_mem ha
    have hsame := h.unique (seg_append.1 h.2).2 rfl
    have := congrArg List.length hsame
    simp only [List.length_cons, List.length_append] at this
    omega

/-- The last cell pointed elsewhere. -/
theorem Seg.redirect (h : Seg link (xs ++ [a]) p) (hnodup : (xs ++ [a]).Nodup)
    (hlink : link' a = some q) (heq : ∀ b, b ≠ a → link' b = link b) :
    Seg link' (xs ++ [a]) q := by
  have ha : a ∉ xs := (List.nodup_append_comm.1 hnodup).notMem
  obtain ⟨hxs, -⟩ := seg_append.1 h
  refine seg_append.2 ⟨?_, hlink, trivial⟩
  exact hxs.congr fun b hb => heq b fun hba => ha (hba ▸ hb)

/-- **A cell taken out**, as the one before it is pointed to the one after it. -/
theorem Seg.unlink (h : Seg link (xs ++ [a] ++ b :: ys) p)
    (hnodup : (xs ++ [a] ++ b :: ys).Nodup) (hlink : link' a = some (first ys p))
    (heq : ∀ c, c ≠ a → link' c = link c) : Seg link' (xs ++ [a] ++ ys) p := by
  obtain ⟨hbefore, -, hafter⟩ := seg_append.1 h
  obtain ⟨hxs, -, hdisjoint⟩ := List.nodup_append.1 hnodup
  refine seg_append.2 ⟨hbefore.redirect hxs hlink heq, ?_⟩
  exact hafter.congr fun c hc => heq c fun hca =>
    hdisjoint a (by simp) c (List.mem_cons_of_mem b hc) hca.symm

end Muxer.Lib
