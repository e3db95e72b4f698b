import Mathlib.Data.Prod.Lex
import Mathlib.Order.WellFounded

/-!
# Sweeps that start again

A loop visits the positions of a state one after the other. A visit keeps its item, and the loop
goes on, or removes it, and the loop starts again from the first position (`Sweep.run`). It ends, as
a removal leaves fewer items.

* `Sweep.run_settled`: positions at which a visit changes nothing are passed over.
* `Sweep.run_removed`: where the positions before stay so, a removal goes on in place.
-/

namespace Muxer.Lib

variable {σ ε : Type*}

/-- What is visited, and what a visit does: whether the item is kept, and the state. -/
structure Sweep (σ ε : Type*) where
  size : σ → ℕ
  visit : ℕ → σ → Except ε (Bool × σ)
  keeps : ∀ {i s s'}, i < size s → visit i s = .ok (true, s') → size s' = size s
  removes : ∀ {i s s'}, i < size s → visit i s = .ok (false, s') → size s' < size s

/-- The loop, at a position. -/
def Sweep.run (S : Sweep σ ε) (i : ℕ) (s : σ) : Except ε σ :=
  if _hi : i < S.size s then
    match h : S.visit i s with
    | .error e => .error e
    | .ok (true, s') => S.run (i + 1) s'
    | .ok (false, s') => S.run 0 s'
  else .ok s
termination_by (S.size s, S.size s - i)
decreasing_by
  · rw [S.keeps _hi h]
    exact Prod.Lex.right _ (by omega)
  · exact Prod.Lex.left _ _ (S.removes _hi h)

variable {S : Sweep σ ε} {i : ℕ} {s s' : σ}

theorem Sweep.run_done (hi : S.size s ≤ i) : S.run i s = .ok s := by
  rw [Sweep.run, dif_neg (by omega)]

theorem Sweep.run_eq (hi : i < S.size s) : S.run i s = match S.visit i s with
    | .error e => .error e
    | .ok (true, s') => S.run (i + 1) s'
    | .ok (false, s') => S.run 0 s' := by
  rw [Sweep.run, dif_pos hi]
  split <;> simp_all only

theorem Sweep.run_error {e : ε} (hi : i < S.size s) (h : S.visit i s = .error e) :
    S.run i s = .error e := by rw [run_eq hi, h]

theorem Sweep.run_kept (hi : i < S.size s) (h : S.visit i s = .ok (true, s')) :
    S.run i s = S.run (i + 1) s' := by rw [run_eq hi, h]

/-- Visits that change nothing are as good as none. -/
theorem Sweep.run_settled (hi : i ≤ S.size s) (h : ∀ j < i, S.visit j s = .ok (true, s)) :
    S.run 0 s = S.run i s := by
  induction i with
  | zero => rfl
  | succ i ih =>
    rw [ih (by omega) fun j hj => h j (by omega)]
    exact run_kept (by omega) (h i (by omega))

/-- **A removal goes on in place** where the visits before it would change nothing. -/
theorem Sweep.run_removed (hi : i < S.size s) (h : S.visit i s = .ok (false, s'))
    (hi' : i ≤ S.size s') (hsettled : ∀ j < i, S.visit j s' = .ok (true, s')) :
    S.run i s = S.run i s' := by
  rw [run_eq hi, h]
  exact run_settled hi' hsettled

end Muxer.Lib
