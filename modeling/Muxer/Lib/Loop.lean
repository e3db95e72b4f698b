import Muxer.Lib.Heap

/-!
# Loops along cells, in programs that may fail otherwise

`whilePtr` is the loop `whileSome` for programs whose errors are of any type, which need not give
the addresses met.

* `whilePtr_ok`: the rule of total correctness; a round goes on to the next cell, or leaves the loop.
* `whilePtr_all`: where no round leaves it.
-/

namespace Muxer.Lib

variable {σ ε ι : Type}

/-- `while (p != NULL)`, at most `n` rounds. Each gives the pointer the next one is for. -/
def whilePtr (endless : ε) (round : Addr → σ → Except ε (Ptr × σ)) : ℕ → Ptr → σ → Except ε σ
  | _, none, s => .ok s
  | 0, some _, _ => .error endless
  | n + 1, some a, s => do
    let (p, s) ← round a s
    whilePtr endless round n p s

variable {endless : ε} {round : Addr → σ → Except ε (Ptr × σ)}

@[simp] theorem whilePtr_none (n : ℕ) (s : σ) : whilePtr endless round n none s = .ok s := by
  cases n <;> rfl

/-- **Loops along a list of cells**, as `whileSome_ok`. -/
theorem whilePtr_ok (addr : ι → Addr) {I : List ι → List ι → σ → Prop} {Q : σ → Prop}
    (hend : ∀ before s, I before [] s → Q s)
    (hround : ∀ before i after s, I before (i :: after) s →
      ∃ p s', round (addr i) s = .ok (p, s') ∧ (p = (after.map addr).head? ∧
        I (before ++ [i]) after s' ∨ p = none ∧ Q s'))
    {n : ℕ} {before after : List ι} {s : σ} (hI : I before after s) (hn : after.length ≤ n) :
    ∃ s', whilePtr endless round n (after.map addr).head? s = .ok s' ∧ Q s' := by
  induction after generalizing n before s with
  | nil => exact ⟨s, whilePtr_none n s, hend before s hI⟩
  | cons i after ih =>
    obtain _ | n := n
    · simp at hn
    obtain ⟨p, s₁, hr, hnext⟩ := hround before i after s hI
    simp only [List.map_cons, List.head?_cons, whilePtr, hr, bind, Except.bind]
    rcases hnext with ⟨rfl, hI'⟩ | ⟨rfl, hQ⟩
    · exact ih hI' (Nat.le_of_succ_le_succ hn)
    · exact ⟨s₁, whilePtr_none n s₁, hQ⟩

/-- Loops that are left only at the end of the list. -/
theorem whilePtr_all (addr : ι → Addr) {I : List ι → List ι → σ → Prop} {l : List ι}
    (hround : ∀ before i after s, before ++ i :: after = l → I before (i :: after) s →
      ∃ s', round (addr i) s = .ok ((after.map addr).head?, s') ∧ I (before ++ [i]) after s')
    {n : ℕ} {s : σ} (hI : I [] l s) (hn : l.length ≤ n) :
    ∃ s', whilePtr endless round n (l.map addr).head? s = .ok s' ∧ I l [] s' := by
  let J (before after : List ι) (s : σ) : Prop := before ++ after = l ∧ I before after s
  have hend : ∀ before s, J before [] s → I l [] s := by
    rintro before s ⟨hl, hJ⟩
    rw [List.append_nil] at hl
    exact hl ▸ hJ
  refine whilePtr_ok addr hend ?_ ⟨List.nil_append l, hI⟩ hn
  rintro before i after s ⟨hl, hJ⟩
  obtain ⟨s', hr, hI'⟩ := hround before i after s hl hJ
  exact ⟨_, s', hr, .inl ⟨rfl, by simp [hl], hI'⟩⟩

end Muxer.Lib
