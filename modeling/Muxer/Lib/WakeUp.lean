import Muxer.Lib.Exec

/-!
# No lost wake-ups

A consumer tests, one thing after the other, that there is nothing for it to do, and then waits.
Whoever gives it something to do signals it afterwards. A `Wait` says of a state which tests the
consumer has passed since it last had something to do, whether what a test looks for holds, and
whether the consumer is signalled or is about to be.

* `Wait.Tested`: what the tests have found still holds, unless the consumer is signalled.
* `Wait.Effect.tested`: the steps of the consumer and of the others keep it so.
* `Exec.tested`: and so it is along every execution of such steps.
-/

namespace Muxer.Lib

variable {σ α κ : Type*}

structure Wait (σ κ : Type*) where
  passed : κ → σ → Prop
  idle : κ → σ → Prop
  signalled : σ → Prop

variable {W : Wait σ κ} {s s' : σ}

/-- Unless the consumer is signalled, there is nothing to do of what it has tested. -/
def Wait.Tested (W : Wait σ κ) (s : σ) : Prop :=
  ∀ k, W.passed k s → ¬W.signalled s → W.idle k s

/-- What a step may do to the wait of the consumer. -/
inductive Wait.Effect (W : Wait σ κ) : σ → σ → Prop
  /-- The consumer goes on, and will test everything again. -/
  | resumes {s s' : σ} : (∀ k, ¬W.passed k s') → Effect W s s'
  /-- The consumer is signalled, whatever there is to do. -/
  | signals {s s' : σ} : W.signalled s' → Effect W s s'
  /-- The consumer passes a test. -/
  | passes {s s' : σ} (k : κ) : W.idle k s' → (∀ j, j ≠ k → W.passed j s' → W.passed j s) →
      (W.signalled s → W.signalled s') → (∀ j, W.idle j s → W.idle j s') → Effect W s s'
  /-- There is not more to do than before. -/
  | quiet {s s' : σ} : (∀ k, W.passed k s' → W.passed k s) → (W.signalled s → W.signalled s') →
      (∀ k, W.idle k s → W.idle k s') → Effect W s s'

theorem Wait.Effect.tested (he : W.Effect s s') (h : W.Tested s) : W.Tested s' := by
  cases he with
  | resumes hnone => exact fun k hk _ => absurd hk (hnone k)
  | signals hsig => exact fun _ _ hnot => absurd hsig hnot
  | passes k hk hpassed hsig hidle =>
    intro j hj hnot
    by_cases heq : j = k
    · rw [heq]
      exact hk
    · exact hidle j (h j (hpassed j heq hj) fun hs => hnot (hsig hs))
  | quiet hpassed hsig hidle =>
    intro k hk hnot
    exact hidle k (h k (hpassed k hk) fun hs => hnot (hsig hs))

/-- **No wake-up is lost** where every step is of one of these kinds. -/
theorem Exec.tested {step : σ → α → σ → Prop} (heffect : ∀ s a s', step s a s' → W.Effect s s')
    {tr : List (α × σ)} (h : Exec step s tr) (hs : W.Tested s) : ∀ t ∈ states s tr, W.Tested t :=
  h.inv (fun s a s' ht hst => (heffect s a s' hst).tested ht) hs

end Muxer.Lib
