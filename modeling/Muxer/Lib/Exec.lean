import Mathlib.Data.List.Basic

/-!
# Executions of a step relation

A system is a labelled step relation `step : σ → α → σ → Prop`. An execution from `s` is
the list of the labels taken and the states they lead to (`Exec`).

* `Leads`: which labels lead from one state to another.
* `LeadsBy`: steps that meet a condition do.
* `Exec.inv`: an invariant of every step holds at every state of an execution.
* `Exec.inv_of_steps`: an invariant of the steps that meet a condition holds along every
  execution all of whose steps meet it.
* `Exec.count_le`: where a number falls with every step of a kind, and never rises, there are at most
  so many steps of that kind.
* `Exec.length_le`, `Exec.exists_stuck`: where it falls with every step, each execution comes to an end.
* `Exec.refines`: steps that a function on other states follows, an execution follows as well.
* `Exec.states_iff`: if a step from a good state stays good exactly when it meets the
  condition, then an execution is good throughout exactly when all its steps meet it.
-/

namespace Muxer.Lib

variable {σ α : Type*} {step : σ → α → σ → Prop}

/-- The executions of `step` from a state: labels taken, with the state after each. -/
inductive Exec (step : σ → α → σ → Prop) : σ → List (α × σ) → Prop
  | nil (s : σ) : Exec step s []
  | cons {s : σ} {a : α} {s' : σ} {tr : List (α × σ)} :
      step s a s' → Exec step s' tr → Exec step s ((a, s') :: tr)

/-- Every state of the execution `tr` from `s`, its first one included. -/
def states (s : σ) (tr : List (α × σ)) : List σ := s :: tr.map Prod.snd

/-- The state the execution ends in. -/
def final (s : σ) : List (α × σ) → σ
  | [] => s
  | (_, s') :: tr => final s' tr

/-- Every step of the execution, with the state before it and its label, meets `P`. -/
def Steps (P : σ → α → Prop) : σ → List (α × σ) → Prop
  | _, [] => True
  | s, (a, s') :: tr => P s a ∧ Steps P s' tr

@[simp] theorem states_nil (s : σ) : states s ([] : List (α × σ)) = [s] := rfl

@[simp] theorem states_cons (s : σ) (a : α) (s' : σ) (tr : List (α × σ)) :
    states s ((a, s') :: tr) = s :: states s' tr := rfl

theorem mem_states_self (s : σ) (tr : List (α × σ)) : s ∈ states s tr := List.mem_cons_self

theorem final_mem_states (s : σ) (tr : List (α × σ)) : final s tr ∈ states s tr := by
  induction tr generalizing s with
  | nil => simp [final]
  | cons p tr ih => exact List.mem_cons_of_mem _ (ih p.2)

theorem final_append (s : σ) (tr tr' : List (α × σ)) :
    final s (tr ++ tr') = final (final s tr) tr' := by
  induction tr generalizing s with
  | nil => rfl
  | cons p tr ih => exact ih p.2

theorem final_mem_states_append (s : σ) (tr tr' : List (α × σ)) :
    final s tr ∈ states s (tr ++ tr') := by
  induction tr generalizing s with
  | nil => exact mem_states_self s tr'
  | cons p tr ih => exact List.mem_cons_of_mem _ (ih p.2)

theorem Exec.append {s : σ} {tr tr' : List (α × σ)} (h : Exec step s tr)
    (h' : Exec step (final s tr) tr') : Exec step s (tr ++ tr') := by
  induction h with
  | nil s => exact h'
  | cons hs _ ih => exact .cons hs (ih h')

theorem Exec.snoc {s : σ} {tr : List (α × σ)} (h : Exec step s tr) {a : α} {s' : σ}
    (hs : step (final s tr) a s') : Exec step s (tr ++ [(a, s')]) :=
  h.append (.cons hs (.nil _))

theorem mem_states_append {s t : σ} {tr tr' : List (α × σ)} (h : t ∈ states s (tr ++ tr')) :
    t ∈ states s tr ∨ t ∈ states (final s tr) tr' := by
  induction tr generalizing s with
  | nil => exact .inr h
  | cons p tr ih =>
    rcases List.mem_cons.1 h with rfl | h
    · exact .inl List.mem_cons_self
    · exact (ih h).imp_left (List.mem_cons_of_mem _)

/-- What only grows is greatest at the end. -/
theorem Exec.le_final {f : σ → ℕ} (hmono : ∀ s a s', step s a s' → f s ≤ f s') {s : σ}
    {tr : List (α × σ)} (h : Exec step s tr) : ∀ t ∈ states s tr, f t ≤ f (final s tr) := by
  induction h with
  | nil s => simp [final]
  | @cons s a s' tr hst _ ih =>
    rw [states_cons, List.forall_mem_cons]
    exact ⟨Nat.le_trans (hmono s a s' hst) (ih s' (mem_states_self s' tr)), ih⟩

/-- A number that falls with every step whose label meets `p`, and rises by `k` at most with one whose
label meets `q`, bounds how many steps of the first kind there are. -/
theorem Exec.count_le_add {I : σ → Prop} {f : σ → ℕ} {p q : α → Bool} {k : ℕ}
    (hI : ∀ s a s', I s → step s a s' → I s')
    (hf : ∀ s a s', I s → step s a s' →
      f s' + (if p a then 1 else 0) ≤ f s + if q a then k else 0) {s : σ}
    {tr : List (α × σ)} (h : Exec step s tr) (hs : I s) :
    (tr.countP fun x => p x.1) + f (final s tr) ≤ f s + k * tr.countP fun x => q x.1 := by
  induction h with
  | nil s => simp [final]
  | @cons s a s' tr hst _ ih =>
    have hone := hf s a s' hs hst
    have hrest := ih (hI s a s' hs hst)
    have hgain : (k * if q a then 1 else 0) = if q a then k else 0 := by
      cases q a <;> simp
    rw [List.countP_cons, List.countP_cons, final, Nat.mul_add, hgain]
    simp only at *
    omega

/-- A number that falls with every step whose label meets `p`, and never rises, bounds how many of
these there are. -/
theorem Exec.count_le {I : σ → Prop} {f : σ → ℕ} {p : α → Bool}
    (hI : ∀ s a s', I s → step s a s' → I s')
    (hf : ∀ s a s', I s → step s a s' → f s' + (if p a then 1 else 0) ≤ f s) {s : σ}
    {tr : List (α × σ)} (h : Exec step s tr) (hs : I s) :
    (tr.countP fun x => p x.1) + f (final s tr) ≤ f s := by
  have hcount := h.count_le_add (p := p) (q := fun _ => false) (k := 0) hI hf hs
  rwa [Nat.zero_mul] at hcount

/-- Where a number falls with every step, no execution is longer than it. -/
theorem Exec.length_le {I : σ → Prop} {f : σ → ℕ} (hI : ∀ s a s', I s → step s a s' → I s')
    (hf : ∀ s a s', I s → step s a s' → f s' < f s) {s : σ} {tr : List (α × σ)}
    (h : Exec step s tr) (hs : I s) : tr.length ≤ f s := by
  have hcount := h.count_le (p := fun _ => true) hI hf hs
  rw [List.countP_true] at hcount
  omega

/-- Then there is one that cannot go on. -/
theorem Exec.exists_stuck {I : σ → Prop} {f : σ → ℕ} (hI : ∀ s a s', I s → step s a s' → I s')
    (hf : ∀ s a s', I s → step s a s' → f s' < f s) {s : σ} (hs : I s) :
    ∃ tr, Exec step s tr ∧ ∀ a s', ¬step (final s tr) a s' := by
  by_cases hstuck : ∀ a s', ¬step s a s'
  · exact ⟨[], .nil s, hstuck⟩
  · simp only [not_forall, not_not] at hstuck
    obtain ⟨a, s', hst⟩ := hstuck
    obtain ⟨tr, hex, hlast⟩ := Exec.exists_stuck hI hf (hI s a s' hs hst)
    exact ⟨(a, s') :: tr, .cons hst hex, hlast⟩
termination_by f s
decreasing_by exact hf s a s' hs hst

/-- A condition on the labels alone is met where all of them meet it. -/
theorem steps_of_labels {P : σ → α → Prop} {s : σ} {tr : List (α × σ)}
    (h : ∀ a ∈ tr.map Prod.fst, ∀ t, P t a) : Steps P s tr := by
  induction tr generalizing s with
  | nil => trivial
  | cons p tr ih =>
    rw [List.map_cons, List.forall_mem_cons] at h
    exact ⟨h.1 s, ih h.2⟩

theorem Steps.append {P : σ → α → Prop} {s : σ} {tr tr' : List (α × σ)} (h : Steps P s tr)
    (h' : Steps P (final s tr) tr') : Steps P s (tr ++ tr') := by
  induction tr generalizing s with
  | nil => exact h'
  | cons p tr ih => exact ⟨h.1, ih h.2 h'⟩

/-- The last step meets what every step does. -/
theorem Steps.last {P : σ → α → Prop} {s : σ} {tr : List (α × σ)} {a : α} {s' : σ}
    (h : Steps P s (tr ++ [(a, s')])) : P (final s tr) a := by
  induction tr generalizing s with
  | nil => exact h.1
  | cons p tr ih => exact ih h.2

/-- Taking these labels, one after the other, may lead from `s` to `s'`. -/
def Leads (step : σ → α → σ → Prop) (s : σ) (as : List α) (s' : σ) : Prop :=
  ∃ tr, Exec step s tr ∧ tr.map Prod.fst = as ∧ final s tr = s'

theorem Leads.refl (s : σ) : Leads step s [] s := ⟨[], .nil s, rfl, rfl⟩

theorem Leads.single {s s' : σ} {a : α} (h : step s a s') : Leads step s [a] s' :=
  ⟨[(a, s')], .cons h (.nil s'), rfl, rfl⟩

/-- The state reached, by a name of its own. -/
theorem Leads.exists_eq {s s' : σ} {as : List α} (h : Leads step s as s') :
    ∃ t, Leads step s as t ∧ t = s' := ⟨s', h, rfl⟩

/-- Where a function gives steps, taking them one after the other leads to what it gives. -/
theorem leads_of_foldlM {f : σ → α → Option σ} (hf : ∀ s a s', f s a = some s' → step s a s')
    {s s' : σ} {as : List α} (h : as.foldlM f s = some s') : Leads step s as s' := by
  induction as generalizing s with
  | nil => exact ⟨[], .nil s, rfl, Option.some.inj h⟩
  | cons a as ih =>
    rw [List.foldlM_cons, Option.bind_eq_bind, Option.bind_eq_some_iff] at h
    obtain ⟨t, hs, h⟩ := h
    obtain ⟨tr, hex, hlabels, hfinal⟩ := ih h
    exact ⟨(a, t) :: tr, .cons (hf s a t hs) hex, congrArg (a :: ·) hlabels, hfinal⟩

/-- The same, of what is seen of the state they lead to. -/
theorem exists_leads {f : σ → α → Option σ} (hf : ∀ s a s', f s a = some s' → step s a s') {s : σ}
    (as : List α) (p : σ → Bool) (h : (as.foldlM f s).any p = true) :
    ∃ s', Leads step s as s' ∧ p s' = true := by
  rw [Option.any_eq_true_iff_get] at h
  obtain ⟨hsome, hp⟩ := h
  exact ⟨_, leads_of_foldlM hf (Option.some_get hsome).symm, hp⟩

theorem Leads.trans {s s' s'' : σ} {as bs : List α} (h : Leads step s as s')
    (h' : Leads step s' bs s'') : Leads step s (as ++ bs) s'' := by
  obtain ⟨tr, hex, rfl, rfl⟩ := h
  obtain ⟨tr', hex', rfl, rfl⟩ := h'
  exact ⟨tr ++ tr', hex.append hex', List.map_append, final_append s tr tr'⟩

theorem Leads.cons {s s' s'' : σ} {a : α} {as : List α} (h : step s a s')
    (h' : Leads step s' as s'') : Leads step s (a :: as) s'' := (Leads.single h).trans h'

/-- Steps that meet the condition may lead from `s` to `s'`. -/
def LeadsBy (step : σ → α → σ → Prop) (P : σ → α → Prop) (s s' : σ) : Prop :=
  ∃ tr, Exec step s tr ∧ Steps P s tr ∧ final s tr = s'

theorem LeadsBy.single {P : σ → α → Prop} {s s' : σ} {a : α} (h : step s a s') (hP : P s a) :
    LeadsBy step P s s' := ⟨[(a, s')], .cons h (.nil s'), ⟨hP, trivial⟩, rfl⟩

theorem LeadsBy.trans {P : σ → α → Prop} {s s' s'' : σ} (h : LeadsBy step P s s')
    (h' : LeadsBy step P s' s'') : LeadsBy step P s s'' := by
  obtain ⟨tr, hex, hP, rfl⟩ := h
  obtain ⟨tr', hex', hP', rfl⟩ := h'
  exact ⟨tr ++ tr', hex.append hex', hP.append hP', final_append s tr tr'⟩

/-- Steps lead there by a condition that their labels meet. -/
theorem Leads.leadsBy {P : σ → α → Prop} {s s' : σ} {as : List α} (h : Leads step s as s')
    (hP : ∀ a ∈ as, ∀ t, P t a) : LeadsBy step P s s' := by
  obtain ⟨tr, hex, rfl, hfinal⟩ := h
  exact ⟨tr, hex, steps_of_labels hP, hfinal⟩

/-- **Invariants of the steps that meet a condition.** -/
theorem Exec.inv_of_steps {I : σ → Prop} {P : σ → α → Prop}
    (hstep : ∀ s a s', I s → P s a → step s a s' → I s') {s : σ} {tr : List (α × σ)}
    (h : Exec step s tr) (hs : I s) (hP : Steps P s tr) : ∀ t ∈ states s tr, I t := by
  induction h with
  | nil s => simpa using hs
  | @cons s a s' tr hst _ ih =>
    rw [states_cons, List.forall_mem_cons]
    exact ⟨hs, ih (hstep s a s' hs hP.1 hst) hP.2⟩

/-- Such an invariant gives what every step from a state with it meets. -/
theorem Exec.steps_of_inv {I : σ → Prop} {P Q : σ → α → Prop}
    (hstep : ∀ s a s', I s → P s a → step s a s' → I s')
    (hmeets : ∀ s a s', I s → step s a s' → Q s a) {s : σ} {tr : List (α × σ)}
    (h : Exec step s tr) (hs : I s) (hP : Steps P s tr) : Steps Q s tr := by
  induction h with
  | nil s => trivial
  | @cons s a s' tr hst _ ih =>
    exact ⟨hmeets s a s' hs hst, ih (hstep s a s' hs hP.1 hst) hP.2⟩

theorem steps_true (s : σ) (tr : List (α × σ)) : Steps (fun _ _ => True) s tr := by
  induction tr generalizing s with
  | nil => trivial
  | cons p tr ih => exact ⟨trivial, ih p.2⟩

/-- **Invariants of every step.** -/
theorem Exec.inv {I : σ → Prop} (hstep : ∀ s a s', I s → step s a s' → I s') {s : σ}
    {tr : List (α × σ)} (h : Exec step s tr) (hs : I s) : ∀ t ∈ states s tr, I t :=
  h.inv_of_steps (fun s a s' hI _ => hstep s a s' hI) hs (steps_true s tr)

/-- Invariants of every step hold of what is led to. -/
theorem Leads.inv {I : σ → Prop} (hstep : ∀ s a s', I s → step s a s' → I s') {s s' : σ}
    {as : List α} (h : Leads step s as s') (hs : I s) : I s' := by
  obtain ⟨tr, hex, -, rfl⟩ := h
  exact hex.inv hstep hs _ (final_mem_states s tr)

/-- **Refinement.** Where each step from a state related to `t` ends in one related to `f t a`, an
execution ends in a state related to what `f` makes of its labels. -/
theorem Exec.refines {τ : Type*} {R : σ → τ → Prop} {f : τ → α → τ}
    (hstep : ∀ s a s' t, R s t → step s a s' → R s' (f t a)) {s : σ} {tr : List (α × σ)} {t : τ}
    (h : Exec step s tr) (hs : R s t) : R (final s tr) ((tr.map Prod.fst).foldl f t) := by
  induction h generalizing t with
  | nil s => exact hs
  | @cons s a s' tr hst _ ih => exact ih (hstep s a s' t hs hst)

/-- **The exact condition.** `I` holds in every reachable state, and a step from a state with
`I` and `Q` keeps `Q` if and only if it meets `P`: then `Q` holds throughout an execution if
and only if every step of it meets `P`. -/
theorem Exec.states_iff {I Q : σ → Prop} {P : σ → α → Prop}
    (hinv : ∀ s a s', I s → step s a s' → I s')
    (hiff : ∀ s a s', I s → Q s → step s a s' → (Q s' ↔ P s a)) {s : σ}
    {tr : List (α × σ)} (h : Exec step s tr) (hI : I s) (hQ : Q s) :
    (∀ t ∈ states s tr, Q t) ↔ Steps P s tr := by
  induction h with
  | nil s => simpa [Steps] using hQ
  | @cons s a s' tr hst _ ih =>
    have hI' := hinv s a s' hI hst
    rw [states_cons, List.forall_mem_cons]
    constructor
    · rintro ⟨-, hall⟩
      have hQ' := hall s' (mem_states_self s' tr)
      exact ⟨(hiff s a s' hI hQ hst).1 hQ', (ih hI' hQ').1 hall⟩
    · rintro ⟨hP, htl⟩
      exact ⟨hQ, (ih hI' ((hiff s a s' hI hQ hst).2 hP)).2 htl⟩

end Muxer.Lib
