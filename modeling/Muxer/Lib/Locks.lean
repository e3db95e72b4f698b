import Mathlib.Data.Fintype.Basic
import Mathlib.Logic.Function.Basic
import Mathlib.Logic.Relation
import Muxer.Lib.Exec

/-!
# Threads and re-entrant locks

The code of a thread, as far as locks go: sequences, branches and loops of critical sections
(`Code`). A thread that is in a section may enter it again; one that is not may enter it when no
other thread is in it (`LockStep`).

* `wants_holds`: the locks a thread wants and holds are nested so in its code.
* `not_deadlocked`: threads that want locks of higher rank than they hold are in no cycle.
* `exec_trace`: runs by computation.
-/

namespace Muxer.Lib

inductive Code (κ : Type)
  | skip
  | locked (l : κ) (body : Code κ)
  | seq (a b : Code κ)
  | either (a b : Code κ)
  | loop (body : Code κ)

/-- A loop that makes one round at least. -/
def Code.doWhile {κ : Type} (body : Code κ) : Code κ := .seq body (.loop body)

/-- What a thread has yet to do: run code, or leave a section it is in. -/
inductive Todo (κ : Type)
  | run (c : Code κ)
  | leave (l : κ)

variable {τ κ : Type}

/-- The next step of a thread; `b` says which branch it takes, or whether it makes another round. -/
def advance (b : Bool) : List (Todo κ) → List (Todo κ)
  | [] => []
  | .run .skip :: k => k
  | .run (.locked l body) :: k => .run body :: .leave l :: k
  | .run (.seq a c) :: k => .run a :: .run c :: k
  | .run (.either a c) :: k => .run (if b then a else c) :: k
  | .run (.loop body) :: k => if b then .run body :: .run (.loop body) :: k else k
  | .leave _ :: k => k

/-- The lock of the section that the thread is about to enter. -/
def wants : List (Todo κ) → Option κ
  | .run (.locked l _) :: _ => some l
  | _ => none

/-- The locks of the sections that the thread is in. -/
def held : List (Todo κ) → List κ
  | [] => []
  | .run _ :: k => held k
  | .leave l :: k => l :: held k

/-- No other thread is in the section that the thread wants to enter. -/
def Enabled (s : τ → List (Todo κ)) (t : τ) : Prop :=
  ∀ l, wants (s t) = some l → ∀ u, u ≠ t → l ∉ held (s u)

inductive LockStep [DecidableEq τ] :
    (τ → List (Todo κ)) → τ × Bool → (τ → List (Todo κ)) → Prop
  | step (s t b) : Enabled s t → LockStep s (t, b) (Function.update s t (advance b (s t)))

/-- A thread waits for another one: that is in the section it wants to enter. -/
def Waits (s : τ → List (Todo κ)) (t u : τ) : Prop :=
  u ≠ t ∧ ∃ l, wants (s t) = some l ∧ l ∈ held (s u)

/-- Some threads wait for each other, in a cycle. -/
def Deadlocked (s : τ → List (Todo κ)) : Prop := ∃ t, Relation.TransGen (Waits s) t t

/-! ## What is nested in what -/

/-- The pairs of a lock held and a lock wanted in code that runs in the sections `h`. -/
def nests (h : List κ) : Code κ → List (κ × κ)
  | .skip => []
  | .locked l body => h.map (·, l) ++ nests (l :: h) body
  | .seq a b => nests h a ++ nests h b
  | .either a b => nests h a ++ nests h b
  | .loop body => nests h body

/-- What the thread has yet to do nests locks as in `es` only. -/
def Nested (es : List (κ × κ)) : List (Todo κ) → Prop
  | [] => True
  | .run c :: k => (∀ e ∈ nests (held k) c, e ∈ es) ∧ Nested es k
  | .leave _ :: k => Nested es k

theorem Nested.advance {es : List (κ × κ)} {k : List (Todo κ)} (h : Nested es k) (b : Bool) :
    Nested es (advance b k) := by
  cases k with
  | nil => trivial
  | cons todo k =>
    cases todo with
    | leave l => exact h
    | run c =>
      obtain ⟨hc, hk⟩ := h
      cases c with
      | skip => exact hk
      -- what the body nests is nested in the section in the code, too
      | locked l body => exact ⟨fun e he => hc e (List.mem_append_right _ he), hk⟩
      | seq a c =>
        exact ⟨fun e he => hc e (List.mem_append_left _ he),
          fun e he => hc e (List.mem_append_right _ he), hk⟩
      | either a c =>
        cases b with
        | false => exact ⟨fun e he => hc e (List.mem_append_right _ he), hk⟩
        | true => exact ⟨fun e he => hc e (List.mem_append_left _ he), hk⟩
      | loop body =>
        cases b with
        | false => exact hk
        -- another round: the body, and then the loop again
        | true => exact ⟨hc, hc, hk⟩

theorem Nested.mem {es : List (κ × κ)} {k : List (Todo κ)} (h : Nested es k) {l m : κ}
    (hl : wants k = some l) (hm : m ∈ held k) : (m, l) ∈ es := by
  unfold wants at hl
  split at hl
  · cases hl
    exact h.1 _ (List.mem_append_left _ (List.mem_map.2 ⟨m, hm, rfl⟩))
  · cases hl

/-- The threads as they start. -/
def atStart (code : τ → Code κ) : τ → List (Todo κ) := fun t => [.run (code t)]

section

variable [DecidableEq τ] {code : τ → Code κ} {s : τ → List (Todo κ)}
  {tr : List ((τ × Bool) × (τ → List (Todo κ)))}

/-- **The locks a thread wants and holds are nested so in its code.** -/
theorem wants_holds (h : Exec LockStep (atStart code) tr) (hs : s ∈ states (atStart code) tr) {t : τ}
    {l m : κ} (hl : wants (s t) = some l) (hm : m ∈ held (s t)) : (m, l) ∈ nests [] (code t) := by
  have hinv : ∀ v ∈ states (atStart code) tr, ∀ t, Nested (nests [] (code t)) (v t) := by
    refine h.inv ?_ (fun t => ⟨fun e he => he, trivial⟩)
    rintro v ⟨u, b⟩ v' hv ⟨⟩ t
    -- only the thread that steps changes what it has yet to do
    by_cases htu : t = u
    · subst htu
      rw [Function.update_self]
      exact (hv t).advance b
    · rw [Function.update_of_ne htu]
      exact hv t
  exact (hinv s hs t).mem hl hm

end

/-! ## Ranks -/

/-- **Threads that want locks of higher rank than they hold are in no cycle.** -/
theorem not_deadlocked {s : τ → List (Todo κ)} (rank : κ → ℕ)
    (h : ∀ t l m, wants (s t) = some l → m ∈ held (s t) → rank m < rank l) : ¬Deadlocked s := by
  -- along a chain of threads that wait, what they want ranks higher and higher
  have hchain : ∀ t u, Relation.TransGen (Waits s) t u → ∀ l m, wants (s t) = some l →
      wants (s u) = some m → rank l < rank m := by
    intro t u htu
    induction htu with
    | single hw =>
      intro l m hl hm
      obtain ⟨-, l', hl', hheld⟩ := hw
      rw [hl] at hl'
      cases hl'
      exact h _ m l hm hheld
    | tail _ hw ih =>
      intro l m hl hm
      obtain ⟨-, l', hl', hheld⟩ := hw
      exact Nat.lt_trans (ih l l' hl hl') (h _ m l' hm hheld)
  rintro ⟨t, ht⟩
  obtain ⟨l, hl⟩ : ∃ l, wants (s t) = some l := by
    obtain ⟨u, hw, -⟩ := Relation.TransGen.head'_iff.1 ht
    exact ⟨_, hw.2.choose_spec.1⟩
  exact Nat.lt_irrefl _ (hchain t t ht l l hl hl)

/-! ## Runs by computation -/

section

variable [DecidableEq τ]

/-- The run that takes these steps. -/
def trace (s : τ → List (Todo κ)) : List (τ × Bool) → List ((τ × Bool) × (τ → List (Todo κ)))
  | [] => []
  | (t, b) :: as => ((t, b), Function.update s t (advance b (s t))) ::
      trace (Function.update s t (advance b (s t))) as

/-- Each of these steps can be taken. -/
def Legal (s : τ → List (Todo κ)) : List (τ × Bool) → Prop
  | [] => True
  | (t, b) :: as => Enabled s t ∧ Legal (Function.update s t (advance b (s t))) as

theorem exec_trace {s : τ → List (Todo κ)} {as : List (τ × Bool)} (h : Legal s as) :
    Exec LockStep s (trace s as) := by
  induction as generalizing s with
  | nil => exact .nil s
  | cons a as ih => exact .cons (.step s a.1 a.2 h.1) (ih h.2)

end

section

variable [Fintype τ] [DecidableEq τ] [DecidableEq κ]

instance decidableEnabled (s : τ → List (Todo κ)) (t : τ) : Decidable (Enabled s t) :=
  match h : wants (s t) with
  | none => isTrue fun l hl => by rw [h] at hl; cases hl
  | some l => decidable_of_iff (∀ u, u ≠ t → l ∉ held (s u))
      ⟨fun hall m hm => by rw [h] at hm; cases hm; exact hall, fun hen => hen l h⟩

instance decidableLegal : (s : τ → List (Todo κ)) → (as : List (τ × Bool)) → Decidable (Legal s as)
  | _, [] => isTrue trivial
  | s, (t, b) :: as =>
    have := decidableLegal (Function.update s t (advance b (s t))) as
    inferInstanceAs (Decidable (Enabled s t ∧ Legal (Function.update s t (advance b (s t))) as))

end

end Muxer.Lib
