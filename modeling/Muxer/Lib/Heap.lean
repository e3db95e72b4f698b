import Mathlib.Data.Finmap

/-!
# A heap of cells, and loops that follow pointers

A heap holds cells of one type at the addresses that are allocated, and remembers which were
freed. A pointer is an address, or `none` for the null pointer. Following a pointer to what is
not allocated ends the run, and so does freeing it: a run that ends well, and allocates nothing, has
used nothing after it was freed, and freed nothing twice.

* `Heap.get_set_of_ne`, `Heap.get_drop_of_ne`: every other cell is as before.
* `Freed`: some cells are freed, and every other one is as before.
* `whileSome_ok`: the rule of total correctness for loops along a list of cells.
-/

namespace Muxer.Lib

/-- What ends a run: a failed assertion, the use of what is not allocated, or a loop with more
rounds than it was given. -/
inductive Trap
  | assertion
  | access
  | endless
deriving DecidableEq, Repr

abbrev Addr := ℕ

/-- An address, or `none` for the null pointer. -/
abbrev Ptr := Option Addr

def assertThat (p : Prop) [Decidable p] : Except Trap Unit :=
  if p then .ok () else .error .assertion

theorem assertThat_ok {p : Prop} [Decidable p] (h : p) : assertThat p = .ok () := if_pos h

@[simp] theorem assertThat_true [Decidable True] : assertThat True = .ok () := if_pos trivial

/-- The cells allocated, and the addresses freed, in order. -/
structure Heap (α : Type) where
  cells : Finmap fun _ : Addr => α
  freed : List Addr

namespace Heap

variable {α : Type} {h h' : Heap α} {a b : Addr} {c : α} {f : α → α}

def get (h : Heap α) (a : Addr) : Option α := h.cells.lookup a

/-- How many cells are allocated. -/
def size (h : Heap α) : ℕ := h.cells.keys.card

def empty : Heap α := ⟨∅, []⟩

/-- The cell `c` at `a`: written anew, or over the one there. -/
def set (h : Heap α) (a : Addr) (c : α) : Heap α := { h with cells := h.cells.insert a c }

/-- The heap with these cells. -/
def ofList (l : List (Addr × α)) : Heap α := l.foldl (fun h c => h.set c.1 c.2) .empty

/-- No cell at `a` any more. -/
def drop (h : Heap α) (a : Addr) : Heap α := ⟨h.cells.erase a, h.freed ++ [a]⟩

/-- `*p`. -/
def load (h : Heap α) (p : Ptr) : Except Trap α :=
  match p.bind h.get with
  | some c => .ok c
  | none => .error .access

/-- A change to what `p` points to. -/
def update (h : Heap α) (p : Ptr) (f : α → α) : Except Trap (Heap α) :=
  match p with
  | none => .error .access
  | some a => do
    let c ← h.load p
    .ok (h.set a (f c))

/-- Freeing the null pointer does nothing. -/
def free (h : Heap α) : Ptr → Except Trap (Heap α)
  | none => .ok h
  | some a => do
    let _ ← h.load (some a)
    .ok (h.drop a)

theorem load_ok (hc : h.get a = some c) : h.load (some a) = .ok c := by
  simp [load, hc]

theorem update_ok (hc : h.get a = some c) : h.update (some a) f = .ok (h.set a (f c)) := by
  simp only [update, load_ok hc, bind, Except.bind]

theorem free_ok (hc : h.get a = some c) : h.free (some a) = .ok (h.drop a) := by
  simp only [free, load_ok hc, bind, Except.bind]

@[simp] theorem get_set_self (h : Heap α) (a : Addr) (c : α) : (h.set a c).get a = some c :=
  Finmap.lookup_insert _

theorem get_set_of_ne (h : Heap α) (c : α) (hb : b ≠ a) : (h.set a c).get b = h.get b :=
  Finmap.lookup_insert_of_ne _ hb

theorem get_set (h : Heap α) (a b : Addr) (c : α) :
    (h.set a c).get b = if b = a then some c else h.get b := by
  split
  · next hb => rw [hb, get_set_self]
  · next hb => exact get_set_of_ne h c hb

@[simp] theorem get_drop_self (h : Heap α) (a : Addr) : (h.drop a).get a = none :=
  Finmap.lookup_erase _ _

theorem get_drop_of_ne (h : Heap α) (hb : b ≠ a) : (h.drop a).get b = h.get b :=
  Finmap.lookup_erase_ne hb

@[simp] theorem freed_drop (h : Heap α) (a : Addr) : (h.drop a).freed = h.freed ++ [a] := rfl

/-- The cells at `l` are freed, in this order, and no other cell has changed. -/
structure Freed (h : Heap α) (l : List Addr) (h' : Heap α) : Prop where
  freed : h'.freed = h.freed ++ l
  gone : ∀ a ∈ l, h'.get a = none
  others : ∀ a ∉ l, h'.get a = h.get a

theorem Freed.refl (h : Heap α) : Freed h [] h := ⟨(List.append_nil _).symm, nofun, fun _ _ => rfl⟩

theorem Freed.trans {l l' : List Addr} {h'' : Heap α} (h₁ : Freed h l h') (h₂ : Freed h' l' h'') :
    Freed h (l ++ l') h'' where
  freed := by rw [h₂.freed, h₁.freed, List.append_assoc]
  gone a ha := by
    by_cases ha' : a ∈ l'
    · exact h₂.gone a ha'
    · rw [h₂.others a ha', h₁.gone a ((List.mem_append.1 ha).resolve_right ha')]
  others a ha := by
    rw [List.mem_append, not_or] at ha
    rw [h₂.others a ha.2, h₁.others a ha.1]

/-- One cell, whatever was written into it before. -/
theorem Freed.drop (hsame : ∀ b ≠ a, h'.get b = h.get b) (hfreed : h'.freed = h.freed) :
    Freed h [a] (h'.drop a) where
  freed := by rw [freed_drop, hfreed]
  gone b hb := by rw [List.mem_singleton.1 hb, get_drop_self]
  others b hb := by
    have hba : b ≠ a := fun hba => hb (List.mem_singleton.2 hba)
    rw [get_drop_of_ne h' hba, hsame b hba]

/-- Distinct allocated addresses are no more than the cells. -/
theorem length_le_size {l : List Addr} (hl : l.Nodup) (hin : ∀ a ∈ l, (h.get a).isSome) :
    l.length ≤ h.size := by
  rw [size, ← List.toFinset_card_of_nodup hl]
  apply Finset.card_le_card
  intro a ha
  have hsome := hin a (List.mem_toFinset.1 ha)
  exact Finmap.mem_keys.2 (Finmap.lookup_isSome.1 hsome)

end Heap

variable {σ : Type}

/-- `while (p != NULL)`, at most `n` rounds. Each gives the pointer the next one is for: `none`
where the loop is left. What comes out is the addresses the rounds were for, and the state. -/
def whileSome (round : Addr → σ → Except Trap (Ptr × σ)) :
    ℕ → Ptr → σ → Except Trap (List Addr × σ)
  | _, none, s => .ok ([], s)
  | 0, some _, _ => .error .endless
  | n + 1, some a, s => do
    let (p, s) ← round a s
    let (visited, s) ← whileSome round n p s
    .ok (a :: visited, s)

variable {ι : Type} {round : Addr → σ → Except Trap (Ptr × σ)}

/-- **Loops along a list of cells**, those at the addresses of some items. `I before after s` holds
before the round for the first of `after`. The round goes on to the cell after it, or leaves the
loop with what is to be shown. -/
theorem whileSome_ok (addr : ι → Addr) {I : List ι → List ι → σ → Prop} {Q : List ι → σ → Prop}
    (hend : ∀ before s, I before [] s → Q before s)
    (hround : ∀ before i after s, I before (i :: after) s →
      ∃ p s', round (addr i) s = .ok (p, s') ∧ (p = (after.map addr).head? ∧
        I (before ++ [i]) after s' ∨ p = none ∧ Q (before ++ [i]) s'))
    {n : ℕ} {before after : List ι} {s : σ} (hI : I before after s) (hn : after.length ≤ n) :
    ∃ visited s', whileSome round n (after.map addr).head? s = .ok (visited.map addr, s') ∧
      Q (before ++ visited) s' := by
  induction after generalizing n before s with
  | nil =>
    refine ⟨[], s, ?_, ?_⟩
    · cases n <;> rfl
    · rw [List.append_nil]
      exact hend before s hI
  | cons i after ih =>
    obtain _ | n := n
    · simp at hn
    obtain ⟨p, s₁, hr, hnext⟩ := hround before i after s hI
    simp only [List.map_cons, List.head?_cons, whileSome, hr, bind, Except.bind]
    rcases hnext with ⟨rfl, hI'⟩ | ⟨rfl, hQ⟩
    · obtain ⟨visited, s', hrun, hQ⟩ := ih hI' (Nat.le_of_succ_le_succ hn)
      refine ⟨i :: visited, s', ?_, ?_⟩
      · rw [hrun, List.map_cons]
      · rwa [List.append_assoc] at hQ
    · refine ⟨[i], s₁, ?_, hQ⟩
      cases n <;> rfl

/-- Loops that are left only at the end of the list. -/
theorem whileSome_all (addr : ι → Addr) {I : List ι → List ι → σ → Prop}
    (hround : ∀ before i after s, I before (i :: after) s →
      ∃ s', round (addr i) s = .ok ((after.map addr).head?, s') ∧ I (before ++ [i]) after s')
    {n : ℕ} {l : List ι} {s : σ} (hI : I [] l s) (hn : l.length ≤ n) :
    ∃ s', whileSome round n (l.map addr).head? s = .ok (l.map addr, s') ∧ I l [] s' := by
  let J (before after : List ι) (s : σ) : Prop := before ++ after = l ∧ I before after s
  have hend : ∀ before s, J before [] s → before = l ∧ I l [] s := by
    rintro before s ⟨rfl, hJ⟩
    rw [List.append_nil]
    exact ⟨rfl, hJ⟩
  have hnext : ∀ before i after s, J before (i :: after) s →
      ∃ p s', round (addr i) s = .ok (p, s') ∧ (p = (after.map addr).head? ∧
        J (before ++ [i]) after s' ∨ p = none ∧ before ++ [i] = l ∧ I l [] s') := by
    rintro before i after s ⟨rfl, hJ⟩
    obtain ⟨s', hr, hI'⟩ := hround before i after s hJ
    exact ⟨_, s', hr, .inl ⟨rfl, by simp, hI'⟩⟩
  obtain ⟨visited, s', hrun, hvisited, hI'⟩ :=
    whileSome_ok addr hend hnext ⟨List.nil_append l, hI⟩ hn
  rw [List.nil_append] at hvisited
  exact ⟨s', hvisited ▸ hrun, hI'⟩

end Muxer.Lib
