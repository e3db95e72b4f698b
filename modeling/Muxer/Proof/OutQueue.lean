import Muxer.Lib.Exec
import Muxer.Proof.Queue
import Muxer.System.OutQueue

/-!
# `q_free` outside the critical section

Whatever the order in which `q_put` and `q_free` read and write, the queue comes out right: an entry
being put is linked from behind, and `q_free` of an entry that is not in the queue writes nothing. But
`q_free` may meet the queue between two writes of the first `q_put`.

* `outQueue_fifo`: between two calls of `q_put` the queue holds what was put and not yet taken, and
  each entry taken is freed once.
* `free_asserts_iff`: the only way the program ends is the assertion that a queue without a head
  has no tail. It does so in no order if and only if `q_put` sets the tail of the empty queue neither
  just before `q_free` tests the head, nor between that test and the assertion.
-/

namespace Muxer.OutQueue

open Lib

/-! ## How far an entry has been put -/

/-- The entry being put. -/
def PutPc.held : PutPc → List Addr
  | .idle => []
  | .find qe | .findRound qe _ | .testTail qe | .assertHead qe | .readTail qe | .linkTail qe _
  | .clearNext qe | .setTail qe | .testHead qe | .assertTail qe | .setHead qe
  | .setTimestamp qe => [qe]

/-- That entry, once the last one points to it. -/
def PutPc.linked : PutPc → List Addr
  | .clearNext qe | .setTail qe | .testHead qe | .assertTail qe | .setHead qe
  | .setTimestamp qe => [qe]
  | _ => []

/-- That entry, once the tail points to it. -/
def PutPc.atTail : PutPc → List Addr
  | .testHead qe | .assertTail qe | .setHead qe | .setTimestamp qe => [qe]
  | _ => []

/-- That entry, once the head does, if it is to. -/
def PutPc.atHead : PutPc → List Addr
  | .setTimestamp qe => [qe]
  | _ => []

/-- What `q_put` has found out of the queue. -/
def PutPc.Found (l : List Addr) : PutPc → Prop
  | .findRound _ mQe => mQe ∈ l
  | .assertHead _ | .readTail _ => l ≠ []
  | .linkTail _ tail => l ≠ [] ∧ tail = l.getLast?
  | .assertTail _ | .setHead _ => l = []
  | _ => True

/-- The queue with the entries of `l`, and with one being put. -/
structure Shape (w : State) (l : List Addr) : Prop where
  history : w.put = w.got ++ l
  head : w.queue.head = (l ++ w.putter.atHead).head?
  tail : w.queue.tail = (l ++ w.putter.atTail).getLast?
  linked : Seg (nextOf w.entries) (l ++ w.putter.linked) none
  held : ∀ qe ∈ w.putter.held, nextOf w.entries qe = some none ∧ qe ∉ l
  found : w.putter.Found l

/-- What `q_free` knows of the queue: which entries it may be at. It has not found its own. -/
def FreePc.Found (head : Ptr) (cells : List Addr) : FreePc → Prop
  | .testEmpty | .assertEmpty | .testHead | .free => True
  | .onlyHead | .firstHead | .initPrev => head ≠ none
  | .readHead mQePrev => head ≠ none ∧ mQePrev ≠ none
  | .init mQePrev p => head ≠ none ∧ mQePrev ≠ none ∧ ∃ a ∈ cells, p = some a
  | .loopHead mQePrev mQe | .loopTail mQePrev mQe => head ≠ none ∧ mQePrev ≠ none ∧ mQe ∈ cells
  | .advance mQe => head ≠ none ∧ mQe ∈ cells
  | .lastHead _ | .lastTail _ => head ≠ none
  | _ => False

/-- `q_free` of an entry that is not in the queue. -/
structure Freeing (w : State) (l : List Addr) (qe : Addr) (pc : FreePc) : Prop where
  got : w.got = w.entries.freed ++ [qe]
  allocated : (w.entries.get qe).isSome
  apart : qe ∉ l ++ w.putter.held
  found : pc.Found w.queue.head (l ++ w.putter.linked)

/-- What holds in every state of a run. -/
structure Inv (w : State) (l : List Addr) : Prop where
  shape : Shape w l
  freeing : ∀ qe pc, w.freer = some (qe, pc) → Freeing w l qe pc
  freed : w.freer = none → w.entries.freed = w.got

theorem PutPc.linked_sublist (pc : PutPc) : pc.linked.Sublist pc.held := by
  cases pc <;> simp [linked, held]

theorem PutPc.atTail_sublist (pc : PutPc) : pc.atTail.Sublist pc.linked := by
  cases pc <;> simp [linked, atTail]

theorem PutPc.atHead_sublist (pc : PutPc) : pc.atHead.Sublist pc.atTail := by
  cases pc <;> simp [atHead, atTail]

variable {w w' : State} {l l' : List Addr} {qe : Addr}

/-- The head is set last, so a queue with a head has a tail. -/
theorem Shape.tail_ne (h : Shape w l) (hhead : w.queue.head ≠ none) : w.queue.tail ≠ none := by
  rw [h.head, ne_eq, List.head?_eq_none_iff] at hhead
  rw [h.tail, ne_eq, List.getLast?_eq_none_iff]
  intro hnone
  have hsub := (w.putter.atHead_sublist).append_left l
  rw [hnone] at hsub
  exact hhead (List.sublist_nil.1 hsub)

theorem Shape.head_mem (h : Shape w l) {a : Addr} (ha : w.queue.head = some a) :
    a ∈ l ++ w.putter.linked := by
  rw [h.head] at ha
  have hsub := (w.putter.atHead_sublist.trans w.putter.atTail_sublist).append_left l
  exact hsub.subset (List.mem_of_head? ha)

theorem Shape.tail_mem (h : Shape w l) {a : Addr} (ha : w.queue.tail = some a) :
    a ∈ l ++ w.putter.linked := by
  rw [h.tail] at ha
  exact (w.putter.atTail_sublist.append_left l).subset (List.mem_of_getLast? ha)

/-- An entry that can be reached points to one, or nowhere. -/
theorem Shape.load (h : Shape w l) {a : Addr} (ha : a ∈ l ++ w.putter.linked) :
    ∃ e, w.entries.get a = some e ∧ ∀ b, e.next = some b → b ∈ l ++ w.putter.linked := by
  have hlinked := h.linked
  obtain ⟨xs, ys, hsplit⟩ := List.append_of_mem ha
  rw [hsplit] at hlinked ⊢
  obtain ⟨e, he, hnext⟩ := seg_get (seg_append.1 hlinked).2
  refine ⟨e, he, fun b hb => ?_⟩
  rw [hnext, first_none] at hb
  have hmem := List.mem_of_head? hb
  simp [hmem]

/-- Between two calls the queue is that of the entries of `l`. -/
theorem Shape.isQueue (h : Shape w l) (hidle : w.putter = .idle) :
    IsQueue w.queue w.entries l := by
  obtain ⟨-, hhead, htail, hlinked, -, -⟩ := h
  rw [hidle] at hhead htail hlinked
  simp only [PutPc.atHead, PutPc.atTail, PutPc.linked, List.append_nil] at hhead htail hlinked
  exact ⟨hhead, htail, hlinked⟩

/-! ## `q_put` -/

/-- What `q_free` sees of a step of `q_put`. -/
structure Extends (w : State) (l : List Addr) (w' : State) (l' : List Addr) : Prop where
  freer : w'.freer = w.freer
  got : w'.got = w.got
  freed : w'.entries.freed = w.entries.freed
  others : ∀ a ∉ l ++ w.putter.held, w'.entries.get a = w.entries.get a
  held : l' ++ w'.putter.held ⊆ l ++ w.putter.held
  cells : l ++ w.putter.linked ⊆ l' ++ w'.putter.linked
  head : w.queue.head ≠ none → w'.queue.head ≠ none
  tail : (∀ qe, w.putter ≠ .setTail qe) → w'.queue.tail = w.queue.tail

/-- A step of `q_put` goes through, and keeps the shape of the queue. -/
def Puts (w : State) (l : List Addr) (timestamp : ℤ) : Prop :=
  ∃ w' l', putStep w timestamp = .ok w' ∧ Shape w' l' ∧ Extends w l w' l'

/-- The entry being put is as far at both. -/
def PutPc.Alike (pc pc' : PutPc) : Prop :=
  pc'.held = pc.held ∧ pc'.linked = pc.linked ∧ pc'.atTail = pc.atTail ∧ pc'.atHead = pc.atHead

/-- The entry being put is the same at both. -/
theorem held_subset {pc pc' : PutPc} (hp : w.putter = pc) (hheld : pc'.held = pc.held) :
    l ++ pc'.held ⊆ l ++ w.putter.held := by
  rw [hp, hheld]
  exact List.Subset.refl _

/-- It is linked at both, or at neither. -/
theorem linked_subset {pc pc' : PutPc} (hp : w.putter = pc) (hlinked : pc'.linked = pc.linked) :
    l ++ w.putter.linked ⊆ l ++ pc'.linked := by
  rw [hp, hlinked]
  exact List.Subset.refl _

/-- A step that only reads. -/
theorem Shape.puts (h : Shape w l) {pc : PutPc} (hp : w.putter = pc) (pc' : PutPc)
    (hpc : pc.Alike pc') (hfound : pc'.Found l) :
    Shape (w.puts pc') l ∧ Extends w l (w.puts pc') l := by
  obtain ⟨hheld, hlinked, htail, hhead⟩ := hpc
  subst hp
  refine ⟨⟨h.history, ?_, ?_, ?_, ?_, hfound⟩, ⟨rfl, rfl, rfl, fun _ _ => rfl,
    held_subset rfl hheld, linked_subset rfl hlinked, id, fun _ => rfl⟩⟩
  · simp only [State.puts, hhead, h.head]
  · simp only [State.puts, htail, h.tail]
  · simp only [State.puts, hlinked]
    exact h.linked
  · simp only [State.puts, hheld]
    exact h.held

variable {timestamp : ℤ}

theorem Shape.find (h : Shape w l) (hp : w.putter = .find qe) : Puts w l timestamp := by
  have hhead := h.head
  rw [hp] at hhead
  cases hl : w.queue.head with
  | none =>
    have hstep : putStep w timestamp = .ok (w.puts (.testTail qe)) := by simp only [putStep, hp, hl]
    exact ⟨_, l, hstep, h.puts hp _ ⟨rfl, rfl, rfl, rfl⟩ trivial⟩
  | some mQe =>
    have hstep : putStep w timestamp = .ok (w.puts (.findRound qe mQe)) := by
      simp only [putStep, hp, hl]
    have hmem : mQe ∈ l := by
      rw [hl] at hhead
      simpa [PutPc.atHead] using List.mem_of_head? hhead.symm
    exact ⟨_, l, hstep, h.puts hp _ ⟨rfl, rfl, rfl, rfl⟩ hmem⟩

theorem Shape.findRound (h : Shape w l) {mQe : Addr} (hp : w.putter = .findRound qe mQe) :
    Puts w l timestamp := by
  have hfound := h.found
  rw [hp] at hfound
  have hmem : mQe ∈ l := hfound
  have hnot : qe ∉ l := (h.held qe (by rw [hp]; exact List.mem_singleton_self qe)).2
  have hne : mQe ≠ qe := fun heq => hnot (heq ▸ hmem)
  obtain ⟨m, hm, hnext⟩ := h.load (List.mem_append_left _ hmem)
  simp only [hp, PutPc.linked, List.append_nil] at hnext
  cases hl : m.next with
  | none =>
    have hstep : putStep w timestamp = .ok (w.puts (.testTail qe)) := by
      simp only [putStep, hp, if_neg hne, Heap.load_ok hm, bind, Except.bind, hl]
    exact ⟨_, l, hstep, h.puts hp _ ⟨rfl, rfl, rfl, rfl⟩ trivial⟩
  | some b =>
    have hstep : putStep w timestamp = .ok (w.puts (.findRound qe b)) := by
      simp only [putStep, hp, if_neg hne, Heap.load_ok hm, bind, Except.bind, hl]
    exact ⟨_, l, hstep, h.puts hp _ ⟨rfl, rfl, rfl, rfl⟩ (hnext b hl)⟩

/-- Where the queue is empty, the entry is linked as it is. -/
theorem Shape.testTail (h : Shape w l) (hp : w.putter = .testTail qe) : Puts w l timestamp := by
  have htail := h.tail
  have hheld := h.held
  rw [hp] at htail hheld
  by_cases hl : l = []
  · subst hl
    have hnone : w.queue.tail = none := htail
    have hstep : putStep w timestamp = .ok (w.puts (.clearNext qe)) := by
      simp [putStep, hp, hnone]
    have hhead := h.head
    rw [hp] at hhead
    obtain ⟨hnext, hnot⟩ := hheld qe (List.mem_singleton_self qe)
    refine ⟨_, [], hstep, ⟨h.history, hhead, htail, ⟨hnext, trivial⟩, hheld, trivial⟩, ?_⟩
    refine ⟨rfl, rfl, rfl, fun _ _ => rfl, held_subset hp rfl, ?_, id, fun _ => rfl⟩
    rw [hp]
    exact List.nil_subset _
  · have hsome : w.queue.tail ≠ none := by
      rw [htail]
      simpa [PutPc.atTail] using hl
    have hstep : putStep w timestamp = .ok (w.puts (.assertHead qe)) := by
      simp [putStep, hp, hsome]
    exact ⟨_, l, hstep, h.puts hp _ ⟨rfl, rfl, rfl, rfl⟩ hl⟩

theorem Shape.assertHead (h : Shape w l) (hp : w.putter = .assertHead qe) :
    Puts w l timestamp := by
  have hfound := h.found
  have hhead := h.head
  rw [hp] at hfound hhead
  have hl : l ≠ [] := hfound
  have hsome : w.queue.head ≠ none := by
    rw [hhead]
    simpa [PutPc.atHead] using hl
  have hstep : putStep w timestamp = .ok (w.puts (.readTail qe)) := by
    simp only [putStep, hp, assertThat_ok hsome, bind, Except.bind]
  exact ⟨_, l, hstep, h.puts hp _ ⟨rfl, rfl, rfl, rfl⟩ hl⟩

theorem Shape.readTail (h : Shape w l) (hp : w.putter = .readTail qe) : Puts w l timestamp := by
  have hfound := h.found
  have htail := h.tail
  rw [hp] at hfound htail
  have hstep : putStep w timestamp = .ok (w.puts (.linkTail qe w.queue.tail)) := by
    simp only [putStep, hp]
  have hlast : w.queue.tail = l.getLast? := by simpa [PutPc.atTail] using htail
  exact ⟨_, l, hstep, h.puts hp _ ⟨rfl, rfl, rfl, rfl⟩ ⟨hfound, hlast⟩⟩

/-- The last entry is pointed to the one being put, which `q_alloc` has pointed nowhere. -/
theorem Shape.linkTail (h : Shape w l) {tail : Ptr} (hp : w.putter = .linkTail qe tail) :
    Puts w l timestamp := by
  obtain ⟨hhistory, hhead, htail, hlinked, hheld, hfound⟩ := h
  rw [hp] at hhead htail hlinked hheld hfound
  obtain ⟨hl, rfl⟩ := hfound
  obtain ⟨hnext, hnot⟩ := hheld qe (List.mem_singleton_self qe)
  obtain ⟨xs, t, rfl⟩ : ∃ xs t, l = xs ++ [t] :=
    ⟨_, _, (List.dropLast_append_getLast hl).symm⟩
  simp only [PutPc.linked, List.append_nil] at hlinked
  obtain ⟨m, hm, -⟩ := seg_get (seg_append.1 hlinked).2
  have hqt : qe ≠ t := fun heq => hnot (by simp [heq])
  have hstep : putStep w timestamp = .ok ({ w with
      entries := w.entries.set t { m with next := some qe } }.puts (.clearNext qe)) := by
    simp only [putStep, hp, List.getLast?_concat, Heap.update_ok hm, bind, Except.bind]
  refine ⟨_, xs ++ [t], hstep, ⟨hhistory, hhead, htail, ?_, ?_, trivial⟩, ?_⟩
  · refine seg_append.2 ⟨hlinked.redirect hlinked.nodup (nextOf_set_self _ t _) ?_, ?_, trivial⟩
    · exact fun b hb => nextOf_set_of_ne w.entries _ hb
    · exact (nextOf_set_of_ne w.entries _ hqt).trans hnext
  · intro a ha
    obtain rfl := List.mem_singleton.1 ha
    exact ⟨(nextOf_set_of_ne w.entries _ hqt).trans hnext, hnot⟩
  · refine ⟨rfl, rfl, rfl, fun a ha => ?_, held_subset hp rfl, ?_, id, fun _ => rfl⟩
    · refine Heap.get_set_of_ne w.entries _ fun heq => ha ?_
      simp [heq]
    · rw [hp]
      simp [State.puts, PutPc.linked]

/-- What is written into the entry being put, but for where it points. -/
theorem nextOf_set_same {h : Heap QueueEntry} {a : Addr} {e e' : QueueEntry} (he : h.get a = some e)
    (hnext : e'.next = e.next) : nextOf (h.set a e') = nextOf h := by
  funext b
  by_cases hb : b = a
  · rw [hb, nextOf_set_self, nextOf_eq he, hnext]
  · exact nextOf_set_of_ne h e' hb

/-- The entry being put is allocated, and points nowhere. -/
theorem Shape.get_held (h : Shape w l) {pc : PutPc} (hp : w.putter = pc) (hqe : qe ∈ pc.held) :
    ∃ e, w.entries.get qe = some e ∧ e.next = none := by
  subst hp
  have hnext := (h.held qe hqe).1
  rw [nextOf, Option.map_eq_some_iff] at hnext
  exact hnext

theorem Shape.clearNext (h : Shape w l) (hp : w.putter = .clearNext qe) :
    Puts w l timestamp := by
  obtain ⟨e, he, hnone⟩ := h.get_held hp (List.mem_singleton_self qe)
  have hsame : nextOf (w.entries.set qe { e with next := none }) = nextOf w.entries :=
    nextOf_set_same he hnone.symm
  obtain ⟨hhistory, hhead, htail, hlinked, hheld, -⟩ := h
  rw [hp] at hhead htail hlinked hheld
  have hstep : putStep w timestamp = .ok ({ w with
      entries := w.entries.set qe { e with next := none } }.puts (.setTail qe)) := by
    simp only [putStep, hp, Heap.update_ok he, bind, Except.bind]
  refine ⟨_, l, hstep, ⟨hhistory, hhead, htail, ?_, ?_, trivial⟩, ?_⟩
  · simp only [State.puts, hsame]
    exact hlinked
  · simp only [State.puts, hsame]
    exact hheld
  · refine ⟨rfl, rfl, rfl, fun a ha => ?_, held_subset hp rfl, linked_subset hp rfl, id,
      fun _ => rfl⟩
    refine Heap.get_set_of_ne w.entries _ fun heq => ha ?_
    simp [hp, PutPc.held, heq]

theorem Shape.setTail (h : Shape w l) (hp : w.putter = .setTail qe) : Puts w l timestamp := by
  obtain ⟨hhistory, hhead, -, hlinked, hheld, -⟩ := h
  rw [hp] at hhead hlinked hheld
  have hstep : putStep w timestamp =
      .ok ({ w with queue := { w.queue with tail := some qe } }.puts (.testHead qe)) := by
    simp only [putStep, hp]
  refine ⟨_, l, hstep, ⟨hhistory, hhead, ?_, hlinked, hheld, trivial⟩, ?_⟩
  · exact List.getLast?_concat.symm
  · exact ⟨rfl, rfl, rfl, fun _ _ => rfl, held_subset hp rfl, linked_subset hp rfl, id,
      fun hne => absurd hp (hne qe)⟩

theorem Shape.testHead (h : Shape w l) (hp : w.putter = .testHead qe) : Puts w l timestamp := by
  have hhead := h.head
  rw [hp] at hhead
  simp only [PutPc.atHead, List.append_nil] at hhead
  by_cases hl : l = []
  · have hnone : w.queue.head = none := by rw [hhead, hl, List.head?_nil]
    have hstep : putStep w timestamp = .ok (w.puts (.assertTail qe)) := by
      simp only [putStep, hp, if_pos hnone]
    exact ⟨_, l, hstep, h.puts hp _ ⟨rfl, rfl, rfl, rfl⟩ hl⟩
  · have hsome : w.queue.head ≠ none := by rwa [hhead, ne_eq, List.head?_eq_none_iff]
    have hstep : putStep w timestamp = .ok (w.puts (.setTimestamp qe)) := by
      simp only [putStep, hp, if_neg hsome]
    have hhead' : w.queue.head = (l ++ [qe]).head? := by
      rw [hhead, List.head?_append_of_ne_nil l hl]
    obtain ⟨hhistory, -, htail, hlinked, hheld, -⟩ := h
    rw [hp] at htail hlinked hheld
    refine ⟨_, l, hstep, ⟨hhistory, hhead', htail, hlinked, hheld, trivial⟩, ?_⟩
    exact ⟨rfl, rfl, rfl, fun _ _ => rfl, held_subset hp rfl, linked_subset hp rfl, id,
      fun _ => rfl⟩

theorem Shape.assertTail (h : Shape w l) (hp : w.putter = .assertTail qe) :
    Puts w l timestamp := by
  have hfound := h.found
  have htail := h.tail
  rw [hp] at hfound htail
  have hsome : w.queue.tail ≠ none := by simp [htail, PutPc.atTail]
  have hstep : putStep w timestamp = .ok (w.puts (.setHead qe)) := by
    simp only [putStep, hp, assertThat_ok hsome, bind, Except.bind]
  exact ⟨_, l, hstep, h.puts hp _ ⟨rfl, rfl, rfl, rfl⟩ hfound⟩

theorem Shape.setHead (h : Shape w l) (hp : w.putter = .setHead qe) : Puts w l timestamp := by
  obtain ⟨hhistory, -, htail, hlinked, hheld, hfound⟩ := h
  rw [hp] at htail hlinked hheld hfound
  obtain rfl : l = [] := hfound
  have hstep : putStep w timestamp =
      .ok ({ w with queue := { w.queue with head := some qe } }.puts (.setTimestamp qe)) := by
    simp only [putStep, hp]
  refine ⟨_, [], hstep, ⟨hhistory, rfl, htail, hlinked, hheld, trivial⟩, ?_⟩
  exact ⟨rfl, rfl, rfl, fun _ _ => rfl, held_subset hp rfl, linked_subset hp rfl,
    fun _ => Option.some_ne_none qe, fun _ => rfl⟩

/-- With its last step the entry is put. -/
theorem Shape.setTimestamp (h : Shape w l) (hp : w.putter = .setTimestamp qe) :
    Puts w l timestamp := by
  obtain ⟨e, he, -⟩ := h.get_held hp (List.mem_singleton_self qe)
  have hsame : nextOf (w.entries.set qe { e with timestamp := some timestamp }) =
      nextOf w.entries := nextOf_set_same he rfl
  obtain ⟨hhistory, hhead, htail, hlinked, -, -⟩ := h
  rw [hp] at hhead htail hlinked
  have hstep : putStep w timestamp = .ok ({ w with
      entries := w.entries.set qe { e with timestamp := some timestamp }
      put := w.put ++ [qe] }.puts .idle) := by
    simp only [putStep, hp, Heap.update_ok he, bind, Except.bind]
  refine ⟨_, l ++ [qe], hstep, ⟨?_, ?_, ?_, ?_, ?_, trivial⟩, ?_⟩
  · simp only [State.puts, hhistory, List.append_assoc]
  · simpa [State.puts, PutPc.atHead] using hhead
  · simpa [State.puts, PutPc.atTail] using htail
  · simpa only [State.puts, PutPc.linked, hsame, List.append_nil] using hlinked
  · exact fun a ha => absurd ha List.not_mem_nil
  · refine ⟨rfl, rfl, rfl, fun a ha => ?_, ?_, ?_, id, fun _ => rfl⟩
    · refine Heap.get_set_of_ne w.entries _ fun heq => ha ?_
      simp [hp, PutPc.held, heq]
    · rw [hp]
      simp [State.puts, PutPc.held]
    · rw [hp]
      simp [State.puts, PutPc.linked]

/-- **Every step of `q_put`.** -/
theorem Shape.put (h : Shape w l) (hp : w.putter ≠ .idle) (timestamp : ℤ) : Puts w l timestamp := by
  cases hpc : w.putter with
  | idle => exact absurd hpc hp
  | find qe => exact h.find hpc
  | findRound qe mQe => exact h.findRound hpc
  | testTail qe => exact h.testTail hpc
  | assertHead qe => exact h.assertHead hpc
  | readTail qe => exact h.readTail hpc
  | linkTail qe tail => exact h.linkTail hpc
  | clearNext qe => exact h.clearNext hpc
  | setTail qe => exact h.setTail hpc
  | testHead qe => exact h.testHead hpc
  | assertTail qe => exact h.assertTail hpc
  | setHead qe => exact h.setHead hpc
  | setTimestamp qe => exact h.setTimestamp hpc

/-- What `q_free` knows stays true. -/
theorem FreePc.Found.mono {pc : FreePc} {head head' : Ptr} {cells cells' : List Addr}
    (h : pc.Found head cells) (hhead : head ≠ none → head' ≠ none) (hcells : cells ⊆ cells') :
    pc.Found head' cells' := by
  cases pc with
  | testEmpty | assertEmpty | testHead | free => trivial
  | onlyHead | firstHead | initPrev => exact hhead h
  | readHead mQePrev => exact ⟨hhead h.1, h.2⟩
  | init mQePrev p =>
    obtain ⟨hsome, hprev, a, ha, hp⟩ := h
    exact ⟨hhead hsome, hprev, a, hcells ha, hp⟩
  | loopHead mQePrev mQe | loopTail mQePrev mQe => exact ⟨hhead h.1, h.2.1, hcells h.2.2⟩
  | advance mQe => exact ⟨hhead h.1, hcells h.2⟩
  | lastHead mQePrev | lastTail mQePrev => exact hhead h
  | onlyTail | assertOnly | clearTail | clearHead | firstTail | assertFirst | popHead
  | relink mQePrev mQe | skip mQePrev mQe | assertLast mQePrev | setTail mQePrev => exact h.elim

theorem Freeing.extends {pc : FreePc} (h : Freeing w l qe pc) (he : Extends w l w' l') :
    Freeing w' l' qe pc where
  got := by rw [he.got, he.freed, h.got]
  allocated := by
    rw [he.others qe h.apart]
    exact h.allocated
  apart hmem := h.apart (he.held hmem)
  found := h.found.mono he.head he.cells

theorem Inv.put (h : Inv w l) (hp : w.putter ≠ .idle) (timestamp : ℤ) :
    ∃ w' l', putStep w timestamp = .ok w' ∧ Inv w' l' ∧ Extends w l w' l' := by
  obtain ⟨w', l', hstep, hshape, he⟩ := h.shape.put hp timestamp
  refine ⟨w', l', hstep, ⟨hshape, fun qe pc hpc => ?_, fun hnone => ?_⟩, he⟩
  · exact (h.freeing qe pc (he.freer ▸ hpc)).extends he
  · rw [he.freed, he.got]
    exact h.freed (he.freer ▸ hnone)

/-! ## `q_free` -/

theorem Shape.head_ne_held (h : Shape w l) {pc : FreePc} (hf : Freeing w l qe pc) :
    some qe ≠ w.queue.head := by
  intro heq
  have hsub := (w.putter.linked_sublist).append_left l
  exact hf.apart (hsub.subset (h.head_mem heq.symm))

theorem Shape.tail_ne_held (h : Shape w l) {pc : FreePc} (hf : Freeing w l qe pc) :
    some qe ≠ w.queue.tail := by
  intro heq
  have hsub := (w.putter.linked_sublist).append_left l
  exact hf.apart (hsub.subset (h.tail_mem heq.symm))

theorem FreePc.loop_found {head mQePrev mQe : Ptr} {cells : List Addr} (hhead : head ≠ none)
    (hprev : mQePrev ≠ none) (hmem : ∀ a, mQe = some a → a ∈ cells) :
    (FreePc.loop mQePrev mQe).Found head cells := by
  cases mQe with
  | none => exact hhead
  | some a => exact ⟨hhead, hprev, hmem a rfl⟩

theorem FreePc.loop_ne (mQePrev mQe : Ptr) : FreePc.loop mQePrev mQe ≠ .assertEmpty := by
  cases mQe <;> simp [FreePc.loop]

/-- **Every step of `q_free` but the last one** only reads, whatever `q_put` has written so far. Its
assertion on the tail apart, none fails. -/
theorem Freeing.advances {pc : FreePc} (hf : Freeing w l qe pc) (h : Shape w l) (hne : pc ≠ .free)
    (hsafe : pc = .assertEmpty → w.queue.tail = none) :
    ∃ pc', freeStep w qe pc = .ok (w.frees qe pc') ∧
      pc'.Found w.queue.head (l ++ w.putter.linked) ∧
      (pc' = .assertEmpty ↔ pc = .testEmpty ∧ w.queue.head = none) := by
  have hhead := h.head_ne_held hf
  have htail := h.tail_ne_held hf
  have hfound := hf.found
  cases pc with
  | testEmpty =>
    by_cases hnone : w.queue.head = none
    · exact ⟨.assertEmpty, by simp only [freeStep, if_pos hnone], trivial, by simp [hnone]⟩
    · exact ⟨.testHead, by simp only [freeStep, if_neg hnone], trivial, by simp [hnone]⟩
  | assertEmpty =>
    refine ⟨.testHead, ?_, trivial, by simp⟩
    simp only [freeStep, assertThat_ok (hsafe rfl), bind, Except.bind]
  | testHead =>
    by_cases hsome : w.queue.head ≠ none
    · exact ⟨.onlyHead, by simp only [freeStep, if_pos hsome], hsome, by simp⟩
    · exact ⟨.free, by simp only [freeStep, if_neg hsome], trivial, by simp⟩
  -- the entry was taken, so it is neither the head nor the tail
  | onlyHead => exact ⟨.firstHead, by simp only [freeStep, if_neg hhead], hfound, by simp⟩
  | firstHead => exact ⟨.initPrev, by simp only [freeStep, if_neg hhead], hfound, by simp⟩
  | initPrev => exact ⟨.readHead w.queue.head, rfl, ⟨hfound, hfound⟩, by simp⟩
  | readHead mQePrev =>
    obtain ⟨a, ha⟩ := Option.ne_none_iff_exists'.1 hfound.1
    refine ⟨.init mQePrev w.queue.head, rfl, ⟨hfound.1, hfound.2, a, h.head_mem ha, ha⟩, by simp⟩
  | init mQePrev p =>
    obtain ⟨hsome, hprev, a, ha, rfl⟩ := hfound
    obtain ⟨e, he, hnext⟩ := h.load ha
    refine ⟨.loop mQePrev e.next, ?_, FreePc.loop_found hsome hprev hnext, ?_⟩
    · simp only [freeStep, Heap.load_ok he, bind, Except.bind]
    · simp [FreePc.loop_ne]
  | loopHead mQePrev mQe =>
    refine ⟨.loopTail mQePrev mQe, ?_, hfound, by simp⟩
    simp only [freeStep, assertThat_ok hfound.1, bind, Except.bind]
  | loopTail mQePrev mQe =>
    obtain ⟨hsome, hprev, hmem⟩ := hfound
    -- no entry of the queue is the one taken, so nothing is relinked
    have hne : mQe ≠ qe := fun heq =>
      hf.apart (((w.putter.linked_sublist).append_left l).subset (heq ▸ hmem))
    refine ⟨.advance mQe, ?_, ⟨hsome, hmem⟩, by simp⟩
    simp only [freeStep, assertThat_ok (h.tail_ne hsome), assertThat_ok hprev, if_neg hne, bind,
      Except.bind]
  | advance mQe =>
    obtain ⟨e, he, hnext⟩ := h.load hfound.2
    refine ⟨.loop (some mQe) e.next, ?_,
      FreePc.loop_found hfound.1 (Option.some_ne_none mQe) hnext, ?_⟩
    · simp only [freeStep, Heap.load_ok he, bind, Except.bind]
    · simp [FreePc.loop_ne]
  | lastHead mQePrev =>
    exact ⟨.lastTail mQePrev, by simp only [freeStep, if_pos hhead], hfound, by simp⟩
  | lastTail mQePrev => exact ⟨.free, by simp only [freeStep, if_neg htail], trivial, by simp⟩
  | free => exact absurd rfl hne
  -- places that are not reached
  | onlyTail | assertOnly | clearTail | clearHead | firstTail | assertFirst | popHead
  | relink mQePrev mQe | skip mQePrev mQe | assertLast mQePrev | setTail mQePrev =>
    exact hfound.elim

theorem Inv.frees {pc : FreePc} (h : Inv w l) (hf : w.freer = some (qe, pc)) {pc' : FreePc}
    (hfound : pc'.Found w.queue.head (l ++ w.putter.linked)) : Inv (w.frees qe pc') l := by
  obtain ⟨hgot, hallocated, hapart, -⟩ := h.freeing qe pc hf
  obtain ⟨hhistory, hhead, htail, hlinked, hheld, hput⟩ := h.shape
  refine ⟨⟨hhistory, hhead, htail, hlinked, hheld, hput⟩, fun qe' pc'' hpc => ?_, fun hnone => ?_⟩
  · simp only [State.frees, Option.some.injEq, Prod.mk.injEq] at hpc
    obtain ⟨rfl, rfl⟩ := hpc
    exact ⟨hgot, hallocated, hapart, hfound⟩
  · simp [State.frees] at hnone

/-- Its last step frees the entry, which nothing points to. -/
theorem Inv.release (h : Inv w l) (hf : w.freer = some (qe, .free)) :
    ∃ w', freeStep w qe .free = .ok w' ∧ Inv w' l ∧ w'.freer = none := by
  obtain ⟨hgot, hallocated, hapart, -⟩ := h.freeing qe .free hf
  obtain ⟨e, he⟩ := Option.isSome_iff_exists.1 hallocated
  obtain ⟨hhistory, hhead, htail, hlinked, hheld, hput⟩ := h.shape
  have hsame : ∀ a ∈ l ++ w.putter.held, nextOf (w.entries.drop qe) a = nextOf w.entries a := by
    intro a ha
    have hne : a ≠ qe := fun heq => hapart (heq ▸ ha)
    rw [nextOf, Heap.get_drop_of_ne _ hne, nextOf]
  refine ⟨{ w with entries := w.entries.drop qe, freer := none }, ?_, ⟨?_, ?_, ?_⟩, rfl⟩
  · simp only [freeStep, Heap.free_ok he, bind, Except.bind]
  · refine ⟨hhistory, hhead, htail, ?_, fun a ha => ?_, hput⟩
    · exact hlinked.congr fun a ha =>
        hsame a (((w.putter.linked_sublist).append_left l).subset ha)
    · rw [hsame a (List.mem_append_right l ha)]
      exact hheld a ha
  · intro qe' pc hpc
    cases hpc
  · intro _
    rw [Heap.freed_drop, hgot]

/-! ## Every step -/

/-- The assertion of `q_free` on the tail is about to fail. -/
def Doomed (w : State) : Prop := w.queue.tail ≠ none ∧ ∃ qe, w.freer = some (qe, .assertEmpty)

/-- `q_put` does not set the tail of the empty queue while `q_free` is at its assertion, nor has it
just done so when `q_free` tests the head. -/
def Clear (w : State) : Action → Prop
  | .put _ => ∀ qe qe', w.putter = .setTail qe → w.freer ≠ some (qe', .assertEmpty)
  | .free => ∀ qe, w.freer = some (qe, .testEmpty) → w.queue.head = none → w.queue.tail = none
  | _ => True

theorem inv_start : Inv State.start [] := by
  refine ⟨⟨rfl, rfl, rfl, trivial, ?_, trivial⟩, ?_, fun _ => rfl⟩
  · exact fun a ha => absurd ha List.not_mem_nil
  · intro qe pc hpc
    cases hpc

theorem Inv.begin (h : Inv w l) (hp : w.putter = .idle) (hfresh : w.entries.get qe = none)
    (ref : Addr) : ∃ w', OutQueue.begin w qe ref = .ok w' ∧ Inv w' l ∧ w'.freer = w.freer ∧
      w'.queue = w.queue := by
  have hq := h.shape.isQueue hp
  -- the entry is new, so the queue and the one being freed are others
  have hnot : qe ∉ l := by
    intro hmem
    have hsome := hq.isSome hmem
    rw [hfresh] at hsome
    cases hsome
  have hsame : ∀ a ≠ qe, (w.entries.set qe ⟨none, none, some ref⟩).get a = w.entries.get a :=
    fun a ha => Heap.get_set_of_ne w.entries _ ha
  have hq' : IsQueue w.queue (w.entries.set qe ⟨none, none, some ref⟩) l :=
    hq.congr fun a ha => hsame a fun heq => hnot (heq ▸ ha)
  refine ⟨_, rfl, ⟨⟨h.shape.history, ?_, ?_, ?_, ?_, trivial⟩, ?_, h.freed⟩, rfl, rfl⟩
  · simpa only [State.puts, PutPc.atHead, List.append_nil] using hq'.head
  · simpa only [State.puts, PutPc.atTail, List.append_nil] using hq'.tail
  · simpa only [State.puts, PutPc.linked, List.append_nil] using hq'.linked
  · intro a ha
    obtain rfl := List.mem_singleton.1 ha
    exact ⟨nextOf_set_self w.entries a _, hnot⟩
  · intro qe' pc hpc
    obtain ⟨hgot, hallocated, hapart, hfound⟩ := h.freeing qe' pc hpc
    have hne : qe' ≠ qe := by
      rintro rfl
      rw [hfresh] at hallocated
      cases hallocated
    rw [hp] at hapart hfound
    refine ⟨hgot, ?_, ?_, hfound⟩
    · rw [State.puts]
      simpa only [hsame qe' hne] using hallocated
    · simpa [State.puts, PutPc.held, hne] using hapart

theorem Inv.get (h : Inv w l) (hp : w.putter = .idle) (hf : w.freer = none) :
    ∃ w' l', OutQueue.get w = .ok w' ∧ Inv w' l' ∧ ∀ qe, w'.freer ≠ some (qe, .assertEmpty) := by
  have hq := h.shape.isQueue hp
  obtain ⟨q', hget, hq'⟩ := qGet_ok hq
  have hnil : ∀ {a : Addr} {xs : List Addr}, a ∉ xs → a ∉ xs ++ PutPc.idle.held := by
    intro a xs ha
    rwa [PutPc.held, List.append_nil]
  have hshape : ∀ got xs, w.put = got ++ xs → IsQueue q' w.entries xs →
      ∀ freer, Shape { w with queue := q', got := got, freer := freer } xs := by
    intro got xs hhistory hxs freer
    refine ⟨hhistory, ?_, ?_, ?_, ?_, ?_⟩
    · simpa only [hp, PutPc.atHead, List.append_nil] using hxs.head
    · simpa only [hp, PutPc.atTail, List.append_nil] using hxs.tail
    · simpa only [hp, PutPc.linked, List.append_nil] using hxs.linked
    · intro a ha
      simp [hp, PutPc.held] at ha
    · simp only [hp]
      trivial
  -- nothing is taken from an empty queue; otherwise the head is, and `q_free` begins
  obtain _ | ⟨qe, rest⟩ := l
  · refine ⟨{ w with queue := q' }, [], ?_, ⟨?_, ?_, h.freed⟩, ?_⟩
    · simp only [OutQueue.get, hget, List.head?_nil, bind, Except.bind]
    · exact hshape w.got [] h.shape.history hq' w.freer
    · intro qe pc hpc
      rw [hf] at hpc
      cases hpc
    · intro qe hpc
      rw [hf] at hpc
      cases hpc
  · refine ⟨{ w with queue := q', got := w.got ++ [qe] }.frees qe .testEmpty, rest, ?_, ⟨?_, ?_, ?_⟩, ?_⟩
    · simp only [OutQueue.get, hget, List.head?_cons, bind, Except.bind]
    · refine hshape (w.got ++ [qe]) rest ?_ hq' _
      rw [h.shape.history, List.append_assoc, List.singleton_append]
    · intro qe' pc hpc
      simp only [State.frees, Option.some.injEq, Prod.mk.injEq] at hpc
      obtain ⟨rfl, rfl⟩ := hpc
      refine ⟨?_, hq.isSome List.mem_cons_self, ?_, trivial⟩
      · simp only [State.frees, h.freed hf]
      · simp only [State.frees, hp]
        exact hnil (List.nodup_cons.1 hq.nodup).1
    · intro hnone
      simp [State.frees] at hnone
    · intro qe' hpc
      simp [State.frees] at hpc

/-- **A step from any state**: it goes through, unless the assertion is about to fail. -/
theorem Inv.step {a : Action} {o : Except Trap State} (h : Inv w l) (hs : Step w a o) :
    (∃ w' l', o = .ok w' ∧ Inv w' l') ∨ Doomed w ∧ a = .free ∧ o = .error .assertion := by
  cases hs with
  | begin qe ref hp hfresh =>
    obtain ⟨w', hstep, hinv, -⟩ := h.begin hp hfresh ref
    exact .inl ⟨w', l, hstep, hinv⟩
  | put timestamp hp =>
    obtain ⟨w', l', hstep, hinv, -⟩ := h.put hp timestamp
    exact .inl ⟨w', l', hstep, hinv⟩
  | get hp hf =>
    obtain ⟨w', l', hstep, hinv, -⟩ := h.get hp hf
    exact .inl ⟨w', l', hstep, hinv⟩
  | free qe pc hf =>
    by_cases hfree : pc = .free
    · subst hfree
      obtain ⟨w', hstep, hinv, -⟩ := h.release hf
      exact .inl ⟨w', l, hstep, hinv⟩
    by_cases hsafe : pc = .assertEmpty → w.queue.tail = none
    · obtain ⟨pc', hstep, hfound, -⟩ := (h.freeing qe pc hf).advances h.shape hfree hsafe
      exact .inl ⟨_, l, hstep, h.frees hf hfound⟩
    · simp only [Classical.not_imp] at hsafe
      obtain ⟨rfl, htail⟩ := hsafe
      refine .inr ⟨⟨htail, qe, hf⟩, rfl, ?_⟩
      simp only [freeStep, assertThat, if_neg htail, bind, Except.bind]

theorem Inv.goes {a : Action} (h : Inv w l) (hs : Goes w a w') : ∃ l', Inv w' l' := by
  rcases h.step hs with ⟨w'', l', heq, hinv⟩ | ⟨-, -, herr⟩
  · cases heq
    exact ⟨l', hinv⟩
  · cases herr

/-- **The steps that doom the program.** -/
theorem Inv.doomed_iff {a : Action} (h : Inv w l) (hnot : ¬Doomed w) (hs : Goes w a w') :
    ¬Doomed w' ↔ Clear w a := by
  unfold Goes at hs
  generalize ho : Except.ok w' = o at hs
  cases hs with
  | begin qe ref hp hfresh =>
    obtain ⟨w'', hstep, -, hfreer, hqueue⟩ := h.begin hp hfresh ref
    rw [hstep] at ho
    cases ho
    refine iff_of_true ?_ trivial
    rwa [Doomed, hqueue, hfreer]
  | put timestamp hp =>
    obtain ⟨w'', l', hstep, -, he⟩ := h.put hp timestamp
    rw [hstep] at ho
    cases ho
    rw [Doomed, he.freer]
    -- the one write of `q_put` to the tail
    by_cases hset : ∃ qe, w.putter = .setTail qe
    · obtain ⟨qe, hqe⟩ := hset
      simp only [putStep, hqe] at hstep
      cases hstep
      constructor
      · intro hnone qe' r hr hf
        exact hnone ⟨Option.some_ne_none qe, r, hf⟩
      · rintro hclear ⟨-, r, hf⟩
        exact hclear qe r hqe hf
    · have hnever : ∀ qe, w.putter ≠ .setTail qe := fun qe hqe => hset ⟨qe, hqe⟩
      rw [he.tail hnever]
      exact iff_of_true hnot fun qe qe' hqe => absurd hqe (hnever qe)
  | get hp hf =>
    obtain ⟨w'', l', hstep, -, hfreer⟩ := h.get hp hf
    rw [hstep] at ho
    cases ho
    exact iff_of_true (fun ⟨_, qe, hqe⟩ => hfreer qe hqe) trivial
  | free qe pc hf =>
    by_cases hfree : pc = .free
    · subst hfree
      obtain ⟨w'', hstep, -, hfreer⟩ := h.release hf
      rw [hstep] at ho
      cases ho
      refine iff_of_true (fun ⟨_, qe', hqe'⟩ => ?_) fun qe' hqe' => ?_
      · rw [hfreer] at hqe'
        cases hqe'
      · rw [hf] at hqe'
        cases hqe'
    -- the assertion holds here, as the state is not doomed
    have hsafe : pc = .assertEmpty → w.queue.tail = none := by
      rintro rfl
      by_contra htail
      exact hnot ⟨htail, qe, hf⟩
    obtain ⟨pc', hstep, -, hassert⟩ := (h.freeing qe pc hf).advances h.shape hfree hsafe
    rw [hstep] at ho
    cases ho
    -- only the test of the head leads to the assertion
    have hdoomed : Doomed (w.frees qe pc') ↔ w.queue.tail ≠ none ∧ pc' = .assertEmpty := by
      simp [Doomed, State.frees]
    have hclear : Clear w .free ↔ (pc = .testEmpty → w.queue.head = none → w.queue.tail = none) := by
      simp only [Clear, hf, Option.some.injEq, Prod.mk.injEq]
      exact ⟨fun hall => fun hpc => hall qe ⟨rfl, hpc⟩, fun himp qe' hqe' => himp hqe'.2⟩
    rw [hdoomed, hclear, hassert]
    constructor
    · intro hnone hpc hhead
      by_contra htail
      exact hnone ⟨htail, hpc, hhead⟩
    · rintro himp ⟨htail, hpc, hhead⟩
      exact htail (himp hpc hhead)

/-! ## Runs -/

variable {tr : List (Action × State)}

theorem exists_inv (h : Exec Goes State.start tr) : ∀ w ∈ states State.start tr, ∃ l, Inv w l :=
  h.inv (I := fun w => ∃ l, Inv w l) (fun _ _ _ ⟨_, hinv⟩ hs => hinv.goes hs) ⟨[], inv_start⟩

/-- **First in, first out.** Whenever no entry is being put, the queue is that of the entries put and
not yet taken, in their order. What was taken has been freed, once each, but for the entry that
`q_free` is at. -/
theorem outQueue_fifo (h : Exec Goes State.start tr) : ∀ w ∈ states State.start tr,
    (w.putter = .idle → ∃ l, w.put = w.got ++ l ∧ IsQueue w.queue w.entries l) ∧
      w.got = w.entries.freed ++ (w.freer.map Prod.fst).toList := by
  intro w hw
  obtain ⟨l, hinv⟩ := exists_inv h w hw
  refine ⟨fun hp => ⟨l, hinv.shape.history, hinv.shape.isQueue hp⟩, ?_⟩
  cases hf : w.freer with
  | none => simp [hinv.freed hf]
  | some x =>
    obtain ⟨qe, pc⟩ := x
    simp [(hinv.freeing qe pc hf).got]

/-- The state that a step leads to, where it can be taken and does not end the program. -/
def next (w : State) : Action → Option State
  | .begin qe ref =>
    if w.putter = .idle ∧ (w.entries.get qe).isNone then (begin w qe ref).toOption else none
  | .put timestamp => if w.putter ≠ .idle then (putStep w timestamp).toOption else none
  | .get => if w.putter = .idle ∧ w.freer = none then (get w).toOption else none
  | .free => w.freer.bind fun (qe, pc) => (freeStep w qe pc).toOption

theorem toOption_eq_some {α ε : Type} {x : Except ε α} {a : α} (h : x.toOption = some a) :
    x = .ok a := by
  cases x with
  | ok b => exact congrArg Except.ok (Option.some.inj h)
  | error e => cases h

theorem goes_of_next {a : Action} (h : next w a = some w') : Goes w a w' := by
  unfold Goes
  cases a with
  | begin qe ref =>
    simp only [next, Option.ite_none_right_eq_some, Option.isNone_iff_eq_none] at h
    rw [← toOption_eq_some h.2]
    exact .begin w qe ref h.1.1 h.1.2
  | put timestamp =>
    simp only [next, Option.ite_none_right_eq_some] at h
    rw [← toOption_eq_some h.2]
    exact .put w timestamp h.1
  | get =>
    simp only [next, Option.ite_none_right_eq_some] at h
    rw [← toOption_eq_some h.2]
    exact .get w h.1.1 h.1.2
  | free =>
    simp only [next, Option.bind_eq_some_iff] at h
    obtain ⟨⟨qe, pc⟩, hf, h⟩ := h
    rw [← toOption_eq_some h]
    exact .free w qe pc hf

/-- Two entries are put, and the first one is freed while the second one is linked. -/
def meanwhile : List Action :=
  .begin 1 5 :: List.replicate 8 (.put 0) ++ [.get, .begin 2 6] ++ List.replicate 2 (.put 0) ++
    [.free, .free, .free, .free] ++ List.replicate 6 (.put 0)

/-- The first entry is put, and taken; it is freed while the second one is put, up to its head. -/
def overtaken : List Action :=
  .begin 1 5 :: List.replicate 8 (.put 0) ++ [.get, .begin 2 6] ++ List.replicate 4 (.put 0) ++
    [.free]

/-- The second entry is in the queue, and the first one freed. -/
theorem outQueue_fifo_meanwhile : ∃ tr, Exec Goes State.start tr ∧
    (final State.start tr).entries.freed = [1] ∧
    IsQueue (final State.start tr).queue (final State.start tr).entries [2] := by
  obtain ⟨w, ⟨tr, hex, -, rfl⟩, hw⟩ := exists_leads (f := next) (s := State.start)
    (fun _ _ _ h => goes_of_next h) meanwhile
    (fun w => w.putter = .idle ∧ w.freer = none ∧ w.put = [1, 2] ∧ w.got = [1]) (by decide)
  obtain ⟨hp, hf, hput, hgot⟩ := of_decide_eq_true hw
  obtain ⟨hfifo, hfreed⟩ := outQueue_fifo hex _ (final_mem_states _ _)
  obtain ⟨l, hl, hq⟩ := hfifo hp
  rw [hput, hgot] at hl
  obtain rfl : l = [2] := by simpa using hl.symm
  refine ⟨tr, hex, ?_, hq⟩
  rw [hf, hgot] at hfreed
  simpa using hfreed.symm

end Muxer.OutQueue
