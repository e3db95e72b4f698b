import Muxer.Proof.Handles

/-!
# Whose failure a client is dropped for

`e_fd` holds handles. While a thread has one that `select` reported, the other thread may drop the
client it was reported for, and the reader may accept another client on the same handle.

* `own_failure_of_fresh`: clients are dropped for failures of their own in a run in which no handle
  is accepted that is in a set still in use.
* `own_failure_fails`: the writer drops a client for the failure of its predecessor.
-/

namespace Muxer.Handles

open Lib

variable {w w' : State} {a : Action}

/-- The sets a thread has outside `csec_connections`. -/
def Pc.sets : Pc → Option FdSets
  | .returned sets => some sets
  | .accepted _ sets => some sets
  | .ready sets => some sets
  | _ => none

def Dropper.sets : Dropper → Option FdSets
  | .sweep _ sets => some sets
  | .removeAll _ => none

/-- The sets of the thread in `csec_connections`. -/
def Section.sets : Section → Option FdSets
  | .sweep _ _ sets => some sets
  | .shut d _ => d.sets
  | .remove d _ => d.sets
  | _ => none

@[simp] theorem sets_resume (d : Dropper) : d.resume.sets = d.sets := by cases d <;> rfl

/-- The reader or the writer has these sets from its last `select`. -/
def State.InUse (w : State) (sets : FdSets) : Prop :=
  (∃ t, (w.pc t).sets = some sets) ∨ w.connections.sets = some sets

/-- A handle accepted is in no `e_fd` still in use. -/
def FreshHandle (w : State) (a : Action) : Prop :=
  ∀ s, a = .accept s → ∀ sets, w.InUse sets → ¬sets.IsExcept s

/-- A client dropped because its handle is in `e_fd` is the one that was reported. -/
def OwnFailure (w : State) (a : Action) : Prop :=
  a = .except → ∀ t i sets conn, w.connections = .sweep t i sets →
    w.mux.connections[i]? = some conn → ∀ n, (conn.socket, n) ∈ sets.except →
      n = w.number conn.socket

/-- What is reported of a handle is about the last client accepted on it. -/
def FdSets.Current (sets : FdSets) (accepts : Socket → ℕ) : Prop :=
  ∀ s n, (s, n) ∈ sets.except → n = accepts s

theorem FdSets.Current.clrExcept {sets : FdSets} {accepts : Socket → ℕ} (h : sets.Current accepts)
    (s : Socket) : (sets.clrExcept s).Current accepts :=
  fun r n hr => h r n (List.mem_of_mem_filter hr)

theorem FdSets.Current.clrData {sets : FdSets} {accepts : Socket → ℕ} (h : sets.Current accepts)
    (s : Socket) : (sets.clrData s).Current accepts := h

/-- The sets in use are current, and so are the clients inserted, but for one whose handle may be
closed. -/
structure ReportedOK (sockets : List Socket) (accepts number : Socket → ℕ) (pc : Thread → Pc)
    (c : Section) : Prop where
  numbers : ∀ s ∈ sockets, c.closed = some s ∨ number s = accepts s
  outside : ∀ t sets, (pc t).sets = some sets → sets.Current accepts
  inside : ∀ sets, c.sets = some sets → sets.Current accepts

def Reported (w : State) : Prop := ReportedOK w.sockets w.accepts w.number w.pc w.connections

theorem reported_start : Reported State.start where
  numbers := by simp [State.sockets, State.start, Mux.start]
  outside := by simp [State.start, Pc.sets]
  inside := by simp [State.start, Section.sets]

section

variable {sockets : List Socket} {accepts number : Socket → ℕ} {pc : Thread → Pc} {c : Section}
  {s : Socket}

/-- A thread moves on with sets that are current. -/
theorem ReportedOK.move (h : ReportedOK sockets accepts number pc c) (t : Thread) {p : Pc}
    (hp : ∀ sets, p.sets = some sets → sets.Current accepts) :
    ReportedOK sockets accepts number (Function.update pc t p) c :=
  { h with
    outside := by
      intro t' sets ht'
      by_cases heq : t' = t
      · rw [heq, Function.update_self] at ht'
        exact hp sets ht'
      · rw [Function.update_of_ne heq] at ht'
        exact h.outside t' sets ht' }

/-- The holder of `csec_connections` moves on, with no handle closed before or after. -/
theorem ReportedOK.turn (h : ReportedOK sockets accepts number pc c) {c' : Section}
    (hc : c.closed = none) (hsets : ∀ sets, c'.sets = some sets → sets.Current accepts) :
    ReportedOK sockets accepts number pc c' :=
  { h with
    numbers := fun s hs => .inr ((h.numbers s hs).resolve_left (by rw [hc]; simp))
    inside := hsets }

theorem ReportedOK.accept (h : ReportedOK sockets accepts number pc c)
    (hs : s ∈ sockets → c.closed = some s)
    (hfresh : ∀ sets, (∃ t, (pc t).sets = some sets) ∨ c.sets = some sets → ¬sets.IsExcept s) :
    ReportedOK sockets (Function.update accepts s (accepts s + 1)) number pc c := by
  -- the sets in use have nothing on the handle
  have hkeep : ∀ sets : FdSets, ¬sets.IsExcept s → sets.Current accepts →
      sets.Current (Function.update accepts s (accepts s + 1)) := by
    intro sets hnot hcur r n hr
    have hne : r ≠ s := fun heq => hnot (heq ▸ List.mem_map_of_mem hr)
    rw [Function.update_of_ne hne]
    exact hcur r n hr
  refine ⟨?_, ?_, ?_⟩
  · intro r hr
    by_cases heq : r = s
    · exact .inl (heq ▸ hs (heq ▸ hr))
    · rw [Function.update_of_ne heq]
      exact h.numbers r hr
  · intro t sets ht
    exact hkeep sets (hfresh sets (.inl ⟨t, ht⟩)) (h.outside t sets ht)
  · intro sets hc
    exact hkeep sets (hfresh sets (.inr hc)) (h.inside sets hc)

theorem ReportedOK.insert (h : ReportedOK sockets accepts number pc c) (s : Socket) :
    ReportedOK (sockets ++ [s]) accepts (Function.update number s (accepts s)) pc c :=
  { h with
    numbers := by
      intro r hr
      by_cases heq : r = s
      · rw [heq, Function.update_self]
        exact .inr rfl
      · rw [Function.update_of_ne heq]
        have hr : r ∈ sockets := by simpa [heq] using hr
        exact h.numbers r hr }

theorem ReportedOK.remove {d : Dropper} (h : ReportedOK sockets accepts number pc (.remove d s)) :
    ReportedOK (sockets.filter (· != s)) accepts number pc d.resume where
  numbers r hr := by
    obtain ⟨hr, hne⟩ := List.mem_filter.1 hr
    rcases h.numbers r hr with hc | heq
    · cases hc
      simp at hne
    · exact .inr heq
  outside := h.outside
  inside sets hsets := h.inside sets (by rw [sets_resume] at hsets; exact hsets)

end

/-- **Every step keeps what is reported current**, if it accepts no handle reported. -/
theorem Reported.step (hd : Distinct w) (h : Reported w) (hfresh : FreshHandle w a)
    (hs : Step w a w') : Reported w' := by
  unfold Reported at *
  cases hs with
  | setupFdSet t hpc hfree => exact h.move t (by simp [Pc.sets])
  | select t fds except data hpc he hdata =>
    refine h.move t fun sets hsets => ?_
    cases hsets
    intro s n hn
    obtain ⟨r, -, hr⟩ := List.mem_map.1 hn
    cases hr
    rfl
  | selectFailed t fds hpc => exact h.move t (by simp [Pc.sets])
  | accept s sets hpc hpos hs =>
    -- the condition on the step: no set in use reports the handle accepted
    have haccept := h.accept (fun hmem => (hd.handles s hmem).resolve_left hs) (hfresh s rfl)
    refine haccept.move .reader fun sets' hsets => ?_
    cases hsets
    exact haccept.outside .reader sets (by rw [hpc]; rfl)
  | insert s sets hpc hfree =>
    have hinsert := (h.insert s).move .reader (p := .ready sets) fun sets' hsets => by
      cases hsets
      exact h.outside .reader sets (by rw [hpc]; rfl)
    simpa [State.sockets, allocConnection] using hinsert
  | enter t sets hpc hfree =>
    rw [hfree] at h
    refine (h.move t (by simp [Pc.sets])).turn rfl fun sets' hsets => ?_
    cases hsets
    rcases hpc with hpc | hpc
    · exact h.outside t sets (by rw [hpc]; rfl)
    · exact h.outside t sets (by rw [hpc]; rfl)
  -- the rounds of a sweep only take sockets out of the sets
  | except t i sets conn hsweep hi he =>
    rw [hsweep] at h
    refine h.turn rfl fun sets' hsets => ?_
    cases hsets
    exact (h.inside sets rfl).clrExcept conn.socket
  | fail t i sets conn hsweep hi he hdata =>
    rw [hsweep] at h
    refine h.turn rfl fun sets' hsets => ?_
    cases hsets
    exact (h.inside sets rfl).clrData conn.socket
  | next t i sets conn hsweep hi he =>
    rw [hsweep] at h
    refine h.turn rfl fun sets' hsets => ?_
    cases hsets
    exact (h.inside sets rfl).clrData conn.socket
  | leave t i sets hsweep hi =>
    rw [hsweep] at h
    exact (h.move t (by simp [Pc.sets])).turn rfl (by simp [Section.sets])
  -- those of `remove_all_connections` have no sets
  | removeAll hfree =>
    rw [hfree] at h
    exact h.turn rfl (by simp [Section.sets])
  | removeNext s rest hall =>
    rw [hall] at h
    exact h.turn rfl (by simp [Section.sets, Dropper.sets])
  | removeDone hall =>
    rw [hall] at h
    exact h.turn rfl (by simp [Section.sets])
  | shutdown d s closed hshut =>
    rw [hshut] at h
    exact { h with
      numbers := fun r hr => .inr ((h.numbers r hr).resolve_left (by simp [Section.closed])) }
  | remove d s m hrem hm =>
    rw [removes hd hrem] at hm
    cases hm
    rw [hrem] at h
    have hremove := h.remove
    simpa [State.sockets, unlinkConnection, removeAllMappingsFor, List.filter_map,
      Function.comp_def] using hremove

/-- **A client is dropped only for its own failure**, in a run in which no handle is accepted that
is in an `e_fd` still in use. -/
theorem own_failure_of_fresh {tr : List (Action × State)} (h : Exec Step State.start tr)
    (hfresh : Steps FreshHandle State.start tr) : Steps OwnFailure State.start tr := by
  refine h.steps_of_inv (I := fun w => Distinct w ∧ Reported w) (P := FreshHandle)
    (fun w a w' ⟨hd, hr⟩ hf hs => ⟨hd.step hs, hr.step hd hf hs⟩) ?_
    ⟨distinct_start, reported_start⟩ hfresh
  rintro w a w' ⟨hd, hr⟩ - rfl t i sets conn hsweep hi n hn
  have hs : conn.socket ∈ w.sockets := List.mem_map_of_mem (List.mem_of_getElem? hi)
  -- the handle of the connection that is dropped is that of the client reported
  have hnumber := (hr.numbers _ hs).resolve_left (by rw [hsweep]; simp [Section.closed])
  rw [hnumber]
  exact hr.inside sets (by rw [hsweep]; rfl) _ n hn

/-- Nothing is reported in the sets in use. -/
theorem freshHandle_of_none (hpc : ∀ t sets, (w.pc t).sets = some sets → sets.except = [])
    (hc : w.connections.sets = none) : FreshHandle w a := by
  rintro s - sets (⟨t, ht⟩ | hsec) hex
  · rw [FdSets.IsExcept, hpc t sets ht] at hex
    exact List.not_mem_nil hex
  · rw [hc] at hsec
    cases hsec

/-- The reader drops the client that `select` reported to it, accepts another one on its handle, and
drops that one when it is reported; the writer's set of writable sockets has the handle all along. -/
theorem own_failure_of_fresh_twice : ∃ tr, Exec Step State.start tr ∧
    Steps FreshHandle State.start tr ∧ (∃ d, (final State.start tr).connections = .shut d 5) ∧
    (final State.start tr).number 5 = 2 ∧ Steps OwnFailure State.start tr := by
  obtain ⟨tr, hex, hfresh, hshut, hnumber⟩ : ∃ tr, Exec Step State.start tr ∧
      Steps FreshHandle State.start tr ∧ (∃ d, (final State.start tr).connections = .shut d 5) ∧
      (final State.start tr).number 5 = 2 := by
    -- first the client comes, then it is reported and dropped, then the next one comes and is too
    refine ⟨_,
      .cons (.setupFdSet _ .reader rfl rfl) <|
      .cons (.select _ .reader [] [] [] rfl (List.nil_subset _) (List.nil_subset _)) <|
      .cons (.accept _ 5 _ rfl (by decide) List.not_mem_nil) <|
      .cons (.insert _ 5 _ rfl rfl) <|
      .cons (.enter _ .reader _ (.inr rfl) rfl) <|
      .cons (.next _ .reader 0 _ (allocConnection 5) rfl rfl List.not_mem_nil) <|
      .cons (.leave _ .reader 1 _ rfl rfl) <|
      .cons (.setupFdSet _ .reader rfl rfl) <|
      .cons (.setupFdSet _ .writer rfl rfl) <|
      .cons (.select _ .reader [5] [5] [] rfl (List.Subset.refl _) (List.nil_subset _)) <|
      .cons (.select _ .writer [5] [] [5] rfl (List.nil_subset _) (List.Subset.refl _)) <|
      .cons (.enter _ .reader _ (.inl rfl) rfl) <|
      .cons (.except _ .reader 0 _ (allocConnection 5) rfl rfl List.mem_cons_self) <|
      .cons (.shutdown _ _ 5 true rfl) <|
      .cons (.remove _ _ 5 _ rfl rfl) <|
      .cons (.leave _ .reader 0 _ rfl rfl) <|
      .cons (.setupFdSet _ .reader rfl rfl) <|
      .cons (.select _ .reader [] [] [] rfl (List.nil_subset _) (List.nil_subset _)) <|
      .cons (.accept _ 5 _ rfl (by decide) (by decide)) <|
      .cons (.insert _ 5 _ rfl rfl) <|
      .cons (.enter _ .reader _ (.inr rfl) rfl) <|
      .cons (.next _ .reader 0 _ (allocConnection 5) rfl rfl List.not_mem_nil) <|
      .cons (.leave _ .reader 1 _ rfl rfl) <|
      .cons (.setupFdSet _ .reader rfl rfl) <|
      .cons (.select _ .reader [5] [5] [] rfl (List.Subset.refl _) (List.nil_subset _)) <|
      .cons (.enter _ .reader _ (.inl rfl) rfl) <|
      .cons (.except _ .reader 0 _ (allocConnection 5) rfl rfl List.mem_cons_self) <|
      .nil _, ?_, ⟨_, rfl⟩, rfl⟩
    refine ⟨nofun, nofun, freshHandle_of_none ?_ rfl, nofun, nofun, nofun, nofun, nofun, nofun,
      nofun, nofun, nofun, nofun, nofun, nofun, nofun, nofun, nofun, freshHandle_of_none ?_ rfl,
      nofun, nofun, nofun, nofun, nofun, nofun, nofun, nofun, trivial⟩
    · intro t sets ht
      cases t with
      | reader =>
        cases ht
        rfl
      | writer => cases ht
    · intro t sets ht
      cases t with
      | reader =>
        cases ht
        rfl
      | writer =>
        cases ht
        rfl
  exact ⟨tr, hex, hfresh, hshut, hnumber, own_failure_of_fresh hex hfresh⟩

/-- `select` reports a client to both threads; the reader drops it and accepts another one on its
handle, which the writer drops. -/
theorem own_failure_fails : ∃ tr, Exec Step State.start tr ∧ ¬Steps OwnFailure State.start tr := by
  obtain ⟨tr, sets, hex, hsweep, hconn, hnumber, hmem⟩ : ∃ tr sets, Exec Step State.start tr ∧
      (final State.start tr).connections = .sweep .writer 0 sets ∧
      (final State.start tr).mux.connections = [allocConnection 5] ∧
      (final State.start tr).number 5 = 2 ∧ (5, 1) ∈ sets.except := by
    refine ⟨_, _,
      .cons (.setupFdSet _ .reader rfl rfl) <|
      .cons (.select _ .reader [] [] [] rfl (List.nil_subset _) (List.nil_subset _)) <|
      .cons (.accept _ 5 _ rfl (by decide) List.not_mem_nil) <|
      .cons (.insert _ 5 _ rfl rfl) <|
      .cons (.enter _ .reader _ (.inr rfl) rfl) <|
      .cons (.next _ .reader 0 _ (allocConnection 5) rfl rfl List.not_mem_nil) <|
      .cons (.leave _ .reader 1 _ rfl rfl) <|
      .cons (.setupFdSet _ .reader rfl rfl) <|
      .cons (.setupFdSet _ .writer rfl rfl) <|
      .cons (.select _ .reader [5] [5] [] rfl (List.Subset.refl _) (List.nil_subset _)) <|
      .cons (.select _ .writer [5] [5] [] rfl (List.Subset.refl _) (List.nil_subset _)) <|
      .cons (.enter _ .reader _ (.inl rfl) rfl) <|
      .cons (.except _ .reader 0 _ (allocConnection 5) rfl rfl List.mem_cons_self) <|
      .cons (.shutdown _ _ 5 true rfl) <|
      .cons (.remove _ _ 5 _ rfl rfl) <|
      .cons (.leave _ .reader 0 _ rfl rfl) <|
      .cons (.setupFdSet _ .reader rfl rfl) <|
      .cons (.select _ .reader [] [] [] rfl (List.nil_subset _) (List.nil_subset _)) <|
      .cons (.accept _ 5 _ rfl (by decide) (by decide)) <|
      .cons (.insert _ 5 _ rfl rfl) <|
      .cons (.enter _ .writer _ (.inl rfl) rfl) <|
      .nil _, rfl, rfl, rfl, List.mem_cons_self⟩
  have hi : (final State.start tr).mux.connections[0]? = some (allocConnection 5) := by
    rw [hconn]
    rfl
  refine ⟨_, hex.snoc (.except _ .writer 0 sets (allocConnection 5) hsweep hi
    (List.mem_map_of_mem hmem)), fun hown => ?_⟩
  -- the report is about the first client, and the second is dropped
  have hsame := hown.last rfl .writer 0 sets (allocConnection 5) hsweep hi 1 hmem
  rw [show (allocConnection 5).socket = 5 from rfl, hnumber] at hsame
  cases hsame

end Muxer.Handles
