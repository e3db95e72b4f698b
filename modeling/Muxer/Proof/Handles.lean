import Muxer.Lib.Exec
import Muxer.Proof.Session
import Muxer.System.Handles

/-!
# Clients have distinct sockets

A handle is closed only inside `csec_connections`, by a thread that unlinks its client before it
leaves. So the handle of a client accepted may be that of a client yet to be unlinked, but not any
more once it is inserted.

* `Distinct.step`: every step keeps the sockets distinct.
* `clients_distinct`: **the assertion of `remove_connection` never fails**.
-/

namespace Muxer.Handles

open Lib

variable {w w' : State} {a : Action}

/-- The sockets `remove_all_connections` has yet to remove. -/
def Dropper.rest : Dropper → List Socket
  | .sweep _ _ => []
  | .removeAll rest => rest

/-- The sockets to be removed before `csec_connections` is left, as far as that is settled. -/
def Section.doomed : Section → List Socket
  | .free => []
  | .sweep _ _ _ => []
  | .removeAll rest => rest
  | .shut d s => s :: d.rest
  | .remove d s => s :: d.rest

/-- The socket whose handle may be closed, although its client is not unlinked yet. -/
def Section.closed : Section → Option Socket
  | .remove _ s => some s
  | _ => none

@[simp] theorem doomed_resume (d : Dropper) : d.resume.doomed = d.rest := by cases d <;> rfl

@[simp] theorem closed_resume (d : Dropper) : d.resume.closed = none := by cases d <;> rfl

/-- Clients have distinct sockets, and their handles are open, but for one that is about to be
unlinked. -/
structure DistinctOK (sockets opened : List Socket) (pc : Thread → Pc) (c : Section) : Prop where
  nodup : sockets.Nodup
  handles : ∀ s ∈ sockets, s ∈ opened ∨ c.closed = some s
  accepted : ∀ s sets, pc .reader = .accepted s sets →
    s ∈ opened ∧ (s ∈ sockets → c.closed = some s)
  doomed : c.doomed ⊆ sockets
  doomedNodup : c.doomed.Nodup

def Distinct (w : State) : Prop := DistinctOK w.sockets w.opened w.pc w.connections

theorem distinct_start : Distinct State.start where
  nodup := List.nodup_nil
  handles := by simp [State.sockets, State.start, Mux.start]
  accepted := by simp [State.start]
  doomed := List.nil_subset _
  doomedNodup := List.nodup_nil

section

variable {sockets opened : List Socket} {pc : Thread → Pc} {c : Section} {s : Socket}

/-- A thread moves on, though not to a client accepted. -/
theorem DistinctOK.move (h : DistinctOK sockets opened pc c) (t : Thread) {p : Pc}
    (hp : ∀ s sets, p ≠ .accepted s sets) :
    DistinctOK sockets opened (Function.update pc t p) c :=
  { h with
    accepted := by
      intro s sets hs
      by_cases heq : .reader = t
      · rw [heq, Function.update_self] at hs
        exact absurd hs (hp s sets)
      · rw [Function.update_of_ne heq] at hs
        exact h.accepted s sets hs }

theorem DistinctOK.accept (h : DistinctOK sockets opened pc c) (sets : FdSets) (hs : s ∉ opened) :
    DistinctOK sockets (s :: opened) (Function.update pc .reader (.accepted s sets)) c :=
  { h with
    handles := fun r hr => (h.handles r hr).imp_left (List.mem_cons_of_mem s)
    accepted := by
      intro r sets' hr
      rw [Function.update_self] at hr
      cases hr
      exact ⟨List.mem_cons_self, fun hmem => (h.handles s hmem).resolve_left hs⟩ }

/-- A socket is inserted once its previous client is unlinked. -/
theorem DistinctOK.insert {sets : FdSets} (h : DistinctOK sockets opened pc .free)
    (hpc : pc .reader = .accepted s sets) :
    DistinctOK (sockets ++ [s]) opened (Function.update pc .reader (.ready sets)) .free := by
  obtain ⟨hopen, hmem⟩ := h.accepted s sets hpc
  have hfresh : s ∉ sockets := fun hs => nomatch hmem hs
  refine ⟨?_, ?_, ?_, List.nil_subset _, List.nodup_nil⟩
  · rw [List.nodup_append_comm]
    exact List.nodup_cons.2 ⟨hfresh, h.nodup⟩
  · intro r hr
    rcases List.mem_append.1 hr with hr | hr
    · exact h.handles r hr
    · rw [List.mem_singleton.1 hr]
      exact .inl hopen
  · intro r sets' hr
    rw [Function.update_self] at hr
    cases hr

/-- The holder of `csec_connections` moves on, with no handle closed before or after. -/
theorem DistinctOK.turn (h : DistinctOK sockets opened pc c) {c' : Section} (hc : c.closed = none)
    (hc' : c'.closed = none) (hsub : c'.doomed ⊆ sockets) (hnd : c'.doomed.Nodup) :
    DistinctOK sockets opened pc c' :=
  { h with
    handles := by rw [hc', ← hc]; exact h.handles
    accepted := by rw [hc', ← hc]; exact h.accepted
    doomed := hsub
    doomedNodup := hnd }

theorem DistinctOK.shutdown {d : Dropper} (h : DistinctOK sockets opened pc (.shut d s))
    (closed : Bool) :
    DistinctOK sockets (if closed then opened.filter (· != s) else opened) pc (.remove d s) := by
  have hs : s ∈ sockets := h.doomed List.mem_cons_self
  refine ⟨h.nodup, ?_, ?_, h.doomed, h.doomedNodup⟩
  · intro r hr
    by_cases heq : r = s
    · exact .inr (by rw [heq]; rfl)
    · rcases h.handles r hr with ho | hc
      · exact .inl (mem_closed closed ho heq)
      · cases hc
  · intro r sets hpc
    obtain ⟨hopen, hmem⟩ := h.accepted r sets hpc
    have hr : r ∉ sockets := fun hr => nomatch hmem hr
    exact ⟨mem_closed closed hopen fun heq => hr (heq ▸ hs), fun hmem => absurd hmem hr⟩

theorem DistinctOK.remove {d : Dropper} (h : DistinctOK sockets opened pc (.remove d s)) :
    DistinctOK (sockets.filter (· != s)) opened pc d.resume := by
  have hdoomed := List.nodup_cons.1 h.doomedNodup
  refine ⟨h.nodup.filter _, ?_, ?_, ?_, by rw [doomed_resume]; exact hdoomed.2⟩
  · intro r hr
    obtain ⟨hr, hne⟩ := List.mem_filter.1 hr
    rcases h.handles r hr with ho | hc
    · exact .inl ho
    · cases hc
      simp at hne
  · intro r sets hpc
    obtain ⟨hopen, hmem⟩ := h.accepted r sets hpc
    refine ⟨hopen, fun hr => ?_⟩
    obtain ⟨hr, hne⟩ := List.mem_filter.1 hr
    cases hmem hr
    simp at hne
  · rw [doomed_resume]
    intro r hr
    have hne : r ≠ s := fun heq => hdoomed.1 (heq ▸ hr)
    exact List.mem_filter.2 ⟨h.doomed (List.mem_cons_of_mem s hr), by simpa using hne⟩

end

theorem removes (h : Distinct w) {d : Dropper} {s : Socket} (hrem : w.connections = .remove d s) :
    removeConnection s w.mux = .ok (unlinkConnection s (removeAllMappingsFor s w.mux)) := by
  have hs : s ∈ w.sockets := h.doomed (by rw [hrem]; exact List.mem_cons_self)
  obtain ⟨conn, hconn, rfl⟩ := List.mem_map.1 hs
  exact removeConnection_ok hconn h.nodup

/-- **Every step keeps the sockets of clients distinct.** -/
theorem Distinct.step (h : Distinct w) (hs : Step w a w') : Distinct w' := by
  unfold Distinct at *
  cases hs with
  | setupFdSet t hpc hfree => exact h.move t (by simp)
  | select t fds except data hpc he hd => exact h.move t (by simp)
  | selectFailed t fds hpc => exact h.move t (by simp)
  -- the handle may still be that of a connection about to be unlinked
  | accept s sets hpc hpos hs => exact h.accept sets hs
  | insert s sets hpc hfree =>
    rw [hfree] at h
    have hinsert := h.insert hpc
    simpa [State.sockets, allocConnection, hfree] using hinsert
  | enter t sets hpc hfree =>
    rw [hfree] at h
    exact (h.move t (by simp)).turn rfl rfl (List.nil_subset _) List.nodup_nil
  | except t i sets conn hsweep hi he =>
    rw [hsweep] at h
    have hs : conn.socket ∈ w.sockets := List.mem_map_of_mem (List.mem_of_getElem? hi)
    exact h.turn rfl rfl (by simpa [Section.doomed, Dropper.rest] using hs)
      (List.nodup_singleton _)
  | fail t i sets conn hsweep hi he hd =>
    rw [hsweep] at h
    have hs : conn.socket ∈ w.sockets := List.mem_map_of_mem (List.mem_of_getElem? hi)
    exact h.turn rfl rfl (by simpa [Section.doomed, Dropper.rest] using hs)
      (List.nodup_singleton _)
  | next t i sets conn hsweep hi he =>
    rw [hsweep] at h
    exact h.turn rfl rfl (List.nil_subset _) List.nodup_nil
  | leave t i sets hsweep hi =>
    rw [hsweep] at h
    exact (h.move t (by simp)).turn rfl rfl (List.nil_subset _) List.nodup_nil
  -- all connections are doomed, each once
  | removeAll hfree =>
    rw [hfree] at h
    exact h.turn rfl rfl (List.Subset.refl _) h.nodup
  | removeNext s rest hall =>
    rw [hall] at h
    exact h.turn rfl rfl h.doomed h.doomedNodup
  | removeDone hall =>
    rw [hall] at h
    exact h.turn rfl rfl (List.nil_subset _) List.nodup_nil
  | shutdown d s closed hshut =>
    rw [hshut] at h
    exact h.shutdown closed
  | remove d s m hrem hm =>
    rw [removes h hrem] at hm
    cases hm
    rw [hrem] at h
    have hremove := h.remove
    simpa [State.sockets, unlinkConnection, removeAllMappingsFor, List.filter_map,
      Function.comp_def] using hremove

/-- **Clients have distinct sockets**, in every state that any order of accepting, dropping and
removing them leads to; so `remove_connection` finds one connection, and its assertion holds. -/
theorem clients_distinct {tr : List (Action × State)} (h : Exec Step State.start tr) :
    ∀ w ∈ states State.start tr, w.sockets.Nodup ∧
      ∀ d s, w.connections = .remove d s → ∃ m, removeConnection s w.mux = .ok m := by
  intro w hw
  have hd := h.inv (I := Distinct) (fun w a w' hd => hd.step) distinct_start w hw
  exact ⟨hd.nodup, fun d s hrem => ⟨_, removes hd hrem⟩⟩

/-- The writer drops the client on handle 5, and the reader accepts another one on it before the
first is unlinked. -/
theorem clients_distinct_reused : ∃ tr, Exec Step State.start tr ∧
    (final State.start tr).sockets = [5] ∧ (final State.start tr).number 5 = 2 ∧
      (final State.start tr).sockets.Nodup := by
  obtain ⟨tr, hex, hsockets, hnumber⟩ : ∃ tr, Exec Step State.start tr ∧
      (final State.start tr).sockets = [5] ∧ (final State.start tr).number 5 = 2 := by
    refine ⟨_,
      .cons (.setupFdSet _ .reader rfl rfl) <|
      .cons (.select _ .reader [] [] [] rfl (List.nil_subset _) (List.nil_subset _)) <|
      .cons (.accept _ 5 _ rfl (by decide) List.not_mem_nil) <|
      .cons (.insert _ 5 _ rfl rfl) <|
      .cons (.enter _ .reader _ (.inr rfl) rfl) <|
      .cons (.next _ .reader 0 _ (allocConnection 5) rfl rfl List.not_mem_nil) <|
      .cons (.leave _ .reader 1 _ rfl rfl) <|
      .cons (.setupFdSet _ .reader rfl rfl) <|
      .cons (.select _ .reader [5] [] [] rfl (List.nil_subset _) (List.nil_subset _)) <|
      .cons (.setupFdSet _ .writer rfl rfl) <|
      .cons (.select _ .writer [5] [5] [] rfl (List.Subset.refl _) (List.nil_subset _)) <|
      .cons (.enter _ .writer _ (.inl rfl) rfl) <|
      .cons (.except _ .writer 0 _ (allocConnection 5) rfl rfl List.mem_cons_self) <|
      .cons (.shutdown _ _ 5 true rfl) <|
      -- the handle is closed, its client is still in `connections`
      .cons (.accept _ 5 _ rfl (by decide) (by decide)) <|
      .cons (.remove _ _ 5 _ rfl rfl) <|
      .cons (.leave _ .writer 0 _ rfl rfl) <|
      .cons (.insert _ 5 _ rfl rfl) <|
      .nil _, rfl, rfl⟩
  exact ⟨tr, hex, hsockets, hnumber, (clients_distinct hex _ (final_mem_states _ _)).1⟩

end Muxer.Handles
