import Muxer.Lib.Exec
import Muxer.System.Server

/-!
# One client towards the server

`cleanup` gives the connection to the server up without closing its socket, and the next
`connect_to_output` puts another one in its place. So the muxer is one client to the server as long
as it does not connect again.

* `one_client_iff`: when there is at most one connected socket, that of `out_connection`.
* `one_client_fails`: the server closes its end, and the muxer connects anew.
-/

namespace Muxer.Server

open Lib

variable {w w' : State} {a : Action}

/-- At most one connected socket is open, and it is `out_connection.socket`. -/
structure State.OneClient (w : State) : Prop where
  length_le : w.connected.length ≤ 1
  current : ∀ s ∈ w.connected, w.socket = some s

/-- `socket` is called while no connected socket is open. -/
def FreshConnect (w : State) (a : Action) : Prop := (∃ s, a = .socket s) → w.connected = []

/-- The sockets connected are open, and one about to be is `out_connection`'s. -/
structure Opened (w : State) : Prop where
  connected : w.connected ⊆ w.opened
  pc : ∀ n, w.pc = .connect n → ∃ s, w.socket = some s ∧ s ∈ w.opened ∧ s ∉ w.connected

theorem opened_start : Opened State.start where
  connected := List.nil_subset _
  pc := by simp [State.start]

theorem oneClient_start : State.start.OneClient := ⟨Nat.zero_le _, by simp [State.start]⟩

theorem Opened.close (h : Opened w) : w.close.connected ⊆ w.close.opened := by
  intro s hs
  obtain ⟨hs, hne⟩ := List.mem_filter.1 hs
  exact List.mem_filter.2 ⟨h.connected hs, hne⟩

theorem Opened.step (h : Opened w) (hs : Step w a w') : Opened w' := by
  cases hs with
  | resolve n hpc hok hn => exact ⟨h.connected, by simp⟩
  | resolveFailed hpc hok => exact h
  | socket n s hpc hs =>
    exact ⟨fun r hr => List.mem_cons_of_mem s (h.connected hr),
      fun _ _ => ⟨s, rfl, List.mem_cons_self, fun hmem => hs (h.connected hmem)⟩⟩
  | socketFailed n hpc => exact ⟨h.connected, by simp⟩
  | connect n s hpc hs =>
    obtain ⟨s', hs', hopen, -⟩ := h.pc n hpc
    cases hs.symm.trans hs'
    exact ⟨List.cons_subset.2 ⟨hopen, h.connected⟩, by simp⟩
  | connectFailed n hpc => exact ⟨h.close, by simp⟩
  | exhausted hpc => exact ⟨h.connected, by simp⟩
  | test hpc => exact ⟨h.connected, by simp⟩
  | broken hpc hok => exact ⟨h.connected, h.pc⟩
  | cleanup hpc hdo hcl => exact ⟨h.connected, h.pc⟩
  | resetCleanup hcl => exact ⟨h.connected, h.pc⟩
  | interrupt => exact ⟨h.connected, h.pc⟩
  | closeOut closed hpc hact =>
    cases closed with
    | false => exact h
    | true => exact ⟨h.close, fun n hn => by simp [State.close, hpc] at hn⟩

theorem OneClient.close (h : w.OneClient) : w.close.connected = [] := by
  rw [State.close, List.filter_eq_nil_iff]
  intro s hs
  simp [h.current s hs]

/-- A step keeps the muxer one client exactly if it meets the condition. -/
theorem oneClient_step (ho : Opened w) (h : w.OneClient) (hs : Step w a w') :
    w'.OneClient ↔ FreshConnect w a := by
  have hother : (∀ s, a ≠ .socket s) → FreshConnect w a := fun ha ⟨s, hs⟩ => absurd hs (ha s)
  cases hs with
  | socket n s hpc hs =>
    constructor
    · rintro ⟨-, hcur⟩ -
      -- an earlier socket would be the new one, which was not open
      rw [List.eq_nil_iff_forall_not_mem]
      intro r hr
      cases hcur r hr
      exact hs (ho.connected hr)
    · intro hfresh
      have hnil := hfresh ⟨_, rfl⟩
      exact ⟨h.length_le, by simp [hnil]⟩
  | socketFailed n hpc =>
    constructor
    · rintro ⟨-, hcur⟩ -
      rw [List.eq_nil_iff_forall_not_mem]
      intro r hr
      cases hcur r hr
    · intro hfresh
      have hnil := hfresh ⟨_, rfl⟩
      exact ⟨h.length_le, by simp [hnil]⟩
  | connect n s hpc hs =>
    refine iff_of_true ?_ (hother (by simp))
    obtain ⟨s', hs', -, hnot⟩ := ho.pc n hpc
    cases hs.symm.trans hs'
    have hnil : w.connected = [] := by
      rw [List.eq_nil_iff_forall_not_mem]
      intro r hr
      cases hs.symm.trans (h.current r hr)
      exact hnot hr
    exact ⟨by simp [hnil], by simp [hnil, hs]⟩
  | connectFailed n hpc =>
    have hnil := OneClient.close h
    exact iff_of_true ⟨by simp [hnil], by simp [hnil]⟩ (hother (by simp))
  | closeOut closed hpc hact =>
    refine iff_of_true ?_ (hother (by simp))
    cases closed with
    | false => exact h
    | true =>
      have hnil := OneClient.close h
      exact ⟨by simp [hnil], by simp [hnil]⟩
  | resolve n hpc hok hn => exact iff_of_true ⟨h.length_le, h.current⟩ (hother (by simp))
  | resolveFailed hpc hok => exact iff_of_true h (hother (by simp))
  | exhausted hpc => exact iff_of_true ⟨h.length_le, h.current⟩ (hother (by simp))
  | test hpc => exact iff_of_true ⟨h.length_le, h.current⟩ (hother (by simp))
  | broken hpc hok => exact iff_of_true ⟨h.length_le, h.current⟩ (hother (by simp))
  | cleanup hpc hdo hcl => exact iff_of_true ⟨h.length_le, h.current⟩ (hother (by simp))
  | resetCleanup hcl => exact iff_of_true ⟨h.length_le, h.current⟩ (hother (by simp))
  | interrupt => exact iff_of_true ⟨h.length_le, h.current⟩ (hother (by simp))

/-- **When the muxer is one client.** In a run there is never more than one connected socket open,
that of `out_connection`, if and only if `socket` is never called while one is open. -/
theorem one_client_iff {tr : List (Action × State)} (h : Exec Step State.start tr) :
    (∀ w ∈ states State.start tr, w.OneClient) ↔ Steps FreshConnect State.start tr :=
  h.states_iff (I := Opened) (Q := State.OneClient) (P := FreshConnect)
    (fun _ _ _ ho hs => ho.step hs) (fun _ _ _ ho hq hs => oneClient_step ho hq hs)
    opened_start oneClient_start

/-- The second address connects; then the connection breaks, and is given up. -/
theorem one_client_iff_given_up : ∃ tr, Exec Step State.start tr ∧
    (final State.start tr).isOutConnectionOK = false ∧
      ∀ w ∈ states State.start tr, w.OneClient := by
  obtain ⟨tr, hex, hok, hfresh⟩ : ∃ tr, Exec Step State.start tr ∧
      (final State.start tr).isOutConnectionOK = false ∧ Steps FreshConnect State.start tr := by
    refine ⟨_, .cons (.resolve _ 2 rfl rfl (by decide)) <|
      .cons (.socket _ 1 3 rfl List.not_mem_nil) <| .cons (.connectFailed _ 1 rfl) <|
      .cons (.socket _ 0 3 rfl (by decide)) <| .cons (.connect _ 0 3 rfl rfl) <|
      .cons (.test _ rfl) <| .cons (.broken _ rfl rfl) <| .cons (.cleanup _ rfl rfl rfl) <|
      .nil _, rfl, ?_⟩
    simp [Steps, FreshConnect, State.start, State.close]
  exact ⟨tr, hex, hok, (one_client_iff hex).2 hfresh⟩

/-- The connection breaks, is given up, and another one is made: both sockets are open. -/
theorem one_client_fails : ∃ tr, Exec Step State.start tr ∧
    ¬∀ w ∈ states State.start tr, w.OneClient := by
  refine ⟨_, .cons (.resolve _ 1 rfl rfl (by decide)) <|
    .cons (.socket _ 0 3 rfl List.not_mem_nil) <| .cons (.connect _ 0 3 rfl rfl) <|
    .cons (.test _ rfl) <| .cons (.broken _ rfl rfl) <| .cons (.cleanup _ rfl rfl rfl) <|
    .cons (.resetCleanup _ rfl) <| .cons (.resolve _ 1 rfl rfl (by decide)) <|
    .cons (.socket _ 0 4 rfl (by decide)) <| .cons (.connect _ 0 4 rfl rfl) <| .nil _, ?_⟩
  intro hall
  have htwo := (hall _ (final_mem_states _ _)).length_le
  revert htwo
  decide

end Muxer.Server
