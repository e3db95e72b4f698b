import Muxer.Proof.Mirrors
import Muxer.Proof.Reset

/-!
# The muxer in memory is its sessions

The steps in memory are those of `Muxer.System.Session`, both ways:

* `Step.refines`: **a step in memory is a step of the session**, or changes nothing there, unless it
  ends the program, which only the assertion on the header of a frame does.
* `Step.realised`: **a step of the session is a step in memory**.
* `memory_safe`, `memory_realises`: the same of runs.
-/

namespace Muxer.Memory

open Lib OnHeap
open Session (Sound sound_start)

/-! ## Steps in memory -/

section

variable {w w' : State} {v v' : Session.State} {L : Layout ℕ} {a : Action}

/-- The session goes one step, or stays. -/
def Follow (v : Session.State) (L : Layout ℕ) (a : Action) (w' : State) : Prop :=
  ∃ v', (v' = v ∨ ∃ b, Session.Step v b v') ∧ Mirrors v L a v' w'

/-- The step reads a frame whose header is too large. -/
def Overreads (v : Session.State) : Action → Prop
  | .recvIn i r => ∃ conn, v.mux.connections[i]? = some conn ∧ Overlong conn r
  | .recvOut r => Overlong v.mux.outConnection r
  | _ => False

/-- The session follows, or the program ends with the assertion on the header. -/
def Outcome (v : Session.State) (L : Layout ℕ) (a : Action) (o : Except Stop State) : Prop :=
  (∃ w', o = .ok w' ∧ Follow v L a w') ∧ ¬Overreads v a ∨
    o = .error (.fault .assertion) ∧ Overreads v a

theorem Follow.step {b : Session.Action} (hb : Session.Step v b v') (hm : Mirrors v L a v' w') :
    Follow v L a w' := ⟨v', .inr ⟨b, hb⟩, hm⟩

theorem Follow.stays (h : Simulates w v L) (ha : a.puts = 0) : Follow v L a w :=
  ⟨v, .inl rfl, L, h, by rw [ha, Nat.add_zero]⟩

namespace Simulates

theorem accept_follows (h : Simulates w v L) {s : Socket} (hi : w.reader = .idle)
    (hd : ¬w.Drops .reader) (hs : 0 < s) (hnew : s ∉ w.opened) :
    Follow v L (.accept s) { w with opened := s :: w.opened, reader := .accepted s } := by
  have hr := h.reader_of_idle hi
  rw [← h.opened] at hnew
  exact .step (.accept v s hr (h.drops_iff.not.1 hd) hs hnew) (h.accept hr)

theorem insert_follows (h : Simulates w v L) (hv : Sound v) (rt : Runtime) {s : Socket}
    (hi : w.reader = .accepted s) (hd : w.dropping = none) :
    ∃ w', w.insert rt s = .ok w' ∧ Follow v L .insert w' := by
  have hr := h.reader_of_accepted hi
  obtain ⟨w', hrun, hm⟩ := h.insert hv rt hr
  exact ⟨w', hrun, .step (.insert v s hr (h.dropping.trans hd)) hm⟩

theorem recvIn_outcome (h : Simulates w v L) (hv : Sound v) (rt : Runtime) {i : ℕ} {r : RecvResult}
    (hi : w.reader = .idle) (hf : w.ConnectionsFree)
    (hfit : ∀ p conn, connectionAt w.store i = .ok (some (p, conn)) →
      r.data.length ≤ bufferKsize - conn.rBufferPtr) :
    Outcome v L (.recvIn i r) (w.recvIn rt i r) := by
  have hr := h.reader_of_idle hi
  cases hget : v.mux.connections[i]? with
  | none =>
    obtain ⟨-, hat⟩ := h.no_connection hget
    refine .inl ⟨⟨w, ?_, .stays h rfl⟩, ?_⟩
    · simp only [State.recvIn, hat, ok_bind]
    · rintro ⟨conn, hsome, -⟩
      rw [hget] at hsome
      cases hsome
  | some conn =>
    obtain ⟨c, xs, ys, -, -, -, hat, -⟩ := h.connection hget
    have hfits := hfit _ _ hat
    have hover : Overreads v (.recvIn i r) ↔ Overlong conn r := by simp [Overreads, hget]
    have hmem : conn ∈ v.mux.connections := List.mem_of_getElem? hget
    rcases receive_cases (hv.buffered.conns _ hmem) hfits with
      ⟨hrec, hno⟩ | ⟨⟨ps, conn', hrec, -⟩, hno⟩ | ⟨hrec, hyes⟩
    · obtain ⟨w', hrun, hm⟩ := h.recvIn_broken rt hr hget hrec
      exact .inl ⟨⟨w', hrun, v, .inl rfl, hm⟩, hover.not.2 hno⟩
    · obtain ⟨w', hrun, hm⟩ := h.recvIn rt hr hget hrec
      exact .inl ⟨⟨w', hrun, .step (.recvIn v i r conn ps conn' hr (h.connectionsFree_iff.1 hf) hget
        hfits hrec) hm⟩, hover.not.2 hno⟩
    · exact .inr ⟨h.recvIn_fails rt hget hrec, hover.2 hyes⟩

theorem recvOut_outcome (h : Simulates w v L) (hv : Sound v) (rt : Runtime) {r : RecvResult}
    (hi : w.reader = .idle) (hd : ¬w.Drops .reader)
    (hfit : r.data.length ≤ bufferKsize - w.store.outConnection.rBufferPtr) :
    Outcome v L (.recvOut r) (w.recvOut rt r) := by
  have hr := h.reader_of_idle hi
  rw [h.represents.outConnection, ← h.outConnection] at hfit
  rcases receive_cases hv.buffered.out hfit with
    ⟨hrec, hno⟩ | ⟨⟨ps, conn', hrec, -⟩, hno⟩ | ⟨hrec, hyes⟩
  · obtain ⟨w', hrun, hm⟩ := h.recvOut_broken rt hr hrec
    exact .inl ⟨⟨w', hrun, v, .inl rfl, hm⟩, hno⟩
  · obtain ⟨w', hrun, hm⟩ := h.recvOut rt hr hrec
    exact .inl ⟨⟨w', hrun, .step (.recvOut v r ps conn' hr (h.drops_iff.not.1 hd) hfit hrec) hm⟩, hno⟩
  · exact .inr ⟨h.recvOut_fails rt hrec, hyes⟩

theorem putIn_follows (h : Simulates w v L) (hv : Sound v) (rt : Runtime) {p : Ptr} {qe : Addr}
    (hi : w.reader = .puttingIn p (some qe)) :
    ∃ w', w.putIn rt p qe = .ok w' ∧ Follow v L .putIn w' := by
  obtain ⟨s, ps, hr, hnone⟩ := h.reader_of_puttingIn hi
  cases ps with
  | nil => cases hnone.2 rfl
  | cons p₁ ps =>
    obtain ⟨c, qe', w', hw, hrun, hm⟩ := h.putIn hv rt hr 0
    rw [hi] at hw
    cases hw
    exact ⟨w', hrun, .step (.putIn v s p₁ ps 0 hr) hm⟩

theorem putOut_follows (h : Simulates w v L) (rt : Runtime) {qe : Addr}
    (hi : w.reader = .puttingOut (some qe)) :
    ∃ w', w.putOut rt qe = .ok w' ∧ Follow v L .putOut w' := by
  obtain ⟨ps, hr, hnone⟩ := h.reader_of_puttingOut hi
  cases ps with
  | nil => cases hnone.2 rfl
  | cons p ps =>
    obtain ⟨qe', w', hw, hrun, hm⟩ := h.putOut rt hr 0
    rw [hi] at hw
    cases hw
    exact ⟨w', hrun, .step (.putOut v p ps 0 hr) hm⟩

theorem readInDone_follows (h : Simulates w v L) {p : Ptr} (hi : w.reader = .puttingIn p none) :
    Follow v L .readInDone { w with reader := .idle } := by
  obtain ⟨s, ps, hr, hnone⟩ := h.reader_of_puttingIn hi
  cases hnone.1 rfl
  exact .step (.readInDone v s hr) (h.readInDone hr).2

theorem readOutDone_follows (h : Simulates w v L) (hi : w.reader = .puttingOut none) :
    Follow v L .readOutDone { w with reader := .idle } := by
  obtain ⟨ps, hr, hnone⟩ := h.reader_of_puttingOut hi
  cases hnone.1 rfl
  exact .step (.readOutDone v hr) (h.readOutDone hr).2

theorem loadOut_follows (h : Simulates w v L) (hv : Sound v) (hd : ¬w.Drops .writer) :
    ∃ w', w.loadOut = .ok w' ∧ Follow v L .loadOut w' := by
  obtain ⟨m, hm⟩ := (Session.sends hv.clients hv.positive hv.framed).loadsOut
  obtain ⟨w', hrun, hmirrors⟩ := h.loadOut hm
  exact ⟨w', hrun, .step (.loadOut v m (h.drops_iff.not.1 hd) hm) hmirrors⟩

/-- What the session knows of a `send`, unless it leaves the connection as it is. -/
theorem writeData_possible {conn : Connection} (hk : conn.wBufferPtr ≤ bufferKsize) {r : SendResult}
    (hr : 0 < conn.wBufferPtr → Possible conn.wBufferPtr r) :
    (∃ out conn', writeData conn r = .ok (true, out, conn') ∧
      (0 < conn.wBufferPtr → r.Valid conn.wBufferPtr)) ∨
    ∃ ok out, writeData conn r = .ok (ok, out, conn) := by
  by_cases h0 : 0 < conn.wBufferPtr
  · match r, hr h0 with
    | .sent bytes, hvalid =>
      obtain ⟨conn', hw, -⟩ := writeData_ok hk (r := .sent bytes) fun _ => hvalid
      exact .inl ⟨_, conn', hw, fun _ => hvalid⟩
    | .socketError err, _ => exact .inr ⟨_, _, writeData_socketError hk h0 err⟩
  · exact .inr ⟨_, _, writeData_empty h0 r⟩

theorem sendOut_follows (h : Simulates w v L) (hv : Sound v) {r : SendResult}
    (hd : ¬w.Drops .writer) (hsend : 0 < w.store.outConnection.wBufferPtr →
      Possible w.store.outConnection.wBufferPtr r) :
    ∃ w', w.sendOut r = .ok w' ∧ Follow v L (.sendOut r) w' := by
  rw [h.represents.outConnection, ← h.outConnection] at hsend
  rcases writeData_possible hv.framed.outPtr hsend with ⟨out, conn', hw, hvalid⟩ | ⟨ok, out, hw⟩
  · obtain ⟨w', hrun, hm⟩ := h.sendOut hw
    exact ⟨w', hrun, .step (.sendOut v r out conn' (h.drops_iff.not.1 hd) hvalid hw) hm⟩
  · obtain ⟨w', hrun, hm⟩ := h.sendOut hw
    exact ⟨w', hrun, v, .inl rfl, hm⟩

theorem loadIn_follows (h : Simulates w v L) (hv : Sound v) {i : ℕ} (hf : w.ConnectionsFree) :
    ∃ w', w.loadIn i = .ok w' ∧ Follow v L (.loadIn i) w' := by
  rw [h.connectionsFree_iff] at hf
  cases hget : v.mux.connections[i]? with
  | none =>
    obtain ⟨hat, -⟩ := h.no_connection hget
    refine ⟨w, ?_, .stays h rfl⟩
    simp only [State.loadIn, hat, ok_bind, ne_eq, not_true_eq_false, if_false]
  | some conn =>
    have hsendable : ∀ r ∈ v.mux.wInMessages, r.pdu.Sendable := by
      intro r hr
      obtain ⟨hlo, hhi⟩ := hv.framed.responses r hr
      exact Session.sendable_of_length (by omega) hhi
    obtain ⟨conn', q, -, hload, -⟩ :=
      Muxer.loadConnection_ok (hv.framed.ptrs _ (List.mem_of_getElem? hget)) hsendable
    obtain ⟨w', hrun, hm⟩ := h.loadIn hf hget hload
    exact ⟨w', hrun, .step (.loadIn v i conn conn' q hf hget hload) hm⟩

theorem sendIn_follows (h : Simulates w v L) (hv : Sound v) {i : ℕ} {r : SendResult}
    (hf : w.ConnectionsFree) (hsend : ∀ p conn, connectionAt w.store i = .ok (some (p, conn)) →
      0 < conn.wBufferPtr → Possible conn.wBufferPtr r) :
    ∃ w', w.sendIn i r = .ok w' ∧ Follow v L (.sendIn i r) w' := by
  rw [h.connectionsFree_iff] at hf
  cases hget : v.mux.connections[i]? with
  | none =>
    obtain ⟨-, hat⟩ := h.no_connection hget
    refine ⟨w, ?_, .stays h rfl⟩
    simp only [State.sendIn, hat, ok_bind]
  | some conn =>
    obtain ⟨c, xs, ys, -, -, -, hat, -⟩ := h.connection hget
    have hmem := List.mem_of_getElem? hget
    rcases writeData_possible (hv.framed.ptrs _ hmem) (hsend _ _ hat) with
      ⟨out, conn', hw, hvalid⟩ | ⟨ok, out, hw⟩
    · obtain ⟨w', hrun, hm⟩ := h.sendIn hf hget hw
      exact ⟨w', hrun, .step (.sendIn v i r conn out conn' hf hget hvalid hw) hm⟩
    · obtain ⟨w', hrun, hm⟩ := h.sendIn hf hget hw
      rw [set_getElem?_self hget] at hm
      exact ⟨w', hrun, v, .inl rfl, hm⟩

theorem sweep_follows (h : Simulates w v L) (hv : Sound v) {i : ℕ} (hf : w.ConnectionsFree) :
    ∃ w', w.sweep i = .ok w' ∧ Follow v L (.sweep i) w' := by
  rw [h.connectionsFree_iff] at hf
  have hq : v.mux.wInMessages = L.wInMessages.map (·.value) := by rw [h.mux, Layout.mux]
  cases hget : v.mux.wInMessages[i]? with
  | none =>
    have hat := h.message i
    rw [hq, List.getElem?_map, Option.map_eq_none_iff] at hget
    rw [hget] at hat
    refine ⟨w, ?_, .stays h rfl⟩
    simp only [State.sweep, hat, Option.map_none, ok_bind]
  | some r =>
    obtain ⟨q, q', hsplit, rfl⟩ := split_at hget
    obtain ⟨w', hrun, ⟨-, rfl⟩ | ⟨hnone, hm⟩⟩ := h.sweep hv hsplit
    · exact ⟨w', hrun, .stays h rfl⟩
    · exact ⟨w', hrun, .step (.sweep v q r q' hf hsplit hnone) hm⟩

theorem drop_follows (h : Simulates w v L) {t : Thread} {i : ℕ} {closed : Bool}
    (ht : t = .reader → w.reader = .idle) (hf : w.ConnectionsFree) :
    ∃ w', w.drop t i closed = .ok w' ∧ Follow v L (.drop t i closed) w' := by
  cases hget : v.mux.connections[i]? with
  | none =>
    obtain ⟨-, hat⟩ := h.no_connection hget
    refine ⟨w, ?_, .stays h rfl⟩
    simp only [State.drop, hat, ok_bind]
  | some conn =>
    obtain ⟨w', hrun, hm⟩ := h.drop t closed hget
    exact ⟨w', hrun, .step (.drop v t i closed conn (fun hr => h.reader_of_idle (ht hr))
      (h.connectionsFree_iff.1 hf) hget) hm⟩

theorem unmap_follows (h : Simulates w v L) {t : Thread} {s : Socket}
    (hd : w.dropping = some ⟨t, s, false⟩) :
    ∃ w', w.unmap t s = .ok w' ∧ Follow v L .unmap w' := by
  obtain ⟨w', hrun, hm⟩ := h.unmap t s
  exact ⟨w', hrun, .step (.unmap v t s (h.dropping.trans hd)) hm⟩

theorem unlink_follows (h : Simulates w v L) (hv : Sound v) {t : Thread} {s : Socket}
    (hd : w.dropping = some ⟨t, s, true⟩) :
    ∃ w', w.unlink s = .ok w' ∧ Follow v L .unlink w' := by
  obtain ⟨w', hrun, hm⟩ := h.unlink hv (h.dropping.trans hd)
  exact ⟨w', hrun, .step (.unlink v t s (h.dropping.trans hd)) hm⟩

theorem takeIn_follows (h : Simulates w v L) (hv : Sound v) (rt : Runtime)
    (hi : w.processing = .idle) : ∃ w', w.takeIn rt = .ok w' ∧ Follow v L .takeIn w' := by
  have hidle := h.processing_of_idle hi
  cases htake : Muxer.takeRInMessage v.mux with
  | none =>
    have hL : L.rInMessages = [] := by
      rw [h.mux, Muxer.takeRInMessage] at htake
      split at htake
      · next hnil => exact List.map_eq_nil_iff.1 hnil
      · cases htake
    have hrun := takeRInMessage_empty h.represents rt hL
    refine ⟨w, ?_, .stays h rfl⟩
    simp only [State.takeIn, hrun, ok_bind, ne_eq, not_true_eq_false, if_false, ← hi]
  | some x =>
    obtain ⟨w', hrun, hm⟩ := h.takeIn hv rt hidle htake
    exact ⟨w', hrun, .step (.takeIn v x.1 x.2 hidle htake) hm⟩

theorem takeOut_follows (h : Simulates w v L) (rt : Runtime) (hi : w.processing = .idle) :
    ∃ w', w.takeOut rt = .ok w' ∧ Follow v L .takeOut w' := by
  have hidle := h.processing_of_idle hi
  cases htake : Muxer.takeROutMessage v.mux with
  | none =>
    have hL : L.rOutMessages = [] := by
      rw [h.mux, Muxer.takeROutMessage] at htake
      split at htake
      · next hnil => exact List.map_eq_nil_iff.1 hnil
      · cases htake
    have hrun := takeROutMessage_empty h.represents rt hL
    refine ⟨w, ?_, .stays h rfl⟩
    simp only [State.takeOut, hrun, ok_bind, ne_eq, not_true_eq_false, if_false, ← hi]
  | some x =>
    obtain ⟨w', hrun, hm⟩ := h.takeOut rt hidle htake
    exact ⟨w', hrun, .step (.takeOut v x.1 x.2 hidle htake) hm⟩

theorem mapRequest_follows (h : Simulates w v L) (hv : Sound v) (rt : Runtime) {p : Ptr}
    (hi : w.processing = .taken p) :
    ∃ w', w.mapRequest rt p = .ok w' ∧ Follow v L .mapRequest w' := by
  obtain ⟨r, hr⟩ := h.processing_of_taken hi
  obtain ⟨q, hq, -⟩ := decodeInPdu_total r.pdu
  have hm := Muxer.mapRequest_ok (hv.positive.taken _ hr) hq v.mux
  obtain ⟨p', w', hw, hrun, hmirrors⟩ := h.mapRequest hv rt hr hm
  rw [hi] at hw
  cases hw
  exact ⟨w', hrun, .step (.mapRequest v r q _ hr hm) hmirrors⟩

theorem forward_follows (h : Simulates w v L) (hv : Sound v) (rt : Runtime) {p : Ptr}
    {q : InputType} (hi : w.processing = .mapped p q) :
    ∃ w', w.forward rt p q = .ok w' ∧ Follow v L .forward w' := by
  obtain ⟨r, hr⟩ := h.processing_of_mapped hi
  obtain ⟨pdu, hm, -⟩ := Muxer.forwardRequest_ok (hv.framed.mapped _ _ hr) r.tag v.mux
  obtain ⟨p', w', hw, hrun, hmirrors⟩ := h.forward hv rt hr hm
  rw [hi] at hw
  cases hw
  exact ⟨w', hrun, .step (.forward v r q _ hr hm) hmirrors⟩

theorem deliver_follows (h : Simulates w v L) (hv : Sound v) (rt : Runtime) {c : Ptr}
    (hi : w.processing = .response c) :
    ∃ w', w.deliver rt c = .ok w' ∧ Follow v L .deliver w' := by
  obtain ⟨p, hp⟩ := h.processing_of_response hi
  obtain ⟨m, hm⟩ := (Session.sends hv.clients hv.positive hv.framed).delivers p hp
  obtain ⟨c', w', hw, hrun, hmirrors⟩ := h.deliver hv rt hp hm
  rw [hi] at hw
  cases hw
  exact ⟨w', hrun, .step (.deliver v p m hp hm) hmirrors⟩

theorem stopped_iff (h : Simulates w v L) : w.Stopped ↔ v.Stopped := by
  unfold State.Stopped Session.State.Stopped
  rw [h.dropping]
  exact ⟨fun ⟨hr, hd, hp⟩ => ⟨h.reader_of_idle hr, hd, h.processing_of_idle hp⟩,
    fun ⟨hr, hd, hp⟩ => ⟨(h.reader_idle hr).1, hd, (h.processing_idle hp).1⟩⟩

theorem hasClient_iff (h : Simulates w v L) (s : Socket) :
    HasClient w.store s ↔ s ∈ v.sockets := by
  rw [Session.State.sockets, h.mux]
  exact Memory.hasClient_iff h.represents s

theorem cleanup_follows (h : Simulates w v L) (hv : Sound v) {closed : Socket → Bool}
    (hstop : w.Stopped) (hclosed : ∀ s, closed s → HasClient w.store s) :
    ∃ w', w.cleanup closed = .ok w' ∧ Follow v L (.cleanup closed) w' := by
  rw [h.stopped_iff] at hstop
  have hm := Muxer.cleanup_ok hv.clients.nodup
  obtain ⟨w', hrun, hmirrors⟩ := h.cleanup hv closed hstop hm
  exact ⟨w', hrun, .step (.cleanup v closed _ hstop
    (fun s hs => (h.hasClient_iff s).1 (hclosed s hs)) hm) hmirrors⟩

end Simulates

theorem Outcome.of_follow {o : Except Stop State} (h : ∃ w', o = .ok w' ∧ Follow v L a w')
    (ha : ¬Overreads v a) : Outcome v L a o := .inl ⟨h, ha⟩

/-- **A step in memory is a step of the session**, or leaves it as it is. It does nothing the heap
does not allow, and it ends the program only where it reads a frame whose header is too large. -/
theorem Step.refines {o : Except Stop State} (hs : Step w a o) (h : Simulates w v L)
    (hv : Sound v) : Outcome v L a o := by
  cases hs with
  | accept s hi hd hs hnew => exact .of_follow ⟨_, rfl, h.accept_follows hi hd hs hnew⟩ id
  | insert rt s hi hd => exact .of_follow (h.insert_follows hv rt hi hd) id
  | recvIn rt i r hi hf hfit => exact h.recvIn_outcome hv rt hi hf hfit
  | putIn rt p qe hi => exact .of_follow (h.putIn_follows hv rt hi) id
  | readInDone p hi => exact .of_follow ⟨_, rfl, h.readInDone_follows hi⟩ id
  | recvOut rt r hi hd hfit => exact h.recvOut_outcome hv rt hi hd hfit
  | putOut rt qe hi => exact .of_follow (h.putOut_follows rt hi) id
  | readOutDone hi => exact .of_follow ⟨_, rfl, h.readOutDone_follows hi⟩ id
  | loadOut hd => exact .of_follow (h.loadOut_follows hv hd) id
  | sendOut r hd hsend => exact .of_follow (h.sendOut_follows hv hd hsend) id
  | loadIn i hf => exact .of_follow (h.loadIn_follows hv hf) id
  | sendIn i r hf hsend => exact .of_follow (h.sendIn_follows hv hf hsend) id
  | sweep i hf => exact .of_follow (h.sweep_follows hv hf) id
  | drop t i closed ht hf => exact .of_follow (h.drop_follows ht hf) id
  | unmap t s hd => exact .of_follow (h.unmap_follows hd) id
  | unlink t s hd => exact .of_follow (h.unlink_follows hv hd) id
  | connect s hi =>
    have hstep := Session.Step.connect v s (h.processing_of_idle hi)
    exact .of_follow ⟨_, rfl, .step hstep (h.connect s)⟩ id
  | takeIn rt hi => exact .of_follow (h.takeIn_follows hv rt hi) id
  | mapRequest rt r hi => exact .of_follow (h.mapRequest_follows hv rt hi) id
  | forward rt r q hi => exact .of_follow (h.forward_follows hv rt hi) id
  | takeOut rt hi => exact .of_follow (h.takeOut_follows rt hi) id
  | deliver rt p hi => exact .of_follow (h.deliver_follows hv rt hi) id
  | cleanup closed hstop hclosed => exact .of_follow (h.cleanup_follows hv hstop hclosed) id

/-! ## Steps of the session -/

theorem Goes.of_run {o : Except Stop State} (hs : Step w a o) (ho : o = .ok w') :
    Goes w a w' := by
  rw [ho] at hs
  exact hs

theorem possible_of_valid {n : ℕ} {r : SendResult} (h : r.Valid n) : Possible n r := by
  cases r with
  | sent bytes => exact h
  | socketError err => trivial

/-- **A step of the session is a step in memory**, whatever `malloc` and `time` give. -/
theorem Step.realised {b : Session.Action} (hb : Session.Step v b v') (h : Simulates w v L)
    (hv : Sound v) (rt : Runtime) : ∃ a w', Goes w a w' ∧ Mirrors v L a v' w' := by
  cases hb with
  | accept s hi hd hs hnew =>
    rw [h.opened] at hnew
    exact ⟨_, _, .accept w s (h.reader_idle hi).1 (h.drops_iff.not.2 hd) hs hnew, h.accept hi⟩
  | insert s hi hd =>
    obtain ⟨w', hrun, hm⟩ := h.insert hv rt hi
    rw [h.dropping] at hd
    exact ⟨_, w', .of_run (.insert w rt s (h.reader_accepted hi).1 hd) hrun, hm⟩
  | recvIn i r conn ps conn' hi hf hget hfit hrec =>
    -- the block of the connection holds what the session has of it
    obtain ⟨c, xs, ys, -, -, -, hat, -⟩ := h.connection hget
    have hfits : ∀ p conn, connectionAt w.store i = .ok (some (p, conn)) →
        r.data.length ≤ bufferKsize - conn.rBufferPtr := by
      intro p conn₁ hat₁
      rw [hat] at hat₁
      cases hat₁
      exact hfit
    obtain ⟨w', hrun, hm⟩ := h.recvIn rt hi hget hrec
    exact ⟨_, w', .of_run (.recvIn w rt i r (h.reader_idle hi).1 (h.connectionsFree_iff.2 hf) hfits)
      hrun, hm⟩
  | putIn s p ps tag hi =>
    obtain ⟨c, qe, w', hw, hrun, hm⟩ := h.putIn hv rt hi tag
    exact ⟨_, w', .of_run (.putIn w rt c qe hw) hrun, hm⟩
  | readInDone s hi =>
    obtain ⟨⟨c, hw⟩, hm⟩ := h.readInDone hi
    exact ⟨_, _, .readInDone w c hw, hm⟩
  | recvOut r ps conn' hi hd hfit hrec =>
    obtain ⟨w', hrun, hm⟩ := h.recvOut rt hi hrec
    rw [h.outConnection, ← h.represents.outConnection] at hfit
    exact ⟨_, w', .of_run (.recvOut w rt r (h.reader_idle hi).1 (h.drops_iff.not.2 hd) hfit) hrun, hm⟩
  | putOut p ps tag hi =>
    obtain ⟨qe, w', hw, hrun, hm⟩ := h.putOut rt hi tag
    exact ⟨_, w', .of_run (.putOut w rt qe hw) hrun, hm⟩
  | readOutDone hi =>
    obtain ⟨hw, hm⟩ := h.readOutDone hi
    exact ⟨_, _, .readOutDone w hw, hm⟩
  | loadOut m hd hl =>
    obtain ⟨w', hrun, hm⟩ := h.loadOut hl
    exact ⟨_, w', .of_run (.loadOut w (h.drops_iff.not.2 hd)) hrun, hm⟩
  | sendOut r out conn' hd hvalid hw =>
    obtain ⟨w', hrun, hm⟩ := h.sendOut hw
    rw [h.outConnection, ← h.represents.outConnection] at hvalid
    exact ⟨_, w', .of_run (.sendOut w r (h.drops_iff.not.2 hd)
      fun h0 => possible_of_valid (hvalid h0)) hrun, hm⟩
  | loadIn i conn conn' q hf hget hl =>
    obtain ⟨w', hrun, hm⟩ := h.loadIn hf hget hl
    exact ⟨_, w', .of_run (.loadIn w i (h.connectionsFree_iff.2 hf)) hrun, hm⟩
  | sendIn i r conn out conn' hf hget hvalid hw =>
    obtain ⟨c, xs, ys, -, -, -, hat, -⟩ := h.connection hget
    have hpossible : ∀ p conn, connectionAt w.store i = .ok (some (p, conn)) →
        0 < conn.wBufferPtr → Possible conn.wBufferPtr r := by
      intro p conn₁ hat₁ h0
      rw [hat] at hat₁
      cases hat₁
      exact possible_of_valid (hvalid h0)
    obtain ⟨w', hrun, hm⟩ := h.sendIn hf hget hw
    exact ⟨_, w', .of_run (.sendIn w i r (h.connectionsFree_iff.2 hf) hpossible) hrun, hm⟩
  | sweep q r q' hf hq hnone =>
    obtain ⟨w', hrun, ⟨⟨c, hc, heq⟩, -⟩ | ⟨-, hm⟩⟩ := h.sweep hv hq
    -- the round in memory frees the message, as no client has its handle
    · exact absurd heq (hnone c hc)
    · exact ⟨_, w', .of_run (.sweep w q.length (h.connectionsFree_iff.2 hf)) hrun, hm⟩
  | drop t i closed conn ht hf hget =>
    obtain ⟨w', hrun, hm⟩ := h.drop t closed hget
    exact ⟨_, w', .of_run (.drop w t i closed (fun hr => (h.reader_idle (ht hr)).1)
      (h.connectionsFree_iff.2 hf)) hrun, hm⟩
  | unmap t s hd =>
    obtain ⟨w', hrun, hm⟩ := h.unmap t s
    exact ⟨_, w', .of_run (.unmap w t s (h.dropping.symm.trans hd)) hrun, hm⟩
  | unlink t s hd =>
    obtain ⟨w', hrun, hm⟩ := h.unlink hv hd
    exact ⟨_, w', .of_run (.unlink w t s (h.dropping.symm.trans hd)) hrun, hm⟩
  | connect s hi => exact ⟨_, _, .connect w s (h.processing_idle hi).1, h.connect s⟩
  | takeIn r m hi htake =>
    obtain ⟨w', hrun, hm⟩ := h.takeIn hv rt hi htake
    exact ⟨_, w', .of_run (.takeIn w rt (h.processing_idle hi).1) hrun, hm⟩
  | mapRequest r q m hi hmap =>
    obtain ⟨p, w', hw, hrun, hm⟩ := h.mapRequest hv rt hi hmap
    exact ⟨_, w', .of_run (.mapRequest w rt p hw) hrun, hm⟩
  | forward r q m hi hforward =>
    obtain ⟨p, w', hw, hrun, hm⟩ := h.forward hv rt hi hforward
    exact ⟨_, w', .of_run (.forward w rt p q hw) hrun, hm⟩
  | takeOut p m hi htake =>
    obtain ⟨w', hrun, hm⟩ := h.takeOut rt hi htake
    exact ⟨_, w', .of_run (.takeOut w rt (h.processing_idle hi).1) hrun, hm⟩
  | deliver p m hi hdeliver =>
    obtain ⟨c, w', hw, hrun, hm⟩ := h.deliver hv rt hi hdeliver
    exact ⟨_, w', .of_run (.deliver w rt c hw) hrun, hm⟩
  | cleanup closed m hstop hclosed hc =>
    obtain ⟨w', hrun, hm⟩ := h.cleanup hv closed hstop hc
    exact ⟨_, w', .of_run (.cleanup w closed (h.stopped_iff.2 hstop)
      fun s hs => (h.hasClient_iff s).2 (hclosed s hs)) hrun, hm⟩

end

/-! ## Runs -/

/-- The PDUs made messages of in a run. -/
def putCount (tr : List (Action × State)) : ℕ := (tr.map (·.1.puts)).sum

/-- **A run in memory is a run of a session**, and the entries lost are those of the PDUs. -/
theorem runs {w : State} {v : Session.State} {L : Layout ℕ} {tr : List (Action × State)}
    (h : Exec Goes w tr) (hs : Simulates w v L) (hv : Sound v) :
    ∃ str L', Exec Session.Step v str ∧ Simulates (final w tr) (final v str) L' ∧
      L'.left + toPut v.reader = L.left + toPut (final v str).reader + putCount tr := by
  induction h generalizing v L with
  | nil w => exact ⟨[], L, .nil v, hs, rfl⟩
  | @cons w a w' tr hst _ ih =>
    rcases Step.refines hst hs hv with ⟨⟨w₁, hw₁, v', hv', L', hs', hleft⟩, -⟩ | ⟨herr, -⟩
    · cases hw₁
      rcases hv' with rfl | ⟨b, hb⟩
      · obtain ⟨str, L'', hex, hfinal, hleft'⟩ := ih hs' hv
        refine ⟨str, L'', hex, hfinal, ?_⟩
        simp only [putCount, List.map_cons, List.sum_cons] at hleft' ⊢
        omega
      · obtain ⟨str, L'', hex, hfinal, hleft'⟩ := ih hs' (hv.step hb)
        refine ⟨(b, v') :: str, L'', .cons hb hex, hfinal, ?_⟩
        simp only [putCount, List.map_cons, List.sum_cons, final] at hleft' ⊢
        omega
    · cases herr

/-- **A run of a session is a run in memory**, which has the same states. -/
theorem runs_realised (rt : Runtime) {w : State} {v : Session.State} {L : Layout ℕ}
    {str : List (Session.Action × Session.State)} (h : Exec Session.Step v str)
    (hs : Simulates w v L) (hv : Sound v) :
    ∃ tr, Exec Goes w tr ∧ List.Forall₂ (fun x y => ∃ L, Simulates x.2 y.2 L) tr str := by
  induction h generalizing w L with
  | nil v => exact ⟨[], .nil w, .nil⟩
  | @cons v b v' str hb _ ih =>
    obtain ⟨a, w', hgoes, L', hs', -⟩ := Step.realised hb hs hv rt
    obtain ⟨tr, hex, hall⟩ := ih hs' (hv.step hb)
    exact ⟨(a, w') :: tr, .cons hgoes hex, .cons ⟨L', hs'⟩ hall⟩

theorem simulates_final {w : State} {v : Session.State} {tr : List (Action × State)}
    {str : List (Session.Action × Session.State)}
    (h : List.Forall₂ (fun x y => ∃ L, Simulates x.2 y.2 L) tr str) (hs : ∃ L, Simulates w v L) :
    ∃ L, Simulates (final w tr) (final v str) L := by
  induction h generalizing w v with
  | nil => exact hs
  | cons hxy _ ih => exact ih hxy

theorem sound_final {str : List (Session.Action × Session.State)}
    (h : Exec Session.Step Session.State.start str) : Sound (final Session.State.start str) :=
  h.inv (I := Sound) (fun _ _ _ hI hs => hI.step hs) sound_start _ (final_mem_states _ _)

/-- There is always an address that is not allocated. -/
theorem exists_runtime : Nonempty Runtime := by
  refine ⟨⟨fun h => h.cells.keys.sup id + 1, fun h => ?_, 0⟩⟩
  rw [Heap.get, Finmap.lookup_eq_none, ← Finmap.mem_keys]
  intro hmem
  have hle := Finset.le_sup (f := id) hmem
  exact Nat.not_succ_le_self _ hle

/-- One client connects. -/
theorem leads_inserted (rt : Runtime) {socket : Socket} (hpos : 0 < socket) :
    ∃ i s, i.value = Muxer.allocConnection socket ∧
      Represents s { Layout.start with connections := [i] } ∧
      Leads Goes State.start [.accept socket, .insert]
        { State.start with store := s, opened := [socket] } := by
  obtain ⟨i, hi, s, hrun, hr⟩ := insertConnection_ok simulates_start.represents rt hpos
  have haccept : Goes State.start (.accept socket)
      { State.start with opened := [socket], reader := .accepted socket } :=
    .accept State.start socket rfl (fun ⟨d, hd, _⟩ => by cases hd) hpos List.not_mem_nil
  have hinsert := Step.insert
    { State.start with opened := [socket], reader := .accepted socket } rt socket rfl rfl
  have hok : State.insert rt { State.start with opened := [socket], reader := .accepted socket }
      socket = .ok { State.start with store := s, opened := [socket] } := by
    simp only [State.insert, hrun, ok_bind]
    rfl
  rw [hok] at hinsert
  exact ⟨i, s, hi, hr, .cons haccept (.single hinsert)⟩

/-- **The session is what there is in memory, and no more**: each of its runs is one in memory, with
the same states, whatever happens in it. -/
theorem memory_realises {str : List (Session.Action × Session.State)}
    (h : Exec Session.Step Session.State.start str) :
    ∃ tr, Exec Goes State.start tr ∧
      List.Forall₂ (fun x y => ∃ L, Simulates x.2 y.2 L) tr str := by
  obtain ⟨rt⟩ := exists_runtime
  exact runs_realised rt h simulates_start sound_start

/-- A client's request is mapped, in memory as well. -/
theorem memory_realises_mapped : ∃ str tr, Exec Session.Step Session.State.start str ∧
    (final Session.State.start str).mux.socketToRecvUnicastMsg.length = 1 ∧
    Exec Goes State.start tr ∧
      List.Forall₂ (fun x y => ∃ L, Simulates x.2 y.2 L) tr str := by
  obtain ⟨str, hex, -, hone, -⟩ := Session.exists_mapped
  obtain ⟨tr, hruns, hall⟩ := memory_realises hex
  exact ⟨str, tr, hex, hone, hruns, hall⟩

end Muxer.Memory
