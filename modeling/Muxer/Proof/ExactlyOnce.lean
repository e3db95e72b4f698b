import Muxer.Proof.Once
import Muxer.Proof.Streams

/-!
# Exactly-once relay

In a run in which no client is dropped, and no request is processed before the response to the one
32767 positions earlier has been, each request is waiting, or forwarded once, and then has one
mapping until its response is processed and one reply from then on.

* `exactlyOnce_of_reliable`: this, in every state of every such run in which the processing thread is idle.
* `exactlyOnce_fails`: it is not enough that the server has answered the earlier request.
-/

namespace Muxer

open Lib

variable {w w' : World} {a : Action}

/-! ## Runs without failures -/

/-- No client is dropped, and when a request is mapped the one 32767 positions before it is among
those answered. -/
def Reliable (answered : World → List ℕ) (w : World) (a : Action) : Prop :=
  (∀ t i closed, a ≠ .drop t i closed) ∧
    (a = .mapRequest → ∀ r, w.processing = .taken r → 32767 ≤ r.tag →
      r.tag - 32767 ∈ answered w)

theorem Step.dropping_none (hd : w.dropping = none) (ha : ∀ t i closed, a ≠ .drop t i closed)
    (hs : Step w a w') : w'.dropping = none ∧ a ≠ .unmap ∧ a ≠ .unlink := by
  cases hs with
  | drop t i closed conn hr hfree hi => exact absurd rfl (ha t i closed)
  | unmap t s hdrop =>
    rw [hd] at hdrop
    cases hdrop
  | unlink t s hdrop =>
    rw [hd] at hdrop
    cases hdrop
  | _ => exact ⟨hd, by simp, by simp⟩

theorem hand_eq_taken {pc : ProcessingPc} {r : InMessage ℕ} (h : pc.hand = .taken r) :
    pc = .taken r := by
  cases pc with
  | taken r' =>
    cases h
    rfl
  | _ => cases h

/-- Worlds in which each request is relayed once. -/
structure OnceInv (w : World) : Prop where
  world : WorldInv w
  dropping : w.dropping = none
  once : Once w.exchange
  streams : StreamsIn w.mux.connections w.sentIn w.delivered

theorem OnceInv.start : OnceInv World.start where
  world := WorldInv.start
  dropping := rfl
  once := Once.start
  streams := ⟨fun _ hc => absurd hc List.not_mem_nil, fun _ hc => absurd hc List.not_mem_nil⟩

/-- Every message copied to a connection is one for a client that is still there. -/
theorem OnceInv.socket_mem (h : OnceInv w) : ∀ d ∈ w.delivered, d.message.socket ∈ w.sockets :=
  fun _ hd => h.once.socket_mem (List.mem_append_right _ (List.mem_map_of_mem hd))

theorem OnceInv.step (h : OnceInv w) (hl : Latest w) (hP : Reliable World.processed w a)
    (hs : Step w a w') : OnceInv w' ∧ Latest w' := by
  obtain ⟨hdrop, hnunmap, hnunlink⟩ := hs.dropping_none h.dropping hP.1
  obtain ⟨ev, hev, hof⟩ := hs.exchange h.world
  have hstay : ∀ s, ev ≠ .disconnect s ∧ ev ≠ .unmap s := by
    intro s
    constructor
    · rintro rfl
      exact hnunlink hof
    · rintro rfl
      exact hnunmap hof
  have hlatest := hl.step h.world.clients h.socket_mem hs
  refine ⟨⟨h.world.step hs, hdrop, h.once.step h.world.numbered hstay ?_ hev, ?_⟩, hlatest⟩
  · rintro rfl r hhand
    exact hP.2 hof r (hand_eq_taken hhand)
  -- no client follows another on a handle, so that all that was delivered is current
  · have hserved : Served w := ⟨fun d hd => (hl d hd).le, by rw [hl.current_eq]; exact h.streams⟩
    rw [← hlatest.current_eq]
    exact (hserved.step h.world.clients hs).streams

/-! ## Exactly once -/

/-- The entries of `r_in_messages` that are the `n`-th request. -/
def World.waits (w : World) (n : ℕ) : List (InMessage ℕ) := w.mux.rInMessages.filter (·.tag == n)

/-- The messages forwarded for it: in `w_out_messages`, in the buffer or sent. -/
def World.forwards (w : World) (n : ℕ) : List (OutMessage ℕ) :=
  (w.takenOut ++ w.mux.wOutMessages).filter (·.tag == n)

/-- Its mappings. -/
def World.mappings (w : World) (n : ℕ) : List (Mapping ℕ) :=
  w.mux.socketToRecvUnicastMsg.filter (·.tag == n)

/-- The responses to it: in `w_in_messages`, or copied to a connection. -/
def World.replies (w : World) (n : ℕ) : List (InMessage ℕ) :=
  (w.mux.wInMessages ++ w.delivered.map (·.message)).filter (·.tag == n)

/-- It is not in `r_in_messages` any more, and was forwarded once, under the id `g`. -/
def World.ForwardedAs (w : World) (n : ℕ) (q : InputType) (g : UInt64) : Prop :=
  w.waits n = [] ∧ ∃ p, w.forwards n = [⟨p, n⟩] ∧
    decodeInPdu p = .ok (0, some ⟨g.toInt64, q.command⟩)

/-- What there is of the `n`-th request, which decodes to `q`. -/
inductive Stage (w : World) (n : ℕ) (req : Request) (q : InputType) : Prop
  | waiting : w.waits n = [⟨req.socket, req.pdu, n⟩] → w.forwards n = [] → w.mappings n = [] →
      w.replies n = [] → Stage w n req q
  /-- No other mapping has the id. -/
  | forwarded (g : UInt64) : n ∉ w.processed → w.ForwardedAs n q g →
      w.mappings n = [⟨req.socket, q.invokeid.toUInt64, g, n⟩] →
      w.mux.socketToRecvUnicastMsg.filter (·.invokeidGenerated == g) =
        [⟨req.socket, q.invokeid.toUInt64, g, n⟩] →
      w.replies n = [] → Stage w n req q
  | answered (g : UInt64) (r : Pdu) (command result : Bytes) : n ∈ w.processed →
      w.ForwardedAs n q g → w.mappings n = [] → w.replies n = [⟨req.socket, r, n⟩] →
      decodeOutPdu r = .ok (0, some ⟨q.invokeid, command, result⟩) → Stage w n req q

/-- Each request is at one stage, and there is nothing else. -/
structure ExactlyOnce (w : World) : Prop where
  stage : ∀ n req, w.requests[n]? = some req →
    ∃ q, decodeInPdu req.pdu = .ok (0, some q) ∧ Stage w n req q
  nothingElse : ∀ n, w.requests.length ≤ n →
    w.waits n = [] ∧ w.forwards n = [] ∧ w.mappings n = [] ∧ w.replies n = []
  sentOut : w.sentOut ++ w.mux.outConnection.unsent = frames (w.takenOut.map (·.pdu))
  sentIn : ∀ c ∈ w.mux.connections,
    w.sentIn c.socket ++ c.unsent = frames (deliveredTo c.socket w.delivered)

/-- With nothing in hand, the requests taken are mapped and forwarded. -/
theorem started_of_idle (h : Numbered w.exchange) (hidle : w.processing = .idle) :
    w.exchange.mapped = w.exchange.started ∧
      w.exchange.forwarded.length = w.exchange.started := by
  have hlen := congrArg List.length h.forwarded
  rw [List.length_map, List.length_range] at hlen
  rw [hlen]
  simp only [Exchange.mapped, World.exchange, hidle, ProcessingPc.hand, Hand.unmapped,
    Hand.unforwarded, Nat.sub_zero, and_self]

theorem OnceInv.stage (h : OnceInv w) (hidle : w.processing = .idle) {n : ℕ} {req : Request}
    (hreq : w.requests[n]? = some req) :
    ∃ q, decodeInPdu req.pdu = .ok (0, some q) ∧ Stage w n req q := by
  have hn := h.world.numbered
  obtain ⟨hmapped, hforwarded⟩ := started_of_idle hn hidle
  -- a request taken is forwarded, for nothing is in hand
  by_cases hlt : n < w.exchange.started
  · obtain ⟨q, g, p, hq, hg, hone, hdec⟩ := hn.forwarded_one (by rw [hforwarded]; exact hlt) hreq
    have has : w.ForwardedAs n q g := ⟨hn.waiting_none (.inl hlt), p, hone, hdec⟩
    refine ⟨q, hq, ?_⟩
    by_cases hp : n ∈ w.processed
    · obtain ⟨r, command, result, hreply, hdec'⟩ := h.once.replies_one hn hp hreq hq
      exact .answered g r command result hp has (h.once.table_none hn (.inl hp)) hreply hdec'
    · obtain ⟨htag, hid⟩ := h.once.table_one hn (by rw [hmapped]; exact hlt) hp hreq hq hg
      exact .forwarded g hp has htag hid (h.once.replies_none hp)
  · obtain ⟨q, hq, -⟩ := decodeInPdu_total req.pdu
    have hle := Nat.not_lt.1 hlt
    refine ⟨q, hq, .waiting (hn.waiting_one hle hreq)
      (hn.forwarded_none (by rw [hforwarded]; exact hle))
      (h.once.table_none hn (.inr (by rw [hmapped]; exact hle))) (h.once.replies_none ?_)⟩
    intro hp
    have := hn.processed_lt hp
    omega

theorem OnceInv.exactlyOnce (h : OnceInv w) (hidle : w.processing = .idle) : ExactlyOnce w where
  stage _ _ hreq := h.stage hidle hreq
  nothingElse n hle := by
    have hn := h.world.numbered
    obtain ⟨hmapped, hforwarded⟩ := started_of_idle hn hidle
    have hstarted : w.exchange.started ≤ n := Nat.le_trans (Nat.sub_le _ _) hle
    refine ⟨hn.waiting_none (.inr hle), hn.forwarded_none (by rw [hforwarded]; exact hstarted),
      h.once.table_none hn (.inr (by rw [hmapped]; exact hstarted)), h.once.replies_none ?_⟩
    intro hp
    have := hn.processed_lt hp
    omega
  sentOut := h.world.streams.sent
  sentIn := h.streams.sent

/-- **Exactly-once relay.** In a run without failures in which a request is processed only once the
response to the one 32767 positions before it has been, whenever the processing thread is idle each
request read is waiting; or forwarded once, under an id that its one mapping, and no other, has
until the response is processed; or answered once. Nothing else is forwarded or delivered, and
the bytes sent are those of the messages. -/
theorem exactlyOnce_of_reliable {tr : List (Action × World)} (h : Exec Step World.start tr)
    (hreliable : Steps (Reliable World.processed) World.start tr) :
    ∀ v ∈ states World.start tr, v.processing = .idle → ExactlyOnce v := by
  have hinv := h.inv_of_steps (I := fun v => OnceInv v ∧ Latest v)
    (fun _ _ _ hI hP hs => hI.1.step hI.2 hP hs)
    ⟨OnceInv.start, fun _ hd => absurd hd List.not_mem_nil⟩ hreliable
  intro v hv hidle
  exact (hinv v hv).1.exactlyOnce hidle

/-! ## Runs with few requests -/

theorem Step.requests_length_le (hs : Step w a w') : w.requests.length ≤ w'.requests.length := by
  cases hs with
  | putIn s p ps hr => simp
  | _ => exact Nat.le_refl _

theorem Step.answered_subset (hs : Step w a w') : w.answered ⊆ w'.answered := by
  cases hs with
  | answer k p f q d b hf hq hk hka hpos hlen hp hid => simp
  | _ => exact List.Subset.refl _

/-- A run is reliable if, in each of its states, the requests 32767 positions before others have been
answered. -/
theorem reliable_of_states {answered : World → List ℕ} {tr : List (Action × World)}
    (h : Exec Step w tr) (hw : WorldInv w)
    (hdrop : ∀ a ∈ tr.map Prod.fst, ∀ t i closed, a ≠ .drop t i closed)
    (hdone : ∀ v ∈ states w tr, ∀ n, n + 32767 < v.requests.length → n ∈ answered v) :
    Steps (Reliable answered) w tr := by
  induction h with
  | nil w => trivial
  | @cons w a w' tr hs _ ih =>
    rw [List.map_cons, List.forall_mem_cons] at hdrop
    rw [states_cons, List.forall_mem_cons] at hdone
    refine ⟨⟨hdrop.1, ?_⟩, ih (hw.step hs) hdrop.2 hdone.2⟩
    intro _ r hr hle
    have hhand : w.exchange.hand = .taken r := by simp [World.exchange, hr, ProcessingPc.hand]
    have hlast : r.tag + 1 = w.requests.length - w.mux.rInMessages.length :=
      (hw.numbered.taken hhand).1
    apply hdone.1
    omega

/-- The first request of the first client is relayed. -/
theorem exactlyOnce_first : ∃ tr, Exec Step World.start tr ∧
    (final World.start tr).requests.length = 1 ∧
    (∃ d, (final World.start tr).delivered = [d]) ∧ ExactlyOnce (final World.start tr) := by
  obtain ⟨as, w₁, conn, has, h₁, honly, hreq₁, -, hdel₁, -⟩ := leads_only payloadOK_zeros
  obtain ⟨bs, w₂, x, c, hbs, h₂, hquiet, -, hreq₂, -, hdel₂, -⟩ := leads_relay honly
  obtain ⟨tr, hex, hlabels, rfl⟩ := h₁.trans h₂
  have hlen : (final World.start tr).requests.length = 1 := by rw [hreq₂, hreq₁]; rfl
  have hfew := hex.le_final (f := fun v => v.requests.length) fun _ _ _ => Step.requests_length_le
  have hdrop : ∀ a ∈ tr.map Prod.fst, ∀ t i closed, a ≠ .drop t i closed := by
    rw [hlabels]
    exact List.forall_mem_append.2 ⟨not_drop_of_plain has, fun a ha => (hbs a ha).2⟩
  have hreliable : Steps (Reliable World.processed) World.start tr :=
    reliable_of_states hex WorldInv.start hdrop fun v hv n hlt => by
      have := hfew v hv
      omega
  exact ⟨tr, hex, hlen, ⟨_, by rw [hdel₂, hdel₁]; rfl⟩,
    exactlyOnce_of_reliable hex hreliable _ (final_mem_states _ _) hquiet.processing⟩

/-- With a request and the one 32767 positions after it both mapped, the first is not relayed under
an id of its own. -/
theorem not_exactlyOnce (hw : WorldInv w) (hnone : w.mux.rInMessages = [])
    (hlen : 0 < w.requests.length)
    (hlast : 32767 ∈ w.mux.socketToRecvUnicastMsg.map (·.tag)) (hp : w.processed = []) :
    ¬ExactlyOnce w := by
  intro h
  obtain ⟨q, -, hstage⟩ := h.stage 0 w.requests[0] (List.getElem?_eq_getElem hlen)
  cases hstage with
  | waiting hwaits hf hm hr =>
    rw [World.waits, hnone] at hwaits
    cases hwaits
  | forwarded g hnot has hm hid hr =>
    have hfirst : (⟨w.requests[0].socket, q.invokeid.toUInt64, g, 0⟩ : Mapping ℕ) ∈
        w.mux.socketToRecvUnicastMsg :=
      List.mem_of_mem_filter (p := (·.tag == 0)) (by
        rw [show w.mux.socketToRecvUnicastMsg.filter (·.tag == 0) = _ from hm]
        exact List.mem_cons_self)
    obtain ⟨t, ht, htag⟩ := List.mem_map.1 hlast
    have hg := (hw.numbered.table _ hfirst).2.1
    have hgen := (hw.numbered.table t ht).2.1
    -- the ids of both are 1
    have hsame : t.invokeidGenerated = g := by
      rw [← UInt64.toNat_inj, hgen, htag, hg]
      simp [genId]
    have hmem : t ∈ w.mux.socketToRecvUnicastMsg.filter (·.invokeidGenerated == g) :=
      List.mem_filter.2 ⟨ht, by simpa using hsame⟩
    rw [hid, List.mem_singleton] at hmem
    rw [hmem] at htag
    cases htag
  | answered g r command result hmem has hm hr hdec =>
    rw [hp] at hmem
    exact absurd hmem List.not_mem_nil

/-- The answer to the first request comes when the pass that takes the next one has looked for
responses already. -/
theorem leads_late (h : w.Serving) {a : OutMessage ℕ} (hpending : w.pending = [a])
    (hwire : w.wire = a.pdu.frame) (h0 : w.mux.outConnection.rBufferPtr = 0)
    (hp : PayloadOK a.pdu) : ∃ as w', (∀ a ∈ as, a.Plain) ∧ Leads Step w as w' ∧
    w'.processing = .idle ∧ w'.mux.rInMessages = [] ∧
    w'.requests.length = w.requests.length + 1 ∧
    w'.mux.socketToRecvUnicastMsg.map (·.tag) =
      w.mux.socketToRecvUnicastMsg.map (·.tag) ++ [w.requests.length] ∧
    w'.processed = w.processed := by
  obtain ⟨c, hi, hpos, h0c⟩ := h.client
  obtain ⟨c', -, -, -, h₁⟩ := leads_read h.reader h.dropping hi h0c payloadOK_zeros
  obtain ⟨w₁, h₁, hw₁⟩ := h₁.exists_eq
  -- the pass has found no response when the answer is received
  have hturn : Step w₁ .noneOut { w₁ with turn := .requests } :=
    .noneOut w₁ (by rw [hw₁]; exact h.processing) (by rw [hw₁]; exact h.turn)
      (by rw [hw₁]; exact h.rOutMessages)
  obtain ⟨out, -, -, h₂⟩ := leads_receive (w := { w₁ with turn := .requests }) (a := a)
    (by rw [hw₁]) (by rw [hw₁]; exact h.dropping) (by rw [hw₁]; exact hpending)
    (by rw [hw₁]; exact hwire) (by rw [hw₁]; exact h0) hp
  obtain ⟨w₂, h₂, hw₂⟩ := h₂.exists_eq
  obtain ⟨q, p, -, -, -, h₃⟩ := leads_process (w := w₂)
    (r := ⟨c.socket, ⟨[0, 0], by decide⟩, w.requests.length⟩)
    (by rw [hw₂, hw₁]; exact h.processing) (by rw [hw₂, hw₁, h.rInMessages]; rfl) hpos
  obtain ⟨w₃, h₃, hw₃⟩ := h₃.exists_eq
  have hrequests : { w₂ with turn := .requests } = w₂ := by rw [hw₂]
  rw [hrequests] at h₃
  refine ⟨_, w₃, ?_, h₁.trans (.cons hturn (h₂.trans h₃)), ?_, ?_, ?_, ?_, ?_⟩
  · simp [Action.Plain]
  · rw [hw₃]
  · rw [hw₃]
  · simp [hw₃, hw₂, hw₁]
  · simp [hw₃, hw₂, hw₁]
  · simp [hw₃, hw₂, hw₁]

/-- The server has answered the first request, but its response is on its way while 32767 more are
processed: the id of the first is then that of the last one too. -/
theorem exactlyOnce_fails : ∃ tr, Exec Step World.start tr ∧
    Steps (Reliable World.answered) World.start tr ∧
    (final World.start tr).processing = .idle ∧ ¬ExactlyOnce (final World.start tr) := by
  obtain ⟨as, w₁, conn, has, h₁, honly, hreq₁, -, -, htaken₁, hproc₁⟩ := leads_only payloadOK_zeros
  obtain ⟨bs, w₂, hbs, h₂, ⟨p, d, o, hcome, hpay, -⟩, hreq₂, -, -, hans₂, hproc₂⟩ :=
    leads_coming honly
  have hserving : w₂.Serving :=
    { reader := hcome.reader
      dropping := hcome.dropping
      processing := hcome.processing
      turn := hcome.turn
      rInMessages := hcome.rInMessages
      rOutMessages := hcome.rOutMessages
      client := ⟨conn, by rw [hcome.client]; rfl, by rw [← honly.socket]; exact honly.pos,
        honly.unread⟩ }
  -- with the first, 32767 requests are mapped, under all the ids there are
  obtain ⟨cs, w₃, hcs, h₃, hserving₃, hasked⟩ := leads_many hserving 32766
  have hwire : w₃.wire = p.frame := by
    rw [hasked.wire, hcome.wire]
    simp
  obtain ⟨ds, w₄, hds, h₄, hidle₄, hnone₄, hlen₄, htags₄, hproc₄⟩ :=
    leads_late hserving₃ (hasked.pending.trans hcome.pending) hwire
      (by rw [hasked.outConnection]; exact hcome.rBufferPtr) hpay
  have hlen₃ : w₃.requests.length = 32767 := by
    rw [hasked.requests, hreq₂, hreq₁]
    rfl
  have hanswered : 0 ∈ w₃.answered := by
    rw [hasked.answered, hans₂, htaken₁]
    exact List.mem_append_right _ List.mem_cons_self
  obtain ⟨tr, hex, hlabels, rfl⟩ := h₁.trans (h₂.trans h₃)
  obtain ⟨tr', hex', hlabels', rfl⟩ := h₄
  have hrun := hex.append hex'
  have hdrop : ∀ a ∈ (tr ++ tr').map Prod.fst, ∀ t i closed, a ≠ .drop t i closed := by
    rw [List.map_append, hlabels, hlabels']
    refine List.forall_mem_append.2 ⟨?_, fun a ha => (hds a ha).2⟩
    exact List.forall_mem_append.2 ⟨not_drop_of_plain has, List.forall_mem_append.2
      ⟨fun a ha => (hbs a ha).2, fun a ha => (hcs a ha).2⟩⟩
  have hfew := hex.le_final (f := fun v => v.requests.length) fun _ _ _ => Step.requests_length_le
  have hfew' := hex'.le_final (f := fun v => v.requests.length) fun _ _ _ =>
    Step.requests_length_le
  have hkept := hex'.inv (I := fun v => 0 ∈ v.answered)
    (fun _ _ _ hI hs => hs.answered_subset hI) hanswered
  have hinv := hrun.inv (fun _ _ _ hI hs => WorldInv.step hI hs) WorldInv.start _
    (final_mem_states _ _)
  rw [final_append] at hinv
  refine ⟨tr ++ tr', hrun, ?_, ?_, ?_⟩
  · refine reliable_of_states hrun WorldInv.start hdrop ?_
    intro v hv n hlt
    -- 32767 requests at most until the last one, and then the first has been answered
    rcases mem_states_append hv with hv | hv
    · have := hfew v hv
      omega
    · have := hfew' v hv
      rw [show n = 0 by omega]
      exact hkept v hv
  · rw [final_append]
    exact hidle₄
  · rw [final_append]
    refine not_exactlyOnce hinv hnone₄ (by omega) ?_
      (by rw [hproc₄, hasked.processed, hproc₂, hproc₁])
    rw [htags₄, hlen₃]
    exact List.mem_append_right _ List.mem_cons_self

end Muxer
