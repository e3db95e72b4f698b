import Muxer.Proof.Runs

/-!
# A response goes to the connection its request came from

A disconnect removes the mappings there are at that moment. What else the client has left, in
`r_in_messages`, in the hands of the processing thread or in `w_in_messages`, is known by its
handle only, and counts as the next client's on that handle.

* `isolated_of_fresh`: responses are isolated in a run in which no client is inserted on a handle
  that is still in use there.
* `isolated_fails`: a client gets the response to a request of its predecessor.
-/

namespace Muxer

open Lib

variable {e e' : Exchange} {w w' : World} {a : Action}

/-- What is copied to a connection stems from a request read from it. -/
def World.Isolated (w : World) : Prop :=
  ∀ d ∈ w.delivered, ∃ req, w.requests[d.message.tag]? = some req ∧
    req.socket = d.message.socket ∧ req.inst = d.inst

/-- The handle is not that of a request waiting or in hand, of a mapping, or of a message for a
client. -/
structure Exchange.Unused (e : Exchange) (s : Socket) : Prop where
  waiting : ∀ r ∈ e.waiting, r.socket ≠ s
  hand : ∀ r, e.hand = .taken r → r.socket ≠ s
  table : ∀ t ∈ e.table, t.socket ≠ s
  replies : ∀ r ∈ e.replies, r.socket ≠ s

/-- A client is inserted on a handle that is not in use. -/
def FreshHandle (w : World) (a : Action) : Prop :=
  a = .insert → ∀ s, w.reader = .accepted s → w.exchange.Unused s

/-! ## The invariant -/

/-- The number is that of a request read from the present client on the handle. -/
def Exchange.Current (e : Exchange) (n : ℕ) (s : Socket) : Prop :=
  ∃ req, e.requests[n]? = some req ∧ req.socket = s ∧ req.inst = e.inst s

/-- Everything that is on its way stems from a request of the present client on its handle. -/
structure Isolated (e : Exchange) : Prop where
  waiting : ∀ r ∈ e.waiting, e.Current r.tag r.socket
  hand : ∀ r, e.hand = .taken r → e.Current r.tag r.socket
  table : ∀ t ∈ e.table, e.Current t.tag t.socket
  replies : ∀ r ∈ e.replies, e.Current r.tag r.socket
  delivered : ∀ d ∈ e.delivered, ∃ req, e.requests[d.message.tag]? = some req ∧
    req.socket = d.message.socket ∧ req.inst = d.inst

theorem Exchange.Current.snoc {n : ℕ} {s : Socket} (h : e.Current n s) (req : Request) :
    Exchange.Current { e with requests := e.requests ++ [req] } n s := by
  obtain ⟨req₀, hreq, hrest⟩ := h
  exact ⟨req₀, getElem?_snoc req hreq, hrest⟩

/-- A client on another handle changes nothing. -/
theorem Exchange.Current.connect {n : ℕ} {s t : Socket} (h : e.Current n t) (hne : t ≠ s) :
    Exchange.Current { e with
      clients := e.clients ++ [s]
      inst := Function.update e.inst s (e.inst s + 1) } n t := by
  obtain ⟨req, hreq, hsock, hinst⟩ := h
  have hkeep := Function.update_of_ne hne (e.inst s + 1) e.inst
  exact ⟨req, hreq, hsock, hinst.trans hkeep.symm⟩

theorem Isolated.connect (h : Isolated e) {s : Socket} (hs : e.Unused s) :
    Isolated { e with
      clients := e.clients ++ [s]
      inst := Function.update e.inst s (e.inst s + 1) } where
  waiting r hr := (h.waiting r hr).connect (hs.waiting r hr)
  hand r hr := (h.hand r hr).connect (hs.hand r hr)
  table t ht := (h.table t ht).connect (hs.table t ht)
  replies r hr := (h.replies r hr).connect (hs.replies r hr)
  delivered := h.delivered

theorem Isolated.read (h : Isolated e) (s : Socket) (p : Pdu) :
    Isolated { e with
      requests := e.requests ++ [⟨s, e.inst s, p⟩]
      waiting := e.waiting ++ [⟨s, p, e.requests.length⟩] } where
  waiting r hr := by
    rcases List.mem_append.1 hr with hr | hr
    · exact (h.waiting r hr).snoc _
    · rw [List.mem_singleton.1 hr]
      exact ⟨_, List.getElem?_concat_length, rfl, rfl⟩
  hand r hr := (h.hand r hr).snoc _
  table t ht := (h.table t ht).snoc _
  replies r hr := (h.replies r hr).snoc _
  delivered d hd := by
    obtain ⟨req, hreq, hrest⟩ := h.delivered d hd
    exact ⟨req, getElem?_snoc _ hreq, hrest⟩

theorem Isolated.map (h : Isolated e) {r : InMessage ℕ} (hhand : e.hand = .taken r)
    (q : InputType) (v g counter : UInt64) :
    Isolated { e with
      counter := counter
      table := e.table ++ [⟨r.socket, v, g, r.tag⟩]
      hand := .mapped r q } :=
  { h with
    hand := fun r hr => by cases hr
    table := by
      intro t ht
      rcases List.mem_append.1 ht with ht | ht
      · exact h.table t ht
      · rw [List.mem_singleton.1 ht]
        exact h.hand r hhand }

/-- Among fewer than 32767 requests, an id is that of one request. -/
theorem genId_injective {m n : ℕ} (hm : m < 32767) (hn : n < 32767) (h : genId m = genId n) :
    m = n := by
  unfold genId at h
  omega

/-- The number of requests bounds the marks of the answers. -/
theorem Numbered.answer_lt (h : Numbered e) {p : OutMessage ℕ} (hp : p ∈ e.answers) :
    p.tag < e.requests.length := by
  have hmem : p.tag ∈ e.answered := by
    rw [h.answered]
    exact List.mem_append_right _ (List.mem_map_of_mem hp)
  have hlt := h.answeredLt _ hmem
  have hlen := congrArg List.length h.forwarded
  rw [List.length_map, List.length_range] at hlen
  unfold Exchange.started at hlen
  omega

theorem Numbered.table_lt (h : Numbered e) {t : Mapping ℕ} (ht : t ∈ e.table) :
    t.tag < e.requests.length := by
  have := (h.table t ht).1
  unfold Exchange.started at this
  omega

/-- The replies to a response are those to the request it answers. -/
theorem Isolated.deliver (h : Isolated e) (hn : Numbered e) (hlen : e.requests.length < 32767)
    {p : OutMessage ℕ} {rest : List (OutMessage ℕ)} {d : OutputType} {rs : List (InMessage ℕ)}
    (hp : e.answers = p :: rest) (hd : decodeOutPdu p.pdu = .ok (0, some d))
    (hrs : List.Forall₂ (Replied d p.tag)
      (e.table.filter (·.invokeidGenerated == d.invokeid.toUInt64)) rs) :
    Isolated { e with
      table := e.table.filter (·.invokeidGenerated != d.invokeid.toUInt64)
      answers := rest
      processed := e.processed ++ [p.tag]
      replies := e.replies ++ rs } :=
  { h with
    table := fun t ht => h.table t (List.mem_of_mem_filter ht)
    replies := by
      have hmem : p ∈ e.answers := by
        rw [hp]
        exact List.mem_cons_self
      intro r hr
      rcases List.mem_append.1 hr with hr | hr
      · exact h.replies r hr
      · obtain ⟨t, ht, hsock, htag, -⟩ := exists_of_replied hrs hr
        obtain ⟨ht, hmatch⟩ := List.mem_filter.1 ht
        -- the mapping is that of the request answered, for they have the same id
        obtain ⟨d', hd', hgen⟩ := hn.answers p hmem
        rw [hd] at hd'
        cases hd'
        have hid : genId t.tag = genId p.tag := by
          rw [← hgen, ← (hn.table t ht).2.1, beq_iff_eq.1 hmatch]
        have htp := genId_injective ((hn.table_lt ht).trans hlen) ((hn.answer_lt hmem).trans hlen) hid
        rw [htag, hsock, ← htp]
        exact h.table t ht }

/-- A message loaded is one of the present client. -/
theorem Isolated.load (h : Isolated e) {q q' : List (InMessage ℕ)} {r : InMessage ℕ}
    (hq : e.replies = q ++ r :: q') :
    Isolated { e with
      replies := q ++ q'
      delivered := e.delivered ++ [⟨r, e.inst r.socket⟩] } where
  waiting := h.waiting
  hand := h.hand
  table := h.table
  replies x hx := by
    refine h.replies x ?_
    rw [hq]
    rcases List.mem_append.1 hx with hx | hx
    · exact List.mem_append_left _ hx
    · exact List.mem_append_right _ (List.mem_cons_of_mem _ hx)
  delivered d hd := by
    rcases List.mem_append.1 hd with hd | hd
    · exact h.delivered d hd
    · rw [List.mem_singleton.1 hd]
      exact h.replies r (by rw [hq]; exact List.mem_append_right _ List.mem_cons_self)

/-- **Every move keeps clients isolated**, if no client comes on a handle in use. -/
theorem Isolated.step (h : Isolated e) (hn : Numbered e) (hlen : e.requests.length < 32767)
    {ev : Event} (hfresh : ∀ s, ev = .connect s → e.Unused s) (hs : ExchangeStep e ev e') :
    Isolated e' := by
  cases hs with
  | stay => exact h
  | connect s hs => exact h.connect (hfresh s rfl)
  | disconnect s => exact { h with }
  | unmap s => exact { h with table := fun t ht => h.table t (List.mem_of_mem_filter ht) }
  | read s p hs => exact h.read s p
  | take r rest hhand hr =>
    exact { h with
      waiting := fun x hx => h.waiting x (by rw [hr]; exact List.mem_cons_of_mem _ hx)
      hand := by
        intro x hx
        cases hx
        exact h.waiting r (by rw [hr]; exact List.mem_cons_self) }
  | map r q hhand hpos hq => exact h.map hhand q _ _ _
  | forward r q p hhand hp => exact { h with hand := fun x hx => by cases hx }
  | answer k f q p d hf hq hk hp hid => exact { h with }
  | deliver p rest d rs hp hd hv hrs => exact h.deliver hn hlen hp hd hrs
  | load q r q' hq => exact h.load hq
  | free q r q' hq hr => exact { h with replies := (h.load hq).replies }

/-! ## Runs -/

/-- Requests are only added. -/
theorem ExchangeStep.requests_length_le {ev : Event} (hs : ExchangeStep e ev e') :
    e.requests.length ≤ e'.requests.length := by
  cases hs with
  | read s p hs => simp
  | _ => exact le_refl _

/-- Worlds that are sound, and isolated as long as their requests are few. -/
def IsolatedInv (w : World) : Prop :=
  WorldInv w ∧ (w.requests.length < 32767 → Isolated w.exchange)

theorem IsolatedInv.step (h : IsolatedInv w) (hP : FreshHandle w a) (hs : Step w a w') :
    IsolatedInv w' := by
  obtain ⟨hinv, hiso⟩ := h
  obtain ⟨ev, hev, hof⟩ := hs.exchange hinv
  refine ⟨hinv.step hs, ?_⟩
  intro hlen
  have hle : w.requests.length < 32767 := Nat.lt_of_le_of_lt hev.requests_length_le hlen
  refine (hiso hle).step hinv.numbered hle (fun s hconnect => ?_) hev
  -- a client comes only by an insertion, on a handle that is fresh
  subst hconnect
  obtain ⟨rfl, hreader⟩ := hof
  exact hP rfl s hreader

/-- **Response isolation.** In a run in which clients are inserted on handles not in use only,
every message copied into the write buffer of a connection is the response to a request read from
that connection, as long as there have been fewer than 32767 requests. -/
theorem isolated_of_fresh {tr : List (Action × World)} (h : Exec Step World.start tr)
    (hfresh : Steps FreshHandle World.start tr) :
    ∀ v ∈ states World.start tr, v.requests.length < 32767 → v.Isolated := by
  have hstart : IsolatedInv World.start :=
    ⟨WorldInv.start, fun _ =>
      { waiting := fun r hr => absurd hr List.not_mem_nil
        hand := fun r hr => by cases hr
        table := fun t ht => absurd ht List.not_mem_nil
        replies := fun r hr => absurd hr List.not_mem_nil
        delivered := fun d hd => absurd hd List.not_mem_nil }⟩
  intro v hv hlen
  exact ((h.inv_of_steps (fun _ _ _ hI hP hs => hI.step hP hs) hstart hfresh v hv).2 hlen).delivered

/-! ## Two clients on one handle -/

theorem freshHandle_of_plain {as : List Action} (h : Leads Step w as w')
    (has : ∀ a ∈ as, a ≠ .insert) : LeadsBy Step FreshHandle w w' :=
  h.leadsBy fun a ha _ hins => absurd hins (has a ha)

theorem Exchange.Unused.of_empty (hwaiting : e.waiting = []) (hhand : e.hand = .empty)
    (htable : e.table = []) (hreplies : e.replies = []) (s : Socket) : e.Unused s where
  waiting r hr := by rw [hwaiting] at hr; cases hr
  hand r hr := by rw [hhand] at hr; cases hr
  table t ht := by rw [htable] at ht; cases ht
  replies r hr := by rw [hreplies] at hr; cases hr

/-- The first client sends a request, which is served, and goes; another one comes on its handle and
is served as well. -/
theorem leads_served : ∃ w x y, LeadsBy Step FreshHandle World.start w ∧ w.requests.length = 2 ∧
    w.delivered = [⟨x, 1⟩, ⟨y, 2⟩] ∧ x.socket = 1 ∧ y.socket = 1 := by
  obtain ⟨w₀, w₁, h₀, hins₁, hexch₀, hquiet₁, hreq₁, hinst₁, hdel₁, -⟩ := leads_first
  obtain ⟨as, w₂, c₂, has, h₂, honly₂, hreq₂, hinst₂, hdel₂, -⟩ :=
    leads_ask hquiet₁ Nat.one_pos rfl rfl payloadOK_zeros
  obtain ⟨bs, w₃, x, c₃, hbs, h₃, hquiet₃, hsock₃, hreq₃, hinst₃, hdel₃, hx, -⟩ := leads_relay honly₂
  have hsock : c₃.socket = 1 := hsock₃.trans honly₂.socket.symm
  have hpos : 0 < c₃.socket := by rw [hsock]; exact Nat.one_pos
  obtain ⟨w₄, w₅, h₄, hins₅, hexch₄, hquiet₅, hreq₅, hinst₅, hdel₅⟩ := leads_reconnect hquiet₃ hpos
  obtain ⟨cs, w₆, c₆, hcs, h₆, honly₆, hreq₆, hinst₆, hdel₆, -⟩ :=
    leads_ask hquiet₅ hpos rfl rfl payloadOK_zeros
  obtain ⟨ds, w₇, y, c₇, hds, h₇, -, -, hreq₇, -, hdel₇, hy, -⟩ := leads_relay honly₆
  have hinst : w₅.inst c₃.socket = 2 := by rw [hinst₅, hinst₃, hinst₂, hsock, hinst₁]
  -- nothing at all is on its way when a client is inserted
  have hfresh₁ : FreshHandle w₀ .insert := by
    rintro - s -
    rw [hexch₀]
    exact .of_empty rfl rfl rfl rfl s
  have hfresh₅ : FreshHandle w₄ .insert := by
    rintro - s -
    rw [hexch₄]
    exact .of_empty hquiet₃.rInMessages
      (by simp [World.exchange, hquiet₃.processing, ProcessingPc.hand]) hquiet₃.table
      hquiet₃.wInMessages s
  refine ⟨w₇, x, y, ?_, ?_, ?_, hx, hy.trans hsock⟩
  · have hfirst := (freshHandle_of_plain h₀ (by simp)).trans (.single hins₁ hfresh₁)
    have hserved := (freshHandle_of_plain h₂ fun a ha => (has a ha).1).trans
      (freshHandle_of_plain h₃ fun a ha => (hbs a ha).1)
    have hnext := (freshHandle_of_plain h₄ (by simp)).trans (.single hins₅ hfresh₅)
    exact hfirst.trans (hserved.trans (hnext.trans
      ((freshHandle_of_plain h₆ fun a ha => (hcs a ha).1).trans
        (freshHandle_of_plain h₇ fun a ha => (hds a ha).1))))
  · rw [hreq₇, hreq₆, hreq₅, hreq₃, hreq₂, hreq₁]
    rfl
  · rw [hdel₇, hdel₆, hdel₅, hdel₃, hdel₂, hdel₁, hinst₆, hinst₂]
    simp only [allocConnection, hinst, hinst₁, List.nil_append, List.cons_append]

/-- Both get the responses to their own requests. -/
theorem isolated_of_fresh_served : ∃ tr x y, Exec Step World.start tr ∧
    Steps FreshHandle World.start tr ∧
    (final World.start tr).delivered = [⟨x, 1⟩, ⟨y, 2⟩] ∧ x.socket = 1 ∧ y.socket = 1 ∧
    (final World.start tr).Isolated := by
  obtain ⟨w, x, y, ⟨tr, hex, hfresh, rfl⟩, hlen, hdel, hx, hy⟩ := leads_served
  exact ⟨tr, x, y, hex, hfresh, hdel, hx, hy,
    isolated_of_fresh hex hfresh _ (final_mem_states _ _) (by rw [hlen]; decide)⟩

/-- The first client sends a request and is dropped before it is processed: the next client on its
handle gets the response. -/
theorem isolated_fails : ∃ tr, Exec Step World.start tr ∧
    (final World.start tr).requests.length < 32767 ∧ ¬(final World.start tr).Isolated := by
  obtain ⟨as, w₁, c, -, h₁, honly₁, hreq₁, hinst₁, -⟩ := leads_only payloadOK_zeros
  obtain ⟨w₂, w₃, h₂, hins, -, hquiet₃, hreq₃, hinst₃, -⟩ :=
    leads_reconnect honly₁.toQuiet (by rw [← honly₁.socket]; exact honly₁.pos)
  have honly₃ : w₃.Only ⟨1, ⟨[0, 0], by decide⟩, 0⟩ (allocConnection c.socket) :=
    { toQuiet := hquiet₃
      socket := honly₁.socket
      pos := honly₁.pos
      unread := rfl
      empty := rfl }
  obtain ⟨bs, w₄, x, c', -, h₄, -, -, hreq₄, -, hdel₄, -, hxt⟩ := leads_relay honly₃
  obtain ⟨tr, hex, -, rfl⟩ := h₁.trans (h₂.trans (.cons hins h₄))
  refine ⟨tr, hex, by rw [hreq₄, hreq₃, hreq₁]; decide, ?_⟩
  intro hiso
  -- the request was read from the first client on the handle, the response is for the second
  obtain ⟨req, hreq, -, hinst⟩ := hiso ⟨x, 2⟩ (by
    rw [← honly₁.socket, hinst₁] at hinst₃
    rw [hdel₄, hinst₃]
    exact List.mem_append_right _ List.mem_cons_self)
  rw [hreq₄, hreq₃, hreq₁, hxt] at hreq
  cases hreq
  cases hinst

end Muxer
