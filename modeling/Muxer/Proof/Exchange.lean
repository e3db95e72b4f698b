import Muxer.System.Exchange

/-!
# Requests keep their numbers

Requests are taken, mapped and forwarded in the order they were read, so that the `n`-th one goes
to the server under the id `genId n`, and the answers that come back under an id are marked with
a request that went out under it (`Numbered`).

* `Numbered.step`: every move of an exchange keeps its messages numbered.
-/

namespace Muxer

variable {e e' : Exchange}

/-- The id generated for the `n`-th request. -/
def genId (n : ℕ) : ℕ := n % 32767 + 1

/-- Requests in the hand not yet mapped. -/
def Hand.unmapped : Hand → ℕ
  | .taken _ => 1
  | _ => 0

/-- Requests in the hand not yet forwarded. -/
def Hand.unforwarded : Hand → ℕ
  | .empty => 0
  | _ => 1

/-- How many requests have been taken. -/
def Exchange.started (e : Exchange) : ℕ := e.requests.length - e.waiting.length

/-- The message is the request it is marked with. -/
def Exchange.Is (e : Exchange) (r : InMessage ℕ) : Prop :=
  ∃ i, e.requests[r.tag]? = some ⟨r.socket, i, r.pdu⟩

/-- The mapping is of the request it is marked with: its socket and its id. -/
def Exchange.Maps (e : Exchange) (s : Mapping ℕ) : Prop :=
  ∃ req q, e.requests[s.tag]? = some req ∧ req.socket = s.socket ∧
    decodeInPdu req.pdu = .ok (0, some q) ∧ s.invokeidOriginal = q.invokeid.toUInt64

/-- The message is the request it is marked with, under the id generated for it. -/
def Exchange.Forwards (e : Exchange) (f : OutMessage ℕ) : Prop :=
  ∃ req q, e.requests[f.tag]? = some req ∧ decodeInPdu req.pdu = .ok (0, some q) ∧
    ∃ g : UInt64, g.toNat = genId f.tag ∧ decodeInPdu f.pdu = .ok (0, some ⟨g.toInt64, q.command⟩)

/-- The request in the hand is the last one taken. -/
def Exchange.Holds (e : Exchange) : Prop :=
  match e.hand with
  | .empty => True
  | .taken r => r.tag + 1 = e.started ∧ e.Is r
  | .mapped r q => r.tag + 1 = e.started ∧ e.Is r ∧ decodeInPdu r.pdu = .ok (0, some q)

/-- The messages of the exchange bear the numbers of the requests they stem from, and the ids
that were generated for these. -/
structure Numbered (e : Exchange) : Prop where
  length_le : e.waiting.length ≤ e.requests.length
  waiting : e.waiting.map (·.tag) = List.range' e.started e.waiting.length
  waitingIs : ∀ r ∈ e.waiting, e.Is r
  hand : e.Holds
  counter : e.counter.toNat =
    if e.started = e.hand.unmapped then 0 else genId (e.started - e.hand.unmapped - 1)
  table : ∀ s ∈ e.table, s.tag < e.started - e.hand.unmapped ∧
    s.invokeidGenerated.toNat = genId s.tag ∧ e.Maps s
  tableTags : (e.table.map (·.tag)).Pairwise (· < ·)
  forwarded : e.forwarded.map (·.tag) = List.range (e.started - e.hand.unforwarded)
  forwards : ∀ f ∈ e.forwarded, e.Forwards f
  answered : e.answered = e.processed ++ e.answers.map (·.tag)
  answeredNodup : e.answered.Nodup
  answeredLt : ∀ k ∈ e.answered, k < e.forwarded.length
  answers : ∀ p ∈ e.answers, ∃ d, decodeOutPdu p.pdu = .ok (0, some d) ∧
    d.invokeid.toUInt64.toNat = genId p.tag

/-! ## What the marks point to stays -/

theorem getElem?_snoc {α : Type} {l : List α} {n : ℕ} {x : α} (y : α) (h : l[n]? = some x) :
    (l ++ [y])[n]? = some x := by
  obtain ⟨hlt, -⟩ := List.getElem?_eq_some_iff.1 h
  rwa [List.getElem?_append_left hlt]

theorem Exchange.Is.snoc {r : InMessage ℕ} (h : e.Is r) (req : Request) :
    Exchange.Is { e with requests := e.requests ++ [req] } r := by
  obtain ⟨i, hi⟩ := h
  exact ⟨i, getElem?_snoc req hi⟩

theorem Exchange.Maps.snoc {s : Mapping ℕ} (h : e.Maps s) (req : Request) :
    Exchange.Maps { e with requests := e.requests ++ [req] } s := by
  obtain ⟨req₀, q, hreq, hrest⟩ := h
  exact ⟨req₀, q, getElem?_snoc req hreq, hrest⟩

theorem Exchange.Forwards.snoc {f : OutMessage ℕ} (h : e.Forwards f) (req : Request) :
    Exchange.Forwards { e with requests := e.requests ++ [req] } f := by
  obtain ⟨req₀, q, hreq, hrest⟩ := h
  exact ⟨req₀, q, getElem?_snoc req hreq, hrest⟩

/-! ## The moves -/

theorem Numbered.start : Numbered World.start.exchange where
  length_le := le_refl 0
  waiting := rfl
  waitingIs _ hr := absurd hr List.not_mem_nil
  hand := trivial
  counter := rfl
  table _ hs := absurd hs List.not_mem_nil
  tableTags := .nil
  forwarded := rfl
  forwards _ hf := absurd hf List.not_mem_nil
  answered := rfl
  answeredNodup := List.nodup_nil
  answeredLt _ hk := absurd hk List.not_mem_nil
  answers _ hp := absurd hp List.not_mem_nil

/-- A request read gets the next number. -/
theorem Numbered.read (h : Numbered e) (s : Socket) (p : Pdu) :
    Numbered { e with
      requests := e.requests ++ [⟨s, e.inst s, p⟩]
      waiting := e.waiting ++ [⟨s, p, e.requests.length⟩] } := by
  have hle := h.length_le
  -- the request waits: none more is taken
  have hstarted : Exchange.started { e with
      requests := e.requests ++ [⟨s, e.inst s, p⟩]
      waiting := e.waiting ++ [⟨s, p, e.requests.length⟩] } = e.started := by
    simp only [Exchange.started, List.length_append, List.length_singleton]
    omega
  refine { h with
    length_le := ?_
    waiting := ?_
    waitingIs := ?_
    hand := ?_
    counter := by rw [hstarted]; exact h.counter
    table := ?_
    forwarded := by rw [hstarted]; exact h.forwarded
    forwards := fun f hf => (h.forwards f hf).snoc _ }
  · simp only [List.length_append, List.length_singleton]
    omega
  · rw [hstarted, List.map_append, h.waiting, List.length_append, List.length_singleton,
      List.range'_1_concat]
    simp only [List.map_singleton, Exchange.started]
    congr 2
    omega
  · intro r hr
    rcases List.mem_append.1 hr with hr | hr
    · exact (h.waitingIs r hr).snoc _
    · rw [List.mem_singleton.1 hr]
      exact ⟨e.inst s, by simp⟩
  · have hhand := h.hand
    unfold Exchange.Holds at hhand ⊢
    rw [hstarted]
    cases hc : e.hand with
    | empty => trivial
    | taken r =>
      simp only [hc] at hhand ⊢
      exact ⟨hhand.1, hhand.2.snoc _⟩
    | mapped r q =>
      simp only [hc] at hhand ⊢
      exact ⟨hhand.1, hhand.2.1.snoc _, hhand.2.2⟩
  · intro t ht
    obtain ⟨hlt, hgen, hmaps⟩ := h.table t ht
    exact ⟨by rw [hstarted]; exact hlt, hgen, hmaps.snoc _⟩

/-- A request in the hand is the last one taken. -/
theorem Numbered.taken (h : Numbered e) {r : InMessage ℕ} (hhand : e.hand = .taken r) :
    r.tag + 1 = e.started ∧ e.Is r := by
  have hold := h.hand
  unfold Exchange.Holds at hold
  rwa [hhand] at hold

theorem Numbered.mapped (h : Numbered e) {r : InMessage ℕ} {q : InputType}
    (hhand : e.hand = .mapped r q) :
    r.tag + 1 = e.started ∧ e.Is r ∧ decodeInPdu r.pdu = .ok (0, some q) := by
  have hold := h.hand
  unfold Exchange.Holds at hold
  rwa [hhand] at hold

/-- The first request waiting is the next to be taken. -/
theorem Numbered.head_tag (h : Numbered e) {r : InMessage ℕ} {rest : List (InMessage ℕ)}
    (hr : e.waiting = r :: rest) : r.tag = e.started := by
  have := h.waiting
  rw [hr, List.map_cons, List.length_cons, List.range'_succ] at this
  exact (List.cons.inj this).1

theorem Numbered.take (h : Numbered e) {r : InMessage ℕ} {rest : List (InMessage ℕ)}
    (hhand : e.hand = .empty) (hr : e.waiting = r :: rest) :
    Numbered { e with waiting := rest, hand := .taken r } := by
  have hle := h.length_le
  have htag := h.head_tag hr
  have hwaiting := h.waiting
  rw [hr, List.length_cons] at hle
  -- one request more is taken, the one in the hand
  have hstarted : Exchange.started { e with waiting := rest, hand := .taken r } =
      e.started + 1 := by
    simp only [Exchange.started, hr, List.length_cons]
    omega
  rw [hr, List.map_cons, List.length_cons, List.range'_succ] at hwaiting
  refine { h with
    length_le := by simp only; omega
    waiting := by rw [hstarted]; exact (List.cons.inj hwaiting).2
    waitingIs := fun x hx => h.waitingIs x (by rw [hr]; exact List.mem_cons_of_mem _ hx)
    hand := ?_
    counter := ?_
    table := ?_
    forwarded := ?_ }
  · exact ⟨by rw [hstarted, htag], h.waitingIs r (by rw [hr]; exact List.mem_cons_self)⟩
  · have hc := h.counter
    simp only [hhand, Hand.unmapped] at hc
    rw [hstarted]
    simpa [Hand.unmapped] using hc
  · intro t ht
    obtain ⟨hlt, hgen, hmaps⟩ := h.table t ht
    simp only [hhand, Hand.unmapped] at hlt
    exact ⟨by rw [hstarted]; exact hlt, hgen, hmaps⟩
  · have hf := h.forwarded
    rw [hstarted]
    simpa [hhand, Hand.unforwarded] using hf

/-- The counter, moved on, is the id generated for the next request. -/
theorem toNat_generateInvokeid {counter : UInt64} {n : ℕ}
    (h : counter.toNat = if n = 0 then 0 else genId (n - 1)) :
    (generateInvokeid counter).toNat = genId n := by
  rw [generateInvokeid_toNat, h]
  unfold genId
  split
  · rename_i h0
    rw [h0]
  · omega

theorem Numbered.map (h : Numbered e) {r : InMessage ℕ} {q : InputType} (hhand : e.hand = .taken r)
    (hq : decodeInPdu r.pdu = .ok (0, some q)) :
    Numbered { e with
      counter := generateInvokeid e.counter
      table := e.table ++ [⟨r.socket, q.invokeid.toUInt64, generateInvokeid e.counter, r.tag⟩]
      hand := .mapped r q } := by
  obtain ⟨htag, hIs⟩ := h.taken hhand
  have hc := h.counter
  simp only [hhand, Hand.unmapped] at hc
  have hgen : (generateInvokeid e.counter).toNat = genId r.tag := by
    apply toNat_generateInvokeid
    rw [hc]
    -- the counter is the id of the request mapped last, the one before this
    have : e.started - 1 = r.tag := by omega
    rw [this]
    by_cases h0 : e.started = 1
    · rw [if_pos h0, if_pos (by omega)]
    · rw [if_neg h0, if_neg (by omega)]
  -- the mappings are of requests taken before
  have htable : ∀ t ∈ e.table, t.tag < r.tag := by
    intro t ht
    have := (h.table t ht).1
    simp only [hhand, Hand.unmapped] at this
    omega
  refine { h with
    hand := ⟨htag, hIs, hq⟩
    counter := ?_
    table := ?_
    tableTags := ?_
    forwarded := ?_ }
  · rw [hgen]
    change genId r.tag = if e.started = 0 then 0 else genId (e.started - 0 - 1)
    rw [if_neg (by omega)]
    congr 1
    omega
  · intro t ht
    change t.tag < e.started - 0 ∧ _
    rcases List.mem_append.1 ht with ht | ht
    · obtain ⟨-, hgen', hmaps⟩ := h.table t ht
      exact ⟨by have := htable t ht; omega, hgen', hmaps⟩
    · rw [List.mem_singleton.1 ht]
      obtain ⟨i, hi⟩ := hIs
      exact ⟨by simp only; omega, hgen, _, q, hi, rfl, hq, rfl⟩
  · rw [List.map_append, List.pairwise_append]
    refine ⟨h.tableTags, List.pairwise_singleton _ _, ?_⟩
    intro a ha b hb
    obtain ⟨t, ht, rfl⟩ := List.mem_map.1 ha
    rw [List.map_singleton, List.mem_singleton] at hb
    rw [hb]
    exact htable t ht
  · have hf := h.forwarded
    simpa [hhand, Hand.unforwarded, Exchange.started] using hf

theorem Numbered.forward (h : Numbered e) {r : InMessage ℕ} {q : InputType} {p : Pdu}
    (hhand : e.hand = .mapped r q)
    (hp : decodeInPdu p = .ok (0, some ⟨e.counter.toInt64, q.command⟩)) :
    Numbered { e with forwarded := e.forwarded ++ [⟨p, r.tag⟩], hand := .empty } := by
  obtain ⟨htag, ⟨i, hi⟩, hq⟩ := h.mapped hhand
  have hc := h.counter
  simp only [hhand, Hand.unmapped, Nat.sub_zero] at hc
  -- the counter is still the id of the request in the hand
  rw [if_neg (by omega), show e.started - 1 = r.tag by omega] at hc
  have hf := h.forwarded
  simp only [hhand, Hand.unforwarded] at hf
  refine { h with
    hand := trivial
    counter := ?_
    table := ?_
    forwarded := ?_
    forwards := ?_
    answeredLt := fun k hk => Nat.lt_of_lt_of_le (h.answeredLt k hk) (by simp) }
  · have hc' := h.counter
    simpa [hhand, Hand.unmapped, Exchange.started] using hc'
  · intro t ht
    obtain ⟨hlt, hgen, hmaps⟩ := h.table t ht
    simp only [hhand, Hand.unmapped] at hlt
    exact ⟨hlt, hgen, hmaps⟩
  · change _ = List.range (e.started - 0)
    rw [List.map_append, hf, List.map_singleton, show e.started - 0 = r.tag + 1 by omega,
      List.range_succ, show e.started - 1 = r.tag by omega]
  · intro f hf
    rcases List.mem_append.1 hf with hf | hf
    · exact h.forwards f hf
    · rw [List.mem_singleton.1 hf]
      exact ⟨_, q, hi, hq, e.counter, hc, hp⟩

/-- The messages forwarded are in the order of their numbers. -/
theorem Numbered.forwarded_tag (h : Numbered e) {k : ℕ} {f : OutMessage ℕ}
    (hf : e.forwarded[k]? = some f) : f.tag = k ∧ k < e.forwarded.length := by
  obtain ⟨hlt, hget⟩ := List.getElem?_eq_some_iff.1 hf
  have hmap : (e.forwarded.map (·.tag))[k]? = some f.tag := by
    rw [List.getElem?_map, hf]
    rfl
  rw [h.forwarded] at hmap
  obtain ⟨hlt', hget'⟩ := List.getElem?_eq_some_iff.1 hmap
  rw [List.getElem_range] at hget'
  exact ⟨hget'.symm, hlt⟩

theorem Numbered.answer (h : Numbered e) {k : ℕ} {f : OutMessage ℕ} {q : InputType} {p : Pdu}
    {d : OutputType} (hf : e.forwarded[k]? = some f) (hq : decodeInPdu f.pdu = .ok (0, some q))
    (hk : k ∉ e.answered) (hp : decodeOutPdu p = .ok (0, some d)) (hid : d.invokeid = q.invokeid) :
    Numbered { e with answered := e.answered ++ [k], answers := e.answers ++ [⟨p, f.tag⟩] } := by
  obtain ⟨htag, hlt⟩ := h.forwarded_tag hf
  refine { h with
    answered := ?_
    answeredNodup := ?_
    answeredLt := ?_
    answers := ?_ }
  · rw [h.answered, List.map_append, List.map_singleton, htag, List.append_assoc]
  · rw [List.nodup_append_comm]
    exact List.nodup_cons.2 ⟨hk, h.answeredNodup⟩
  · intro j hj
    rcases List.mem_append.1 hj with hj | hj
    · exact h.answeredLt j hj
    · rw [List.mem_singleton.1 hj]
      exact hlt
  · intro a ha
    rcases List.mem_append.1 ha with ha | ha
    · exact h.answers a ha
    · rw [List.mem_singleton.1 ha]
      -- the id of the answer is that of the request as it was forwarded
      obtain ⟨req, q₀, -, -, g, hg, hdec⟩ := h.forwards f (List.mem_of_getElem? hf)
      rw [hq] at hdec
      cases hdec
      exact ⟨d, hp, by rw [hid]; exact hg⟩

/-- Mappings are removed. -/
theorem Numbered.filter (h : Numbered e) (keep : Mapping ℕ → Bool) :
    Numbered { e with table := e.table.filter keep } :=
  { h with
    table := fun t ht => h.table t (List.mem_of_mem_filter ht)
    tableTags := h.tableTags.sublist (List.filter_sublist.map _) }

theorem Numbered.deliver (h : Numbered e) {p : OutMessage ℕ} {rest : List (OutMessage ℕ)}
    (hp : e.answers = p :: rest) (keep : Mapping ℕ → Bool) (replies : List (InMessage ℕ)) :
    Numbered { e with
      table := e.table.filter keep
      answers := rest
      processed := e.processed ++ [p.tag]
      replies := replies } :=
  { h.filter keep with
    answered := by
      have := h.answered
      rwa [hp, List.map_cons, ← List.singleton_append, ← List.append_assoc] at this
    answers := fun a ha => h.answers a (by rw [hp]; exact List.mem_cons_of_mem _ ha) }

/-- **Every move keeps the messages numbered.** -/
theorem Numbered.step (h : Numbered e) {ev : Event} (hs : ExchangeStep e ev e') : Numbered e' := by
  cases hs with
  | stay => exact h
  | connect s hs => exact { h with }
  | disconnect s => exact { h with }
  | unmap s => exact h.filter _
  | read s p hs => exact h.read s p
  | take r rest hhand hr => exact h.take hhand hr
  | map r q hhand hpos hq => exact h.map hhand hq
  | forward r q p hhand hp => exact h.forward hhand hp
  | answer k f q p d hf hq hk hp hid => exact h.answer hf hq hk hp hid
  | deliver p rest d rs hp hd hv hrs => exact h.deliver hp _ _
  | load q r q' hq => exact { h with }
  | free q r q' hq hr => exact { h with }

end Muxer
