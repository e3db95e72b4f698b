import Mathlib.Data.List.Perm.Basic
import Muxer.Proof.Isolation

/-!
# Each request is mapped once and replied to once

In an exchange whose clients stay, and in which no request is mapped before the response to the one
32767 positions earlier has been processed, the table holds exactly the requests mapped and not
yet processed, each id in it once, and the replies are one for each response processed.

* `Once.filter_id`: a response matches the mapping of the request it answers, and no other.
* `Once.step`: every such move keeps this so.
-/

namespace Muxer

variable {e e' : Exchange}

/-! ## Lists with distinct keys -/

section

variable {α : Type} {l : List α} {x : α}

theorem filter_eq_nil {f : α → ℕ} {n : ℕ} (h : n ∉ l.map f) : l.filter (fun y => f y == n) = [] := by
  rw [List.filter_eq_nil_iff]
  intro y hy heq
  exact h (by rw [← beq_iff_eq.1 heq]; exact List.mem_map_of_mem hy)

/-- Of a list with distinct keys, the element with a key of it. -/
theorem filter_eq_singleton {f : α → ℕ} (h : (l.map f).Nodup) (hx : x ∈ l) :
    l.filter (fun y => f y == f x) = [x] := by
  induction l with
  | nil => exact absurd hx List.not_mem_nil
  | cons y l ih =>
    rw [List.map_cons, List.nodup_cons] at h
    rcases List.mem_cons.1 hx with rfl | hx
    · rw [List.filter_cons_of_pos (by simp), filter_eq_nil h.1]
    · have hne : f y ≠ f x := fun heq => h.1 (by rw [heq]; exact List.mem_map_of_mem hx)
      rw [List.filter_cons_of_neg (by simpa using hne), ih h.2 hx]

end

/-! ## The invariant -/

/-- How many requests have been mapped. -/
def Exchange.mapped (e : Exchange) : ℕ := e.started - e.hand.unmapped

/-- The message is a response to the request it is marked with: for its socket, and under its id. -/
def Exchange.Answers (e : Exchange) (r : InMessage ℕ) : Prop :=
  ∃ req q command result, e.requests[r.tag]? = some req ∧ r.socket = req.socket ∧
    decodeInPdu req.pdu = .ok (0, some q) ∧
    decodeOutPdu r.pdu = .ok (0, some ⟨q.invokeid, command, result⟩)

/-- The replies, on their way and delivered. -/
def Exchange.allReplies (e : Exchange) : List (InMessage ℕ) :=
  e.replies ++ e.delivered.map (·.message)

structure Once (e : Exchange) : Prop where
  table : ∀ n < e.mapped, n ∉ e.processed → ∃ t ∈ e.table, t.tag = n
  unprocessed : ∀ t ∈ e.table, t.tag ∉ e.processed
  window : ∀ n, n + 32767 < e.mapped → n ∈ e.processed
  replies : (e.allReplies.map (·.tag)).Perm e.processed
  answers : ∀ r ∈ e.allReplies, e.Answers r
  clients : ∀ req ∈ e.requests, req.socket ∈ e.clients

theorem Exchange.Answers.snoc {r : InMessage ℕ} (h : e.Answers r) (req : Request) :
    Exchange.Answers { e with requests := e.requests ++ [req] } r := by
  obtain ⟨req₀, q, command, result, hreq, hrest⟩ := h
  exact ⟨req₀, q, command, result, getElem?_snoc req hreq, hrest⟩

/-- A reply is for a client connected. -/
theorem Once.socket_mem (h : Once e) {r : InMessage ℕ} (hr : r ∈ e.allReplies) :
    r.socket ∈ e.clients := by
  obtain ⟨req, q, command, result, hreq, hsock, -⟩ := h.answers r hr
  rw [hsock]
  exact h.clients req (List.mem_of_getElem? hreq)

theorem Numbered.tableNodup (h : Numbered e) : (e.table.map (·.tag)).Nodup :=
  h.tableTags.imp fun hlt => Nat.ne_of_lt hlt

theorem Numbered.mapped_le (h : Numbered e) : e.forwarded.length ≤ e.mapped := by
  have hlen := congrArg List.length h.forwarded
  rw [List.length_map, List.length_range] at hlen
  rw [hlen, Exchange.mapped]
  cases e.hand <;> simp [Hand.unforwarded, Hand.unmapped]

theorem Numbered.processed_lt (h : Numbered e) {n : ℕ} (hp : n ∈ e.processed) :
    n < e.forwarded.length :=
  h.answeredLt n (by rw [h.answered]; exact List.mem_append_left _ hp)

/-- Mappings under one id are one: those of two requests mapped would be 32767 positions apart. -/
theorem Once.tag_eq (h : Once e) (hn : Numbered e) {s t : Mapping ℕ} (hs : s ∈ e.table)
    (ht : t ∈ e.table) (hid : s.invokeidGenerated = t.invokeidGenerated) : s.tag = t.tag := by
  have hgen : genId s.tag = genId t.tag := by
    rw [← (hn.table s hs).2.1, ← (hn.table t ht).2.1, hid]
  have hs' := (hn.table s hs).1
  have ht' := (hn.table t ht).1
  -- whatever is mapped is younger than 32767 requests
  have hwin : ∀ u ∈ e.table, e.mapped ≤ u.tag + 32767 := by
    intro u hu
    by_contra hlt
    exact h.unprocessed u hu (h.window u.tag (by omega))
  have hws := hwin s hs
  have hwt := hwin t ht
  unfold genId at hgen
  unfold Exchange.mapped at hws hwt
  omega

/-- **An id in the table is that of one mapping.** -/
theorem Once.filter_id (h : Once e) (hn : Numbered e) {t : Mapping ℕ} (ht : t ∈ e.table) :
    e.table.filter (·.invokeidGenerated == t.invokeidGenerated) = [t] := by
  rw [← filter_eq_singleton hn.tableNodup ht]
  refine List.filter_congr ?_
  intro s hs
  rw [Bool.eq_iff_iff, beq_iff_eq, beq_iff_eq]
  constructor
  · exact h.tag_eq hn hs ht
  · intro htag
    rw [← UInt64.toNat_inj, (hn.table s hs).2.1, (hn.table t ht).2.1, htag]

/-! ## The moves -/

theorem Once.start : Once World.start.exchange where
  table n hn := absurd hn (Nat.not_lt_zero n)
  unprocessed _ ht := absurd ht List.not_mem_nil
  window _ hn := absurd hn (Nat.not_lt_zero _)
  replies := .nil
  answers _ hr := absurd hr List.not_mem_nil
  clients _ hreq := absurd hreq List.not_mem_nil

theorem Once.read (h : Once e) (hn : Numbered e) {s : Socket} (hs : s ∈ e.clients) (p : Pdu) :
    Once { e with
      requests := e.requests ++ [⟨s, e.inst s, p⟩]
      waiting := e.waiting ++ [⟨s, p, e.requests.length⟩] } := by
  have hmapped : Exchange.mapped { e with
      requests := e.requests ++ [⟨s, e.inst s, p⟩]
      waiting := e.waiting ++ [⟨s, p, e.requests.length⟩] } = e.mapped := by
    have hle := hn.length_le
    simp only [Exchange.mapped, Exchange.started, List.length_append, List.length_singleton]
    omega
  refine { h with
    table := by rw [hmapped]; exact h.table
    window := by rw [hmapped]; exact h.window
    answers := fun r hr => (h.answers r hr).snoc _
    clients := ?_ }
  intro req hreq
  rcases List.mem_append.1 hreq with hreq | hreq
  · exact h.clients req hreq
  · rw [List.mem_singleton.1 hreq]
    exact hs

theorem Once.take (h : Once e) (hn : Numbered e) {r : InMessage ℕ} {rest : List (InMessage ℕ)}
    (hhand : e.hand = .empty) (hr : e.waiting = r :: rest) :
    Once { e with waiting := rest, hand := .taken r } := by
  have hmapped : Exchange.mapped { e with waiting := rest, hand := .taken r } = e.mapped := by
    have hle := hn.length_le
    simp only [Exchange.mapped, Exchange.started, hhand, hr, Hand.unmapped, List.length_cons]
    omega
  exact { h with
    table := by rw [hmapped]; exact h.table
    window := by rw [hmapped]; exact h.window }

/-- A request is mapped when the response to the one 32767 positions before has been processed. -/
theorem Once.map (h : Once e) (hn : Numbered e) {r : InMessage ℕ} {q : InputType}
    (hhand : e.hand = .taken r) (hin : 32767 ≤ r.tag → r.tag - 32767 ∈ e.processed) :
    Once { e with
      counter := generateInvokeid e.counter
      table := e.table ++ [⟨r.socket, q.invokeid.toUInt64, generateInvokeid e.counter, r.tag⟩]
      hand := .mapped r q } := by
  obtain ⟨htag, -⟩ := hn.taken hhand
  have hold : e.mapped = r.tag := by
    simp only [Exchange.mapped, hhand, Hand.unmapped]
    omega
  have hmapped : Exchange.mapped { e with
      counter := generateInvokeid e.counter
      table := e.table ++ [⟨r.socket, q.invokeid.toUInt64, generateInvokeid e.counter, r.tag⟩]
      hand := .mapped r q } = r.tag + 1 := htag.symm
  have hnew : r.tag ∉ e.processed := by
    intro hmem
    have hlt := hn.processed_lt hmem
    have := hn.mapped_le
    omega
  refine { h with
    table := ?_
    unprocessed := ?_
    window := ?_ }
  · intro n hlt hnot
    rw [hmapped] at hlt
    by_cases hn' : n = r.tag
    · exact ⟨_, List.mem_append_right _ List.mem_cons_self, hn'.symm⟩
    · obtain ⟨t, ht, htn⟩ := h.table n (by omega) hnot
      exact ⟨t, List.mem_append_left _ ht, htn⟩
  · intro t ht
    rcases List.mem_append.1 ht with ht | ht
    · exact h.unprocessed t ht
    · rw [List.mem_singleton.1 ht]
      exact hnew
  · intro n hlt
    rw [hmapped] at hlt
    -- only the request 32767 positions before falls out of the window
    by_cases hn' : n + 32767 = r.tag
    · have := hin (by omega)
      rwa [show r.tag - 32767 = n by omega] at this
    · exact h.window n (by omega)

theorem Once.forward (h : Once e) {r : InMessage ℕ} {q : InputType} {f : OutMessage ℕ}
    (hhand : e.hand = .mapped r q) :
    Once { e with forwarded := e.forwarded ++ [f], hand := .empty } := by
  have hmapped : Exchange.mapped { e with forwarded := e.forwarded ++ [f], hand := .empty } =
      e.mapped := by
    simp only [Exchange.mapped, Exchange.started, hhand, Hand.unmapped]
  exact { h with
    table := by rw [hmapped]; exact h.table
    window := by rw [hmapped]; exact h.window }

/-- The response is not yet processed, and its request is mapped. -/
theorem Once.mapping (h : Once e) (hn : Numbered e) {p : OutMessage ℕ} {rest : List (OutMessage ℕ)}
    {d : OutputType} (hp : e.answers = p :: rest) (hd : decodeOutPdu p.pdu = .ok (0, some d)) :
    p.tag ∉ e.processed ∧ ∃ t ∈ e.table, t.tag = p.tag ∧ t.invokeidGenerated = d.invokeid.toUInt64 := by
  have hnodup := hn.answeredNodup
  rw [hn.answered, hp, List.map_cons, List.nodup_append_comm, List.cons_append,
    List.nodup_cons] at hnodup
  have hnot : p.tag ∉ e.processed := fun hmem => hnodup.1 (List.mem_append_right _ hmem)
  have hlt := hn.answeredLt p.tag (by rw [hn.answered, hp]; simp)
  obtain ⟨t, ht, htag⟩ := h.table p.tag (Nat.lt_of_lt_of_le hlt hn.mapped_le) hnot
  obtain ⟨d', hd', hgen⟩ := hn.answers p (by rw [hp]; exact List.mem_cons_self)
  rw [hd] at hd'
  cases hd'
  exact ⟨hnot, t, ht, htag, by rw [← UInt64.toNat_inj, hgen, (hn.table t ht).2.1, htag]⟩

/-- What the client of a mapping gets is a response to the request mapped. -/
theorem Replied.answers {t : Mapping ℕ} {d : OutputType} {r : InMessage ℕ}
    (h : Replied d t.tag t r) (ht : e.Maps t) (hd : d.Valid) : e.Answers r := by
  obtain ⟨req, q, hreq, hsock, hq, horig⟩ := ht
  have hdec := h.decode hd
  rw [horig] at hdec
  obtain ⟨hr, htag, -⟩ := h
  rw [← htag] at hreq
  exact ⟨req, q, d.command, d.result, hreq, by rw [hr, hsock], hq, hdec⟩

/-- A response goes to the one request it answers. -/
theorem Once.deliver (h : Once e) (hn : Numbered e) {p : OutMessage ℕ} {rest : List (OutMessage ℕ)}
    {d : OutputType} {rs : List (InMessage ℕ)} (hp : e.answers = p :: rest)
    (hd : decodeOutPdu p.pdu = .ok (0, some d)) (hv : d.Valid)
    (hrs : List.Forall₂ (Replied d p.tag)
      (e.table.filter (·.invokeidGenerated == d.invokeid.toUInt64)) rs) :
    Once { e with
      table := e.table.filter (·.invokeidGenerated != d.invokeid.toUInt64)
      answers := rest
      processed := e.processed ++ [p.tag]
      replies := e.replies ++ rs } := by
  obtain ⟨hnot, t, ht, htag, hid⟩ := h.mapping hn hp hd
  -- only the mapping of the request answered has the id, so there is one reply
  rw [← hid, h.filter_id hn ht] at hrs
  obtain _ | ⟨hreply, hnil⟩ := hrs
  cases hnil
  rename_i r
  refine { h with
    table := ?_
    unprocessed := ?_
    window := fun n hlt => List.mem_append_left _ (h.window n hlt)
    replies := ?_
    answers := ?_ }
  · intro n hlt hnew
    rw [List.mem_append, List.mem_singleton, not_or] at hnew
    obtain ⟨s, hs, hsn⟩ := h.table n hlt hnew.1
    refine ⟨s, List.mem_filter.2 ⟨hs, ?_⟩, hsn⟩
    rw [bne_iff_ne, ← hid]
    intro hsame
    exact hnew.2 (by rw [← hsn, ← htag]; exact h.tag_eq hn hs ht hsame)
  · intro s hs hmem
    obtain ⟨hs, hne⟩ := List.mem_filter.1 hs
    rw [List.mem_append, List.mem_singleton] at hmem
    rcases hmem with hmem | hmem
    · exact h.unprocessed s hs hmem
    · rw [bne_iff_ne, ← hid] at hne
      apply hne
      rw [← UInt64.toNat_inj, (hn.table s hs).2.1, (hn.table t ht).2.1, hmem, htag]
  · have hperm := (h.replies.append_right [r.tag])
    rw [hreply.2.1] at hperm
    refine List.Perm.trans ?_ hperm
    simp only [Exchange.allReplies, List.map_append, List.append_assoc, List.map_singleton, hreply.2.1]
    exact (List.perm_append_comm).append_left _
  · intro x hx
    simp only [Exchange.allReplies, List.append_assoc, List.mem_append, List.mem_singleton] at hx
    have hold : ∀ y ∈ e.allReplies, e.Answers y := h.answers
    simp only [Exchange.allReplies, List.mem_append] at hold
    rcases hx with hx | rfl | hx
    · exact hold x (.inl hx)
    · rw [← htag] at hreply
      exact hreply.answers (hn.table t ht).2.2 hv
    · exact hold x (.inr hx)

theorem Once.load (h : Once e) {q q' : List (InMessage ℕ)} {r : InMessage ℕ}
    (hq : e.replies = q ++ r :: q') :
    Once { e with
      replies := q ++ q'
      delivered := e.delivered ++ [⟨r, e.inst r.socket⟩] } := by
  have hperm : (Exchange.allReplies { e with
      replies := q ++ q'
      delivered := e.delivered ++ [⟨r, e.inst r.socket⟩] }).Perm e.allReplies := by
    simp only [Exchange.allReplies, hq, List.map_append, List.map_singleton]
    rw [← List.append_assoc]
    exact (List.perm_append_singleton r _).trans (List.perm_middle.symm.append_right _)
  exact { h with
    replies := (hperm.map _).trans h.replies
    answers := fun x hx => h.answers x (hperm.mem_iff.1 hx) }

/-- **Every move keeps requests mapped once and replied to once**, if clients stay, and responses are
processed in time. -/
theorem Once.step (h : Once e) (hn : Numbered e) {ev : Event}
    (hstay : ∀ s, ev ≠ .disconnect s ∧ ev ≠ .unmap s)
    (hin : ev = .map → ∀ r, e.hand = .taken r → 32767 ≤ r.tag → r.tag - 32767 ∈ e.processed)
    (hs : ExchangeStep e ev e') : Once e' := by
  cases hs with
  | stay => exact h
  | connect s hs =>
    exact { h with clients := fun req hreq => List.mem_append_left _ (h.clients req hreq) }
  | disconnect s => exact absurd rfl (hstay s).1
  | unmap s => exact absurd rfl (hstay s).2
  | read s p hs => exact h.read hn hs p
  | take r rest hhand hr => exact h.take hn hhand hr
  | map r q hhand hpos hq => exact h.map hn hhand (hin rfl r hhand)
  | forward r q p hhand hp => exact h.forward hhand
  | answer k f q p d hf hq hk hp hid => exact { h with }
  | deliver p rest d rs hp hd hv hrs => exact h.deliver hn hp hd hv hrs
  | load q r q' hq => exact h.load hq
  | free q r q' hq hr =>
    refine absurd (h.socket_mem (r := r) ?_) hr
    unfold Exchange.allReplies
    rw [hq]
    simp

/-! ## What there is of a request -/

variable {n : ℕ} {req : Request}

/-- A request not taken is waiting. -/
theorem Numbered.waiting_one (h : Numbered e) (hle : e.started ≤ n)
    (hreq : e.requests[n]? = some req) :
    e.waiting.filter (·.tag == n) = [⟨req.socket, req.pdu, n⟩] := by
  obtain ⟨hlt, -⟩ := List.getElem?_eq_some_iff.1 hreq
  have hmem : n ∈ e.waiting.map (·.tag) := by
    have := h.length_le
    rw [h.waiting, List.mem_range'_1]
    unfold Exchange.started at *
    omega
  obtain ⟨r, hr, rfl⟩ := List.mem_map.1 hmem
  have hnodup : (e.waiting.map (·.tag)).Nodup := by
    rw [h.waiting]
    exact List.nodup_range'
  rw [filter_eq_singleton hnodup hr]
  obtain ⟨i, hi⟩ := h.waitingIs r hr
  rw [hreq] at hi
  cases hi
  rfl

theorem Numbered.waiting_none (h : Numbered e) (hn : n < e.started ∨ e.requests.length ≤ n) :
    e.waiting.filter (·.tag == n) = [] := by
  apply filter_eq_nil
  have := h.length_le
  rw [h.waiting, List.mem_range'_1]
  unfold Exchange.started at *
  omega

/-- A request forwarded is so once, under an id of its own. -/
theorem Numbered.forwarded_one (h : Numbered e) (hlt : n < e.forwarded.length)
    (hreq : e.requests[n]? = some req) :
    ∃ (q : InputType) (g : UInt64) (p : Pdu), decodeInPdu req.pdu = .ok (0, some q) ∧
      g.toNat = genId n ∧
      e.forwarded.filter (·.tag == n) = [⟨p, n⟩] ∧
      decodeInPdu p = .ok (0, some ⟨g.toInt64, q.command⟩) := by
  obtain ⟨f, hf⟩ : ∃ f, e.forwarded[n]? = some f := ⟨_, List.getElem?_eq_getElem hlt⟩
  obtain ⟨rfl, -⟩ := h.forwarded_tag hf
  have hnodup : (e.forwarded.map (·.tag)).Nodup := by
    rw [h.forwarded]
    exact List.nodup_range
  have hmem := List.mem_of_getElem? hf
  obtain ⟨req', q, hreq', hq, g, hg, hdec⟩ := h.forwards f hmem
  rw [hreq] at hreq'
  cases hreq'
  exact ⟨q, g, f.pdu, hq, hg, filter_eq_singleton hnodup hmem, hdec⟩

theorem Numbered.forwarded_none (h : Numbered e) (hle : e.forwarded.length ≤ n) :
    e.forwarded.filter (·.tag == n) = [] := by
  apply filter_eq_nil
  have hlen := congrArg List.length h.forwarded
  rw [List.length_map, List.length_range] at hlen
  rw [h.forwarded, List.mem_range]
  omega

/-- A request mapped has one mapping until its response is processed. -/
theorem Once.table_one (h : Once e) (hn : Numbered e) (hlt : n < e.mapped) (hnot : n ∉ e.processed)
    (hreq : e.requests[n]? = some req) {q : InputType} (hq : decodeInPdu req.pdu = .ok (0, some q))
    {g : UInt64} (hg : g.toNat = genId n) :
    e.table.filter (·.tag == n) = [⟨req.socket, q.invokeid.toUInt64, g, n⟩] ∧
      e.table.filter (·.invokeidGenerated == g) = [⟨req.socket, q.invokeid.toUInt64, g, n⟩] := by
  obtain ⟨t, ht, rfl⟩ := h.table n hlt hnot
  have hone := filter_eq_singleton hn.tableNodup ht
  have hid := h.filter_id hn ht
  obtain ⟨-, hgen, req', q', hreq', hsock, hq', horig⟩ := hn.table t ht
  rw [hreq] at hreq'
  cases hreq'
  rw [hq] at hq'
  cases hq'
  have ht : t = ⟨req.socket, q.invokeid.toUInt64, g, t.tag⟩ :=
    Mapping.ext hsock.symm horig (by rw [← UInt64.toNat_inj, hgen, hg]) rfl
  have hgt : t.invokeidGenerated = g := congrArg Mapping.invokeidGenerated ht
  rw [hgt] at hid
  exact ⟨by rw [hone, ← ht], by rw [hid, ← ht]⟩

theorem Once.table_none (h : Once e) (hn : Numbered e) (hgone : n ∈ e.processed ∨ e.mapped ≤ n) :
    e.table.filter (·.tag == n) = [] := by
  apply filter_eq_nil
  intro hmem
  obtain ⟨t, ht, rfl⟩ := List.mem_map.1 hmem
  rcases hgone with hp | hle
  · exact h.unprocessed t ht hp
  · exact absurd (hn.table t ht).1 (Nat.not_lt.2 hle)

/-- A response processed was replied with once. -/
theorem Once.replies_one (h : Once e) (hn : Numbered e) (hp : n ∈ e.processed)
    (hreq : e.requests[n]? = some req) {q : InputType}
    (hq : decodeInPdu req.pdu = .ok (0, some q)) :
    ∃ r command result, e.allReplies.filter (·.tag == n) = [⟨req.socket, r, n⟩] ∧
      decodeOutPdu r = .ok (0, some ⟨q.invokeid, command, result⟩) := by
  have hnodup : (e.allReplies.map (·.tag)).Nodup := by
    have := hn.answeredNodup
    rw [hn.answered] at this
    exact h.replies.nodup_iff.2 (List.nodup_append.1 this).1
  obtain ⟨r, hr, rfl⟩ := List.mem_map.1 (h.replies.mem_iff.2 hp)
  obtain ⟨req', q', command, result, hreq', hsock, hq', hdec⟩ := h.answers r hr
  rw [hreq] at hreq'
  cases hreq'
  rw [hq] at hq'
  cases hq'
  refine ⟨r.pdu, command, result, ?_, hdec⟩
  rw [filter_eq_singleton hnodup hr, ← hsock]

theorem Once.replies_none (h : Once e) (hnot : n ∉ e.processed) :
    e.allReplies.filter (·.tag == n) = [] :=
  filter_eq_nil fun hmem => hnot (h.replies.mem_iff.1 hmem)

end Muxer
