import Muxer.Proof.ExactlyOnce
import Muxer.Proof.Format

/-!
# What goes over the wire

Whatever the threads do and in whatever order, what the server is sent is settled by the requests
read: their frames, in that order, each under the next id, and in the shortest encoding. What a client
is sent are the frames of the messages copied to its connection, and of no other on its handle.

* `server_stream`: the first.
* `client_streams`: the second, and what such a message is.
-/

namespace Muxer

open Lib

variable {w w' : World} {a : Action} {e e' : Exchange}

/-! ## To the server -/

/-- The payload of the `k`-th request, as it goes to the server. -/
def Request.forwarded (k : ℕ) (r : Request) : Bytes :=
  match decodeInPdu r.pdu with
  | .ok (_, some q) => InputType.bytes ⟨Int64.ofNat (genId k), q.command⟩
  | _ => []

/-- The frames of the requests, in the order in which they were read. -/
def serverStream (rs : List Request) : Bytes :=
  (rs.mapIdx fun k r => pduFraming.frame (r.forwarded k)).flatten

/-- The messages for the server are the bytes of requests. -/
def RequestBytes (w : World) : Prop :=
  ∀ f ∈ w.takenOut ++ w.mux.wOutMessages, ∃ q : InputType, q.Valid ∧ f.pdu.buffer = q.bytes

theorem RequestBytes.step (h : RequestBytes w) (hinv : WorldInv w) (hs : Step w a w') :
    RequestBytes w' := by
  cases hs with
  | loadOut m hd hm =>
    rcases writeDataToOutBuffer_cases hm with ⟨rfl, hl⟩ | ⟨p, rest, conn', hl, hq, -, rfl, -⟩
    · unfold RequestBytes
      rw [hl, List.append_nil]
      exact h
    · intro f hf
      apply h f
      rw [hl, List.append_assoc] at hf
      rw [hq]
      exact hf
  | takeIn r m hp ht hm =>
    obtain ⟨rest, -, rfl⟩ := takeRInMessage_cases hm
    exact h
  | mapRequest r q m hp hm =>
    obtain ⟨-, -, rfl⟩ := mapRequest_cases hm
    exact h
  | forward r q m hp hm =>
    have hhand : w.exchange.hand = .mapped r q := by simp [World.exchange, hp, ProcessingPc.hand]
    obtain ⟨-, -, hq⟩ := hinv.numbered.mapped hhand
    -- the request in hand was decoded from what the client sent, and is valid
    obtain ⟨q₀, hq₀, hvalid⟩ := decodeInPdu_total r.pdu
    rw [hq] at hq₀
    cases hq₀
    obtain ⟨p, hm₁, hbytes, -⟩ := forwardRequest_ok hvalid r.tag w.mux
    rw [hm] at hm₁
    cases hm₁
    intro f hf
    rw [← List.append_assoc] at hf
    rcases List.mem_append.1 hf with hf | hf
    · exact h f hf
    · rw [List.mem_singleton.1 hf]
      exact ⟨⟨w.mux.invokeidGenCounter.toInt64, q.command⟩, hvalid, hbytes⟩
  | takeOut p m hp ht hm =>
    obtain ⟨rest, -, rfl⟩ := takeROutMessage_cases hm
    exact h
  | deliver p m hp hm =>
    obtain ⟨d, rs, -, -, -, rfl⟩ := deliverResponse_cases hm
    exact h
  | _ => exact h

/-- A generated id as the number it stands for. -/
theorem toInt64_genId {g : UInt64} {k : ℕ} (h : g.toNat = genId k) :
    g.toInt64 = Int64.ofNat (genId k) := by
  apply int64_ext
  rw [toUInt64_toInt64, ← h, Int64.toUInt64_ofNat', UInt64.toNat_ofNat']
  exact (Nat.mod_eq_of_lt g.toNat_lt).symm

/-- The `k`-th message for the server is the `k`-th request. -/
theorem RequestBytes.forwarded (h : RequestBytes w) (hinv : WorldInv w) {k : ℕ} {f : OutMessage ℕ}
    (hf : (w.takenOut ++ w.mux.wOutMessages)[k]? = some f) :
    ∃ r, w.requests[k]? = some r ∧ f.pdu.buffer = r.forwarded k := by
  obtain ⟨htag, -⟩ := hinv.numbered.forwarded_tag hf
  have hmem := List.mem_of_getElem? hf
  obtain ⟨r, q, hr, hq, g, hg, hdecode⟩ := hinv.numbered.forwards f hmem
  obtain ⟨q', hvalid, hbytes⟩ := h f hmem
  rw [htag] at hr hg
  -- what it is decoded as is what it was encoded from
  rw [decodeInPdu_bytes hvalid hbytes] at hdecode
  cases hdecode
  refine ⟨r, hr, ?_⟩
  unfold Request.forwarded
  rw [hbytes, hq, ← toInt64_genId hg]

theorem length_forwarded (hinv : WorldInv w) :
    (w.takenOut ++ w.mux.wOutMessages).length =
      w.requests.length - w.mux.rInMessages.length - w.processing.hand.unforwarded := by
  have hlen := congrArg List.length hinv.numbered.forwarded
  rw [List.length_map, List.length_range] at hlen
  exact hlen

/-- The frames of the messages for the server are those of the first requests. -/
theorem RequestBytes.frames (h : RequestBytes w) (hinv : WorldInv w) :
    frames ((w.takenOut ++ w.mux.wOutMessages).map (·.pdu)) =
      serverStream (w.requests.take (w.takenOut ++ w.mux.wOutMessages).length) := by
  have hlen := length_forwarded hinv
  unfold Muxer.frames serverStream
  congr 1
  apply List.ext_getElem?
  intro k
  rw [List.map_map, List.getElem?_map, List.getElem?_mapIdx]
  by_cases hk : k < (w.takenOut ++ w.mux.wOutMessages).length
  · have hget := List.getElem?_eq_getElem hk
    obtain ⟨r, hr, hbuffer⟩ := h.forwarded hinv hget
    rw [hget, List.getElem?_take_of_lt hk, hr]
    simp only [Option.map_some, Function.comp_apply, Pdu.frame, hbuffer]
  · rw [List.getElem?_eq_none (by omega), List.getElem?_eq_none (by rw [List.length_take]; omega)]
    rfl

theorem serverStream_take (rs : List Request) (n : ℕ) :
    serverStream (rs.take n) <+: serverStream rs := by
  have hwhole : serverStream rs = serverStream (rs.take n ++ rs.drop n) := by
    rw [List.take_append_drop]
  unfold serverStream at *
  rw [hwhole, List.mapIdx_append, List.flatten_append]
  exact List.prefix_append _ _

/-- What has been sent, what is in the buffer and what is queued: the frames of the first requests. -/
theorem RequestBytes.stream (h : RequestBytes w) (hinv : WorldInv w) :
    w.sentOut ++ w.mux.outConnection.unsent ++ Muxer.frames (w.mux.wOutMessages.map (·.pdu)) =
      serverStream (w.requests.take
        (w.requests.length - w.mux.rInMessages.length - w.processing.hand.unforwarded)) := by
  have hstream := h.frames hinv
  rwa [length_forwarded hinv, List.map_append, frames_append, ← hinv.streams.sent] at hstream

theorem RequestBytes.start : RequestBytes World.start := fun _ hf => absurd hf List.not_mem_nil

/-- **What the server is sent is settled by the requests read.** What has been sent, what is in the
buffer and what is queued are together the frames of all requests but those still queued or in hand. -/
theorem server_stream {tr : List (Action × World)} (h : Exec Step World.start tr) :
    ∀ v ∈ states World.start tr,
      v.sentOut ++ v.mux.outConnection.unsent ++ frames (v.mux.wOutMessages.map (·.pdu)) =
        serverStream (v.requests.take
          (v.requests.length - v.mux.rInMessages.length - v.processing.hand.unforwarded)) ∧
      v.sentOut <+: serverStream v.requests := by
  have hinv := h.inv (I := fun v => WorldInv v ∧ RequestBytes v)
    (fun v a v' ⟨hw, hb⟩ hs => ⟨hw.step hs, hb.step hw hs⟩) ⟨WorldInv.start, RequestBytes.start⟩
  intro v hv
  obtain ⟨hw, hb⟩ := hinv v hv
  have hstream := hb.stream hw
  refine ⟨hstream, ?_⟩
  have hprefix := serverStream_take v.requests
    (v.requests.length - v.mux.rInMessages.length - v.processing.hand.unforwarded)
  rw [← hstream, List.append_assoc] at hprefix
  exact (List.prefix_append _ _).trans hprefix

/-- The first request of the first client goes to the server. -/
theorem server_stream_first : ∃ tr, Exec Step World.start tr ∧
    (final World.start tr).sentOut ≠ [] ∧
    (final World.start tr).sentOut <+: serverStream (final World.start tr).requests := by
  obtain ⟨as, w₁, c, -, h₁, honly, -⟩ := leads_only payloadOK_zeros
  obtain ⟨q, f, -, hsend, -, h₂⟩ :=
    leads_pass honly.processing honly.turn honly.rOutMessages honly.rInMessages honly.pos
  obtain ⟨w₂, h₂, hw₂⟩ := h₂.exists_eq
  obtain ⟨out, n, -, -, h₃⟩ := leads_send (w := w₂) (by rw [hw₂]; exact honly.dropping)
    (by rw [hw₂]; exact honly.wBufferPtr) (by rw [hw₂, honly.wOutMessages]; rfl) hsend
  obtain ⟨tr, hex, -, hfinal⟩ := (h₁.trans h₂).trans h₃
  refine ⟨tr, hex, ?_, (server_stream hex _ (final_mem_states _ _)).2⟩
  rw [hfinal]
  intro hnil
  have hlen := congrArg List.length hnil
  have hpos := f.frame_pos
  simp only [List.length_append, List.length_nil] at hlen
  omega

/-! ## To the clients -/

/-- The message is for a request from its handle, whose id it bears, and the response in it is one
that the server gave under the id generated for that request. -/
def Exchange.Replies (e : Exchange) (r : InMessage ℕ) : Prop :=
  ∃ k req q m, e.requests[k]? = some req ∧ req.socket = r.socket ∧ genId k = genId r.tag ∧
    decodeInPdu req.pdu = .ok (0, some q) ∧ OutputType.Valid m ∧ m.invokeid = q.invokeid ∧
    r.pdu.buffer = m.bytes

/-- The messages for clients are responses. -/
def ResponseBytes (e : Exchange) : Prop :=
  ∀ r ∈ e.replies ++ e.delivered.map (·.message), e.Replies r

theorem ResponseBytes.step (h : ResponseBytes e) (hn : Numbered e) {ev : Event}
    (hs : ExchangeStep e ev e') : ResponseBytes e' := by
  cases hs with
  | read s p hs =>
    intro r hr
    obtain ⟨k, req, q, m, hreq, hrest⟩ := h r hr
    exact ⟨k, req, q, m, getElem?_snoc _ hreq, hrest⟩
  | deliver p rest d rs hp hd hv hrs =>
    intro r hr
    rw [List.append_assoc] at hr
    rcases List.mem_append.1 hr with hr | hr
    · exact h r (List.mem_append_left _ hr)
    rcases List.mem_append.1 hr with hr | hr
    · obtain ⟨t, ht, hsocket, htag, hbytes⟩ := exists_of_replied hrs hr
      obtain ⟨htable, hgen⟩ := List.mem_filter.1 ht
      obtain ⟨-, hid, req, q, hreq, hsame, hq, horiginal⟩ := hn.table t htable
      obtain ⟨d', hd', hanswer⟩ := hn.answers p (by rw [hp]; exact List.mem_cons_self)
      rw [hd] at hd'
      cases hd'
      -- the mapping and the answer have the same generated id
      have hgen' : t.invokeidGenerated = d.invokeid.toUInt64 := by simpa using hgen
      refine ⟨t.tag, req, q, ⟨t.invokeidOriginal.toInt64, d.command, d.result⟩, hreq,
        hsame.trans hsocket.symm, ?_, hq, hv, ?_, hbytes⟩
      · rw [htag, ← hid, ← hanswer, hgen']
      · rw [horiginal]
        rfl
    · exact h r (List.mem_append_right _ hr)
  | load q r q' hq =>
    intro x hx
    apply h x
    rw [hq]
    rw [List.map_append] at hx
    simp only [List.mem_append, List.mem_cons, List.map_singleton, List.not_mem_nil, or_false] at hx ⊢
    rcases hx with (hx | hx) | hx | rfl
    · exact .inl (.inl hx)
    · exact .inl (.inr (.inr hx))
    · exact .inr hx
    · exact .inl (.inr (.inl rfl))
  | free q r q' hq hr =>
    intro x hx
    apply h x
    rw [hq, List.append_assoc]
    rw [List.append_assoc] at hx
    exact (((List.sublist_cons_self r q').append_right _).append_left q).subset hx
  | _ => exact h

/-- **What a client is sent is what was copied to its connection**: what has been sent and what is in
the buffer are the frames of these messages. Each answers a request from its handle, in the shortest
encoding; but the request may be of an earlier client on it. -/
theorem client_streams {tr : List (Action × World)} (h : Exec Step World.start tr) :
    ∀ v ∈ states World.start tr,
      (∀ c ∈ v.mux.connections, v.sentIn c.socket ++ c.unsent =
        frames (deliveredTo c.socket (current v.inst v.delivered))) ∧
      ∀ r ∈ v.mux.wInMessages ++ v.delivered.map (·.message), v.exchange.Replies r := by
  have hinv := h.inv (I := fun v => WorldInv v ∧ Served v ∧ ResponseBytes v.exchange)
    (fun v a v' ⟨hw, hserved, hbytes⟩ hs => by
      obtain ⟨ev, hev, -⟩ := hs.exchange hw
      exact ⟨hw.step hs, hserved.step hw.clients hs, hbytes.step hw.numbered hev⟩)
    ⟨WorldInv.start, Served.start, fun r hr => absurd hr List.not_mem_nil⟩
  intro v hv
  obtain ⟨-, hserved, hbytes⟩ := hinv v hv
  exact ⟨hserved.streams.sent, hbytes⟩

/-- The first client is answered. -/
theorem client_streams_first : ∃ tr d, Exec Step World.start tr ∧
    (final World.start tr).delivered = [d] ∧
    (final World.start tr).exchange.Replies d.message := by
  obtain ⟨as, w₁, c, -, h₁, honly, -, -, hdel₁, -⟩ := leads_only payloadOK_zeros
  obtain ⟨bs, w₂, x, c', -, h₂, -, -, -, -, hdel₂, -⟩ := leads_relay honly
  obtain ⟨tr, hex, -, hfinal⟩ := h₁.trans h₂
  have hdel : (final World.start tr).delivered = [⟨x, w₁.inst 1⟩] := by
    rw [hfinal, hdel₂, hdel₁]
    rfl
  refine ⟨tr, _, hex, hdel, ?_⟩
  apply (client_streams hex _ (final_mem_states _ _)).2
  rw [hdel]
  exact List.mem_append_right _ (List.mem_singleton_self _)

end Muxer
