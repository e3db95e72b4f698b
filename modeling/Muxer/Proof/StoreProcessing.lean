import Muxer.Proof.Relay
import Muxer.Proof.Store

/-!
# The processing thread's part of the store

* `takeRInMessage_ok`, `takeROutMessage_ok`: a message taken, copied and freed.
* `mapRequest_ok`, `forwardRequest_ok`: a request mapped, and sent on to the server.
* `deliverResponse_ok`: a response sent to each client mapped, whose mapping is gone.
-/

namespace Muxer.Memory

open Lib OnHeap

variable {τ : Type} {s s' : Store} {L : Layout τ}

/-! ## Copies -/

theorem copyPdu_ok (hr : Represents s L) (rt : Runtime) {p : Addr} {pdu : Pdu}
    (hp : (p, pdu) ∈ L.pduCells) : ∃ a s', copyPdu rt (some p) s = .ok (some a, s') ∧
      Represents s' { L with pdus := (a, pdu) :: L.pdus } := by
  obtain ⟨a, s', hnew, hr'⟩ := newPdu_ok hr rt pdu
  refine ⟨a, s', ?_, hr'⟩
  simp only [copyPdu, load_pdu hr hp, heap_ok, ok_bind, hnew]

/-- The messages in hand, in another order. -/
theorem Represents.permIns (hr : Represents s L) {ins : List (Block (InMessage τ))}
    (h : L.ins.Perm ins) : Represents s { L with ins := ins } := by
  refine { hr with inMessageBlocks := hr.inMessageBlocks.congr ?_, pduBlocks := hr.pduBlocks.congr ?_ }
  · simp only [Layout.inCells, cells_perm h]
  · simp only [Layout.pduCells, cells_perm h]

theorem Represents.permOuts (hr : Represents s L) {outs : List (Block (OutMessage τ))}
    (h : L.outs.Perm outs) : Represents s { L with outs := outs } := by
  refine
    { hr with outMessageBlocks := hr.outMessageBlocks.congr ?_, pduBlocks := hr.pduBlocks.congr ?_ }
  · simp only [Layout.outCells, cells_perm h]
  · simp only [Layout.pduCells, cells_perm h]

/-- A message in hand is copied, and freed. -/
theorem copyInMessage_ok (hr : Represents s L) (rt : Runtime) {b : Block (InMessage τ)}
    {ins : List (Block (InMessage τ))} (hL : L.ins = b :: ins) (hs : 0 < b.value.socket) :
    ∃ o p s₁ s', copyInMessage rt (some b.object) s = .ok (some o, s₁) ∧
      freeInMessage (some b.object) s₁ = .ok s' ∧
      Represents s' { L with ins := ⟨o, p, b.value⟩ :: ins } := by
  have hne : some b.object ≠ (none : Ptr) := Option.some_ne_none _
  have hin : b.inCell ∈ L.inCells := by simp [Layout.inCells, hL]
  have hpdu : b.inPdu ∈ L.pduCells := by simp [Layout.pduCells, hL]
  obtain ⟨p, s₁, hcopy, hr₁⟩ := copyPdu_ok hr rt hpdu
  obtain ⟨o, s₂, halloc, hr₂⟩ := allocInMessage_ok hr₁ rt hs rfl b.value.tag
  have hswap : (⟨o, p, b.value⟩ :: L.ins).Perm (b :: ⟨o, p, b.value⟩ :: ins) := by
    rw [hL]
    exact .swap ..
  obtain ⟨s', hfree, hr'⟩ := freeInMessage_ok (hr₂.permIns hswap) rfl
  refine ⟨o, p, s₂, s', ?_, hfree, hr'⟩
  simp only [copyInMessage, assertThat_ok hne, load_in hr hin, load_in hr₁ hin, hcopy, halloc,
    heap_ok, ok_bind]

theorem copyOutMessage_ok (hr : Represents s L) (rt : Runtime) {b : Block (OutMessage τ)}
    {outs : List (Block (OutMessage τ))} (hL : L.outs = b :: outs) :
    ∃ o p s₁ s', copyOutMessage rt (some b.object) s = .ok (some o, s₁) ∧
      freeOutMessage (some b.object) s₁ = .ok s' ∧
      Represents s' { L with outs := ⟨o, p, b.value⟩ :: outs } := by
  have hne : some b.object ≠ (none : Ptr) := Option.some_ne_none _
  have hout : b.outCell ∈ L.outCells := by simp [Layout.outCells, hL]
  have hpdu : b.outPdu ∈ L.pduCells := by simp [Layout.pduCells, hL]
  obtain ⟨p, s₁, hcopy, hr₁⟩ := copyPdu_ok hr rt hpdu
  obtain ⟨o, s₂, halloc, hr₂⟩ := allocOutMessage_ok hr₁ rt rfl b.value.tag
  have hswap : (⟨o, p, b.value⟩ :: L.outs).Perm (b :: ⟨o, p, b.value⟩ :: outs) := by
    rw [hL]
    exact .swap ..
  obtain ⟨s', hfree, hr'⟩ := freeOutMessage_ok (hr₂.permOuts hswap) rfl
  refine ⟨o, p, s₂, s', ?_, hfree, hr'⟩
  simp only [copyOutMessage, assertThat_ok hne, load_out hr hout, hcopy, halloc, heap_ok, ok_bind]

/-! ## Messages taken -/

theorem takeRInMessage_empty (hr : Represents s L) (rt : Runtime) (hL : L.rInMessages = []) :
    takeRInMessage rt s = .ok (none, s) := by
  have hqueue : L.queue .rInMessages = [] := by simp [Layout.queue, hL]
  simp [takeRInMessage, qGet_empty hr hqueue]

theorem takeROutMessage_empty (hr : Represents s L) (rt : Runtime) (hL : L.rOutMessages = []) :
    takeROutMessage rt s = .ok (none, s) := by
  have hqueue : L.queue .rOutMessages = [] := by simp [Layout.queue, hL]
  simp [takeROutMessage, qGet_empty hr hqueue]

theorem takeRInMessage_ok (hr : Represents s L) (rt : Runtime) {i : Queued (InMessage τ)}
    {is : List (Queued (InMessage τ))} (hL : L.rInMessages = i :: is) (hs : 0 < i.value.socket) :
    ∃ o p s', takeRInMessage rt s = .ok (some o, s') ∧
      Represents s' { L with rInMessages := is, ins := ⟨o, p, i.value⟩ :: L.ins } := by
  have hne : some i.object ≠ (none : Ptr) := Option.some_ne_none _
  have hentry : some i.entry ≠ (none : Ptr) := Option.some_ne_none _
  obtain ⟨s₁, e, hget, hload, href, hr₁⟩ := getRIn_ok hr hL
  obtain ⟨s₂, hfree, hr₂⟩ := qFree_loose hr₁ rfl .rInMessages
  obtain ⟨o, p, s₃, s', hcopy, hfreed, hr'⟩ := copyInMessage_ok hr₂ rt rfl hs
  refine ⟨o, p, s', ?_, hr'⟩
  simp only [takeRInMessage, hget, hload, href, assertThat_ok hne, hfree, hcopy, hfreed, heap_ok,
    ok_bind, if_pos hentry]

theorem takeROutMessage_ok (hr : Represents s L) (rt : Runtime) {i : Queued (OutMessage τ)}
    {is : List (Queued (OutMessage τ))} (hL : L.rOutMessages = i :: is) :
    ∃ o p s', takeROutMessage rt s = .ok (some o, s') ∧
      Represents s' { L with rOutMessages := is, outs := ⟨o, p, i.value⟩ :: L.outs } := by
  have hne : some i.object ≠ (none : Ptr) := Option.some_ne_none _
  have hentry : some i.entry ≠ (none : Ptr) := Option.some_ne_none _
  obtain ⟨s₁, e, hget, hload, href, hr₁⟩ := getROut_ok hr hL
  obtain ⟨s₂, hfree, hr₂⟩ := qFree_loose hr₁ rfl .rOutMessages
  obtain ⟨o, p, s₃, s', hcopy, hfreed, hr'⟩ := copyOutMessage_ok hr₂ rt rfl
  refine ⟨o, p, s', ?_, hr'⟩
  simp only [takeROutMessage, hget, hload, href, assertThat_ok hne, hfree, hcopy, hfreed, heap_ok,
    ok_bind, if_pos hentry]

/-! ## Requests -/

/-- A mapping more. -/
theorem putMapping_ok (hr : Represents s L) (rt : Runtime) {pdu : Ptr} (hpdu : pdu ≠ none)
    {socket : Socket} (hs : 0 < socket) (invokeid : UInt64) (tag : τ) :
    ∃ o a s', putIntoSocketToRecvUnicastMsg rt socket invokeid pdu s = .ok s' ∧
      Represents s' { L with
        invokeidGenCounter := generateInvokeid L.invokeidGenCounter
        mappings := L.mappings ++
          [⟨a, o, ⟨socket, invokeid, generateInvokeid L.invokeidGenCounter, tag⟩⟩] } := by
  set generated := generateInvokeid L.invokeidGenCounter with generated_def
  set o := rt.addr s.mappingBlocks with o_def
  set s₁ : Store := { s with
    invokeidGenCounter := generated
    mappingBlocks := s.mappingBlocks.set o ⟨socket, invokeid, generated, ()⟩ } with s₁_def
  have hp : Pool s₁.queue s₁.queueEntries L.queue L.loose := hr.pool
  obtain ⟨a, s₂, s', halloc, hput, hq, hp'⟩ := enqueue_ok hp rt o .socketToRecvUnicastMsg
  refine ⟨o, a, s', ?_, ?_⟩
  · simp only [putIntoSocketToRecvUnicastMsg, allocSocketInvokeidMapping, assertThat_ok hpdu,
      assertThat_ok hs, heap_ok, ok_bind, hr.invokeidGenCounter, ← generated_def, ← o_def, ← s₁_def,
      halloc, hput]
  · have hblocks : Blocks s₁ { L with
        invokeidGenCounter := generated
        mappings := L.mappings ++ [⟨a, o, ⟨socket, invokeid, generated, tag⟩⟩] } := by
      refine { hr.toBlocks with mappingBlocks := ?_, invokeidGenCounter := rfl }
      refine (hr.mappingBlocks.alloc (rt.fresh s.mappingBlocks) _).congr ?_
      simp only [cells_append, cells_cons, cells_nil, mappingCell]
      abel
    refine ⟨hblocks.requeue hq, ?_⟩
    convert hp' using 1
    funext k
    cases k <;> simp [Layout.queue, itemRef]

/-- **A request in hand is mapped.** -/
theorem mapRequest_ok (hr : Represents s L) (rt : Runtime) {b : Block (InMessage τ)}
    (hb : b ∈ L.ins) (hs : 0 < b.value.socket) {q : InputType}
    (hq : decodeInPdu b.value.pdu = .ok (0, some q)) :
    ∃ o a s', mapRequest rt (some b.object) s = .ok (q, s') ∧
      Represents s' { L with
        invokeidGenCounter := generateInvokeid L.invokeidGenCounter
        mappings := L.mappings ++ [⟨a, o, ⟨b.value.socket, q.invokeid.toUInt64,
          generateInvokeid L.invokeidGenCounter, b.value.tag⟩⟩] } := by
  have hne : some b.pdu ≠ (none : Ptr) := Option.some_ne_none _
  have hin : b.inCell ∈ L.inCells := by
    simp only [Layout.inCells, Multiset.mem_add, mem_cells]
    exact .inr ⟨b, hb, rfl⟩
  have hpdu : b.inPdu ∈ L.pduCells := by
    simp only [Layout.pduCells, Multiset.mem_add, mem_cells]
    exact .inl (.inl (.inl (.inl (.inr ⟨b, hb, rfl⟩))))
  obtain ⟨o, a, s', hput, hr'⟩ := putMapping_ok hr rt hne hs q.invokeid.toUInt64 b.value.tag
  refine ⟨o, a, s', ?_, hr'⟩
  simp only [mapRequest, load_in hr hin, load_pdu hr hpdu, hq, hput, heap_ok, code_ok, ok_bind]

/-- A PDU in hand goes to the server. -/
theorem putPduIntoWOutMessages_ok (hr : Represents s L) (rt : Runtime) {p : Addr} {pdu : Pdu}
    {pdus : List (Addr × Pdu)} (hL : L.pdus = (p, pdu) :: pdus) (tag : τ) :
    ∃ o a s', putPduIntoWOutMessages rt (some p) s = .ok s' ∧
      Represents s' { L with
        wOutMessages := L.wOutMessages ++ [⟨⟨o, p, ⟨pdu, tag⟩⟩, a⟩], pdus := pdus } := by
  obtain ⟨o, s₁, halloc, hr₁⟩ := allocOutMessage_ok hr rt hL tag
  obtain ⟨a, s₂, s', hentry, hput, hr'⟩ := putWOut_ok hr₁ rt rfl
  refine ⟨o, a, s', ?_, hr'⟩
  simp only [putPduIntoWOutMessages, halloc, hentry, hput, ok_bind]

/-- **A request in hand is sent on to the server**, and freed. -/
theorem forwardRequest_ok (hr : Represents s L) (rt : Runtime) {b : Block (InMessage τ)}
    {ins : List (Block (InMessage τ))} (hL : L.ins = b :: ins) {q : InputType} (hq : q.Valid) :
    ∃ i s', forwardRequest rt (some b.object) q s = .ok s' ∧
      Represents s' { L with wOutMessages := L.wOutMessages ++ [i], ins := ins } ∧
      Muxer.forwardRequest q b.value.tag L.mux = .ok { L.mux with
        wOutMessages := L.mux.wOutMessages ++ [i.value] } := by
  have hq' : InputType.Valid { q with invokeid := L.invokeidGenCounter.toInt64 } := hq
  obtain ⟨pdu, hpdu, -⟩ := encodeInPdu_ok hq'
  obtain ⟨p, s₁, hnew, hr₁⟩ := newPdu_ok hr rt pdu
  obtain ⟨o, a, s₂, hput, hr₂⟩ := putPduIntoWOutMessages_ok hr₁ rt rfl b.value.tag
  obtain ⟨s', hfree, hr'⟩ := freeInMessage_ok hr₂ hL
  refine ⟨⟨⟨o, p, ⟨pdu, b.value.tag⟩⟩, a⟩, s', ?_, hr', ?_⟩
  · simp only [forwardRequest, hr.invokeidGenCounter, hpdu, hnew, hput, hfree, code_ok, ok_bind,
      ne_eq, not_true_eq_false, if_false]
  · have hcounter : L.mux.invokeidGenCounter = L.invokeidGenCounter := rfl
    simp only [Muxer.forwardRequest, hcounter, hpdu, bind, Except.bind]
    rfl

/-! ## Responses -/

/-- The mappings scanned in two parts. -/
theorem scanMappings_append {d : OutputType} {g : UInt64} {tag : τ}
    {xs ys kept kept' : List (Mapping τ)} {rs rs' : List (InMessage τ)}
    (hx : scanMappings d g tag xs = .ok (kept, rs))
    (hy : scanMappings d g tag ys = .ok (kept', rs')) :
    scanMappings d g tag (xs ++ ys) = .ok (kept ++ kept', rs ++ rs') := by
  induction xs generalizing kept rs with
  | nil =>
    cases hx
    exact hy
  | cons t xs ih =>
    rw [scanMappings] at hx
    rw [List.cons_append, scanMappings]
    by_cases hg : t.invokeidGenerated = g
    · rw [if_pos hg] at hx ⊢
      obtain ⟨⟨err, p⟩, hp, hx⟩ := bind_eq_ok.1 hx
      obtain ⟨r, halloc, hx⟩ := bind_eq_ok.1 hx
      obtain ⟨⟨kept₁, rs₁⟩, hscan, hx⟩ := bind_eq_ok.1 hx
      cases hx
      simp only [hp, halloc, ih hscan, ok_bind]
      rfl
    · rw [if_neg hg] at hx ⊢
      obtain ⟨⟨kept₁, rs₁⟩, hscan, hx⟩ := bind_eq_ok.1 hx
      cases hx
      simp only [ih hscan, ok_bind]
      rfl

/-- A PDU in hand goes to a client. -/
theorem putPduIntoWInMessages_ok (hr : Represents s L) (rt : Runtime) {socket : Socket}
    (hs : 0 < socket) {p : Addr} {pdu : Pdu} {pdus : List (Addr × Pdu)}
    (hL : L.pdus = (p, pdu) :: pdus) (tag : τ) :
    ∃ o a s', putPduIntoWInMessages rt socket (some p) s = .ok s' ∧
      Represents s' { L with
        wInMessages := L.wInMessages ++ [⟨⟨o, p, ⟨socket, pdu, tag⟩⟩, a⟩], pdus := pdus } := by
  obtain ⟨o, s₁, halloc, hr₁⟩ := allocInMessage_ok hr rt hs hL tag
  obtain ⟨a, s₂, s', hentry, hput, hr'⟩ := putWIn_ok hr₁ rt rfl
  refine ⟨o, a, s', ?_, hr'⟩
  simp only [putPduIntoWInMessages, halloc, hentry, hput, ok_bind]

/-- A response is sent to the client of a mapping, and the mapping is gone. -/
theorem deliverRound_ok (hr : Represents s L) (rt : Runtime) {d : OutputType} (hd : d.Valid)
    {g : UInt64} {xs ys : List (Item (Mapping τ))} {i : Item (Mapping τ)}
    (hL : L.mappings = xs ++ i :: ys) (hg : i.value.invokeidGenerated = g)
    (hs : 0 < i.value.socket) (tag : τ) :
    ∃ r s', deliverRound rt d g i.entry s = .ok ((ys.map Item.entry).head?, s') ∧
      Represents s' { L with mappings := xs ++ ys, wInMessages := L.wInMessages ++ [r] } ∧
      scanMappings d g tag [i.value] = .ok ([], [r.value]) := by
  have hd' : OutputType.Valid { d with invokeid := i.value.invokeidOriginal.toInt64 } := hd
  obtain ⟨pdu, hpdu, -⟩ := encodeOutPdu_ok hd'
  have hi : i ∈ L.mappings := by simp [hL]
  have hne : some i.object ≠ (none : Ptr) := Option.some_ne_none _
  obtain ⟨e, he, href, -⟩ := load_mappingEntry hr hL
  obtain ⟨p, s₁, hnew, hr₁⟩ := newPdu_ok hr rt pdu
  have hmem : (p, pdu) ∈ Layout.pduCells { L with pdus := (p, pdu) :: L.pdus } := by
    simp [Layout.pduCells]
  obtain ⟨p', s₂, hcopy, hr₂⟩ := copyPdu_ok hr₁ rt hmem
  obtain ⟨o, a, s₃, hput, hr₃⟩ := putPduIntoWInMessages_ok hr₂ rt hs rfl tag
  obtain ⟨s₄, hfree, hr₄⟩ := freePdu_ok hr₃ rfl
  obtain ⟨s₅, e', s₆, s', hclear, hload, hnext, hremove, hfreed, hr'⟩ := removeMapping_ok hr₄ hL
  refine ⟨⟨⟨o, p', ⟨i.value.socket, pdu, tag⟩⟩, a⟩, s', ?_, hr', ?_⟩
  · simp only [deliverRound, he, href, assertThat_ok hne, load_mapping hr hi, mappingCell, if_pos hg,
      hpdu, hnew, hcopy, hput, hfree, hclear, hload, hnext, hremove, hfreed, heap_ok, code_ok, ok_bind]
  · simp only [scanMappings, if_pos hg, hpdu, Muxer.allocInMessage, cAssert_ok hs, bind, Except.bind]

/-- Where the loop over the mappings is: those met so far are kept or answered. -/
def Delivering (L : Layout τ) (d : OutputType) (g : UInt64) (tag : τ)
    (before after : List (Item (Mapping τ))) (s : Store) : Prop :=
  ∃ (kept : List (Item (Mapping τ))) (rs : List (Queued (InMessage τ))),
    scanMappings d g tag (before.map Item.value) =
      .ok (kept.map Item.value, rs.map (·.value)) ∧
    Represents s { L with mappings := kept ++ after, wInMessages := L.wInMessages ++ rs }

theorem Delivering.round {L : Layout τ} {d : OutputType} {g : UInt64} {tag : τ}
    {before after : List (Item (Mapping τ))} {i : Item (Mapping τ)}
    (h : Delivering L d g tag before (i :: after) s) (rt : Runtime) (hd : d.Valid)
    (hs : 0 < i.value.socket) : ∃ s', deliverRound rt d g i.entry s =
      .ok ((after.map Item.entry).head?, s') ∧ Delivering L d g tag (before ++ [i]) after s' := by
  obtain ⟨kept, rs, hscan, hr⟩ := h
  by_cases hg : i.value.invokeidGenerated = g
  · obtain ⟨r, s', hround, hr', hone⟩ := deliverRound_ok hr rt hd rfl hg hs tag
    refine ⟨s', hround, kept, rs ++ [r], ?_, ?_⟩
    · have happend := scanMappings_append hscan hone
      simpa using happend
    · rwa [List.append_assoc] at hr'
  · have hne : some i.object ≠ (none : Ptr) := Option.some_ne_none _
    obtain ⟨e, he, href, hnext⟩ := load_mappingEntry hr rfl
    refine ⟨s, ?_, kept ++ [i], rs, ?_, ?_⟩
    · have hload := load_mapping hr (i := i) (by simp)
      simp only [deliverRound, he, href, assertThat_ok hne, hload, mappingCell, if_neg hg, heap_ok,
        ok_bind, hnext]
    · have hone : scanMappings d g tag [i.value] = .ok ([i.value], []) := by
        simp only [scanMappings, if_neg hg, bind, Except.bind]
      have happend := scanMappings_append hscan hone
      simpa using happend
    · rwa [List.append_assoc]

/-- **A response in hand is sent to the clients mapped**, and freed. -/
theorem deliverResponse_ok (hr : Represents s L) (rt : Runtime) {b : Block (OutMessage τ)}
    {outs : List (Block (OutMessage τ))} (hL : L.outs = b :: outs)
    (hs : ∀ i ∈ L.mappings, 0 < i.value.socket) :
    ∃ mappings rs s', deliverResponse rt (some b.object) s = .ok s' ∧
      Represents s' { L with
        mappings := mappings, wInMessages := L.wInMessages ++ rs, outs := outs } ∧
      Muxer.deliverResponse b.value L.mux = .ok { L.mux with
        socketToRecvUnicastMsg := mappings.map Item.value
        wInMessages := L.mux.wInMessages ++ rs.map (·.value) } := by
  obtain ⟨d, hd, hvalid⟩ := decodeOutPdu_total b.value.pdu
  have hout : b.outCell ∈ L.outCells := by simp [Layout.outCells, hL]
  have hpdu : b.outPdu ∈ L.pduCells := by simp [Layout.pduCells, hL]
  have hk : (L.queue .socketToRecvUnicastMsg).map Prod.fst = L.mappings.map Item.entry := entries_items _
  obtain ⟨s₁, hloop, kept, rs, hscan, hr₁⟩ := along_all hr hk
    (I := Delivering L d d.invokeid.toUInt64 b.value.tag)
    (fun before i after x hl hI => hI.round rt hvalid (hs i (by simp [← hl])))
    ⟨[], [], rfl, by simpa using hr⟩
  obtain ⟨s', hfree, hr'⟩ := freeOutMessage_ok hr₁ hL
  refine ⟨kept, rs, s', ?_, by simpa using hr', ?_⟩
  · simp only [deliverResponse, load_out hr hout, load_pdu hr hpdu, hd, heap_ok, code_ok, ok_bind]
    have hhead : s.socketToRecvUnicastMsg = s.queue .socketToRecvUnicastMsg := rfl
    simp only [hhead, hloop, ok_bind, hfree]
  · simp only [Muxer.deliverResponse, hd, ok_bind]
    have htable : L.mux.socketToRecvUnicastMsg = L.mappings.map Item.value := rfl
    simp only [htable, hscan, ok_bind]

end Muxer.Memory
