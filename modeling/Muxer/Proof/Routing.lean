import Muxer.Proof.Relay

/-!
# Routing a response

* `response_routed`: while generated ids are distinct, a response goes to the one client whose
  request has its id, and takes the mapping of this request out of the table.
-/

namespace Muxer

variable {τ : Type} {m : Mux τ} {p : OutMessage τ} {d : OutputType}

/-- A generated id in range is compared with the id of a response as a number. -/
theorem eq_toUInt64_iff {g : UInt64} (hg : g.toNat ≤ 32767) {id : Int64} :
    g = id.toUInt64 ↔ (g.toNat : ℤ) = id.toInt := by
  have hto : g = id.toUInt64 ↔ g.toInt64 = id :=
    ⟨fun h => by rw [h]; rfl, fun h => by rw [← h]; rfl⟩
  have hval : g.toInt64.toInt = g.toNat := by
    change g.toBitVec.toInt = g.toBitVec.toNat
    rw [BitVec.toInt_eq_toNat_bmod, Int.bmod_eq_of_le]
    · change -_ ≤ (g.toNat : ℤ)
      omega
    · change (g.toNat : ℤ) < _
      omega
  rw [hto, ← Int64.toInt_inj, hval]

/-- What the loop over the mappings tells apart, in a table with one mapping under the id. -/
theorem filter_mapping {table₁ table₂ : List (Mapping τ)} {s : Mapping τ}
    (hids : ((table₁ ++ s :: table₂).map Mapping.invokeidGenerated).Nodup) :
    (table₁ ++ s :: table₂).filter (·.invokeidGenerated == s.invokeidGenerated) = [s] ∧
      (table₁ ++ s :: table₂).filter (·.invokeidGenerated != s.invokeidGenerated) =
        table₁ ++ table₂ := by
  rw [List.map_append, List.map_cons, List.nodup_append, List.nodup_cons] at hids
  obtain ⟨-, ⟨hafter, -⟩, hbefore⟩ := hids
  have hne₁ : ∀ t ∈ table₁, t.invokeidGenerated ≠ s.invokeidGenerated := fun t ht =>
    hbefore _ (List.mem_map_of_mem ht) _ List.mem_cons_self
  have hne₂ : ∀ t ∈ table₂, t.invokeidGenerated ≠ s.invokeidGenerated := fun t ht heq =>
    hafter (heq ▸ List.mem_map_of_mem ht)
  constructor
  · rw [List.filter_append, List.filter_cons_of_pos (by simp),
      List.filter_eq_nil_iff.2 fun t ht => by simpa using hne₁ t ht,
      List.filter_eq_nil_iff.2 fun t ht => by simpa using hne₂ t ht]
    rfl
  · rw [List.filter_append, List.filter_cons_of_neg (by simp),
      List.filter_eq_self.2 fun t ht => by simpa using hne₁ t ht,
      List.filter_eq_self.2 fun t ht => by simpa using hne₂ t ht]

/-- **A response is routed by its id.** Take a muxer in which the ids generated for mappings are
distinct and in range, whose mappings have sockets `alloc_socket_invokeid_mapping` accepts, and a
response `d` at the head of `r_out_messages`. If a mapping has its id, one message goes to the end of
`w_in_messages`: for the socket of the mapping, decoded as `d` with the id the client chose; the
mapping leaves the table, and the others keep their order. If none has, the response is consumed and
nothing else changes. -/
theorem response_routed {rest : List (OutMessage τ)} (hhead : m.rOutMessages = p :: rest)
    (hp : decodeOutPdu p.pdu = .ok (0, some d))
    (hids : (m.socketToRecvUnicastMsg.map Mapping.invokeidGenerated).Nodup)
    (hrange : ∀ s ∈ m.socketToRecvUnicastMsg,
      1 ≤ s.invokeidGenerated.toNat ∧ s.invokeidGenerated.toNat ≤ 32767)
    (hsockets : ∀ s ∈ m.socketToRecvUnicastMsg, 0 < s.socket) :
    (∀ table₁ s table₂, m.socketToRecvUnicastMsg = table₁ ++ s :: table₂ →
      (s.invokeidGenerated.toNat : ℤ) = d.invokeid.toInt →
      ∃ r, r.socket = s.socket ∧
        decodeOutPdu r.pdu =
          .ok (0, some ⟨s.invokeidOriginal.toInt64, d.command, d.result⟩) ∧
        processIncomingOutMessages m = .ok { m with
          rOutMessages := rest
          socketToRecvUnicastMsg := table₁ ++ table₂
          wInMessages := m.wInMessages ++ [r] }) ∧
    ((∀ s ∈ m.socketToRecvUnicastMsg, (s.invokeidGenerated.toNat : ℤ) ≠ d.invokeid.toInt) →
      processIncomingOutMessages m = .ok { m with rOutMessages := rest }) := by
  obtain ⟨d₀, hd₀, hvalid⟩ := decodeOutPdu_total p.pdu
  have hd : d.Valid := by
    rw [hp] at hd₀
    cases hd₀
    exact hvalid
  constructor
  · intro table₁ s table₂ htable hg
    have hmem : s ∈ m.socketToRecvUnicastMsg := by
      rw [htable]
      exact List.mem_append_right _ List.mem_cons_self
    have hid := (eq_toUInt64_iff (hrange s hmem).2).2 hg
    rw [htable] at hids
    -- the ids are distinct: one mapping has the id of the response
    obtain ⟨hone, hothers⟩ := filter_mapping hids
    rw [← htable, hid] at hone hothers
    obtain ⟨r, hreply, hprocess⟩ :=
      processIncomingOutMessages_ok hhead hd hp (hsockets s hmem) hone
    refine ⟨r, hreply.1, hreply.decode hd, ?_⟩
    rw [hprocess]
    simp only [hothers]
  · intro hnone
    have hne : ∀ s ∈ m.socketToRecvUnicastMsg, s.invokeidGenerated ≠ d.invokeid.toUInt64 :=
      fun s hs heq => hnone s hs ((eq_toUInt64_iff (hrange s hs).2).1 heq)
    obtain ⟨rs, hdeliver, hrs⟩ := deliverResponse_ok (m := { m with rOutMessages := rest }) hd hp
      fun s hs heq => absurd heq (hne s hs)
    -- no reply is made, and no mapping goes
    rw [List.filter_eq_nil_iff.2 fun s hs => by simpa using hne s hs] at hrs
    cases hrs
    rw [processIncomingOutMessages_eq hhead, hdeliver,
      List.filter_eq_self.2 fun s hs => by simpa using hne s hs, List.append_nil]

/-- Mappings of two clients. -/
def threeMappings : List (Mapping Unit) := [⟨5, 4, 1, ()⟩, ⟨6, -1, 2, ()⟩, ⟨5, 4, 3, ()⟩]

/-- A response to the second of three mappings. -/
theorem response_routed_second : ∃ (p : OutMessage Unit) (r : InMessage Unit), r.socket = 6 ∧
    decodeOutPdu r.pdu = .ok (0, some ⟨-1, [8], [9]⟩) ∧
    processIncomingOutMessages
        { Mux.start with rOutMessages := [p], socketToRecvUnicastMsg := threeMappings } =
      .ok { Mux.start with
        socketToRecvUnicastMsg := [⟨5, 4, 1, ()⟩, ⟨5, 4, 3, ()⟩]
        wInMessages := [r] } := by
  have hvalid : OutputType.Valid ⟨2, [8], [9]⟩ := ⟨⟨by decide, by decide⟩, by decide, by decide⟩
  have hids : (threeMappings.map Mapping.invokeidGenerated).Nodup := by decide
  have hrange : ∀ s ∈ threeMappings,
      1 ≤ s.invokeidGenerated.toNat ∧ s.invokeidGenerated.toNat ≤ 32767 := by decide
  have hsockets : ∀ s ∈ threeMappings, 0 < s.socket := by decide
  obtain ⟨pdu, -, hbytes⟩ := encodeOutPdu_ok hvalid
  obtain ⟨r, hsock, hdecode, hprocess⟩ := (response_routed (p := ⟨pdu, ()⟩)
    (m := { Mux.start with
      rOutMessages := [⟨pdu, ()⟩]
      socketToRecvUnicastMsg := threeMappings })
    (show _ = _ :: [] from rfl) (decodeOutPdu_bytes hvalid hbytes) hids hrange hsockets).1
    [⟨5, 4, 1, ()⟩] ⟨6, -1, 2, ()⟩ [⟨5, 4, 3, ()⟩] rfl rfl
  exact ⟨⟨pdu, ()⟩, r, hsock, hdecode, hprocess⟩

end Muxer
