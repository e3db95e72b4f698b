import Mathlib.Data.List.Perm.Subperm
import Muxer.Proof.Runs

/-!
# Generated ids in the mapping table

The generator wraps after 32767 ids and does not look at the table, so that the ids in it are
distinct exactly as long as no request is mapped while one 32767 positions before it, or a multiple
of that, still is. The runs are those of the critical sections that use the table (`TableStep`),
with any requests and any responses, of which those of a world are a part.

* `Step.table`: a step of a world is one of these.
* `uniqueIds_iff`: the exact condition, over every run.
* `uniqueIds_fails`: 32768 requests without an answer.
-/

namespace Muxer

open Lib

/-- The muxer and how many requests have been mapped, which is the mark of the next. -/
structure TableState where
  mux : Mux ℕ
  mapped : ℕ

inductive TableAction
  | map
  | deliver
  | unmap (s : Socket)
  | other

/-- Any request may be mapped, any PDU of the server delivered and any client's mappings removed,
at any time; the other critical sections leave the table and the counter alone. -/
inductive TableStep : TableState → TableAction → TableState → Prop
  | map (t r q m) : r.tag = t.mapped → mapRequest r t.mux = .ok (q, m) →
      TableStep t .map ⟨m, t.mapped + 1⟩
  | deliver (t p m) : deliverResponse p t.mux = .ok m → TableStep t .deliver ⟨m, t.mapped⟩
  | unmap (t s) : TableStep t (.unmap s) ⟨removeAllMappingsFor s t.mux, t.mapped⟩
  | other (t m) : m.socketToRecvUnicastMsg = t.mux.socketToRecvUnicastMsg →
      m.invokeidGenCounter = t.mux.invokeidGenCounter → TableStep t .other ⟨m, t.mapped⟩

def TableState.start : TableState := ⟨Mux.start, 0⟩

variable {w w' : World} {a : Action} {t t' : TableState} {b : TableAction}

/-! ## The table of a world -/

/-- The table of a world: all requests taken have been mapped, but for the one in hand. -/
def World.tableState (w : World) : TableState :=
  ⟨w.mux, w.exchange.started - w.exchange.hand.unmapped⟩

/-- A critical section that maps nothing, and leaves the table and the counter alone. -/
theorem tableStep_other (htable : w'.mux.socketToRecvUnicastMsg = w.mux.socketToRecvUnicastMsg)
    (hcounter : w'.mux.invokeidGenCounter = w.mux.invokeidGenCounter)
    (hmapped : w'.exchange.started - w'.exchange.hand.unmapped =
      w.exchange.started - w.exchange.hand.unmapped) :
    ∃ b, TableStep w.tableState b w'.tableState := by
  refine ⟨.other, ?_⟩
  unfold World.tableState
  rw [hmapped]
  exact .other _ _ htable hcounter

/-- **A step of a world is one of the table.** -/
theorem Step.table (h : WorldInv w) (hs : Step w a w') :
    ∃ b, TableStep w.tableState b w'.tableState := by
  have hle : w.mux.rInMessages.length ≤ w.requests.length := h.numbered.length_le
  cases hs with
  | putIn s p ps hr =>
    refine tableStep_other rfl rfl ?_
    simp only [Exchange.started, World.exchange, List.length_append, List.length_singleton]
    omega
  | takeIn r m hp ht hm =>
    obtain ⟨rest, hq, rfl⟩ := takeRInMessage_cases hm
    refine tableStep_other rfl rfl ?_
    simp only [Exchange.started, World.exchange, hp, hq, ProcessingPc.hand, Hand.unmapped,
      List.length_cons]
    omega
  | mapRequest r q m hp hm =>
    have hhand : w.exchange.hand = .taken r := by simp [World.exchange, hp, ProcessingPc.hand]
    obtain ⟨htag, -⟩ := h.numbered.taken hhand
    -- the request mapped is the one after those already mapped
    have hmapped : w.tableState.mapped = r.tag := by
      change w.exchange.started - w.processing.hand.unmapped = r.tag
      rw [hp, ← htag]
      rfl
    have hstep := TableStep.map w.tableState r q m hmapped.symm hm
    obtain ⟨-, -, rfl⟩ := mapRequest_cases hm
    rw [hmapped, htag] at hstep
    exact ⟨.map, hstep⟩
  | forward r q m hp hm =>
    -- a request in hand that is mapped counts as one that is not in hand
    have hmapped : (ProcessingPc.idle).hand.unmapped = w.processing.hand.unmapped := by rw [hp]; rfl
    rcases forwardRequest_cases hm with rfl | ⟨p, rfl⟩
    · exact tableStep_other rfl rfl (congrArg _ hmapped)
    · exact tableStep_other rfl rfl (congrArg _ hmapped)
  | takeOut p m hp ht hm =>
    obtain ⟨rest, -, rfl⟩ := takeROutMessage_cases hm
    have hmapped : (ProcessingPc.response p).hand.unmapped = w.processing.hand.unmapped := by
      rw [hp]
      rfl
    exact tableStep_other rfl rfl (congrArg _ hmapped)
  | deliver p m hp hm =>
    have hstep := TableStep.deliver w.tableState p m hm
    obtain ⟨d, rs, -, -, -, rfl⟩ := deliverResponse_cases hm
    refine ⟨.deliver, ?_⟩
    unfold World.tableState at hstep ⊢
    simpa [World.exchange, Exchange.started, hp, ProcessingPc.hand] using hstep
  | unmap t s hd => exact ⟨.unmap s, .unmap w.tableState s⟩
  | loadOut m hd hm =>
    rcases writeDataToOutBuffer_cases hm with ⟨rfl, -⟩ | ⟨p, rest, conn', -, -, -, rfl, -⟩
    · exact tableStep_other rfl rfl rfl
    · exact tableStep_other rfl rfl rfl
  | _ => exact tableStep_other rfl rfl rfl

/-- So a run of a world is a run of its table. -/
theorem exec_table {tr : List (Action × World)} (hw : WorldInv w) (h : Exec Step w tr) :
    ∃ tr', Exec TableStep w.tableState tr' ∧
      final w.tableState tr' = (final w tr).tableState := by
  induction h with
  | nil w => exact ⟨[], .nil _, rfl⟩
  | cons hs _ ih =>
    obtain ⟨b, hb⟩ := hs.table hw
    obtain ⟨tr', hex, hfinal⟩ := ih (hw.step hs)
    exact ⟨_, .cons hb hex, hfinal⟩

/-! ## Distinct ids -/

/-- No two mappings have the same generated id. -/
def UniqueIds (m : Mux ℕ) : Prop := (m.socketToRecvUnicastMsg.map (·.invokeidGenerated)).Nodup

/-- The mappings that a response under this id matches. -/
def matching (g : UInt64) (m : Mux ℕ) : List (Mapping ℕ) :=
  m.socketToRecvUnicastMsg.filter (·.invokeidGenerated == g)

/-- A request is mapped when none is that was mapped 32767 requests, or a multiple of that,
before. -/
def Apart (t : TableState) (b : TableAction) : Prop :=
  b = .map → ∀ s ∈ t.mux.socketToRecvUnicastMsg, s.tag % 32767 ≠ t.mapped % 32767

/-- The ids in the table are those generated for the requests, and the counter's is the last. -/
structure IdsOK (t : TableState) : Prop where
  counter : t.mux.invokeidGenCounter.toNat = if t.mapped = 0 then 0 else genId (t.mapped - 1)
  table : ∀ s ∈ t.mux.socketToRecvUnicastMsg, s.invokeidGenerated.toNat = genId s.tag

theorem UniqueIds.matching_length_le {m : Mux ℕ} (h : UniqueIds m) (g : UInt64) :
    (matching g m).length ≤ 1 := by
  have hcount := List.nodup_iff_count_le_one.1 h g
  rwa [List.count_eq_countP, List.countP_map, List.countP_eq_length_filter] at hcount

/-- Only mapping a request adds to the table. -/
theorem TableStep.cases (hs : TableStep t b t') :
    (b ≠ .map ∧ t'.mapped = t.mapped ∧
      t'.mux.invokeidGenCounter = t.mux.invokeidGenCounter ∧
      t'.mux.socketToRecvUnicastMsg.Sublist t.mux.socketToRecvUnicastMsg) ∨
    (b = .map ∧ t'.mapped = t.mapped + 1 ∧
      t'.mux.invokeidGenCounter = generateInvokeid t.mux.invokeidGenCounter ∧
      ∃ s q, t'.mux.socketToRecvUnicastMsg = t.mux.socketToRecvUnicastMsg ++
        [⟨s, q, generateInvokeid t.mux.invokeidGenCounter, t.mapped⟩]) := by
  cases hs with
  | map r q m htag hm =>
    obtain ⟨-, -, rfl⟩ := mapRequest_cases hm
    exact .inr ⟨rfl, rfl, rfl, r.socket, _, by rw [← htag]⟩
  | deliver p m hm =>
    obtain ⟨d, rs, -, -, -, rfl⟩ := deliverResponse_cases hm
    exact .inl ⟨by simp, rfl, rfl, List.filter_sublist⟩
  | unmap s => exact .inl ⟨by simp, rfl, rfl, List.filter_sublist⟩
  | other m htable hcounter => exact .inl ⟨by simp, rfl, hcounter, by rw [htable]⟩

/-- **Every step maps requests under the ids generated for them.** -/
theorem IdsOK.step (h : IdsOK t) (hs : TableStep t b t') : IdsOK t' := by
  rcases hs.cases with ⟨-, hmapped, hcounter, hsub⟩ | ⟨-, hmapped, hcounter, s, q, htable⟩
  · exact ⟨by rw [hmapped, hcounter]; exact h.counter, fun s hs => h.table s (hsub.subset hs)⟩
  · have hgen := toNat_generateInvokeid h.counter
    refine ⟨by rw [hmapped, hcounter, hgen]; simp, ?_⟩
    intro u hu
    rw [htable] at hu
    rcases List.mem_append.1 hu with hu | hu
    · exact h.table u hu
    · rw [List.mem_singleton.1 hu]
      exact hgen

/-- One step keeps the ids distinct exactly when it does not map a request too early. -/
theorem uniqueIds_step (hids : IdsOK t) (h : UniqueIds t.mux) (hs : TableStep t b t') :
    UniqueIds t'.mux ↔ Apart t b := by
  unfold UniqueIds at *
  rcases hs.cases with ⟨hne, -, -, hsub⟩ | ⟨rfl, -, -, s, q, htable⟩
  · exact ⟨fun _ ha => absurd ha hne, fun _ => h.sublist (hsub.map _)⟩
  · have hgen := toNat_generateInvokeid hids.counter
    -- two ids agree when the positions do modulo 32767
    have hsame : ∀ u ∈ t.mux.socketToRecvUnicastMsg,
        u.invokeidGenerated = generateInvokeid t.mux.invokeidGenCounter ↔
          u.tag % 32767 = t.mapped % 32767 := by
      intro u hu
      rw [← UInt64.toNat_inj, hgen, hids.table u hu, genId, genId, Nat.add_right_cancel_iff]
    rw [htable, List.map_append, List.map_singleton, List.nodup_append_comm, List.singleton_append,
      List.nodup_cons]
    constructor
    · rintro ⟨hnew, -⟩ - u hu heq
      exact hnew (List.mem_map.2 ⟨u, hu, (hsame u hu).2 heq⟩)
    · intro hapart
      refine ⟨fun hmem => ?_, h⟩
      obtain ⟨u, hu, heq⟩ := List.mem_map.1 hmem
      exact hapart rfl u hu ((hsame u hu).1 heq)

theorem uniqueIds_states {tr : List (TableAction × TableState)}
    (h : Exec TableStep TableState.start tr) :
    (∀ v ∈ states TableState.start tr, UniqueIds v.mux) ↔ Steps Apart TableState.start tr :=
  h.states_iff (I := IdsOK) (Q := fun v => UniqueIds v.mux) (P := Apart)
    (fun _ _ _ hI hs => hI.step hs) (fun _ _ _ hI hQ hs => uniqueIds_step hI hQ hs)
    ⟨rfl, fun _ hs => absurd hs List.not_mem_nil⟩ List.nodup_nil

/-- **Generated ids are distinct, and a response matches one mapping at most, in every state of a
run, exactly when** no request of the run is mapped while one 32767 positions before it, or a
multiple of that, still is. -/
theorem uniqueIds_iff {tr : List (TableAction × TableState)}
    (h : Exec TableStep TableState.start tr) :
    (∀ v ∈ states TableState.start tr, UniqueIds v.mux ∧ ∀ g, (matching g v.mux).length ≤ 1) ↔
      Steps Apart TableState.start tr := by
  rw [← uniqueIds_states h]
  constructor
  · intro hall v hv
    exact (hall v hv).1
  · intro hall v hv
    exact ⟨hall v hv, (hall v hv).matching_length_le⟩

/-- Three requests of a client are mapped, the first of them answered before the last one is. -/
theorem uniqueIds_iff_answered : ∃ tr, Exec TableStep TableState.start tr ∧
    tr.map Prod.fst = [.map, .map, .deliver, .map] ∧ Steps Apart TableState.start tr ∧
    (final TableState.start tr).mux.socketToRecvUnicastMsg.map (·.invokeidGenerated) = [2, 3] ∧
    ∀ v ∈ states TableState.start tr, UniqueIds v.mux ∧ ∀ g, (matching g v.mux).length ≤ 1 := by
  obtain ⟨q, hq, -⟩ := decodeInPdu_total ⟨[0, 0], by decide⟩
  have hmap := fun tag : ℕ => mapRequest_ok (r := ⟨1, ⟨[0, 0], by decide⟩, tag⟩) Nat.one_pos hq
  -- a response to the first of them
  have hone : OctetsValid [0] := ⟨by decide, by decide⟩
  have hd : OutputType.Valid ⟨1, [0], [0]⟩ := ⟨hone, hone⟩
  obtain ⟨p, -, hbytes⟩ := encodeOutPdu_ok hd
  obtain ⟨r, -, hdeliver⟩ := deliverResponse_one (p := ⟨p, 0⟩) (s := ⟨1, q.invokeid.toUInt64, 1, 0⟩)
    (m := { Mux.start with
      invokeidGenCounter := generateInvokeid (generateInvokeid 0)
      socketToRecvUnicastMsg :=
        [⟨1, q.invokeid.toUInt64, 1, 0⟩, ⟨1, q.invokeid.toUInt64, 2, 1⟩] })
    hd (decodeOutPdu_bytes hd hbytes) Nat.one_pos rfl
  have hrun : Exec TableStep TableState.start [(.map, _), (.map, _), (.deliver, _), (.map, _)] :=
    .cons (.map _ _ q _ rfl (hmap 0 _)) (.cons (.map _ _ q _ rfl (hmap 1 _))
      (.cons (.deliver _ _ _ hdeliver) (.cons (.map _ _ q _ rfl (hmap 2 _)) (.nil _))))
  have hfirst : 0 % 32767 ≠ 1 % 32767 := by decide
  have hlast : 1 % 32767 ≠ 2 % 32767 := by decide
  refine ⟨_, hrun, rfl, ?apart, rfl, (uniqueIds_iff hrun).2 ?apart⟩
  exact ⟨fun _ s hs => absurd hs List.not_mem_nil, fun _ => List.forall_mem_singleton.2 hfirst, nofun,
    fun _ => List.forall_mem_singleton.2 hlast, trivial⟩

/-! ## Requests without answers -/

/-- Distinct ids are at most 32767. -/
theorem UniqueIds.length_le (h : UniqueIds w.mux) (hw : Numbered w.exchange) :
    w.mux.socketToRecvUnicastMsg.length ≤ 32767 := by
  have hnodup : (w.mux.socketToRecvUnicastMsg.map (·.invokeidGenerated.toNat)).Nodup := by
    have hmap := List.Nodup.map (f := UInt64.toNat) (fun a b => UInt64.toNat_inj.1) h
    rwa [List.map_map] at hmap
  -- the ids are from 1 to 32767
  have hsub : w.mux.socketToRecvUnicastMsg.map (·.invokeidGenerated.toNat) ⊆
      List.range' 1 32767 := by
    intro g hg
    obtain ⟨s, hs, rfl⟩ := List.mem_map.1 hg
    have := (hw.table s hs).2.1
    rw [List.mem_range'_1, this, genId]
    omega
  have := (List.subperm_of_subset hnodup hsub).length_le
  rwa [List.length_map, List.length_range'] at this

/-- With 32768 requests of one client waiting for an answer, two mappings have the same generated
id. -/
theorem uniqueIds_fails : ∃ tr tr', Exec Step World.start tr ∧
    Exec TableStep TableState.start tr' ∧
    final TableState.start tr' = (final World.start tr).tableState ∧
    ¬UniqueIds (final TableState.start tr').mux := by
  obtain ⟨w₁, h₁, hw₁⟩ := (leads_connect (w := World.start) (s := 1) rfl rfl Nat.one_pos
    List.not_mem_nil).exists_eq
  have hserving : w₁.Serving := by
    rw [hw₁]
    exact ⟨rfl, rfl, rfl, rfl, rfl, rfl, allocConnection 1, rfl, Nat.one_pos, rfl⟩
  obtain ⟨as, w₂, -, h₂, -, hasked⟩ := leads_many hserving 32768
  obtain ⟨tr, hex, -, rfl⟩ := h₁.trans h₂
  obtain ⟨tr', hex', hfinal⟩ := exec_table WorldInv.start hex
  refine ⟨tr, tr', hex, hex', hfinal, ?_⟩
  intro hunique
  have hinv := hex.inv (fun _ _ _ hI hs => WorldInv.step hI hs) WorldInv.start _
    (final_mem_states _ _)
  rw [show final TableState.start tr' = _ from hfinal] at hunique
  have hle := hunique.length_le hinv.numbered
  have hlen := congrArg List.length hasked.table
  rw [List.length_map, List.length_append, List.length_map, List.length_range'] at hlen
  omega

end Muxer
