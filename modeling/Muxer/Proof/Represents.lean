import Muxer.Proof.OnHeap
import Muxer.Spec.Dispatcher
import Mathlib.Data.List.Forall2

/-!
# The heap represents the lists

The queues of a `Mux` are lists of values. `Represents g L m`: the heap of `g`, laid out as `L`
says, holds the mappings, connections and `w_in_messages` of `m`.

* `start_represents`: nothing is held as the program starts.
* `removeAllMappingsFor_represents`, `freeWInMessages_represents`: what the loops do on the heap is
  what the functions of the same name do to the lists.
-/

namespace Muxer.OnHeap

open Lib

/-- Where the items of three queues lie. Nothing is ever put into
`socket_to_recv_multicast_msg`. -/
structure Layout where
  mappings : List (Item (Mapping Unit))
  conns : List (Item Connection)
  messages : List (Item InMessageBlock)

/-- The message at an item. -/
def HasMessage (pdus : Heap Pdu) (i : Item InMessageBlock) (r : InMessage Unit) : Prop :=
  i.value.socket = r.socket ∧ ∃ p, i.value.pdu = some p ∧ pdus.get p = some r.pdu

structure Represents (g : Globals) (L : Layout) (m : Mux Unit) : Prop where
  mappings : Holds g.socketToRecvUnicastMsg g.queueEntries g.mappingBlocks L.mappings
  multicast : g.socketToRecvMulticastMsg = .empty
  wellformed : Wellformed g L.conns L.messages
  apart : ∀ i ∈ L.mappings, i.entry ∉ L.conns.map Item.entry ∧ i.entry ∉ L.messages.map Item.entry
  mappingValues : L.mappings.map Item.value = m.socketToRecvUnicastMsg
  connectionValues : L.conns.map Item.value = m.connections
  messageValues : L.messages.Forall₂ (HasMessage g.pduBlocks) m.wInMessages

variable {g : Globals} {L : Layout} {m : Mux Unit}

theorem start_represents : Represents .start ⟨[], [], []⟩ .start where
  mappings := .empty ..
  multicast := rfl
  wellformed := ⟨.empty .., .empty .., nofun, nofun, nofun, List.nodup_nil⟩
  apart := nofun
  mappingValues := rfl
  connectionValues := rfl
  messageValues := .nil

/-- Another part of the heap has changed. -/
theorem Wellformed.congr {g' : Globals} {conns : List (Item Connection)}
    {items : List (Item InMessageBlock)} (hw : Wellformed g conns items)
    (hsame : g' = { g with
      socketToRecvUnicastMsg := g'.socketToRecvUnicastMsg
      queueEntries := g'.queueEntries
      mappingBlocks := g'.mappingBlocks })
    (hconns : ∀ c ∈ conns, g'.queueEntries.get c.entry = g.queueEntries.get c.entry)
    (hitems : ∀ i ∈ items, g'.queueEntries.get i.entry = g.queueEntries.get i.entry) :
    Wellformed g' conns items := by
  rw [hsame]
  exact ⟨hw.messages.congr hitems, hw.connections.congr hconns, hw.apart, hw.buffers, hw.pdus,
    hw.distinctPdus⟩

/-- The multicast queue is empty: there is nothing to remove. -/
theorem removeMulticast_empty (socket : Socket) (hg : g.socketToRecvMulticastMsg = .empty) :
    removeSocketToRecvMulticastMsgMappingsFor socket g = .ok ([], g) := by
  have hnone : removeMappings .empty socket g.queueEntries g.mappingBlocks =
      .ok ([], .empty, g.queueEntries, g.mappingBlocks) := by
    unfold removeMappings
    cases g.queueEntries.size <;> rfl
  rw [removeSocketToRecvMulticastMsgMappingsFor, hg, hnone]
  simp only [bind, Except.bind, ← hg]

/-- **`remove_all_mappings_for`** on the heap is what it is on the lists. -/
theorem removeAllMappingsFor_represents (hr : Represents g L m) (socket : Socket) :
    ∃ g', removeAllMappingsFor socket g = .ok g' ∧
      Represents g' { L with mappings := L.mappings.filter (keepsMapping socket) }
        (Muxer.removeAllMappingsFor socket m) := by
  obtain ⟨q', entries', mappings', hrun, hs⟩ := removeMappings_ok socket hr.mappings
  have hf := hs.filtered hr.mappings
  -- the entries of the other two queues are not touched
  have hconns : ∀ c ∈ L.conns, entries'.get c.entry = g.queueEntries.get c.entry := by
    intro c hc
    refine hf.otherEntries c.entry fun hmem => ?_
    obtain ⟨i, hi, heq⟩ := List.mem_map.1 hmem
    exact (hr.apart i hi).1 (heq ▸ List.mem_map_of_mem hc)
  have hmessages : ∀ r ∈ L.messages, entries'.get r.entry = g.queueEntries.get r.entry := by
    intro r hmem
    refine hf.otherEntries r.entry fun hin => ?_
    obtain ⟨i, hi, heq⟩ := List.mem_map.1 hin
    exact (hr.apart i hi).2 (heq ▸ List.mem_map_of_mem hmem)
  set g' : Globals := { g with
    socketToRecvUnicastMsg := q', queueEntries := entries', mappingBlocks := mappings' } with g'_def
  refine ⟨g', ?_, hf.left, hr.multicast, hr.wellformed.congr rfl hconns hmessages,
    fun i hi => hr.apart i (List.mem_filter.1 hi).1, ?_, hr.connectionValues, hr.messageValues⟩
  · have hmulticast : g'.socketToRecvMulticastMsg = .empty := hr.multicast
    simp only [removeAllMappingsFor, removeSocketToRecvUnicastMsgMappingsFor, hrun, bind,
      Except.bind, ← g'_def, removeMulticast_empty socket hmulticast]
  · rw [Muxer.removeAllMappingsFor, ← hr.mappingValues, List.filter_map]
    rfl

/-- A kept message keeps its PDU. -/
theorem pdu_kept {keep : Item InMessageBlock → Bool} {items : List (Item InMessageBlock)}
    (hdistinct : (pdusOf items).Nodup) {p : Addr} (hp : p ∈ pdusOf (items.filter keep)) :
    p ∉ pdusOf (items.filter (!keep ·)) := by
  have hperm := (List.filter_append_perm keep items).filterMap (·.value.pdu)
  have hnodup := hperm.nodup_iff.2 hdistinct
  rw [List.filterMap_append] at hnodup
  exact List.disjoint_of_nodup_append hnodup hp

/-- **`free_w_in_messages_mapped_to_invalid_sockets`** on the heap is what it is on the lists. -/
theorem freeWInMessages_represents (hr : Represents g L m) :
    ∃ visited g', freeWInMessagesMappedToInvalidSockets g = .ok (visited, g') ∧
      Represents g' { L with messages := L.messages.filter (keepsMessage L.conns) }
        (Muxer.freeWInMessagesMappedToInvalidSockets m) := by
  obtain ⟨g', hrun, hs⟩ := freeWInMessages_ok hr.wellformed
  have hf := hs.swept.filtered hr.wellformed.messages
  -- no two messages share a PDU: those of the kept ones are not freed
  have hpdus : ∀ p ∈ pdusOf (L.messages.filter (keepsMessage L.conns)),
      g'.pduBlocks.get p = g.pduBlocks.get p := fun p hp =>
    hs.pdus.others p (pdu_kept hr.wellformed.distinctPdus hp)
  have hsub : (pdusOf (L.messages.filter (keepsMessage L.conns))).Sublist (pdusOf L.messages) :=
    List.filter_sublist.filterMap _
  refine ⟨_, g', hrun, ?_, ?_, ⟨hf.left, ?_, ?_, hr.wellformed.buffers, ?_, ?_⟩, ?_,
    ?_, ?_, ?_⟩
  · rw [hs.same]
    exact hr.mappings.congr fun i hi => hf.otherEntries i.entry (hr.apart i hi).2
  · rw [hs.same]
    exact hr.multicast
  · rw [hs.same]
    exact hr.wellformed.connections.congr fun c hc =>
      hf.otherEntries c.entry (hr.wellformed.apart c hc)
  · intro c hc hmem
    exact hr.wellformed.apart c hc ((List.filter_sublist.map _).subset hmem)
  · intro p hp
    rw [hpdus p hp]
    exact hr.wellformed.pdus p (hsub.subset hp)
  · exact hr.wellformed.distinctPdus.sublist hsub
  · intro i hi
    refine ⟨(hr.apart i hi).1, fun hmem => (hr.apart i hi).2 ?_⟩
    exact (List.filter_sublist.map _).subset hmem
  · exact hr.mappingValues
  · exact hr.connectionValues
  -- both sides keep a message by its socket alone
  · have hkept : (L.messages.filter (keepsMessage L.conns)).Forall₂ (HasMessage g.pduBlocks)
        (Muxer.freeWInMessagesMappedToInvalidSockets m).wInMessages := by
      refine List.rel_filter (fun i r hir => ?_) hr.messageValues
      simp only [keepsMessage, ← hr.connectionValues, List.any_map, hir.1]
      rfl
    have hand := (List.forall₂_and_left _ _).2 ⟨fun i hi => hi, hkept⟩
    refine hand.imp fun i r => ?_
    rintro ⟨hi, hsocket, p, hp, hget⟩
    refine ⟨hsocket, p, hp, ?_⟩
    rw [hpdus p (List.mem_filterMap.2 ⟨i, hi, hp⟩), hget]

end Muxer.OnHeap
