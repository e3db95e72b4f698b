import Muxer.Spec.OnHeap
import Muxer.Proof.Queue

/-!
# Removing while iterating is filtering

A sweep goes along a queue, with some items behind it and some to come (`Swept`). What it has left
of those behind it, with those to come, is a well-formed queue again (`Holds`).

* `Swept.kept`, `Swept.removed`: what a round does that goes on, and one that calls `q_free`.
* `removeMappings_ok`, `freeWInMessages_ok`: the two loops sweep their queue.
* `removal_filters`: each of them leaves the items it is to keep, and frees the others once.
-/

namespace Muxer.OnHeap

open Lib

variable {β : Type}

/-- An entry of a queue, and the object it refers to. -/
structure Item (β : Type) where
  entry : Addr
  object : Addr
  value : β

/-- A well-formed queue: its entries refer to the objects of `items`, in order, each to its own. -/
structure Holds (q : Queue) (entries : Heap QueueEntry) (objects : Heap β)
    (items : List (Item β)) : Prop where
  queue : IsQueue q entries (items.map Item.entry)
  refs : ∀ i ∈ items, (entries.get i.entry).map QueueEntry.ref = some (some i.object)
  objects : ∀ i ∈ items, objects.get i.object = some i.value
  distinct : (items.map Item.object).Nodup

/-- A sweep of a queue, past `before` and with `after` still to come: of `before`, it has left what
`keep` keeps, and freed the others' entries and objects, each once and in order. Nothing else has
changed. -/
structure Swept (keep : Item β → Bool) (before after : List (Item β))
    (entries : Heap QueueEntry) (objects : Heap β) (q' : Queue) (entries' : Heap QueueEntry)
    (objects' : Heap β) : Prop where
  left : Holds q' entries' objects' (before.filter keep ++ after)
  freedEntries : entries'.freed = entries.freed ++ (before.filter (!keep ·)).map Item.entry
  goneEntries : ∀ i ∈ before, keep i = false → entries'.get i.entry = none
  otherEntries : ∀ a ∉ (before ++ after).map Item.entry, entries'.get a = entries.get a
  freedObjects : objects.Freed ((before.filter (!keep ·)).map Item.object) objects'

variable {keep : Item β → Bool} {before after items : List (Item β)} {i : Item β} {q : Queue}
  {entries entries' entries₁ : Heap QueueEntry} {objects objects' objects₁ : Heap β}

theorem Swept.start (hq : Holds q entries objects items) :
    Swept keep [] items entries objects q entries objects :=
  ⟨hq, (List.append_nil _).symm, nofun, fun _ _ => rfl, .refl objects⟩

theorem Swept.kept (hs : Swept keep before (i :: after) entries objects q entries' objects')
    (hi : keep i = true) :
    Swept keep (before ++ [i]) after entries objects q entries' objects' := by
  obtain ⟨hleft, hentries, hgone, hothers, hobjects⟩ := hs
  have hsplit : before ++ [i] ++ after = before ++ i :: after := by simp
  have hkept : (before ++ [i]).filter keep = before.filter keep ++ [i] := by simp [hi]
  have hremoved : (before ++ [i]).filter (!keep ·) = before.filter (!keep ·) := by simp [hi]
  refine ⟨?_, by rwa [hremoved], ?_, by rwa [hsplit], by rwa [hremoved]⟩
  · rw [hkept, List.append_assoc]
    exact hleft
  · intro j hj hkeep
    rcases List.mem_append.1 hj with hj | hj
    · exact hgone j hj hkeep
    · obtain rfl := List.mem_singleton.1 hj
      simp [hi] at hkeep

theorem Holds.empty (entries : Heap QueueEntry) (objects : Heap β) :
    Holds .empty entries objects [] := ⟨.empty entries, nofun, nofun, List.nodup_nil⟩

/-- The entries and the objects of a well-formed queue, without one of them. -/
theorem Holds.split {xs ys : List (Item β)} (hq : Holds q entries objects (xs ++ i :: ys)) :
    ((xs ++ i :: ys).map Item.entry).erase i.entry = (xs ++ ys).map Item.entry ∧
      (∀ j ∈ xs ++ ys, j.entry ≠ i.entry ∧ j.object ≠ i.object) ∧
      ((xs ++ ys).map Item.object).Nodup := by
  have hentries := List.nodup_middle.1 (List.map_append ▸ hq.queue.nodup)
  have hobjects := List.nodup_middle.1 (List.map_append ▸ hq.distinct)
  rw [← List.map_append, List.nodup_cons] at hentries hobjects
  refine ⟨?_, fun j hj => ⟨fun heq => ?_, fun heq => ?_⟩, hobjects.2⟩
  · have hnot : i.entry ∉ xs.map Item.entry := fun hmem =>
      hentries.1 (by rw [List.map_append]; exact List.mem_append_left _ hmem)
    rw [List.map_append, List.erase_append_right _ hnot, List.map_cons, List.erase_cons_head,
      List.map_append]
  · exact hentries.1 (heq ▸ List.mem_map_of_mem hj)
  · exact hobjects.1 (heq ▸ List.mem_map_of_mem hj)

/-- An entry on the way, its object, and the entry after it. -/
theorem Holds.entry {xs ys : List (Item β)} (hq : Holds q entries objects (xs ++ i :: ys)) :
    ∃ e, entries.get i.entry = some e ∧ e.ref = some i.object ∧
      e.next = (ys.map Item.entry).head? ∧ objects.get i.object = some i.value := by
  have hlinked := hq.queue.linked
  rw [List.map_append, List.map_cons] at hlinked
  obtain ⟨e, he, hnext⟩ := seg_get (seg_append.1 hlinked).2
  have href := hq.refs i (by simp)
  rw [he, Option.map_some, Option.some.injEq] at href
  exact ⟨e, he, href, by rw [hnext, first_none], hq.objects i (by simp)⟩

theorem Holds.length_le (hq : Holds q entries objects items) : items.length ≤ entries.size := by
  have := hq.queue.length_le
  rwa [List.length_map] at this

/-- **A removal in a sweep.** `q_free` takes the entry out, whatever was written into it before. -/
theorem Swept.removed (hs : Swept keep before (i :: after) entries objects q entries' objects')
    (hi : keep i = false)
    (hq : IsQueue q entries₁ ((before.filter keep ++ i :: after).map Item.entry))
    (hsame : ∀ a ≠ i.entry, entries₁.get a = entries'.get a)
    (hfreed : entries₁.freed = entries'.freed) (hobject : objects'.Freed [i.object] objects₁) :
    ∃ q' entries₂, qFree q (some i.entry) entries₁ = .ok (q', entries₂) ∧
      Swept keep (before ++ [i]) after entries objects q' entries₂ objects₁ := by
  obtain ⟨hleft, hentries, hgone, hothers, hobjects⟩ := hs
  obtain ⟨herase, hne, hdistinct⟩ := hleft.split
  obtain ⟨q', h', hrun, hq', hr, -⟩ := qFree_ok hq (hq.isSome (a := i.entry) (by simp))
  have hsplit : before ++ [i] ++ after = before ++ i :: after := by simp
  have hkept : (before ++ [i]).filter keep ++ after = before.filter keep ++ after := by simp [hi]
  have hremoved : (before ++ [i]).filter (!keep ·) = before.filter (!keep ·) ++ [i] := by
    simp [hi]
  -- those that stay are among those that were left
  have hmem : ∀ j ∈ before.filter keep ++ after, j ∈ before.filter keep ++ i :: after :=
    fun j hj => ((List.sublist_cons_self i after).append_left _).subset hj
  -- no other entry changes what it refers to
  have href : ∀ a ≠ i.entry, ((h'.drop i.entry).get a).map QueueEntry.ref =
      (entries'.get a).map QueueEntry.ref := by
    intro a ha
    rw [Heap.get_drop_of_ne h' ha, hr.refs, hsame a ha]
  refine ⟨q', h'.drop i.entry, hrun, ⟨?_, ?_, ?_, ?_⟩, ?_, ?_, ?_, ?_⟩
  · rw [hkept, ← herase]
    exact hq'
  · rw [hkept]
    intro j hj
    rw [href j.entry (hne j hj).1]
    exact hleft.refs j (hmem j hj)
  · rw [hkept]
    intro j hj
    rw [hobject.others j.object (by simpa using (hne j hj).2)]
    exact hleft.objects j (hmem j hj)
  · rw [hkept]
    exact hdistinct
  · rw [Heap.freed_drop, hr.freed, hfreed, hentries, hremoved, List.map_append,
      List.append_assoc, List.map_singleton]
  · intro j hj hkeep
    rcases List.mem_append.1 hj with hj | hj
    · by_cases hji : j.entry = i.entry
      · rw [hji, Heap.get_drop_self]
      · have hnone := href j.entry hji
        rwa [hgone j hj hkeep, Option.map_none, Option.map_eq_none_iff] at hnone
    · obtain rfl := List.mem_singleton.1 hj
      exact Heap.get_drop_self h' j.entry
  · rw [hsplit]
    intro a ha
    have hai : a ≠ i.entry := fun hai => ha (by simp [hai])
    have hnot : a ∉ (before.filter keep ++ i :: after).map Item.entry := fun hmem =>
      ha ((((List.filter_sublist.append_right _).map Item.entry).subset) hmem)
    rw [Heap.get_drop_of_ne h' hai, hr.outside a hnot, hsame a hai, hothers a ha]
  · rw [hremoved, List.map_append]
    exact hobjects.trans hobject

/-! ## `REMOVE_MAPPINGS` -/

/-- A mapping is kept unless it is of the socket. -/
def keepsMapping (socket : Socket) (i : Item (Mapping Unit)) : Bool := i.value.socket != socket

theorem removeMappingsRound_ok {socket : Socket} {before after : List (Item (Mapping Unit))}
    {i : Item (Mapping Unit)} {mappings mappings' : Heap (Mapping Unit)}
    (hs : Swept (keepsMapping socket) before (i :: after) entries mappings q entries' mappings') :
    ∃ s', removeMappingsRound socket i.entry (q, entries', mappings') =
        .ok ((after.map Item.entry).head?, s') ∧
      Swept (keepsMapping socket) (before ++ [i]) after entries mappings s'.1 s'.2.1 s'.2.2 := by
  obtain ⟨e, he, href, hnext, hobject⟩ := hs.left.entry
  have hload : mappings'.load (some i.object) = .ok i.value := Heap.load_ok hobject
  by_cases hsocket : i.value.socket = socket
  · have hremove : keepsMapping socket i = false := by simp [keepsMapping, hsocket]
    set entries₁ := entries'.set i.entry { e with ref := none } with entries₁_def
    -- clearing `ref` does not touch the links
    have hlinked : ∀ a, nextOf entries₁ a = nextOf entries' a := by
      intro a
      by_cases hai : a = i.entry
      · rw [hai, nextOf_set_self, nextOf_eq he]
      · exact nextOf_set_of_ne _ _ hai
    have hq₁ : IsQueue q entries₁
        ((before.filter (keepsMapping socket) ++ i :: after).map Item.entry) :=
      ⟨hs.left.queue.head, hs.left.queue.tail,
        hs.left.queue.linked.congr fun a _ => hlinked a⟩
    have hget₁ : entries₁.get i.entry = some { e with ref := none } := Heap.get_set_self ..
    obtain ⟨q', entries₂, hfree, hs'⟩ := hs.removed hremove hq₁
      (fun a ha => Heap.get_set_of_ne _ _ ha) rfl (.drop (fun _ _ => rfl) rfl)
    refine ⟨⟨q', entries₂, mappings'.drop i.object⟩, ?_, hs'⟩
    simp only [removeMappingsRound, Heap.load_ok he, href, bind, Except.bind, hload, if_pos hsocket,
      Heap.update_ok he, ← entries₁_def, Heap.load_ok hget₁, hfree, freeSocketInvokeidMapping,
      Heap.free_ok hobject, ne_eq, reduceCtorEq, not_false_eq_true, assertThat_true, if_true]
    rw [hnext]
  · have hkeep : keepsMapping socket i = true := by simp [keepsMapping, hsocket]
    refine ⟨⟨q, entries', mappings'⟩, ?_, hs.kept hkeep⟩
    simp only [removeMappingsRound, Heap.load_ok he, href, bind, Except.bind, hload,
      if_neg hsocket, hnext, ne_eq, reduceCtorEq, not_false_eq_true, assertThat_true]

/-- **`REMOVE_MAPPINGS`** sweeps the queue. -/
theorem removeMappings_ok (socket : Socket) {items : List (Item (Mapping Unit))}
    {mappings : Heap (Mapping Unit)} (hq : Holds q entries mappings items) :
    ∃ q' entries' mappings', removeMappings q socket entries mappings =
        .ok (items.map Item.entry, q', entries', mappings') ∧
      Swept (keepsMapping socket) items [] entries mappings q' entries' mappings' := by
  let I (before after : List (Item (Mapping Unit)))
      (s : Queue × Heap QueueEntry × Heap (Mapping Unit)) : Prop :=
    Swept (keepsMapping socket) before after entries mappings s.1 s.2.1 s.2.2
  have hround : ∀ before i after s, I before (i :: after) s →
      ∃ s', removeMappingsRound socket i.entry s = .ok ((after.map Item.entry).head?, s') ∧
        I (before ++ [i]) after s' := fun before i after s hs => removeMappingsRound_ok hs
  have hstart : I [] items (q, entries, mappings) := Swept.start hq
  obtain ⟨⟨q', entries', mappings'⟩, hrun, hs⟩ :=
    whileSome_all Item.entry hround hstart hq.length_le
  refine ⟨q', entries', mappings', ?_, hs⟩
  rw [removeMappings, hq.queue.head, hrun]

/-! ## `free_w_in_messages_mapped_to_invalid_sockets` -/

/-- The PDU of a message, if there is one, is given back with it. -/
theorem freeInMessage_ok {o : Addr} {b : InMessageBlock} {messages : Heap InMessageBlock}
    {pdus : Heap Pdu} (hb : messages.get o = some b)
    (hpdu : ∀ p, b.pdu = some p → (pdus.get p).isSome) :
    ∃ messages' pdus', freeInMessage (some o) messages pdus = .ok (messages', pdus') ∧
      messages.Freed [o] messages' ∧ pdus.Freed b.pdu.toList pdus' := by
  obtain ⟨socket, _ | p⟩ := b
  · refine ⟨messages.drop o, pdus, ?_, .drop (fun _ _ => rfl) rfl, .refl pdus⟩
    simp only [freeInMessage, Heap.load_ok hb, Heap.free_ok hb, bind, Except.bind, ne_eq,
      reduceCtorEq, not_false_eq_true, not_true_eq_false, if_true, if_false]
  · obtain ⟨c, hc⟩ := Option.isSome_iff_exists.1 (hpdu p rfl)
    have hset : (messages.set o ⟨socket, none⟩).get o = some ⟨socket, none⟩ :=
      Heap.get_set_self ..
    refine ⟨(messages.set o ⟨socket, none⟩).drop o, pdus.drop p, ?_,
      .drop (fun _ hb => Heap.get_set_of_ne _ _ hb) rfl, .drop (fun _ _ => rfl) rfl⟩
    simp only [freeInMessage, Heap.load_ok hb, Heap.update_ok hb, Heap.free_ok hset,
      Heap.free_ok hc, bind, Except.bind, ne_eq, reduceCtorEq, not_false_eq_true, if_true]

/-- A message is kept if a connection has its socket. -/
def keepsMessage (conns : List (Item Connection)) (i : Item InMessageBlock) : Bool :=
  conns.any fun c => c.value.socket == i.value.socket

/-- The loop over the connections finds whether one has the socket of the message. -/
theorem existsAssocSocket_ok {g : Globals} {conns : List (Item Connection)}
    {i : Item InMessageBlock} (hq : Holds g.connections g.queueEntries g.connectionBlocks conns)
    (hbuffer : ∀ c ∈ conns, c.value.wBufferPtr ≤ bufferKsize)
    (hi : g.inMessageBlocks.get i.object = some i.value) :
    ∃ visited, whileSome (existsAssocSocketRound g (some i.object)) g.queueEntries.size
      g.connections.head false = .ok (visited, keepsMessage conns i) := by
  let I (before after : List (Item Connection)) (found : Bool) : Prop :=
    before ++ after = conns ∧ keepsMessage before i = false ∧ found = false
  -- no connection has the socket if the loop comes to its end
  have hend : ∀ before found, I before [] found → found = keepsMessage conns i := by
    rintro before _ ⟨hconns, hbefore, rfl⟩
    rw [List.append_nil] at hconns
    rw [← hconns, hbefore]
  have hround : ∀ before c after found, I before (c :: after) found →
      ∃ p found', existsAssocSocketRound g (some i.object) c.entry found = .ok (p, found') ∧
        (p = (after.map Item.entry).head? ∧ I (before ++ [c]) after found' ∨
          p = none ∧ found' = keepsMessage conns i) := by
    rintro before c after _ ⟨hconns, hbefore, rfl⟩
    obtain ⟨e, he, href, hnext, hobject⟩ := Holds.entry (hconns ▸ hq)
    have hk : c.value.wBufferPtr ≤ bufferKsize := hbuffer c (by simp [← hconns])
    -- the loop breaks at the first connection that has it
    by_cases hsocket : i.value.socket = c.value.socket
    · refine ⟨none, true, ?_, .inr ⟨rfl, ?_⟩⟩
      · simp only [existsAssocSocketRound, Heap.load_ok he, href, Heap.load_ok hobject,
          Heap.load_ok hi, bind, Except.bind, ne_eq, reduceCtorEq, not_false_eq_true,
          assertThat_true, assertThat_ok hk, if_pos hsocket]
      · simp [keepsMessage, ← hconns, hsocket]
    · refine ⟨_, false, ?_, .inl ⟨hnext, ?_, ?_, rfl⟩⟩
      · simp only [existsAssocSocketRound, Heap.load_ok he, href, Heap.load_ok hobject,
          Heap.load_ok hi, bind, Except.bind, ne_eq, reduceCtorEq, not_false_eq_true,
          assertThat_true, assertThat_ok hk, if_neg hsocket]
      · simp [← hconns]
      · unfold keepsMessage at hbefore ⊢
        rw [List.any_append, hbefore]
        simpa using Ne.symm hsocket
  have hstart : I [] conns false := ⟨List.nil_append conns, rfl, rfl⟩
  obtain ⟨visited, found, hrun, hfound⟩ := whileSome_ok Item.entry hend hround hstart hq.length_le
  exact ⟨_, by rw [hq.queue.head, hrun, hfound]⟩

/-- The PDUs of messages. -/
def pdusOf (items : List (Item InMessageBlock)) : List Addr := items.filterMap (·.value.pdu)

theorem pdusOf_append (xs ys : List (Item InMessageBlock)) :
    pdusOf (xs ++ ys) = pdusOf xs ++ pdusOf ys := List.filterMap_append

/-- A sweep of `w_in_messages`, with the PDUs. -/
structure SweptMessages (conns : List (Item Connection)) (g : Globals)
    (before after : List (Item InMessageBlock)) (g' : Globals) : Prop where
  swept : Swept (keepsMessage conns) before after g.queueEntries g.inMessageBlocks g'.wInMessages
    g'.queueEntries g'.inMessageBlocks
  pdus : g.pduBlocks.Freed (pdusOf (before.filter (!keepsMessage conns ·))) g'.pduBlocks
  same : g' = { g with
    wInMessages := g'.wInMessages
    queueEntries := g'.queueEntries
    inMessageBlocks := g'.inMessageBlocks
    pduBlocks := g'.pduBlocks }

/-- Where the loop starts: the messages and the connections are well formed, each message has a
PDU of its own or none, and no entry is in both queues. -/
structure Wellformed (g : Globals) (conns : List (Item Connection))
    (items : List (Item InMessageBlock)) : Prop where
  messages : Holds g.wInMessages g.queueEntries g.inMessageBlocks items
  connections : Holds g.connections g.queueEntries g.connectionBlocks conns
  apart : ∀ c ∈ conns, c.entry ∉ items.map Item.entry
  buffers : ∀ c ∈ conns, c.value.wBufferPtr ≤ bufferKsize
  pdus : ∀ p ∈ pdusOf items, (g.pduBlocks.get p).isSome
  distinctPdus : (pdusOf items).Nodup

theorem Holds.congr (hq : Holds q entries objects items)
    (heq : ∀ i ∈ items, entries'.get i.entry = entries.get i.entry) :
    Holds q entries' objects items where
  queue := hq.queue.congr fun a ha => by
    obtain ⟨i, hi, rfl⟩ := List.mem_map.1 ha
    exact heq i hi
  refs i hi := by rw [heq i hi, hq.refs i hi]
  objects := hq.objects
  distinct := hq.distinct

variable {g g' : Globals} {conns : List (Item Connection)}

/-- No message before another one has its PDU. -/
theorem Wellformed.pdu_notMem {before after : List (Item InMessageBlock)}
    {i : Item InMessageBlock} (hw : Wellformed g conns (before ++ i :: after)) {p : Addr}
    (hp : i.value.pdu = some p) : p ∉ pdusOf (before.filter (!keepsMessage conns ·)) := by
  have hcons : pdusOf (i :: after) = p :: pdusOf after := List.filterMap_cons_some hp
  have hdistinct := hw.distinctPdus
  rw [pdusOf_append, hcons] at hdistinct
  have hnot := (List.nodup_middle.1 hdistinct).notMem
  intro hin
  exact hnot (List.mem_append_left _ ((List.filter_sublist.filterMap _).subset hin))

/-- **A round of the sweep.** -/
theorem freeWInMessagesRound_ok {before after : List (Item InMessageBlock)}
    {i : Item InMessageBlock} (hw : Wellformed g conns (before ++ i :: after))
    (hs : SweptMessages conns g before (i :: after) g') :
    ∃ g'', freeWInMessagesRound i.entry g' = .ok ((after.map Item.entry).head?, g'') ∧
      SweptMessages conns g (before ++ [i]) after g'' := by
  obtain ⟨hswept, hpdus, hsame⟩ := hs
  obtain ⟨e, he, href, hnext, hobject⟩ := hswept.left.entry
  have hconns : Holds g'.connections g'.queueEntries g'.connectionBlocks conns := by
    rw [hsame]
    exact hw.connections.congr fun c hc => hswept.otherEntries c.entry (hw.apart c hc)
  obtain ⟨visited, hsearch⟩ := existsAssocSocket_ok hconns hw.buffers hobject
  cases hkeep : keepsMessage conns i with
  | true =>
    have hremoved : (before ++ [i]).filter (!keepsMessage conns ·) =
        before.filter (!keepsMessage conns ·) := by simp [hkeep]
    refine ⟨g', ?_, hswept.kept hkeep, by rwa [hremoved], hsame⟩
    · simp only [freeWInMessagesRound, Heap.load_ok he, href, hsearch, hkeep, bind, Except.bind,
        ne_eq, reduceCtorEq, not_false_eq_true, assertThat_true, not_true_eq_false, if_false]
      rw [hnext]
  | false =>
    have hremoved : pdusOf ((before ++ [i]).filter (!keepsMessage conns ·)) =
        pdusOf (before.filter (!keepsMessage conns ·)) ++ i.value.pdu.toList := by
      rw [List.filter_append, pdusOf_append]
      cases hpdu : i.value.pdu <;> simp [pdusOf, hkeep, hpdu]
    -- the PDU of the message is not one of those given back before
    have hpdu : ∀ p, i.value.pdu = some p → (g'.pduBlocks.get p).isSome := by
      intro p hp
      have hmem : p ∈ pdusOf (before ++ i :: after) := by simp [pdusOf, hp]
      rw [hpdus.others p (hw.pdu_notMem hp)]
      exact hw.pdus p hmem
    obtain ⟨messages', pdus', hfree, hdropped, hback⟩ := freeInMessage_ok hobject hpdu
    obtain ⟨q', entries', hqfree, hswept'⟩ :=
      hswept.removed hkeep hswept.left.queue (fun _ _ => rfl) rfl hdropped
    refine ⟨{ g' with
      wInMessages := q', queueEntries := entries', inMessageBlocks := messages',
      pduBlocks := pdus' }, ?_, hswept', ?_, ?_⟩
    · simp only [freeWInMessagesRound, Heap.load_ok he, href, hsearch, hkeep, bind, Except.bind,
        ne_eq, reduceCtorEq, not_false_eq_true, assertThat_true, if_true, Bool.false_eq_true,
        hqfree, hfree]
      rw [hnext]
    · rw [hremoved]
      exact hpdus.trans hback
    · rw [hsame]

/-- **`free_w_in_messages_mapped_to_invalid_sockets`** sweeps `w_in_messages`. -/
theorem freeWInMessages_ok {items : List (Item InMessageBlock)}
    (hw : Wellformed g conns items) :
    ∃ g', freeWInMessagesMappedToInvalidSockets g = .ok (items.map Item.entry, g') ∧
      SweptMessages conns g items [] g' := by
  let I (before after : List (Item InMessageBlock)) (g' : Globals) : Prop :=
    before ++ after = items ∧ SweptMessages conns g before after g'
  have hround : ∀ before i after g', I before (i :: after) g' →
      ∃ g'', freeWInMessagesRound i.entry g' = .ok ((after.map Item.entry).head?, g'') ∧
        I (before ++ [i]) after g'' := by
    rintro before i after g' ⟨hitems, hs⟩
    obtain ⟨g'', hrun, hs'⟩ := freeWInMessagesRound_ok (hitems ▸ hw) hs
    exact ⟨g'', hrun, by simpa using hitems, hs'⟩
  have hstart : I [] items g :=
    ⟨List.nil_append items, Swept.start hw.messages, .refl g.pduBlocks, rfl⟩
  obtain ⟨g', hrun, -, hs⟩ := whileSome_all Item.entry hround hstart hw.messages.length_le
  refine ⟨g', ?_, hs⟩
  rw [freeWInMessagesMappedToInvalidSockets, hw.messages.queue.head, hrun]

/-- What is left of a queue from which everything but what `keep` keeps is removed: the kept items,
in order, in a well-formed queue. Each removed entry, and its object, was freed once. Nothing else
has changed. -/
structure Filtered (keep : Item β → Bool) (items : List (Item β)) (entries : Heap QueueEntry)
    (objects : Heap β) (q' : Queue) (entries' : Heap QueueEntry) (objects' : Heap β) :
    Prop where
  left : Holds q' entries' objects' (items.filter keep)
  freedEntries : entries'.freed = entries.freed ++ (items.filter (!keep ·)).map Item.entry
  goneEntries : ∀ i ∈ items, keep i = false → entries'.get i.entry = none
  otherEntries : ∀ a ∉ items.map Item.entry, entries'.get a = entries.get a
  freedObjects : objects.Freed ((items.filter (!keep ·)).map Item.object) objects'
  once : (items.map Item.entry).Nodup ∧ (items.map Item.object).Nodup

theorem Swept.filtered {q' : Queue} (hq : Holds q entries objects items)
    (hs : Swept keep items [] entries objects q' entries' objects') :
    Filtered keep items entries objects q' entries' objects' := by
  obtain ⟨hleft, hentries, hgone, hothers, hobjects⟩ := hs
  rw [List.append_nil] at hleft hothers
  exact ⟨hleft, hentries, hgone, hothers, hobjects, hq.queue.nodup, hq.distinct⟩

/-- **Removal while iterating is filtering.** Each loop visits the entries the queue had, each one
once, and uses none after it was freed. `connections` is as before. -/
theorem removal_filters (g : Globals) :
    (∀ (socket : Socket) (items : List (Item (Mapping Unit))),
      Holds g.socketToRecvUnicastMsg g.queueEntries g.mappingBlocks items →
      ∃ g', removeSocketToRecvUnicastMsgMappingsFor socket g = .ok (items.map Item.entry, g') ∧
        Filtered (fun i => i.value.socket != socket) items g.queueEntries g.mappingBlocks
          g'.socketToRecvUnicastMsg g'.queueEntries g'.mappingBlocks ∧
        ∀ conns, Holds g.connections g.queueEntries g.connectionBlocks conns →
          (∀ c ∈ conns, c.entry ∉ items.map Item.entry) →
          g'.connections = g.connections ∧
          Holds g'.connections g'.queueEntries g'.connectionBlocks conns) ∧
    ∀ (conns : List (Item Connection)) (items : List (Item InMessageBlock)),
      Wellformed g conns items →
      ∃ g', freeWInMessagesMappedToInvalidSockets g = .ok (items.map Item.entry, g') ∧
        Filtered (fun i => conns.any fun c => c.value.socket == i.value.socket) items
          g.queueEntries g.inMessageBlocks g'.wInMessages g'.queueEntries g'.inMessageBlocks ∧
        g'.connections = g.connections ∧
        Holds g'.connections g'.queueEntries g'.connectionBlocks conns := by
  constructor
  · intro socket items hq
    obtain ⟨q', entries', mappings', hrun, hs⟩ := removeMappings_ok socket hq
    refine ⟨{ g with
      socketToRecvUnicastMsg := q', queueEntries := entries', mappingBlocks := mappings' },
      ?_, hs.filtered hq, fun conns hconns hapart => ⟨rfl, hconns.congr fun c hc => ?_⟩⟩
    · simp only [removeSocketToRecvUnicastMsgMappingsFor, hrun, bind, Except.bind]
    · exact (hs.filtered hq).otherEntries c.entry (hapart c hc)
  · intro conns items hw
    obtain ⟨g', hrun, hs⟩ := freeWInMessages_ok hw
    have hfiltered := hs.swept.filtered hw.messages
    refine ⟨g', hrun, hfiltered, by rw [hs.same], ?_⟩
    rw [hs.same]
    exact hw.connections.congr fun c hc => hfiltered.otherEntries c.entry (hw.apart c hc)

/-- Two mappings of the socket 5 behind each other and one of another, and three messages, of which
the first and the last are for no connection. -/
def filledGlobals : Globals where
  wInMessages := ⟨some 5, some 7⟩
  connections := ⟨some 4, some 4⟩
  socketToRecvUnicastMsg := ⟨some 1, some 3⟩
  socketToRecvMulticastMsg := .empty
  queueEntries := .ofList [(1, ⟨some 2, some 0, some 11⟩), (2, ⟨some 3, some 0, some 12⟩),
    (3, ⟨none, some 0, some 13⟩), (4, ⟨none, some 0, some 14⟩), (5, ⟨some 6, some 0, some 15⟩),
    (6, ⟨some 7, some 0, some 16⟩), (7, ⟨none, some 0, some 17⟩)]
  mappingBlocks := .ofList [(11, ⟨5, 1, 1, ()⟩), (12, ⟨5, 2, 2, ()⟩), (13, ⟨6, 1, 3, ()⟩)]
  connectionBlocks := .ofList [(14, allocConnection 6)]
  inMessageBlocks := .ofList [(15, ⟨5, some 18⟩), (16, ⟨6, some 19⟩), (17, ⟨5, none⟩)]
  pduBlocks := .ofList [(18, allocPdu), (19, allocPdu)]

theorem removal_filters_filledGlobals :
    (∃ g', removeSocketToRecvUnicastMsgMappingsFor 5 filledGlobals = .ok ([1, 2, 3], g') ∧
      g'.queueEntries.freed = [1, 2] ∧
      Holds g'.socketToRecvUnicastMsg g'.queueEntries g'.mappingBlocks [⟨3, 13, ⟨6, 1, 3, ()⟩⟩]) ∧
    ∃ g', freeWInMessagesMappedToInvalidSockets filledGlobals = .ok ([5, 6, 7], g') ∧
      g'.queueEntries.freed = [5, 7] ∧
      Holds g'.wInMessages g'.queueEntries g'.inMessageBlocks [⟨6, 16, ⟨6, some 19⟩⟩] := by
  obtain ⟨hmappings, hmessages⟩ := removal_filters filledGlobals
  have hunicast : Holds filledGlobals.socketToRecvUnicastMsg filledGlobals.queueEntries
      filledGlobals.mappingBlocks [⟨1, 11, ⟨5, 1, 1, ()⟩⟩, ⟨2, 12, ⟨5, 2, 2, ()⟩⟩,
        ⟨3, 13, ⟨6, 1, 3, ()⟩⟩] := by
    refine ⟨⟨rfl, rfl, rfl, rfl, rfl, trivial⟩, ?_, ?_, by decide⟩ <;>
      simp only [List.forall_mem_cons] <;> exact ⟨rfl, rfl, rfl, nofun⟩
  have hwritten : Holds filledGlobals.wInMessages filledGlobals.queueEntries
      filledGlobals.inMessageBlocks [⟨5, 15, ⟨5, some 18⟩⟩, ⟨6, 16, ⟨6, some 19⟩⟩,
        ⟨7, 17, ⟨5, none⟩⟩] := by
    refine ⟨⟨rfl, rfl, rfl, rfl, rfl, trivial⟩, ?_, ?_, by decide⟩ <;>
      simp only [List.forall_mem_cons] <;> exact ⟨rfl, rfl, rfl, nofun⟩
  have hconns : Holds filledGlobals.connections filledGlobals.queueEntries
      filledGlobals.connectionBlocks [⟨4, 14, allocConnection 6⟩] := by
    refine ⟨⟨rfl, rfl, rfl, trivial⟩, ?_, ?_, by decide⟩ <;>
      simp only [List.forall_mem_cons] <;> exact ⟨rfl, nofun⟩
  obtain ⟨g₁, hrun₁, hleft₁, -⟩ := hmappings 5 _ hunicast
  obtain ⟨g₂, hrun₂, hleft₂, -⟩ := hmessages _ _
    ⟨hwritten, hconns, by decide, by simp [allocConnection], by decide, by decide⟩
  exact ⟨⟨g₁, hrun₁, hleft₁.freedEntries, hleft₁.left⟩, g₂, hrun₂, hleft₂.freedEntries,
    hleft₂.left⟩

end Muxer.OnHeap
