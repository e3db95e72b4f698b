import Muxer.Proof.Represents
import Muxer.Proof.Session
import Muxer.Proof.Store

/-!
# Removing from the store

* `removeAllMappingsFor_ok`: the mappings of a socket.
* `removeConnection_ok`, `unlinkConnection_ok`: a client.
* `cleanup_ok`: **`cleanup` frees the queues and the connections**, and no memory twice.
-/

namespace Muxer.Memory

open Lib OnHeap

variable {τ : Type} {s s' : Store} {L : Layout τ}

/-! ## Mappings -/

/-- Where the loop of `REMOVE_MAPPINGS` is. -/
def Unmapping (s : Store) (L : Layout τ) (socket : Socket) (before after : List (Item (Mapping τ)))
    (x : Queue × Heap QueueEntry × Heap (Mapping Unit)) : Prop :=
  Represents
    { s with socketToRecvUnicastMsg := x.1, queueEntries := x.2.1, mappingBlocks := x.2.2 }
    { L with mappings := before.filter (·.value.socket != socket) ++ after }

theorem Unmapping.round {socket : Socket} {before after : List (Item (Mapping τ))}
    {i : Item (Mapping τ)} {x : Queue × Heap QueueEntry × Heap (Mapping Unit)}
    (h : Unmapping s L socket before (i :: after) x) :
    ∃ x', removeMappingsRound socket i.entry x = .ok ((after.map Item.entry).head?, x') ∧
      Unmapping s L socket (before ++ [i]) after x' := by
  obtain ⟨q, entries, mappings⟩ := x
  have hne : some i.object ≠ (none : Ptr) := Option.some_ne_none _
  have hload : mappings.load (some i.object) = .ok (mappingCell i).2 :=
    load_mapping h (i := i) (by simp)
  obtain ⟨e, he, href, hnext⟩ := load_mappingEntry h rfl
  change entries.load (some i.entry) = _ at he
  by_cases hs : i.value.socket = socket
  · have hkept : (before ++ [i]).filter (·.value.socket != socket) =
        before.filter (·.value.socket != socket) := by simp [hs]
    obtain ⟨s₁, e', s₂, s₃, hclear, hload', hnext', hunlink, hfree, hr⟩ := removeMapping_ok h rfl
    obtain ⟨entries₁, hupdate, hs₁⟩ := heap_bind_eq_ok.1 hclear
    cases hs₁
    obtain ⟨⟨q', entries'⟩, hqFree, hs₂⟩ := heap_bind_eq_ok.1 hunlink
    cases hs₂
    obtain ⟨mappings', hfreed, hs₃⟩ := heap_bind_eq_ok.1 hfree
    cases hs₃
    refine ⟨(q', entries', mappings'), ?_, ?_⟩
    · change entries.update (some i.entry) _ = _ at hupdate
      change entries₁.load (some i.entry) = _ at hload'
      change Muxer.qFree q (some i.entry) entries₁ = _ at hqFree
      change OnHeap.freeSocketInvokeidMapping (some i.object) mappings = _ at hfreed
      simp only [removeMappingsRound, he, href, assertThat_ok hne, hload, mappingCell, if_pos hs,
        hupdate, hload', hqFree, hfreed, hnext', ok_bind]
    · unfold Unmapping
      rw [hkept]
      exact hr
  · have hkept : (before ++ [i]).filter (·.value.socket != socket) =
        before.filter (·.value.socket != socket) ++ [i] := by simp [hs]
    refine ⟨(q, entries, mappings), ?_, ?_⟩
    · simp only [removeMappingsRound, he, href, assertThat_ok hne, hload, mappingCell, if_neg hs,
        hnext, ok_bind]
    · unfold Unmapping
      rw [hkept, List.append_assoc]
      exact h

/-- **`remove_all_mappings_for`** frees the mappings of the socket. -/
theorem removeAllMappingsFor_ok (hr : Represents s L) (socket : Socket) :
    ∃ s', removeAllMappingsFor socket s = .ok s' ∧
      Represents s' { L with mappings := L.mappings.filter (·.value.socket != socket) } := by
  have hq := hr.pool.queues .socketToRecvUnicastMsg
  rw [Layout.queue, List.map_map] at hq
  have hhead : s.socketToRecvUnicastMsg.head = (L.mappings.map Item.entry).head? := hq.head
  have hlen : L.mappings.length ≤ s.queueEntries.size := by
    have := hq.length_le
    rwa [List.length_map] at this
  have hstart : Unmapping s L socket [] L.mappings
      (s.socketToRecvUnicastMsg, s.queueEntries, s.mappingBlocks) := hr
  obtain ⟨⟨q, entries, mappings⟩, hloop, hr'⟩ :=
    whileSome_all Item.entry (fun _ _ _ _ h => Unmapping.round h) hstart hlen
  unfold Unmapping at hr'
  rw [List.append_nil] at hr'
  -- nothing is ever put into the multicast queue
  have hempty : s.socketToRecvMulticastMsg = .empty := by
    have hm := hr.pool.queues .socketToRecvMulticastMsg
    exact Queue.mk.injEq .. ▸ ⟨hm.head, hm.tail⟩
  refine ⟨_, ?_, hr'⟩
  set g : Globals := { s.toGlobals with
    socketToRecvUnicastMsg := q, queueEntries := entries, mappingBlocks := mappings } with g_def
  have hmulticast : g.socketToRecvMulticastMsg = .empty := hempty
  simp only [removeAllMappingsFor, OnHeap.removeAllMappingsFor,
    removeSocketToRecvUnicastMsgMappingsFor, removeMappings, hhead, hloop, ok_bind, ← g_def,
    removeMulticast_empty socket hmulticast, heap_ok]

/-! ## Connections -/

/-- A connection is unlinked, and freed. -/
theorem freeConnection_ok (hr : Represents s L) {xs ys : List (Item Connection)}
    {i : Item Connection} (hL : L.connections = xs ++ i :: ys) :
    ∃ s₁ e s₂ s', clearRef (some i.entry) s = .ok s₁ ∧
      s₁.queueEntries.load (some i.entry) = .ok e ∧ e.next = (ys.map Item.entry).head? ∧
      qFree .connections (some i.entry) s₁ = .ok s₂ ∧ freeConnection (some i.object) s₂ = .ok s' ∧
      Represents s' { L with connections := xs ++ ys } := by
  have hqueue : L.queue .connections = xs.map itemRef ++ (i.entry, i.object) :: ys.map itemRef := by
    simp [Layout.queue, hL, itemRef]
  obtain ⟨s₁, e, s₂, hclear, hload, hnext, hfree, hs, hp⟩ := clearRef_qFree_ok hr.pool hqueue
  have hcells : cells connectionCell L.connections =
      {connectionCell i} + cells connectionCell (xs ++ ys) := by
    simp only [hL, cells_append, cells_cons]
    abel
  have hqueue' : ({ L with connections := xs ++ ys } : Layout τ).queue =
      Function.update L.queue .connections (xs.map itemRef ++ ys.map itemRef) := by
    funext k
    cases k <;> simp [Layout.queue]
  have hblocks := hr.toBlocks.requeue hs
  refine ⟨s₁, e, s₂, { s₂ with connectionBlocks := s₂.connectionBlocks.drop i.object }, hclear,
    hload, ?_, hfree, ?_,
    { hblocks with connectionBlocks := hblocks.connectionBlocks.drop hcells, pool := ?_ }⟩
  · rw [hnext, head_refs]
  · have hne : some i.object ≠ (none : Ptr) := Option.some_ne_none _
    simp only [freeConnection, if_pos hne, Heap.free_ok (hblocks.connectionBlocks.get hcells),
      heap_ok, ok_bind]
  · rw [hqueue']
    exact hp

/-- What is done to the mappings of a client that is removed. -/
structure Removes (removeMappings : Socket → Store → Except Stop Store)
    (unmap : Socket → List (Item (Mapping τ)) → List (Item (Mapping τ))) : Prop where
  ok : ∀ socket s (L : Layout τ), Represents s L → ∃ s', removeMappings socket s = .ok s' ∧
    Represents s' { L with mappings := unmap socket L.mappings }
  again : ∀ socket mappings, unmap socket (unmap socket mappings) = unmap socket mappings

section

variable {removeMappings : Socket → Store → Except Stop Store}
  {unmap : Socket → List (Item (Mapping τ)) → List (Item (Mapping τ))} {socket : Socket}

/-- Where the loop of `remove_connection` is. -/
def Removing (L : Layout τ) (unmap : Socket → List (Item (Mapping τ)) → List (Item (Mapping τ)))
    (socket : Socket) (before after : List (Item Connection)) (x : ℕ × Store) : Prop :=
  x.1 = (before.filter (·.value.socket == socket)).length ∧ Represents x.2 { L with
    connections := before.filter (·.value.socket != socket) ++ after
    mappings := if ∃ c ∈ before, c.value.socket = socket then unmap socket L.mappings
      else L.mappings }

theorem Removing.round (hm : Removes removeMappings unmap) {before after : List (Item Connection)}
    {i : Item Connection} {x : ℕ × Store} (h : Removing L unmap socket before (i :: after) x) :
    ∃ x', removeConnectionRound removeMappings socket i.entry x =
        .ok ((after.map Item.entry).head?, x') ∧
      Removing L unmap socket (before ++ [i]) after x' := by
  obtain ⟨count, s⟩ := x
  obtain ⟨hcount, hr⟩ := h
  have hne : some i.object ≠ (none : Ptr) := Option.some_ne_none _
  have hload := load_connection hr (i := i) (by simp)
  obtain ⟨e, he, href, hnext⟩ := load_connectionEntry hr rfl
  by_cases hs : i.value.socket = socket
  · subst hs
    obtain ⟨s₁, hremove, hr₁⟩ := hm.ok i.value.socket s _ hr
    obtain ⟨s₂, e', s₃, s', hclear, hload', hnext', hunlink, hfree, hr'⟩ := freeConnection_ok hr₁ rfl
    refine ⟨(count + 1, s'), ?_, ?_, ?_⟩
    · simp only [removeConnectionRound, he, href, assertThat_ok hne, hload, if_true, hremove, hclear,
        hload', hunlink, hfree, hnext', heap_ok, ok_bind]
    · simp only at hcount
      simp [hcount]
    · have hkept : (before ++ [i]).filter (·.value.socket != i.value.socket) =
          before.filter (·.value.socket != i.value.socket) := by simp
      have hfound : ∃ c ∈ before ++ [i], c.value.socket = i.value.socket := ⟨i, by simp, rfl⟩
      -- a second connection with the socket would find no mappings left
      have hagain : unmap i.value.socket (if ∃ c ∈ before, c.value.socket = i.value.socket then
          unmap i.value.socket L.mappings else L.mappings) = unmap i.value.socket L.mappings := by
        split
        · exact hm.again i.value.socket L.mappings
        · rfl
      rw [hkept, if_pos hfound]
      rwa [hagain] at hr'
  · refine ⟨(count, s), ?_, ?_, ?_⟩
    · simp only [removeConnectionRound, he, href, assertThat_ok hne, hload, if_neg hs, hnext,
        heap_ok, ok_bind]
    · simp only at hcount
      simp [hs, hcount]
    · have hkept : (before ++ [i]).filter (·.value.socket != socket) =
          before.filter (·.value.socket != socket) ++ [i] := by simp [hs]
      have hfound : (∃ c ∈ before ++ [i], c.value.socket = socket) ↔
          ∃ c ∈ before, c.value.socket = socket := by simp [hs]
      rw [hkept, List.append_assoc]
      simp only [hfound]
      exact hr

/-- **`remove_connection`** frees the one connection with the socket. -/
theorem removeConnectionWith_ok (hm : Removes removeMappings unmap) (hr : Represents s L)
    (hnd : (L.connections.map (·.value.socket)).Nodup) (socket : Socket) :
    ∃ s', removeConnectionWith removeMappings socket s = .ok s' ∧ Represents s' { L with
      connections := L.connections.filter (·.value.socket != socket)
      mappings := if ∃ c ∈ L.connections, c.value.socket = socket then unmap socket L.mappings
        else L.mappings } := by
  have hk : (L.queue .connections).map Prod.fst = L.connections.map Item.entry := entries_items _
  have hstart : Removing L unmap socket [] L.connections (0, s) := ⟨rfl, by simpa using hr⟩
  obtain ⟨⟨count, s'⟩, hloop, hcount, hr'⟩ :=
    along_all hr hk (fun _ _ _ _ _ h => Removing.round hm h) hstart
  have hone : count ≤ 1 := by
    simp only at hcount
    rw [hcount, ← List.countP_eq_length_filter]
    have hle := List.nodup_iff_count.1 hnd socket
    rwa [List.count, List.countP_map] at hle
  refine ⟨s', ?_, by simpa using hr'⟩
  have hhead : s.connections = s.queue .connections := rfl
  simp only [removeConnectionWith, hhead, hloop, assertThat_ok hone, heap_ok, ok_bind]

end

theorem removes_mappings : Removes (τ := τ) removeAllMappingsFor
    fun socket mappings => mappings.filter (·.value.socket != socket) where
  ok socket _ _ hr := removeAllMappingsFor_ok hr socket
  again socket mappings := by simp

theorem removes_nothing : Removes (τ := τ) (fun _ => .ok) fun _ mappings => mappings where
  ok _ s _ hr := ⟨s, rfl, hr⟩
  again _ _ := rfl

/-- **A client is unlinked**, once its mappings are gone. -/
theorem unlinkConnection_ok (hr : Represents s L)
    (hnd : (L.connections.map (·.value.socket)).Nodup) (socket : Socket) :
    ∃ s', unlinkConnection socket s = .ok s' ∧ Represents s' { L with
      connections := L.connections.filter (·.value.socket != socket) } := by
  obtain ⟨s', hrun, hr'⟩ := removeConnectionWith_ok removes_nothing hr hnd socket
  rw [ite_self] at hr'
  exact ⟨s', hrun, hr'⟩

/-- **A client is removed**, and its mappings. -/
theorem removeConnection_ok (hr : Represents s L)
    (hnd : (L.connections.map (·.value.socket)).Nodup) {i : Item Connection}
    (hi : i ∈ L.connections) : ∃ s', removeConnection i.value.socket s = .ok s' ∧
      Represents s' { L with
        connections := L.connections.filter (·.value.socket != i.value.socket)
        mappings := L.mappings.filter (·.value.socket != i.value.socket) } := by
  obtain ⟨s', hrun, hr'⟩ := removeConnectionWith_ok removes_mappings hr hnd i.value.socket
  rw [if_pos ⟨i, hi, rfl⟩] at hr'
  exact ⟨s', hrun, hr'⟩

/-! ## Messages -/

/-- What a round of `FREE_Q_MESSAGES` needs of the queue and of what frees a message. -/
structure Frees {ι : Type} (k : QueueName) (freeMessage : Ptr → Store → Except Stop Store)
    (R : List ι → Store → Prop) : Prop where
  empty : ∀ s, R [] s → (s.queue k).head = none
  round : ∀ i l s, R (i :: l) s → (s.queue k).head ≠ none ∧ ∃ a o s₁ e s₂ s',
    qGet k s = .ok (some a, s₁) ∧ s₁.queueEntries.load (some a) = .ok e ∧ e.ref = some o ∧
      qFree k (some a) s₁ = .ok s₂ ∧ freeMessage (some o) s₂ = .ok s' ∧ R l s'

/-- **`FREE_Q_MESSAGES`** frees every message of the queue. -/
theorem freeMessagesLoop_ok {ι : Type} {k : QueueName}
    {freeMessage : Ptr → Store → Except Stop Store} {R : List ι → Store → Prop}
    (hf : Frees k freeMessage R) {n : ℕ} {l : List ι} (hR : R l s) (hn : l.length ≤ n) :
    ∃ s', freeMessagesLoop k freeMessage n s = .ok s' ∧ R [] s' := by
  induction l generalizing n s with
  | nil =>
    have hempty := hf.empty s hR
    refine ⟨s, ?_, hR⟩
    cases n <;> simp only [freeMessagesLoop, hempty, ne_eq, not_true_eq_false, if_false]
  | cons i l ih =>
    obtain _ | n := n
    · simp at hn
    obtain ⟨hhead, a, o, s₁, e, s₂, s', hget, hload, href, hfree, hfreed, hR'⟩ := hf.round i l s hR
    obtain ⟨s'', hloop, hR''⟩ := ih hR' (Nat.le_of_succ_le_succ hn)
    have ha : some a ≠ (none : Ptr) := Option.some_ne_none _
    have ho : some o ≠ (none : Ptr) := Option.some_ne_none _
    refine ⟨s'', ?_, hR''⟩
    simp only [freeMessagesLoop, if_pos hhead, hget, if_pos ha, hload, href, assertThat_ok ho, hfree,
      hfreed, hloop, heap_ok, ok_bind]

/-- The head of a queue with an entry. -/
theorem head_ne_none (hr : Represents s L) {k : QueueName} {a : Addr × Addr}
    {rest : List (Addr × Addr)} (hk : L.queue k = a :: rest) : (s.queue k).head ≠ none := by
  rw [(hr.pool.queues k).head, hk]
  exact nofun

theorem head_none (hr : Represents s L) {k : QueueName} (hk : L.queue k = []) :
    (s.queue k).head = none := by
  rw [(hr.pool.queues k).head, hk]
  rfl

/-- A queue of client messages is freed, whichever it is. -/
theorem freeInMessages_ok {k : QueueName} {F : List (Queued (InMessage τ)) → Layout τ}
    (hk : ∀ l, (F l).queue k = l.map Queued.ref)
    (hget : ∀ i l s, Represents s (F (i :: l)) → ∃ s' e, qGet k s = .ok (some i.entry, s') ∧
      s'.queueEntries.load (some i.entry) = .ok e ∧ e.ref = some i.object ∧ Represents s' { F l with
        ins := i.toBlock :: (F l).ins, loose := i.entry :: (F l).loose })
    {l : List (Queued (InMessage τ))} (hr : Represents s (F l)) :
    ∃ s', freeMessages k freeInMessage s = .ok s' ∧ Represents s' (F []) := by
  have hf : Frees k freeInMessage fun l s => Represents s (F l) := by
    refine ⟨fun s h => head_none h (hk []), fun i l s h => ⟨head_ne_none h (hk (i :: l)), ?_⟩⟩
    obtain ⟨s₁, e, hget, hload, href, hr₁⟩ := hget i l s h
    obtain ⟨s₂, hfree, hr₂⟩ := qFree_loose hr₁ rfl k
    obtain ⟨s', hfreed, hr'⟩ := freeInMessage_ok hr₂ rfl
    exact ⟨i.entry, i.object, s₁, e, s₂, s', hget, hload, href, hfree, hfreed, hr'⟩
  have hentries : ((F l).queue k).map Prod.fst = l.map Queued.entry := by
    rw [hk, entries_queued]
  exact freeMessagesLoop_ok hf hr (length_le_size hr hentries)

/-- A queue of server messages is freed, whichever it is. -/
theorem freeOutMessages_ok {k : QueueName} {F : List (Queued (OutMessage τ)) → Layout τ}
    (hk : ∀ l, (F l).queue k = l.map Queued.ref)
    (hget : ∀ i l s, Represents s (F (i :: l)) → ∃ s' e, qGet k s = .ok (some i.entry, s') ∧
      s'.queueEntries.load (some i.entry) = .ok e ∧ e.ref = some i.object ∧ Represents s' { F l with
        outs := i.toBlock :: (F l).outs, loose := i.entry :: (F l).loose })
    {l : List (Queued (OutMessage τ))} (hr : Represents s (F l)) :
    ∃ s', freeMessages k freeOutMessage s = .ok s' ∧ Represents s' (F []) := by
  have hf : Frees k freeOutMessage fun l s => Represents s (F l) := by
    refine ⟨fun s h => head_none h (hk []), fun i l s h => ⟨head_ne_none h (hk (i :: l)), ?_⟩⟩
    obtain ⟨s₁, e, hget, hload, href, hr₁⟩ := hget i l s h
    obtain ⟨s₂, hfree, hr₂⟩ := qFree_loose hr₁ rfl k
    obtain ⟨s', hfreed, hr'⟩ := freeOutMessage_ok hr₂ rfl
    exact ⟨i.entry, i.object, s₁, e, s₂, s', hget, hload, href, hfree, hfreed, hr'⟩
  have hentries : ((F l).queue k).map Prod.fst = l.map Queued.entry := by
    rw [hk, entries_queued]
  exact freeMessagesLoop_ok hf hr (length_le_size hr hentries)

/-- **`remove_all_messages`.** -/
theorem removeAllMessages_ok (hr : Represents s L) :
    ∃ s', removeAllMessages s = .ok s' ∧ Represents s' { L with
      rInMessages := [], wInMessages := [], rOutMessages := [], wOutMessages := [] } := by
  obtain ⟨s₁, h₁, hr₁⟩ := freeInMessages_ok (k := .rInMessages)
    (F := fun l => { L with rInMessages := l }) (fun _ => rfl)
    (fun i l _ h => getRIn_ok (L := { L with rInMessages := i :: l }) h rfl) hr
  set L₁ : Layout τ := { L with rInMessages := [] }
  obtain ⟨s₂, h₂, hr₂⟩ := freeInMessages_ok (k := .wInMessages)
    (F := fun l => { L₁ with wInMessages := l }) (fun _ => rfl)
    (fun i l _ h => getWIn_ok (L := { L₁ with wInMessages := i :: l }) h rfl) hr₁
  set L₂ : Layout τ := { L₁ with wInMessages := [] }
  obtain ⟨s₃, h₃, hr₃⟩ := freeOutMessages_ok (k := .rOutMessages)
    (F := fun l => { L₂ with rOutMessages := l }) (fun _ => rfl)
    (fun i l _ h => getROut_ok (L := { L₂ with rOutMessages := i :: l }) h rfl) hr₂
  set L₃ : Layout τ := { L₂ with rOutMessages := [] }
  obtain ⟨s₄, h₄, hr₄⟩ := freeOutMessages_ok (k := .wOutMessages)
    (F := fun l => { L₃ with wOutMessages := l }) (fun _ => rfl)
    (fun i l _ h => getWOut_ok (L := { L₃ with wOutMessages := i :: l }) h rfl) hr₃
  refine ⟨s₄, ?_, hr₄⟩
  simp only [removeAllMessages, freeRInMessages, freeWInMessages, freeROutMessages, freeWOutMessages,
    h₁, h₂, h₃, h₄, ok_bind]

/-! ## `cleanup` -/

/-- The mappings of other clients than these. -/
def others (conns : List (Item Connection)) (mappings : List (Item (Mapping τ))) :
    List (Item (Mapping τ)) :=
  mappings.filter (·.value.socket ∉ conns.map (·.value.socket))

theorem others_append (conns : List (Item Connection)) (i : Item Connection)
    (mappings : List (Item (Mapping τ))) :
    (others conns mappings).filter (·.value.socket != i.value.socket) =
      others (conns ++ [i]) mappings := by
  rw [others, others, List.filter_filter]
  congr 1
  funext t
  simp [not_or, Bool.and_comm, bne, beq_eq_decide]

theorem others_nil (mappings : List (Item (Mapping τ))) : others [] mappings = mappings := by
  simp [others]

/-- **`remove_all_mappings`** frees the mappings of all clients connected. -/
theorem removeAllMappings_ok (hr : Represents s L) :
    ∃ s', removeAllMappings s = .ok s' ∧
      Represents s' { L with mappings := others L.connections L.mappings } := by
  have hk : (L.queue .connections).map Prod.fst = L.connections.map Item.entry := entries_items _
  let I (before _ : List (Item Connection)) (x : Store) : Prop :=
    Represents x { L with mappings := others before L.mappings }
  have hhead : s.connections = s.queue .connections := rfl
  rw [removeAllMappings, hhead]
  refine along_all (I := I) hr hk ?_ (by simpa only [I, others_nil] using hr)
  intro before i after x hl hI
  have hne : some i.object ≠ (none : Ptr) := Option.some_ne_none _
  obtain ⟨e, he, href, hnext⟩ := load_connectionEntry hI hl.symm
  have hload := load_connection hI (i := i) (by simp [← hl])
  obtain ⟨s', hrun, hr'⟩ := removeAllMappingsFor_ok hI i.value.socket
  rw [others_append] at hr'
  refine ⟨s', ?_, hr'⟩
  simp only [removeAllMappingsRound, he, href, assertThat_ok hne, hload, hrun, hnext,
    heap_ok, ok_bind]

/-- **`remove_all_connections`** frees all of them, and their mappings. -/
theorem removeAllConnections_ok (hr : Represents s L)
    (hnd : (L.connections.map (·.value.socket)).Nodup) :
    ∃ s', removeAllConnections s = .ok s' ∧ Represents s' { L with
      connections := [], mappings := others L.connections L.mappings } := by
  have hk : (L.queue .connections).map Prod.fst = L.connections.map Item.entry := entries_items _
  let I (before after : List (Item Connection)) (x : Store) : Prop :=
    Represents x { L with connections := after, mappings := others before L.mappings }
  have hhead : s.connections = s.queue .connections := rfl
  rw [removeAllConnections, hhead]
  refine along_all (I := I) hr hk ?_ (by simpa only [I, others_nil] using hr)
  intro before i after x hl hI
  have hne : some i.object ≠ (none : Ptr) := Option.some_ne_none _
  obtain ⟨e, he, href, hnext⟩ := load_connectionEntry hI (List.nil_append _).symm
  have hload := load_connection hI (i := i) (by simp)
  have hafter : ((i :: after).map (·.value.socket)).Nodup := by
    rw [← hl, List.map_append] at hnd
    exact (List.nodup_append.1 hnd).2.1
  have hkept : (i :: after).filter (·.value.socket != i.value.socket) = after := by
    have hnot : i.value.socket ∉ after.map (·.value.socket) := (List.nodup_cons.1 hafter).1
    rw [List.filter_cons_of_neg (by simp), List.filter_eq_self]
    intro c hc
    have hcne : c.value.socket ≠ i.value.socket := fun heq =>
      hnot (heq ▸ List.mem_map_of_mem hc)
    simpa using hcne
  obtain ⟨s', hrun, hr'⟩ := removeConnection_ok hI hafter (i := i) (by simp)
  simp only [hkept, others_append] at hr'
  refine ⟨s', ?_, hr'⟩
  simp only [removeAllConnectionsRound, he, href, assertThat_ok hne, hload, hrun, hnext,
    heap_ok, ok_bind]

/-- **`cleanup`** frees the queues and the connections, and keeps the mappings of clients that are
not connected. -/
theorem cleanup_ok (hr : Represents s L) (hnd : (L.connections.map (·.value.socket)).Nodup) :
    ∃ s', cleanup s = .ok s' ∧ Represents s' { L with
      rInMessages := []
      wInMessages := []
      rOutMessages := []
      wOutMessages := []
      connections := []
      mappings := others L.connections L.mappings
      outConnection := { L.outConnection with rBufferPtr := 0, wBufferPtr := 0 } } := by
  set conn : Connection := { L.outConnection with rBufferPtr := 0, wBufferPtr := 0 } with conn_def
  have hr₀ : Represents { s with outConnection := conn } { L with outConnection := conn } :=
    { hr with outConnection := rfl }
  obtain ⟨s₁, h₁, hr₁⟩ := removeAllMessages_ok hr₀
  obtain ⟨s₂, h₂, hr₂⟩ := removeAllMappings_ok hr₁
  obtain ⟨s', h₃, hr'⟩ := removeAllConnections_ok hr₂ hnd
  have hagain : others L.connections (others L.connections L.mappings) =
      others L.connections L.mappings := by simp [others]
  simp only [hagain] at hr'
  refine ⟨s', ?_, hr'⟩
  simp only [cleanup, hr.outConnection, ← conn_def, h₁, h₂, h₃, ok_bind]

end Muxer.Memory
