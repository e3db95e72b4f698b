import Muxer.Lib.Cells
import Muxer.Proof.OnHeap
import Muxer.Proof.Pool
import Muxer.Spec.StoreThreads

/-!
# What a store represents

A `Layout` is a muxer with the place of everything in it: the queue entry, the block and the PDU of
each message, and so on, with what the threads hold that is in no queue. `Represents s L`: the store
`s` is laid out as `L` says, and every block of memory is accounted for.

* `Layout.mux`: the muxer.
-/

namespace Muxer.Memory

open Lib OnHeap

variable {τ : Type}

/-- A message in memory: its block and its PDU. -/
structure Block (α : Type) where
  object : Addr
  pdu : Addr
  value : α

/-- A message in a queue. -/
structure Queued (α : Type) extends Block α where
  entry : Addr

/-- The muxer with the place of everything. -/
structure Layout (τ : Type) where
  rInMessages : List (Queued (InMessage τ))
  wInMessages : List (Queued (InMessage τ))
  rOutMessages : List (Queued (OutMessage τ))
  wOutMessages : List (Queued (OutMessage τ))
  connections : List (Item Connection)
  mappings : List (Item (Mapping τ))
  /-- The entries of `pdus`, and the PDUs they refer to. -/
  cut : List (Addr × Addr)
  /-- Messages in the hands of a thread. -/
  ins : List (Block (InMessage τ))
  outs : List (Block (OutMessage τ))
  /-- PDUs in the hands of a thread, and of no message. -/
  pdus : List (Addr × Pdu)
  /-- Queue entries that are in no queue. -/
  loose : List Addr
  invokeidGenCounter : UInt64
  outConnection : Connection

/-- The muxer laid out. -/
def Layout.mux (L : Layout τ) : Mux τ where
  rInMessages := L.rInMessages.map (·.value)
  wInMessages := L.wInMessages.map (·.value)
  rOutMessages := L.rOutMessages.map (·.value)
  wOutMessages := L.wOutMessages.map (·.value)
  connections := L.connections.map (·.value)
  socketToRecvUnicastMsg := L.mappings.map (·.value)
  invokeidGenCounter := L.invokeidGenCounter
  outConnection := L.outConnection

/-- An entry, and what it refers to. -/
def Queued.ref {α : Type} (i : Queued α) : Addr × Addr := (i.entry, i.object)

def itemRef {β : Type} (i : Item β) : Addr × Addr := (i.entry, i.object)

/-- The entries of each queue. Nothing is ever put into `socket_to_recv_multicast_msg`. -/
def Layout.queue (L : Layout τ) : QueueName → List (Addr × Addr)
  | .rInMessages => L.rInMessages.map Queued.ref
  | .wInMessages => L.wInMessages.map Queued.ref
  | .rOutMessages => L.rOutMessages.map Queued.ref
  | .wOutMessages => L.wOutMessages.map Queued.ref
  | .connections => L.connections.map itemRef
  | .socketToRecvUnicastMsg => L.mappings.map itemRef
  | .socketToRecvMulticastMsg => []
  | .pdus => L.cut

/-! ## Cells -/

def Block.inCell (b : Block (InMessage τ)) : Addr × InMessageBlock :=
  (b.object, ⟨b.value.socket, some b.pdu⟩)

def Block.outCell (b : Block (OutMessage τ)) : Addr × OutMessageBlock := (b.object, ⟨some b.pdu⟩)

def Block.inPdu (b : Block (InMessage τ)) : Addr × Pdu := (b.pdu, b.value.pdu)

def Block.outPdu (b : Block (OutMessage τ)) : Addr × Pdu := (b.pdu, b.value.pdu)

def mappingCell (i : Item (Mapping τ)) : Addr × Mapping Unit :=
  (i.object, ⟨i.value.socket, i.value.invokeidOriginal, i.value.invokeidGenerated, ()⟩)

def connectionCell (i : Item Connection) : Addr × Connection := (i.object, i.value)

def Layout.inCells (L : Layout τ) : Multiset (Addr × InMessageBlock) :=
  cells (·.inCell) L.rInMessages + cells (·.inCell) L.wInMessages + cells Block.inCell L.ins

def Layout.outCells (L : Layout τ) : Multiset (Addr × OutMessageBlock) :=
  cells (·.outCell) L.rOutMessages + cells (·.outCell) L.wOutMessages +
    cells Block.outCell L.outs

def Layout.pduCells (L : Layout τ) : Multiset (Addr × Pdu) :=
  cells (·.inPdu) L.rInMessages + cells (·.inPdu) L.wInMessages + cells Block.inPdu L.ins +
    cells (·.outPdu) L.rOutMessages + cells (·.outPdu) L.wOutMessages + cells Block.outPdu L.outs +
    cells id L.pdus

/-- The blocks of memory but for the queue entries are where the layout says, and the globals are
what it says. -/
structure Blocks (s : Store) (L : Layout τ) : Prop where
  inMessageBlocks : s.inMessageBlocks.Exactly L.inCells
  outMessageBlocks : s.outMessageBlocks.Exactly L.outCells
  pduBlocks : s.pduBlocks.Exactly L.pduCells
  mappingBlocks : s.mappingBlocks.Exactly (cells mappingCell L.mappings)
  connectionBlocks : s.connectionBlocks.Exactly (cells connectionCell L.connections)
  invokeidGenCounter : s.invokeidGenCounter = L.invokeidGenCounter
  outConnection : s.outConnection = L.outConnection

/-- The store is laid out so, and nothing else is allocated. -/
structure Represents (s : Store) (L : Layout τ) : Prop extends Blocks s L where
  pool : Pool s.queue s.queueEntries L.queue L.loose

variable {s s' : Store} {L : Layout τ} {rt : Runtime} {k : QueueName} {q : Queue} {a o : Addr}
  {α : Type}

@[simp] theorem heap_ok (a : α) : heap (.ok a) = .ok a := rfl

@[simp] theorem code_ok (a : α) : code (.ok a) = .ok a := rfl

@[simp] theorem code_error (f : Fault) : (code (.error f) : Except Stop α) = .error (.fault f) := rfl

@[simp] theorem ok_bind {β ε : Type} (a : α) (f : α → Except ε β) :
    (Except.ok a >>= f) = f a := rfl

theorem heap_bind_eq_ok {β : Type} {x : Except Trap α} {f : α → Except Stop β} {b : β} :
    (heap x >>= f) = .ok b ↔ ∃ a, x = .ok a ∧ f a = .ok b := by
  cases x with
  | ok a => exact ⟨fun h => ⟨a, rfl, h⟩, fun ⟨_, ha, h⟩ => by cases ha; exact h⟩
  | error t => exact ⟨fun h => (by cases h), fun ⟨_, ha, _⟩ => (by cases ha)⟩

theorem queue_setQueue (s : Store) (q : Queue) (k : QueueName) :
    (s.setQueue q k).queue = Function.update s.queue k q := by
  funext k'
  cases k <;> cases k' <;> rfl

@[simp] theorem queueEntries_setQueue (s : Store) (q : Queue) (k : QueueName) :
    (s.setQueue q k).queueEntries = s.queueEntries := by
  cases k <;> rfl

theorem queue_entries (s : Store) (entries : Heap QueueEntry) (k : QueueName) :
    { s with queueEntries := entries }.queue k = s.queue k := by
  cases k <;> rfl

/-- Only the queues and their entries have changed. -/
structure Requeued (s s' : Store) : Prop where
  inMessageBlocks : s'.inMessageBlocks = s.inMessageBlocks
  outMessageBlocks : s'.outMessageBlocks = s.outMessageBlocks
  pduBlocks : s'.pduBlocks = s.pduBlocks
  mappingBlocks : s'.mappingBlocks = s.mappingBlocks
  connectionBlocks : s'.connectionBlocks = s.connectionBlocks
  invokeidGenCounter : s'.invokeidGenCounter = s.invokeidGenCounter
  outConnection : s'.outConnection = s.outConnection

theorem requeued (s : Store) (entries : Heap QueueEntry) (q : Queue) (k : QueueName) :
    Requeued s ({ s with queueEntries := entries }.setQueue q k) := by
  cases k <;> exact ⟨rfl, rfl, rfl, rfl, rfl, rfl, rfl⟩

/-- The same blocks, in other places. -/
structure Rearranged (L L' : Layout τ) : Prop where
  inCells : L'.inCells = L.inCells
  outCells : L'.outCells = L.outCells
  pduCells : L'.pduCells = L.pduCells
  mappings : L'.mappings = L.mappings
  connections : L'.connections = L.connections
  invokeidGenCounter : L'.invokeidGenCounter = L.invokeidGenCounter
  outConnection : L'.outConnection = L.outConnection

theorem Blocks.requeue (h : Blocks s L) (hs : Requeued s s') : Blocks s' L where
  inMessageBlocks := by rw [hs.inMessageBlocks]; exact h.inMessageBlocks
  outMessageBlocks := by rw [hs.outMessageBlocks]; exact h.outMessageBlocks
  pduBlocks := by rw [hs.pduBlocks]; exact h.pduBlocks
  mappingBlocks := by rw [hs.mappingBlocks]; exact h.mappingBlocks
  connectionBlocks := by rw [hs.connectionBlocks]; exact h.connectionBlocks
  invokeidGenCounter := by rw [hs.invokeidGenCounter]; exact h.invokeidGenCounter
  outConnection := by rw [hs.outConnection]; exact h.outConnection

theorem Blocks.rearrange (h : Blocks s L) {L' : Layout τ} (hL : Rearranged L L') : Blocks s L' where
  inMessageBlocks := by rw [hL.inCells]; exact h.inMessageBlocks
  outMessageBlocks := by rw [hL.outCells]; exact h.outMessageBlocks
  pduBlocks := by rw [hL.pduCells]; exact h.pduBlocks
  mappingBlocks := by rw [hL.mappings]; exact h.mappingBlocks
  connectionBlocks := by rw [hL.connections]; exact h.connectionBlocks
  invokeidGenCounter := by rw [hL.invokeidGenCounter]; exact h.invokeidGenCounter
  outConnection := by rw [hL.outConnection]; exact h.outConnection

theorem Represents.rearrange (hr : Represents s L) {L' : Layout τ} (hL : Rearranged L L')
    (hs : Requeued s s') (hp : Pool s'.queue s'.queueEntries L'.queue L'.loose) :
    Represents s' L' :=
  ⟨(hr.toBlocks.rearrange hL).requeue hs, hp⟩

/-! ## Allocation -/

/-- `memalloc(sizeof(pdu_t))`: a PDU more in hand. -/
theorem newPdu_ok (hr : Represents s L) (rt : Runtime) (pdu : Pdu) :
    ∃ a s', newPdu rt pdu s = (some a, s') ∧
      Represents s' { L with pdus := (a, pdu) :: L.pdus } := by
  refine ⟨_, _, rfl, { hr with pduBlocks := ?_ }⟩
  refine (hr.pduBlocks.alloc (rt.fresh s.pduBlocks) pdu).congr ?_
  simp only [Layout.pduCells, cells_cons, id]
  abel

/-- A message made of a PDU in hand. -/
theorem allocInMessage_ok (hr : Represents s L) (rt : Runtime) {socket : Socket} (hs : 0 < socket)
    {p : Addr} {pdu : Pdu} {pdus : List (Addr × Pdu)} (hL : L.pdus = (p, pdu) :: pdus) (tag : τ) :
    ∃ a s', allocInMessage rt socket (some p) s = .ok (some a, s') ∧
      Represents s' { L with ins := ⟨a, p, ⟨socket, pdu, tag⟩⟩ :: L.ins, pdus := pdus } := by
  have hne : some p ≠ (none : Ptr) := Option.some_ne_none _
  refine ⟨rt.addr s.inMessageBlocks, { s with
    inMessageBlocks := s.inMessageBlocks.set (rt.addr s.inMessageBlocks) ⟨socket, some p⟩ }, ?_,
    { hr with inMessageBlocks := ?_, pduBlocks := ?_ }⟩
  · simp only [allocInMessage, assertThat_ok hs, assertThat_ok hne, heap_ok, bind, Except.bind]
  · refine (hr.inMessageBlocks.alloc (rt.fresh s.inMessageBlocks) _).congr ?_
    simp only [Layout.inCells, cells_cons, Block.inCell]
    abel
  · refine hr.pduBlocks.congr ?_
    simp only [Layout.pduCells, hL, cells_cons, Block.inPdu, id]
    abel

theorem allocOutMessage_ok (hr : Represents s L) (rt : Runtime) {p : Addr} {pdu : Pdu}
    {pdus : List (Addr × Pdu)} (hL : L.pdus = (p, pdu) :: pdus) (tag : τ) :
    ∃ a s', allocOutMessage rt (some p) s = .ok (some a, s') ∧
      Represents s' { L with outs := ⟨a, p, ⟨pdu, tag⟩⟩ :: L.outs, pdus := pdus } := by
  have hne : some p ≠ (none : Ptr) := Option.some_ne_none _
  refine ⟨rt.addr s.outMessageBlocks, { s with
    outMessageBlocks := s.outMessageBlocks.set (rt.addr s.outMessageBlocks) ⟨some p⟩ }, ?_,
    { hr with outMessageBlocks := ?_, pduBlocks := ?_ }⟩
  · simp only [allocOutMessage, assertThat_ok hne, heap_ok, bind, Except.bind]
  · refine (hr.outMessageBlocks.alloc (rt.fresh s.outMessageBlocks) _).congr ?_
    simp only [Layout.outCells, cells_cons, Block.outCell]
    abel
  · refine hr.pduBlocks.congr ?_
    simp only [Layout.pduCells, hL, cells_cons, Block.outPdu, id]
    abel

/-! ## Into a queue -/

/-- `q_alloc` and `q_put`. -/
theorem enqueue_ok {Q : QueueName → List (Addr × Addr)} {loose : List Addr}
    (hp : Pool s.queue s.queueEntries Q loose) (rt : Runtime) (o : Addr) (k : QueueName) :
    ∃ a s₁ s', qAlloc rt (some o) s = .ok (some a, s₁) ∧ qPut rt k (some a) s₁ = .ok s' ∧
      Requeued s s' ∧
      Pool s'.queue s'.queueEntries (Function.update Q k (Q k ++ [(a, o)])) loose := by
  have hne : some o ≠ (none : Ptr) := Option.some_ne_none _
  obtain ⟨q', h', hrun, hp'⟩ := hp.put (rt.fresh s.queueEntries) o rt.time k
  set a := rt.addr s.queueEntries with a_def
  set entries := s.queueEntries.set a ⟨none, none, some o⟩ with entries_def
  refine ⟨a, { s with queueEntries := entries }, { s with queueEntries := h' }.setQueue q' k, ?_, ?_,
    requeued s h' q' k, ?_⟩
  · simp only [qAlloc, Muxer.qAlloc, assertThat_ok hne, heap_ok, bind, Except.bind, ← a_def,
      ← entries_def]
  · simp only [qPut, queue_entries, hrun, heap_ok, bind, Except.bind]
  · rw [queue_setQueue, queueEntries_setQueue]
    exact hp'

/-- A message in hand put into a queue. -/
theorem put_ok (hr : Represents s L) (rt : Runtime) (o : Addr) (k : QueueName)
    {L' : Addr → Layout τ} (hL : ∀ a, Rearranged L (L' a))
    (hqueue : ∀ a, (L' a).queue = Function.update L.queue k (L.queue k ++ [(a, o)]))
    (hloose : ∀ a, (L' a).loose = L.loose) :
    ∃ a s₁ s', qAlloc rt (some o) s = .ok (some a, s₁) ∧ qPut rt k (some a) s₁ = .ok s' ∧
      Represents s' (L' a) := by
  obtain ⟨a, s₁, s', halloc, hput, hs, hp⟩ := enqueue_ok hr.pool rt o k
  refine ⟨a, s₁, s', halloc, hput, hr.rearrange (hL a) hs ?_⟩
  rwa [hqueue, hloose]

section

variable {b : Block (InMessage τ)} {ins : List (Block (InMessage τ))} {c : Block (OutMessage τ)}
  {outs : List (Block (OutMessage τ))}

theorem putRIn_ok (hr : Represents s L) (rt : Runtime) (hL : L.ins = b :: ins) :
    ∃ a s₁ s', qAlloc rt (some b.object) s = .ok (some a, s₁) ∧
      qPut rt .rInMessages (some a) s₁ = .ok s' ∧ Represents s' { L with
        rInMessages := L.rInMessages ++ [⟨b, a⟩], ins := ins } := by
  refine put_ok hr rt b.object .rInMessages (fun a => ⟨?_, rfl, ?_, rfl, rfl, rfl, rfl⟩)
    (fun a => ?_) fun a => rfl
  · simp only [Layout.inCells, hL, cells_append, cells_cons, cells_nil]
    abel
  · simp only [Layout.pduCells, hL, cells_append, cells_cons, cells_nil]
    abel
  · funext k
    cases k <;> simp [Layout.queue, Queued.ref]

theorem putWIn_ok (hr : Represents s L) (rt : Runtime) (hL : L.ins = b :: ins) :
    ∃ a s₁ s', qAlloc rt (some b.object) s = .ok (some a, s₁) ∧
      qPut rt .wInMessages (some a) s₁ = .ok s' ∧ Represents s' { L with
        wInMessages := L.wInMessages ++ [⟨b, a⟩], ins := ins } := by
  refine put_ok hr rt b.object .wInMessages (fun a => ⟨?_, rfl, ?_, rfl, rfl, rfl, rfl⟩)
    (fun a => ?_) fun a => rfl
  · simp only [Layout.inCells, hL, cells_append, cells_cons, cells_nil]
    abel
  · simp only [Layout.pduCells, hL, cells_append, cells_cons, cells_nil]
    abel
  · funext k
    cases k <;> simp [Layout.queue, Queued.ref]

theorem putROut_ok (hr : Represents s L) (rt : Runtime) (hL : L.outs = c :: outs) :
    ∃ a s₁ s', qAlloc rt (some c.object) s = .ok (some a, s₁) ∧
      qPut rt .rOutMessages (some a) s₁ = .ok s' ∧ Represents s' { L with
        rOutMessages := L.rOutMessages ++ [⟨c, a⟩], outs := outs } := by
  refine put_ok hr rt c.object .rOutMessages (fun a => ⟨rfl, ?_, ?_, rfl, rfl, rfl, rfl⟩)
    (fun a => ?_) fun a => rfl
  · simp only [Layout.outCells, hL, cells_append, cells_cons, cells_nil]
    abel
  · simp only [Layout.pduCells, hL, cells_append, cells_cons, cells_nil]
    abel
  · funext k
    cases k <;> simp [Layout.queue, Queued.ref]

theorem putWOut_ok (hr : Represents s L) (rt : Runtime) (hL : L.outs = c :: outs) :
    ∃ a s₁ s', qAlloc rt (some c.object) s = .ok (some a, s₁) ∧
      qPut rt .wOutMessages (some a) s₁ = .ok s' ∧ Represents s' { L with
        wOutMessages := L.wOutMessages ++ [⟨c, a⟩], outs := outs } := by
  refine put_ok hr rt c.object .wOutMessages (fun a => ⟨rfl, ?_, ?_, rfl, rfl, rfl, rfl⟩)
    (fun a => ?_) fun a => rfl
  · simp only [Layout.outCells, hL, cells_append, cells_cons, cells_nil]
    abel
  · simp only [Layout.pduCells, hL, cells_append, cells_cons, cells_nil]
    abel
  · funext k
    cases k <;> simp [Layout.queue, Queued.ref]

end

/-! ## Out of a queue -/

theorem setQueue_queue (s : Store) (k : QueueName) : s.setQueue (s.queue k) k = s := by
  cases k <;> rfl

/-- `q_get` of an empty queue. -/
theorem qGet_empty (hr : Represents s L) {k : QueueName} (hL : L.queue k = []) :
    qGet k s = .ok (none, s) := by
  have hq := hr.pool.queues k
  rw [hL] at hq
  have hempty : s.queue k = .empty := Queue.mk.injEq .. ▸ ⟨hq.head, hq.tail⟩
  have hrun : Muxer.qGet (s.queue k) s.queueEntries = .ok (none, s.queue k) := by
    rw [hempty]
    rfl
  simp only [qGet, hrun, heap_ok, bind, Except.bind, setQueue_queue]

/-- `q_get`: the entry is loose, and what it refers to in hand. -/
theorem qGet_ok (hr : Represents s L) {k : QueueName} {a o : Addr} {rest : List (Addr × Addr)}
    (hk : L.queue k = (a, o) :: rest) {L' : Layout τ} (hL : Rearranged L L')
    (hqueue : L'.queue = Function.update L.queue k rest) (hloose : L'.loose = a :: L.loose) :
    ∃ s' e, qGet k s = .ok (some a, s') ∧ s'.queueEntries.load (some a) = .ok e ∧
      e.ref = some o ∧ Represents s' L' := by
  obtain ⟨q', hrun, hp⟩ := hr.pool.get hk
  obtain ⟨e, he, href, -⟩ := hr.pool.entry (hk.trans (List.nil_append _).symm)
  have hs : Requeued s (s.setQueue q' k) := requeued s s.queueEntries q' k
  refine ⟨s.setQueue q' k, e, ?_, ?_, href, hr.rearrange hL hs ?_⟩
  · simp only [qGet, hrun, heap_ok, bind, Except.bind]
  · rw [queueEntries_setQueue, Heap.load_ok he]
  · rw [queue_setQueue, queueEntries_setQueue, hqueue, hloose]
    exact hp

/-- `q_free` of an entry that is in no queue. -/
theorem qFree_loose (hr : Represents s L) {a : Addr} {loose : List Addr} (hL : L.loose = a :: loose)
    (k : QueueName) : ∃ s', qFree k (some a) s = .ok s' ∧
      Represents s' { L with loose := loose } := by
  have hp := hr.pool
  rw [hL] at hp
  obtain ⟨hrun, hp'⟩ := hp.free k
  refine ⟨{ s with queueEntries := s.queueEntries.drop a }, ?_, { hr with pool := ?_ }⟩
  · have hset := setQueue_queue { s with queueEntries := s.queueEntries.drop a } k
    rw [queue_entries] at hset
    simp only [qFree, hrun, heap_ok, bind, Except.bind, hset]
  · exact hp'

/-- `q_free` of an entry of the queue. -/
theorem qFree_ok {Q : QueueName → List (Addr × Addr)} {loose : List Addr}
    (hp : Pool s.queue s.queueEntries Q loose) {k : QueueName} {a o : Addr}
    {xs ys : List (Addr × Addr)} (hk : Q k = xs ++ (a, o) :: ys) :
    ∃ s', qFree k (some a) s = .ok s' ∧ Requeued s s' ∧
      Pool s'.queue s'.queueEntries (Function.update Q k (xs ++ ys)) loose := by
  obtain ⟨q', h', hrun, hp'⟩ := hp.remove hk (fun _ _ => rfl) rfl
  refine ⟨{ s with queueEntries := h' }.setQueue q' k, ?_, requeued s h' q' k, ?_⟩
  · simp only [qFree, hrun, heap_ok, bind, Except.bind]
  · rw [queue_setQueue, queueEntries_setQueue]
    exact hp'

/-- `qe->ref = NULL`, then `q_free`. -/
theorem clearRef_qFree_ok {Q : QueueName → List (Addr × Addr)} {loose : List Addr}
    (hp : Pool s.queue s.queueEntries Q loose) {k : QueueName} {a o : Addr}
    {xs ys : List (Addr × Addr)} (hk : Q k = xs ++ (a, o) :: ys) :
    ∃ s₁ e s', clearRef (some a) s = .ok s₁ ∧ s₁.queueEntries.load (some a) = .ok e ∧
      e.next = (ys.map Prod.fst).head? ∧ qFree k (some a) s₁ = .ok s' ∧ Requeued s s' ∧
      Pool s'.queue s'.queueEntries (Function.update Q k (xs ++ ys)) loose := by
  obtain ⟨e, he, -, hnext⟩ := hp.entry hk
  set entries := s.queueEntries.set a { e with ref := none } with entries_def
  have hlinked : nextOf entries a = nextOf s.queueEntries a := by
    rw [nextOf_set_self, nextOf_eq he]
  obtain ⟨q', h', hrun, hp'⟩ :=
    hp.remove hk (fun b hb => Heap.get_set_of_ne s.queueEntries _ hb) hlinked
  rw [← entries_def] at hrun
  refine ⟨{ s with queueEntries := entries }, { e with ref := none },
    { s with queueEntries := h' }.setQueue q' k, ?_, ?_, hnext, ?_, requeued s h' q' k, ?_⟩
  · simp only [clearRef, Heap.update_ok he, heap_ok, bind, Except.bind, ← entries_def]
  · exact Heap.load_ok (Heap.get_set_self ..)
  · simp only [qFree, queue_entries, hrun, heap_ok, bind, Except.bind]
  · rw [queue_setQueue, queueEntries_setQueue]
    exact hp'

section

variable {i : Queued (InMessage τ)} {is : List (Queued (InMessage τ))} {o : Queued (OutMessage τ)}
  {os : List (Queued (OutMessage τ))}

theorem getRIn_ok (hr : Represents s L) (hL : L.rInMessages = i :: is) :
    ∃ s' e, qGet .rInMessages s = .ok (some i.entry, s') ∧
      s'.queueEntries.load (some i.entry) = .ok e ∧ e.ref = some i.object ∧
      Represents s' { L with
        rInMessages := is, ins := i.toBlock :: L.ins, loose := i.entry :: L.loose } := by
  have hk : L.queue .rInMessages = i.ref :: is.map Queued.ref := by
    rw [Layout.queue, hL, List.map_cons]
  refine qGet_ok hr hk ⟨?_, rfl, ?_, rfl, rfl, rfl, rfl⟩ ?_ rfl
  · simp only [Layout.inCells, hL, cells_cons]
    abel
  · simp only [Layout.pduCells, hL, cells_cons]
    abel
  · funext k
    cases k <;> simp [Layout.queue]

theorem getWIn_ok (hr : Represents s L) (hL : L.wInMessages = i :: is) :
    ∃ s' e, qGet .wInMessages s = .ok (some i.entry, s') ∧
      s'.queueEntries.load (some i.entry) = .ok e ∧ e.ref = some i.object ∧
      Represents s' { L with
        wInMessages := is, ins := i.toBlock :: L.ins, loose := i.entry :: L.loose } := by
  have hk : L.queue .wInMessages = i.ref :: is.map Queued.ref := by
    rw [Layout.queue, hL, List.map_cons]
  refine qGet_ok hr hk ⟨?_, rfl, ?_, rfl, rfl, rfl, rfl⟩ ?_ rfl
  · simp only [Layout.inCells, hL, cells_cons]
    abel
  · simp only [Layout.pduCells, hL, cells_cons]
    abel
  · funext k
    cases k <;> simp [Layout.queue]

theorem getROut_ok (hr : Represents s L) (hL : L.rOutMessages = o :: os) :
    ∃ s' e, qGet .rOutMessages s = .ok (some o.entry, s') ∧
      s'.queueEntries.load (some o.entry) = .ok e ∧ e.ref = some o.object ∧
      Represents s' { L with
        rOutMessages := os, outs := o.toBlock :: L.outs, loose := o.entry :: L.loose } := by
  have hk : L.queue .rOutMessages = o.ref :: os.map Queued.ref := by
    rw [Layout.queue, hL, List.map_cons]
  refine qGet_ok hr hk ⟨rfl, ?_, ?_, rfl, rfl, rfl, rfl⟩ ?_ rfl
  · simp only [Layout.outCells, hL, cells_cons]
    abel
  · simp only [Layout.pduCells, hL, cells_cons]
    abel
  · funext k
    cases k <;> simp [Layout.queue]

theorem getWOut_ok (hr : Represents s L) (hL : L.wOutMessages = o :: os) :
    ∃ s' e, qGet .wOutMessages s = .ok (some o.entry, s') ∧
      s'.queueEntries.load (some o.entry) = .ok e ∧ e.ref = some o.object ∧
      Represents s' { L with
        wOutMessages := os, outs := o.toBlock :: L.outs, loose := o.entry :: L.loose } := by
  have hk : L.queue .wOutMessages = o.ref :: os.map Queued.ref := by
    rw [Layout.queue, hL, List.map_cons]
  refine qGet_ok hr hk ⟨rfl, ?_, ?_, rfl, rfl, rfl, rfl⟩ ?_ rfl
  · simp only [Layout.outCells, hL, cells_cons]
    abel
  · simp only [Layout.pduCells, hL, cells_cons]
    abel
  · funext k
    cases k <;> simp [Layout.queue]

end

/-! ## Freeing -/

theorem freePdu_ok (hr : Represents s L) {p : Addr} {pdu : Pdu} {pdus : List (Addr × Pdu)}
    (hL : L.pdus = (p, pdu) :: pdus) :
    ∃ s', freePdu (some p) s = .ok s' ∧ Represents s' { L with pdus := pdus } := by
  have hcells : L.pduCells = {(p, pdu)} + ({ L with pdus := pdus } : Layout τ).pduCells := by
    simp only [Layout.pduCells, hL, cells_cons, id]
    abel
  refine ⟨{ s with pduBlocks := s.pduBlocks.drop p }, ?_,
    { hr with pduBlocks := hr.pduBlocks.drop hcells }⟩
  simp only [freePdu, Heap.free_ok (hr.pduBlocks.get hcells), heap_ok, bind, Except.bind]

theorem freeInMessage_ok (hr : Represents s L) {b : Block (InMessage τ)}
    {ins : List (Block (InMessage τ))} (hL : L.ins = b :: ins) :
    ∃ s', freeInMessage (some b.object) s = .ok s' ∧ Represents s' { L with ins := ins } := by
  have hin : L.inCells = {b.inCell} + ({ L with ins := ins } : Layout τ).inCells := by
    simp only [Layout.inCells, hL, cells_cons]
    abel
  have hpdu : L.pduCells = {b.inPdu} + ({ L with ins := ins } : Layout τ).pduCells := by
    simp only [Layout.pduCells, hL, cells_cons]
    abel
  have hb := hr.inMessageBlocks.get hin
  have hp := hr.pduBlocks.get hpdu
  have hset := hr.inMessageBlocks.set hin ⟨b.value.socket, none⟩
  refine ⟨{ s with
    inMessageBlocks := (s.inMessageBlocks.set b.object ⟨b.value.socket, none⟩).drop b.object
    pduBlocks := s.pduBlocks.drop b.pdu }, ?_,
    { hr with inMessageBlocks := hset.drop rfl, pduBlocks := hr.pduBlocks.drop hpdu }⟩
  simp only [freeInMessage, OnHeap.freeInMessage, Heap.load_ok hb, Heap.update_ok hb,
    Heap.free_ok hp, Heap.free_ok (Heap.get_set_self ..), heap_ok, bind, Except.bind, ne_eq,
    reduceCtorEq, not_false_eq_true, if_true]

theorem freeOutMessage_ok (hr : Represents s L) {b : Block (OutMessage τ)}
    {outs : List (Block (OutMessage τ))} (hL : L.outs = b :: outs) :
    ∃ s', freeOutMessage (some b.object) s = .ok s' ∧ Represents s' { L with outs := outs } := by
  have hout : L.outCells = {b.outCell} + ({ L with outs := outs } : Layout τ).outCells := by
    simp only [Layout.outCells, hL, cells_cons]
    abel
  have hpdu : L.pduCells = {b.outPdu} + ({ L with outs := outs } : Layout τ).pduCells := by
    simp only [Layout.pduCells, hL, cells_cons]
    abel
  have hb := hr.outMessageBlocks.get hout
  have hp := hr.pduBlocks.get hpdu
  have hset := hr.outMessageBlocks.set hout ⟨none⟩
  refine ⟨{ s with
    outMessageBlocks := (s.outMessageBlocks.set b.object ⟨none⟩).drop b.object
    pduBlocks := s.pduBlocks.drop b.pdu }, ?_,
    { hr with outMessageBlocks := hset.drop rfl, pduBlocks := hr.pduBlocks.drop hpdu }⟩
  simp only [freeOutMessage, freePdu, Heap.load_ok hb, Heap.update_ok hb, Heap.free_ok hp,
    Heap.free_ok (Heap.get_set_self ..), heap_ok, bind, Except.bind, ne_eq, reduceCtorEq,
    not_false_eq_true, if_true]

/-! ## What is found there -/

/-- An entry of a queue, what it refers to, and the entry after it. -/
theorem load_entry (hr : Represents s L) {xs ys : List (Addr × Addr)}
    (hk : L.queue k = xs ++ (a, o) :: ys) : ∃ e, s.queueEntries.load (some a) = .ok e ∧
      e.ref = some o ∧ e.next = (ys.map Prod.fst).head? := by
  obtain ⟨e, he, href, hnext⟩ := hr.pool.entry hk
  exact ⟨e, Heap.load_ok he, href, hnext⟩

/-- The entries of a queue are those of its items. -/
theorem entries_items {β : Type} (items : List (Item β)) :
    (items.map itemRef).map Prod.fst = items.map Item.entry := by
  rw [List.map_map]
  rfl

theorem entries_queued {α : Type} (items : List (Queued α)) :
    (items.map Queued.ref).map Prod.fst = items.map Queued.entry := by
  rw [List.map_map]
  rfl

/-- The entry after an item. -/
theorem head_refs {β : Type} (items : List (Item β)) :
    ((items.map itemRef).map Prod.fst).head? = (items.map Item.entry).head? := by
  rw [entries_items]

theorem head_queued {α : Type} (items : List (Queued α)) :
    ((items.map Queued.ref).map Prod.fst).head? = (items.map Queued.entry).head? := by
  rw [entries_queued]

section

variable {σ ι : Type} {addr : ι → Addr} {items : List ι} {round : Addr → σ → Except Stop (Ptr × σ)}
  {I : List ι → List ι → σ → Prop} {Q : σ → Prop} {x : σ}

/-- There are enough rounds for every entry of the queue. -/
theorem length_le_size (hr : Represents s L) (hk : (L.queue k).map Prod.fst = items.map addr) :
    items.length ≤ s.queueEntries.size := by
  have := hr.pool.length_le k
  rwa [← List.length_map (f := Prod.fst), hk, List.length_map] at this

/-- **Loops along a queue.** -/
theorem along_ok (hr : Represents s L) (hk : (L.queue k).map Prod.fst = items.map addr)
    (hend : ∀ before x, I before [] x → Q x)
    (hround : ∀ before i after x, I before (i :: after) x →
      ∃ p x', round (addr i) x = .ok (p, x') ∧ (p = (after.map addr).head? ∧
        I (before ++ [i]) after x' ∨ p = none ∧ Q x'))
    (hI : I [] items x) : ∃ x', along round s (s.queue k).head x = .ok x' ∧ Q x' := by
  rw [(hr.pool.queues k).head, hk]
  exact whilePtr_ok addr hend hround hI (length_le_size hr hk)

/-- Loops that no round leaves. -/
theorem along_all (hr : Represents s L) (hk : (L.queue k).map Prod.fst = items.map addr)
    (hround : ∀ before i after x, before ++ i :: after = items → I before (i :: after) x →
      ∃ x', round (addr i) x = .ok ((after.map addr).head?, x') ∧ I (before ++ [i]) after x')
    (hI : I [] items x) : ∃ x', along round s (s.queue k).head x = .ok x' ∧ I items [] x' := by
  rw [(hr.pool.queues k).head, hk]
  exact whilePtr_all addr hround hI (length_le_size hr hk)

end

theorem load_in (hr : Represents s L) {b : Block (InMessage τ)} (hb : b.inCell ∈ L.inCells) :
    s.inMessageBlocks.load (some b.object) = .ok ⟨b.value.socket, some b.pdu⟩ :=
  Heap.load_ok (hr.inMessageBlocks.mem hb)

theorem load_out (hr : Represents s L) {b : Block (OutMessage τ)} (hb : b.outCell ∈ L.outCells) :
    s.outMessageBlocks.load (some b.object) = .ok ⟨some b.pdu⟩ :=
  Heap.load_ok (hr.outMessageBlocks.mem hb)

/-- The entry of a connection, and the one after it. -/
theorem load_connectionEntry (hr : Represents s L) {i : Item Connection}
    {xs ys : List (Item Connection)} (hL : L.connections = xs ++ i :: ys) :
    ∃ e, s.queueEntries.load (some i.entry) = .ok e ∧ e.ref = some i.object ∧
      e.next = (ys.map Item.entry).head? := by
  have hk : L.queue .connections = xs.map itemRef ++ itemRef i :: ys.map itemRef := by
    rw [Layout.queue, hL, List.map_append, List.map_cons]
  rw [← head_refs]
  exact load_entry hr hk

theorem load_mappingEntry (hr : Represents s L) {i : Item (Mapping τ)}
    {xs ys : List (Item (Mapping τ))} (hL : L.mappings = xs ++ i :: ys) :
    ∃ e, s.queueEntries.load (some i.entry) = .ok e ∧ e.ref = some i.object ∧
      e.next = (ys.map Item.entry).head? := by
  have hk : L.queue .socketToRecvUnicastMsg =
      xs.map itemRef ++ itemRef i :: ys.map itemRef := by
    rw [Layout.queue, hL, List.map_append, List.map_cons]
  rw [← head_refs]
  exact load_entry hr hk

theorem load_wInEntry (hr : Represents s L) {r : Queued (InMessage τ)}
    {xs ys : List (Queued (InMessage τ))} (hL : L.wInMessages = xs ++ r :: ys) :
    ∃ e, s.queueEntries.load (some r.entry) = .ok e ∧ e.ref = some r.object ∧
      e.next = (ys.map Queued.entry).head? := by
  have hk : L.queue .wInMessages = xs.map Queued.ref ++ r.ref :: ys.map Queued.ref := by
    rw [Layout.queue, hL, List.map_append, List.map_cons]
  rw [← head_queued]
  exact load_entry hr hk

theorem load_pdu (hr : Represents s L) {p : Addr} {pdu : Pdu} (hp : (p, pdu) ∈ L.pduCells) :
    s.pduBlocks.load (some p) = .ok pdu := Heap.load_ok (hr.pduBlocks.mem hp)

theorem load_mapping (hr : Represents s L) {i : Item (Mapping τ)} (hi : i ∈ L.mappings) :
    s.mappingBlocks.load (some i.object) = .ok (mappingCell i).2 :=
  Heap.load_ok (hr.mappingBlocks.mem (mem_cells.2 ⟨i, hi, rfl⟩))

theorem load_connection (hr : Represents s L) {i : Item Connection} (hi : i ∈ L.connections) :
    s.connectionBlocks.load (some i.object) = .ok i.value :=
  Heap.load_ok (hr.connectionBlocks.mem (mem_cells.2 ⟨i, hi, rfl⟩))

/-! ## Mappings -/

/-- A mapping is unlinked, and freed. -/
theorem removeMapping_ok (hr : Represents s L) {xs ys : List (Item (Mapping τ))}
    {i : Item (Mapping τ)} (hL : L.mappings = xs ++ i :: ys) :
    ∃ s₁ e s₂ s', clearRef (some i.entry) s = .ok s₁ ∧
      s₁.queueEntries.load (some i.entry) = .ok e ∧ e.next = (ys.map Item.entry).head? ∧
      qFree .socketToRecvUnicastMsg (some i.entry) s₁ = .ok s₂ ∧
      freeSocketInvokeidMapping (some i.object) s₂ = .ok s' ∧
      Represents s' { L with mappings := xs ++ ys } := by
  have hqueue : L.queue .socketToRecvUnicastMsg =
      xs.map itemRef ++ (i.entry, i.object) :: ys.map itemRef := by
    simp [Layout.queue, hL, itemRef]
  obtain ⟨s₁, e, s₂, hclear, hload, hnext, hfree, hs, hp⟩ := clearRef_qFree_ok hr.pool hqueue
  have hcells : cells mappingCell L.mappings = {mappingCell i} + cells mappingCell (xs ++ ys) := by
    simp only [hL, cells_append, cells_cons]
    abel
  have hqueue' : ({ L with mappings := xs ++ ys } : Layout τ).queue = Function.update L.queue
      .socketToRecvUnicastMsg (xs.map itemRef ++ ys.map itemRef) := by
    funext k
    cases k <;> simp [Layout.queue]
  have hblocks := hr.toBlocks.requeue hs
  refine ⟨s₁, e, s₂, { s₂ with mappingBlocks := s₂.mappingBlocks.drop i.object }, hclear, hload, ?_,
    hfree, ?_, { hblocks with mappingBlocks := hblocks.mappingBlocks.drop hcells, pool := ?_ }⟩
  · rw [hnext, head_refs]
  · have hne : some i.object ≠ (none : Ptr) := Option.some_ne_none _
    simp only [freeSocketInvokeidMapping, OnHeap.freeSocketInvokeidMapping, if_pos hne,
      Heap.free_ok (hblocks.mappingBlocks.get hcells), heap_ok, ok_bind]
  · rw [hqueue']
    exact hp

/-! ## Connections -/

theorem holds_connections (hr : Represents s L) :
    Holds s.connections s.queueEntries s.connectionBlocks L.connections where
  queue := by
    have hq := hr.pool.queues .connections
    rw [Layout.queue, List.map_map] at hq
    exact hq
  refs i hi := hr.pool.refs .connections (itemRef i) (List.mem_map_of_mem hi)
  objects i hi := hr.connectionBlocks.mem (mem_cells.2 ⟨i, hi, rfl⟩)
  distinct := by
    have hnodup := hr.connectionBlocks.nodup
    simpa [cells, connectionCell, Function.comp_def] using hnodup

/-- The connection at an item has changed. -/
theorem setConnection_ok (hr : Represents s L) {xs ys : List (Item Connection)}
    {i : Item Connection} (hL : L.connections = xs ++ i :: ys) (conn : Connection) :
    Represents { s with connectionBlocks := s.connectionBlocks.set i.object conn }
      { L with connections := xs ++ { i with value := conn } :: ys } := by
  have hcells : cells connectionCell L.connections =
      {connectionCell i} + (cells connectionCell xs + cells connectionCell ys) := by
    simp only [hL, cells_append, cells_cons]
    abel
  have hqueue : ({ L with connections := xs ++ { i with value := conn } :: ys } : Layout τ).queue =
      L.queue := by
    funext k
    cases k with
    | connections => simp [Layout.queue, hL, itemRef]
    | _ => rfl
  refine { hr with pool := ?_, connectionBlocks := ?_ }
  · refine (hr.connectionBlocks.set hcells conn).congr ?_
    simp only [cells_append, cells_cons, connectionCell]
    abel
  · rw [hqueue]
    exact hr.pool

theorem update_connection (hr : Represents s L) {i : Item Connection} (hi : i ∈ L.connections)
    (f : Connection → Connection) : s.connectionBlocks.update (some i.object) f =
      .ok (s.connectionBlocks.set i.object (f i.value)) :=
  Heap.update_ok (hr.connectionBlocks.mem (mem_cells.2 ⟨i, hi, rfl⟩))

end Muxer.Memory
