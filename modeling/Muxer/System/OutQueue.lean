import Muxer.Spec.Queue

/-!
# The queue `w_out_messages` between its two threads

`write_data_to_out_buffer` takes an entry in `csec_w_out_messages`, but frees it once it has left it:
its `q_free` reads the queue while `put_pdu_into_w_out_messages` puts the next entries. Here a step
reads or writes once what the threads share. `q_get` is one step, as the other thread is not in the
critical section then. The entries of other queues are left out.
-/

namespace Muxer.OutQueue

open Lib

/-- Where the processing thread is in `q_put`, with the entry it puts. -/
inductive PutPc
  | idle
  /-- At `m_qe = q->head`. -/
  | find (qe : Addr)
  /-- At the round for `m_qe` of the loop that looks for `qe`. -/
  | findRound (qe mQe : Addr)
  | testTail (qe : Addr)
  | assertHead (qe : Addr)
  /-- At `q->tail->next = qe`, and then with `q->tail` read. -/
  | readTail (qe : Addr)
  | linkTail (qe : Addr) (tail : Ptr)
  | clearNext (qe : Addr)
  | setTail (qe : Addr)
  | testHead (qe : Addr)
  | assertTail (qe : Addr)
  | setHead (qe : Addr)
  | setTimestamp (qe : Addr)
deriving DecidableEq

/-- Where the writer is in `q_free`. -/
inductive FreePc
  /-- At `if (q->head == NULL) assert(q->tail == NULL)`. -/
  | testEmpty
  | assertEmpty
  /-- At `if (q->head != NULL)`. -/
  | testHead
  /-- At `if (qe == q->head && qe == q->tail)`. -/
  | onlyHead
  | onlyTail
  | assertOnly
  /-- At `q->head = q->tail = NULL`. -/
  | clearTail
  | clearHead
  /-- At `if (qe == q->head && qe != q->tail)`. -/
  | firstHead
  | firstTail
  | assertFirst
  | popHead
  /-- At `m_qe_prev = q->head`, and then at `m_qe = q->head->next`. -/
  | initPrev
  | readHead (mQePrev : Ptr)
  | init (mQePrev head : Ptr)
  /-- In the loop, at its assertions. -/
  | loopHead (mQePrev : Ptr) (mQe : Addr)
  | loopTail (mQePrev : Ptr) (mQe : Addr)
  /-- At `m_qe_prev->next = m_qe->next`, and then at `m_qe = m_qe->next`. -/
  | relink (mQePrev : Ptr) (mQe : Addr)
  | skip (mQePrev : Ptr) (mQe : Addr)
  | advance (mQe : Addr)
  /-- At `if (qe != q->head && qe == q->tail)`. -/
  | lastHead (mQePrev : Ptr)
  | lastTail (mQePrev : Ptr)
  | assertLast (mQePrev : Ptr)
  | setTail (mQePrev : Ptr)
  | free
deriving DecidableEq

/-- The queue, the entries, the two threads, and the entries put and taken so far. -/
structure State where
  queue : Queue
  entries : Heap QueueEntry
  putter : PutPc
  freer : Option (Addr × FreePc)
  put : List Addr
  got : List Addr

/-- The start: the queue is empty. -/
def State.start : State where
  queue := .empty
  entries := .empty
  putter := .idle
  freer := none
  put := []
  got := []

def State.puts (w : State) (pc : PutPc) : State := { w with putter := pc }

def State.frees (w : State) (qe : Addr) (pc : FreePc) : State := { w with freer := some (qe, pc) }

/-- `q_alloc` for the message at `ref`, and `EnterCriticalSection`. -/
def begin (w : State) (qe ref : Addr) : Except Trap State := do
  let (_, entries) ← qAlloc (some ref) qe w.entries
  .ok ({ w with entries := entries }.puts (.find qe))

/-- `q_put` goes on from where it is, where `time` gives `timestamp`. -/
def putStep (w : State) (timestamp : ℤ) : Except Trap State :=
  match w.putter with
  | .idle => .ok w
  | .find qe =>
    match w.queue.head with
    | none => .ok (w.puts (.testTail qe))
    | some mQe => .ok (w.puts (.findRound qe mQe))
  | .findRound qe mQe =>
    if mQe = qe then .ok (w.puts .idle)
    else do
      let m ← w.entries.load (some mQe)
      match m.next with
      | none => .ok (w.puts (.testTail qe))
      | some mQe => .ok (w.puts (.findRound qe mQe))
  | .testTail qe => .ok (w.puts (if w.queue.tail ≠ none then .assertHead qe else .clearNext qe))
  | .assertHead qe => do
    assertThat (w.queue.head ≠ none)
    .ok (w.puts (.readTail qe))
  | .readTail qe => .ok (w.puts (.linkTail qe w.queue.tail))
  | .linkTail qe tail => do
    let entries ← w.entries.update tail fun e => { e with next := some qe }
    .ok ({ w with entries := entries }.puts (.clearNext qe))
  | .clearNext qe => do
    let entries ← w.entries.update (some qe) fun e => { e with next := none }
    .ok ({ w with entries := entries }.puts (.setTail qe))
  | .setTail qe => .ok ({ w with queue := { w.queue with tail := some qe } }.puts (.testHead qe))
  | .testHead qe =>
    .ok (w.puts (if w.queue.head = none then .assertTail qe else .setTimestamp qe))
  | .assertTail qe => do
    assertThat (w.queue.tail ≠ none)
    .ok (w.puts (.setHead qe))
  | .setHead qe =>
    .ok ({ w with queue := { w.queue with head := some qe } }.puts (.setTimestamp qe))
  | .setTimestamp qe => do
    let entries ← w.entries.update (some qe) fun e => { e with timestamp := some timestamp }
    .ok ({ w with entries := entries, put := w.put ++ [qe] }.puts .idle)

/-- `q_get`, and its critical section. -/
def get (w : State) : Except Trap State := do
  let (qe, queue) ← qGet w.queue w.entries
  match qe with
  | none => .ok { w with queue := queue }
  | some qe => .ok ({ w with queue := queue, got := w.got ++ [qe] }.frees qe .testEmpty)

/-- The loop of `q_free`, at its test for `m_qe`. -/
def FreePc.loop (mQePrev : Ptr) : Ptr → FreePc
  | none => .lastHead mQePrev
  | some mQe => .loopHead mQePrev mQe

/-- `q_free` of `qe` goes on from `pc`. -/
def freeStep (w : State) (qe : Addr) : FreePc → Except Trap State
  | .testEmpty => .ok (w.frees qe (if w.queue.head = none then .assertEmpty else .testHead))
  | .assertEmpty => do
    assertThat (w.queue.tail = none)
    .ok (w.frees qe .testHead)
  | .testHead => .ok (w.frees qe (if w.queue.head ≠ none then .onlyHead else .free))
  | .onlyHead => .ok (w.frees qe (if some qe = w.queue.head then .onlyTail else .firstHead))
  | .onlyTail => .ok (w.frees qe (if some qe = w.queue.tail then .assertOnly else .firstHead))
  | .assertOnly => do
    assertThat (w.queue.head = w.queue.tail)
    .ok (w.frees qe .clearTail)
  | .clearTail => .ok ({ w with queue := { w.queue with tail := none } }.frees qe .clearHead)
  | .clearHead => .ok ({ w with queue := { w.queue with head := none } }.frees qe .free)
  | .firstHead => .ok (w.frees qe (if some qe = w.queue.head then .firstTail else .initPrev))
  | .firstTail => .ok (w.frees qe (if some qe ≠ w.queue.tail then .assertFirst else .initPrev))
  | .assertFirst => do
    assertThat (w.queue.tail ≠ none)
    .ok (w.frees qe .popHead)
  | .popHead => do
    let e ← w.entries.load w.queue.head
    .ok ({ w with queue := { w.queue with head := e.next } }.frees qe .free)
  | .initPrev => .ok (w.frees qe (.readHead w.queue.head))
  | .readHead mQePrev => .ok (w.frees qe (.init mQePrev w.queue.head))
  | .init mQePrev head => do
    let e ← w.entries.load head
    .ok (w.frees qe (.loop mQePrev e.next))
  | .loopHead mQePrev mQe => do
    assertThat (w.queue.head ≠ none)
    .ok (w.frees qe (.loopTail mQePrev mQe))
  | .loopTail mQePrev mQe => do
    assertThat (w.queue.tail ≠ none)
    assertThat (mQePrev ≠ none)
    .ok (w.frees qe (if mQe = qe then .relink mQePrev mQe else .advance mQe))
  | .relink mQePrev mQe => do
    let m ← w.entries.load (some mQe)
    let entries ← w.entries.update mQePrev fun e => { e with next := m.next }
    .ok ({ w with entries := entries }.frees qe (.skip mQePrev mQe))
  | .skip mQePrev mQe => do
    let m ← w.entries.load (some mQe)
    .ok (w.frees qe (.loop mQePrev m.next))
  | .advance mQe => do
    let m ← w.entries.load (some mQe)
    .ok (w.frees qe (.loop (some mQe) m.next))
  | .lastHead mQePrev =>
    .ok (w.frees qe (if some qe ≠ w.queue.head then .lastTail mQePrev else .free))
  | .lastTail mQePrev =>
    .ok (w.frees qe (if some qe = w.queue.tail then .assertLast mQePrev else .free))
  | .assertLast mQePrev => do
    assertThat (w.queue.head ≠ none)
    assertThat (mQePrev ≠ none)
    .ok (w.frees qe (.setTail mQePrev))
  | .setTail mQePrev => .ok ({ w with queue := { w.queue with tail := mQePrev } }.frees qe .free)
  | .free => do
    let entries ← w.entries.free (some qe)
    .ok { w with entries := entries, freer := none }

inductive Action
  | begin (qe ref : Addr)
  | put (timestamp : ℤ)
  | get
  | free

/-- One step of a thread: the state it leads to, or how it ends the program. -/
inductive Step : State → Action → Except Trap State → Prop
  /-- `memalloc` gives an address that is not allocated. -/
  | begin (w qe ref) : w.putter = .idle → w.entries.get qe = none →
      Step w (.begin qe ref) (begin w qe ref)
  | put (w timestamp) : w.putter ≠ .idle → Step w (.put timestamp) (putStep w timestamp)
  /-- The processing thread is not in `csec_w_out_messages`. -/
  | get (w) : w.putter = .idle → w.freer = none → Step w .get (get w)
  | free (w qe pc) : w.freer = some (qe, pc) → Step w .free (freeStep w qe pc)

/-- A step that does not end the program. -/
def Goes (w : State) (a : Action) (w' : State) : Prop := Step w a (.ok w')

end Muxer.OutQueue
