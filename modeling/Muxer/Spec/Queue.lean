import Muxer.Lib.Heap

/-!
# Pointer queues (`common/queue.h`, `common/queue.c`)

The entries lie on a heap and are linked by their `next` fields; a queue is a pointer to its
first entry and one to its last. The functions read and write what the source does, in the same
order. What `memalloc` and `time` give is a parameter, and `memalloc` is taken to succeed.
-/

namespace Muxer

open Lib

/-- `queue_entry_t`. No timestamp is set before `q_put`. -/
structure QueueEntry where
  next : Ptr
  timestamp : Option ℤ
  ref : Ptr
deriving DecidableEq

/-- `queue_t`. -/
structure Queue where
  head : Ptr
  tail : Ptr
deriving DecidableEq

/-- As the queues are initialised. -/
def Queue.empty : Queue := ⟨none, none⟩

/-- `q_alloc`, where `memalloc` gives the address `qe`. -/
def qAlloc (p : Ptr) (qe : Addr) (h : Heap QueueEntry) : Except Trap (Ptr × Heap QueueEntry) := do
  assertThat (p ≠ none)
  .ok (some qe, h.set qe ⟨none, none, p⟩)

/-- A round of the loop `q_free` scans the queue with, for `m_qe`. It goes on past a match. -/
def qFreeRound (q : Queue) (qe : Ptr) (mQe : Addr) :
    Ptr × Heap QueueEntry → Except Trap (Ptr × Ptr × Heap QueueEntry)
  | (mQePrev, h) => do
    assertThat (q.head ≠ none)
    assertThat (q.tail ≠ none)
    assertThat (mQePrev ≠ none)
    if some mQe = qe then
      let m ← h.load (some mQe)
      let h ← h.update mQePrev fun e => { e with next := m.next }
      let m ← h.load (some mQe)
      .ok (m.next, mQePrev, h)
    else
      let m ← h.load (some mQe)
      .ok (m.next, some mQe, h)

/-- What `q_free` does where `qe` is not the head of a queue that is not empty. -/
def qFreeScan (q : Queue) (qe : Ptr) (h : Heap QueueEntry) :
    Except Trap (Queue × Heap QueueEntry) := do
  let e ← h.load q.head
  let (_, mQePrev, h) ← whileSome (qFreeRound q qe) h.size e.next (q.head, h)
  -- here `m_qe` is `NULL`, which the source asserts
  if qe ≠ q.head ∧ qe = q.tail then
    assertThat (q.head ≠ none)
    assertThat (mQePrev ≠ none)
    .ok ({ q with tail := mQePrev }, h)
  else .ok (q, h)

/-- `q_free` up to the call of `free`. -/
def qUnlink (q : Queue) (qe : Ptr) (h : Heap QueueEntry) :
    Except Trap (Queue × Heap QueueEntry) :=
  if q.head = none then do
    assertThat (q.tail = none)
    .ok (q, h)
  else if qe = q.head ∧ qe = q.tail then do
    assertThat (q.head = q.tail)
    .ok ({ q with head := none, tail := none }, h)
  else if qe = q.head ∧ qe ≠ q.tail then do
    assertThat (q.tail ≠ none)
    let e ← h.load q.head
    .ok ({ q with head := e.next }, h)
  else qFreeScan q qe h

/-- `q_free`. -/
def qFree (q : Queue) (qe : Ptr) (h : Heap QueueEntry) :
    Except Trap (Queue × Heap QueueEntry) := do
  assertThat (qe ≠ none)
  let (q, h) ← qUnlink q qe h
  let h ← h.free qe
  .ok (q, h)

/-- A round of the loop `q_put` looks for `qe` with: a match is returned at once. -/
def qPutRound (qe : Ptr) (h : Heap QueueEntry) (mQe : Addr) (found : Bool) :
    Except Trap (Ptr × Bool) :=
  if some mQe = qe then .ok (none, true)
  else do
    let m ← h.load (some mQe)
    .ok (m.next, found)

/-- What `q_put` does with an entry that is not in the queue. -/
def qAppend (q : Queue) (qe : Ptr) (timestamp : ℤ) (h : Heap QueueEntry) :
    Except Trap (Queue × Heap QueueEntry) := do
  let h ← if q.tail ≠ none then do
      assertThat (q.head ≠ none)
      h.update q.tail fun e => { e with next := qe }
    else .ok h
  let h ← h.update qe fun e => { e with next := none }
  let q := { q with tail := qe }
  let q ← if q.head = none then do
      assertThat (q.tail ≠ none)
      .ok { q with head := qe }
    else .ok q
  let h ← h.update qe fun e => { e with timestamp := some timestamp }
  .ok (q, h)

/-- `q_put`, where `time` gives `timestamp`. -/
def qPut (q : Queue) (qe : Ptr) (timestamp : ℤ) (h : Heap QueueEntry) :
    Except Trap (Ptr × Queue × Heap QueueEntry) := do
  assertThat (qe ≠ none)
  let (_, found) ← whileSome (qPutRound qe h) h.size q.head false
  if found then .ok (qe, q, h)
  else
    let (q, h) ← qAppend q qe timestamp h
    .ok (qe, q, h)

/-- `q_get`. -/
def qGet (q : Queue) (h : Heap QueueEntry) : Except Trap (Ptr × Queue) :=
  let qe := q.head
  let q := if q.tail = qe then { q with tail := none } else q
  if qe = none then .ok (none, q)
  else do
    let e ← h.load qe
    .ok (qe, { q with head := e.next })

end Muxer
