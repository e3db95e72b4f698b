import Muxer.Spec.Queue

/-!
# The use of a queue

A program allocates entries and calls `q_put`, `q_get` and `q_free` on them, in any order. It
passes allocated entries only: new ones, ones that are in the queue, and ones `q_get` returned. An
address may be allocated again once it was freed. `Op.onList` is what each call is for, on the
list of the entries in the queue.
-/

namespace Muxer.Queues

open Lib

inductive Op
  | alloc (qe ref : Addr)
  | put (qe : Addr) (timestamp : ℤ)
  | get
  | free (qe : Addr)
deriving DecidableEq

structure State where
  queue : Queue
  heap : Heap QueueEntry

/-- An empty queue, whatever has been allocated. -/
def State.start (heap : Heap QueueEntry) : State := ⟨.empty, heap⟩

/-- What the caller and `malloc` keep to. -/
def Op.Allowed (s : State) : Op → Prop
  | alloc qe _ => s.heap.get qe = none
  | put qe _ => (s.heap.get qe).isSome
  | get => True
  | free qe => (s.heap.get qe).isSome

/-- The call, and the pointer it returns. -/
def Op.call (s : State) : Op → Except Trap (Ptr × State)
  | alloc qe ref => do
    let (p, heap) ← qAlloc (some ref) qe s.heap
    .ok (p, { s with heap := heap })
  | put qe timestamp => do
    let (p, queue, heap) ← qPut s.queue (some qe) timestamp s.heap
    .ok (p, ⟨queue, heap⟩)
  | get => do
    let (p, queue) ← qGet s.queue s.heap
    .ok (p, { s with queue := queue })
  | free qe => do
    let (queue, heap) ← qFree s.queue (some qe) s.heap
    .ok (none, ⟨queue, heap⟩)

/-- The call on a list: append if absent, pop the head, erase. -/
def Op.onList (l : List Addr) : Op → Ptr × List Addr
  | alloc qe _ => (some qe, l)
  | put qe _ => (some qe, if qe ∈ l then l else l ++ [qe])
  | get => (l.head?, l.tail)
  | free qe => (none, l.erase qe)

/-- The list after the calls `ops`. -/
def contents (ops : List Op) : List Addr := ops.foldl (fun l op => (op.onList l).2) []

/-- A call that returns. -/
def Step (s : State) (op : Op) (s' : State) : Prop :=
  op.Allowed s ∧ ∃ p, op.call s = .ok (p, s')

def State.follow (s : State) (qe : Addr) (u : Unit) : Except Trap (Ptr × Unit) := do
  let e ← s.heap.load (some qe)
  .ok (e.next, u)

/-- The entries met from `head` along `next`, up to `NULL`. -/
def State.chain (s : State) : Except Trap (List Addr) := do
  let (visited, _) ← whileSome s.follow s.heap.size s.queue.head ()
  .ok visited

end Muxer.Queues
