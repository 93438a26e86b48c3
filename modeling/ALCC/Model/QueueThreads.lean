import ALCC.Model.CircularQueue

/-! One producer in `insert` and one consumer in `remove` on the same queue. `insert` reads
`front` up to three times before it takes `lockBuffer`: in the test `front == rear`, in the test
`front < rear` and in the clamp itself. Each read is a step here. The bodies under `lockBuffer`
are one step each; `rear` is written by the producer only. -/

namespace ALCC

/-- Where the producer is. The length carried along is the current value of `len`. -/
inductive InsertPc (α : Type*) where
  /-- Outside of `insert`. -/
  | idle
  /-- At `if (front == rear)`. -/
  | testEmpty (item : List α) (len : Int)
  /-- At `else if (front < rear)`. -/
  | testOrder (item : List α) (len : Int)
  /-- At `len = fmin(len, MAX - rear + front - 1)`. -/
  | clampAround (item : List α) (len : Int)
  /-- At `len = fmin(len, front - rear - 1)`. -/
  | clampBetween (item : List α) (len : Int)
  /-- At `if (len == 0)` and the locked copy that follows. -/
  | copy (item : List α) (len : Int)
  /-- A `memcpy` has left its arrays; the behaviour of the process is undefined. -/
  | fault

structure QueueThreads (α : Type*) where
  queue : CircularQueue α
  pc : InsertPc α
  /-- The bytes `insert` has copied in. -/
  accepted : List α
  /-- The bytes `remove` has copied out. -/
  removed : List α

inductive QueueThreads.Action (α : Type*) where
  /-- The producer calls `insert(item, len)`. -/
  | call (item : List α) (len : Nat)
  /-- The next step of the producer inside `insert`. -/
  | insert
  /-- The consumer runs `remove(chunk, len)`. -/
  | remove (chunk : List α) (len : Nat)

namespace QueueThreads

variable {α : Type*}

def init (cqueueArr : List α) : QueueThreads α := ⟨.new cqueueArr, .idle, [], []⟩

/-- One step of the producer inside `insert`. -/
def insertStep (s : QueueThreads α) : Option (QueueThreads α) :=
  match s.pc with
  | .idle | .fault => none
  | .testEmpty item len =>
    if s.queue.front = s.queue.rear then
      some { s with pc := .copy item (min len s.queue.MAX) }
    else
      some { s with pc := .testOrder item len }
  | .testOrder item len =>
    if s.queue.front < s.queue.rear then
      some { s with pc := .clampAround item len }
    else
      some { s with pc := .clampBetween item len }
  | .clampAround item len =>
    some { s with pc := .copy item (min len (s.queue.MAX - s.queue.rear + s.queue.front - 1)) }
  | .clampBetween item len =>
    some { s with pc := .copy item (min len (s.queue.front - s.queue.rear - 1)) }
  | .copy item len =>
    if len = 0 then
      some { s with pc := .idle }
    else
      match s.queue.copyIn item len with
      | some queue =>
        some { s with queue, pc := .idle, accepted := s.accepted ++ item.take len.toNat }
      | none => some { s with pc := .fault }

/-- One step of either thread. The producer passes a length below `MAX`, and buffers are as long
as their lengths say. -/
def step (s : QueueThreads α) : Action α → Option (QueueThreads α)
  | .call item len =>
    match s.pc with
    | .idle =>
      if len < s.queue.MAX ∧ len ≤ item.length then
        some { s with pc := .testEmpty item len }
      else
        none
    | _ => none
  | .insert => s.insertStep
  | .remove chunk len =>
    match s.pc with
    | .fault => none
    | _ =>
      if len ≤ chunk.length then
        match s.queue.remove chunk len with
        | some (queue, chunk, ret) =>
          some { s with queue, removed := s.removed ++ chunk.take ret.toNat }
        | none => some { s with pc := .fault }
      else
        none

end QueueThreads

end ALCC
