import ALCC.Theory.Memory

/-! The sending queue `Circular_Queue` of `libalcc.cpp`; `libalcc_verus.cpp` and
`libalcc_copa.cpp` repeat it line by line. All values of the `int` arithmetic stay between
`-MAX` and `2 * MAX`, and `fmin` on such values is exact. -/

namespace ALCC

open Memory

/-- `class Circular_Queue`, without `lockBuffer`. -/
structure CircularQueue (α : Type*) where
  cqueueArr : List α
  front : Nat
  rear : Nat
  MAX : Nat

namespace CircularQueue

variable {α : Type*}

/-- The constructor. `new char[MAX]` leaves the bytes of the array unspecified. -/
def new (cqueueArr : List α) : CircularQueue α where
  cqueueArr
  front := 0
  rear := 0
  MAX := cqueueArr.length

/-- The clamp of `len` that starts `insert`. It runs before `lockBuffer` is taken. -/
def clamp (q : CircularQueue α) (len : Int) : Int :=
  if q.front = q.rear then
    min len q.MAX
  else if q.front < q.rear then
    min len (q.MAX - q.rear + q.front - 1)
  else
    min len (q.front - q.rear - 1)

/-- The part of `insert` that holds `lockBuffer`. -/
def copyIn (q : CircularQueue α) (item : List α) (len : Int) : Option (CircularQueue α) :=
  if (q.front ≤ q.rear ∧ q.MAX - q.rear - 1 ≥ len) ∨ q.rear < q.front then do
    let cqueueArr ← memcpy q.cqueueArr q.rear item 0 len
    return { q with cqueueArr, rear := ((q.rear + len) % q.MAX).toNat }
  else do
    let cqueueArr ← memcpy q.cqueueArr q.rear item 0 (q.MAX - q.rear)
    let cqueueArr ← memcpy cqueueArr 0 item (q.MAX - q.rear) (len - (q.MAX - q.rear))
    return { q with cqueueArr, rear := (len - (q.MAX - q.rear)).toNat }

/-- `insert(item, len)` with its return value; `none` when a `memcpy` leaves its arrays. -/
def insert (q : CircularQueue α) (item : List α) (len : Int) : Option (CircularQueue α × Int) :=
  let len := q.clamp len
  if len = 0 then
    some (q, len)
  else
    (q.copyIn item len).map (·, len)

/-- `remove(chunk, len)` with the chunk it fills and its return value; `none` when a `memcpy`
leaves its arrays. -/
def remove (q : CircularQueue α) (chunk : List α) (len : Int) :
    Option (CircularQueue α × List α × Int) :=
  if q.front = q.rear then
    some (q, chunk, 0)
  else
    let len :=
      if q.front < q.rear then min len (q.rear - q.front)
      else min len (q.MAX - q.front + q.rear)
    if q.front < q.rear ∨ (q.rear < q.front ∧ q.MAX - q.front ≥ len) then do
      let chunk ← memcpy chunk 0 q.cqueueArr q.front len
      return ({ q with front := ((q.front + len) % q.MAX).toNat }, chunk, len)
    else do
      let chunk ← memcpy chunk 0 q.cqueueArr q.front (q.MAX - q.front)
      let chunk ← memcpy chunk (q.MAX - q.front) q.cqueueArr 0 (len - (q.MAX - q.front))
      return ({ q with front := (len - (q.MAX - q.front)).toNat }, chunk, len)

/-- `length()`. -/
def length (q : CircularQueue α) : Int :=
  if q.front ≤ q.rear then q.rear - q.front else q.MAX - q.front + q.rear

end CircularQueue

end ALCC
