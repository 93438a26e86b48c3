import Mathlib.Data.List.Basic

/-! The class `circular_buffer` of `libalcc_verus.cpp`, the byte-at-a-time version of the sending
queue. The overload of `insert` with a log has the same body. -/

namespace ALCC

/-- `class circular_buffer`, without `mutex_`. -/
structure CircularBuffer (α : Type*) where
  buf : List α
  head : Nat
  tail : Nat
  size : Nat
  filled : Int

namespace CircularBuffer

variable {α : Type*}

/-- The constructor. `new char[size]` leaves the bytes of the array unspecified. -/
def new (buf : List α) : CircularBuffer α where
  buf
  head := 0
  tail := 0
  size := buf.length
  filled := 0

def empty (b : CircularBuffer α) : Bool := b.head == b.tail

def full (b : CircularBuffer α) : Bool := (b.head + 1) % b.size == b.tail

def put (b : CircularBuffer α) (item : α) : CircularBuffer α :=
  let head := (b.head + 1) % b.size
  { b with
    buf := b.buf.set b.head item
    head
    tail := if head = b.tail then (b.tail + 1) % b.size else b.tail
    filled := b.filled + 1 }

/-- `get()`, where `nul` is the byte `'\0'`. -/
def get (nul : α) (b : CircularBuffer α) : CircularBuffer α × α :=
  if b.empty then
    (b, nul)
  else
    ({ b with tail := (b.tail + 1) % b.size, filled := b.filled - 1 }, b.buf.getD b.tail nul)

/-- The loop of `insert` over the bytes `item[i]`, …, `item[len-1]`, and how many it puts. -/
def insertLoop (b : CircularBuffer α) : List α → CircularBuffer α × Nat
  | [] => (b, 0)
  | x :: rest =>
    if b.full then
      (b, 0)
    else
      let (b, n) := (b.put x).insertLoop rest
      (b, n + 1)

/-- `insert(item, len)` with its return value. -/
def insert (b : CircularBuffer α) (item : List α) (len : Nat) : CircularBuffer α × Nat :=
  b.insertLoop (item.take len)

/-- The loop of `remove` from the index `i` on, with the rounds left. -/
def removeLoop (nul : α) (b : CircularBuffer α) (chunk : List α) (i : Nat) :
    Nat → CircularBuffer α × List α
  | 0 => (b, chunk)
  | left + 1 =>
    if b.empty then
      b.removeLoop nul chunk (i + 1) left
    else
      (b.get nul).1.removeLoop nul (chunk.set i (b.get nul).2) (i + 1) left

/-- `remove(chunk, len)` with the chunk it fills and its return value. It writes `chunk[len]`. -/
def remove (nul : α) (b : CircularBuffer α) (chunk : List α) (len : Nat) :
    CircularBuffer α × List α × Nat :=
  let (b, chunk) := b.removeLoop nul chunk 0 len
  (b, chunk.set len nul, len)

def length (b : CircularBuffer α) : Int := b.filled

end CircularBuffer

end ALCC
