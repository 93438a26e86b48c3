import Mathlib.Data.List.Basic

/-! Bounded FIFO queues of bytes, the purpose of a ring buffer: a push accepts as much of the
offered bytes as fits, a pop hands out the oldest bytes. The account of a queue compares what was
accepted with what was handed out. -/

/-- A FIFO queue that holds at most `cap` bytes. -/
structure BoundedFifo (α : Type*) (cap : Nat) where
  bytes : List α
  bound : bytes.length ≤ cap

namespace BoundedFifo

variable {α : Type*} {cap : Nat}

def empty : BoundedFifo α cap := ⟨[], Nat.zero_le _⟩

def free (q : BoundedFifo α cap) : Nat := cap - q.bytes.length

/-- The prefix of `item` that fits is appended. -/
def push (q : BoundedFifo α cap) (item : List α) : BoundedFifo α cap where
  bytes := q.bytes ++ item.take q.free
  bound := by
    have := q.bound
    simp only [List.length_append, List.length_take, free]
    omega

/-- The `n` oldest bytes leave the queue, all of them if there are fewer. -/
def pop (q : BoundedFifo α cap) (n : Nat) : BoundedFifo α cap where
  bytes := q.bytes.drop n
  bound := by
    have := q.bound
    rw [List.length_drop]
    omega

/-- The bytes handed out, followed by those stored, are the bytes accepted. -/
def Account (accepted removed : List α) (q : BoundedFifo α cap) : Prop :=
  removed ++ q.bytes = accepted

variable {accepted removed : List α} {q : BoundedFifo α cap}

theorem Account.empty : Account [] [] (.empty : BoundedFifo α cap) := rfl

theorem Account.push (h : Account accepted removed q) (item : List α) :
    Account (accepted ++ item.take q.free) removed (q.push item) := by
  rw [Account, BoundedFifo.push, ← List.append_assoc]
  exact congrArg (· ++ item.take q.free) h

theorem Account.pop (h : Account accepted removed q) (n : Nat) :
    Account accepted (removed ++ q.bytes.take n) (q.pop n) := by
  rw [Account, BoundedFifo.pop, List.append_assoc, List.take_append_drop]
  exact h

theorem Account.length (h : Account accepted removed q) :
    q.bytes.length + removed.length = accepted.length := by
  rw [← show removed ++ q.bytes = accepted from h, List.length_append, Nat.add_comm]

end BoundedFifo
