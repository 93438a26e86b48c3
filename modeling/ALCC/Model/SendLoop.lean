import Mathlib.Data.List.Basic

/-! The loop in which the sender threads hand a dequeued chunk to TCP. It is the same in the three
libraries:

    z = 0;
    while (z < size) {
      ret = ::send(sockfd, data + z, size - z, 0);
      z += ret;
    }

`::send` returns the number of bytes it took, or `-1`. -/

namespace ALCC

/-- The variables of the loop. `data i` is the byte at the address `data + i`; only the first
`size` of them belong to the chunk. -/
structure SendLoop (α : Type*) where
  data : Int → α
  size : Nat
  z : Int

namespace SendLoop

variable {α : Type*}

/-- The loop about to send `chunk`, which stands at `data` in the memory `heap`. -/
def start (heap : Int → α) (chunk : List α) : SendLoop α where
  data i := if 0 ≤ i then chunk.getD i.toNat (heap i) else heap i
  size := chunk.length
  z := 0

/-- The addresses offered to `::send`, relative to `data`. -/
def offered (l : SendLoop α) : List Int :=
  (List.range (l.size - l.z).toNat).map fun i : Nat => l.z + i

/-- The results `::send` may have. -/
def MayReturn (l : SendLoop α) (ret : Int) : Prop := ret = -1 ∨ 1 ≤ ret ∧ ret ≤ l.size - l.z

instance (l : SendLoop α) (ret : Int) : Decidable (l.MayReturn ret) :=
  inferInstanceAs (Decidable (_ ∨ _))

/-- The bytes that a call of `::send` with result `ret` has taken. -/
def taken (l : SendLoop α) (ret : Int) : List α := (l.offered.take ret.toNat).map l.data

/-- `z += ret`. -/
def advance (l : SendLoop α) (ret : Int) : SendLoop α := { l with z := l.z + ret }

end SendLoop

/-- A sender thread seen from TCP: the chunks it dequeued, and the bytes TCP took. -/
structure ChunkSender (α : Type*) where
  loop : SendLoop α
  dequeued : List α
  tcp : List α

inductive ChunkSender.Action (α : Type*) where
  /-- `remove` yields a chunk, and the loop begins. -/
  | dequeue (chunk : List α)
  /-- A call of `::send` returns. -/
  | send (ret : Int)

namespace ChunkSender

variable {α : Type*}

/-- Before the first chunk. The memory around the buffer is arbitrary. -/
def init (heap : Int → α) : ChunkSender α := ⟨.start heap [], [], []⟩

/-- `remove` is called once the previous chunk is through, and an empty chunk is not sent. -/
def step (s : ChunkSender α) : Action α → Option (ChunkSender α)
  | .dequeue chunk =>
    if s.loop.z < s.loop.size ∨ chunk = [] then
      none
    else
      some { s with loop := .start s.loop.data chunk, dequeued := s.dequeued ++ chunk }
  | .send ret =>
    if s.loop.z < s.loop.size ∧ s.loop.MayReturn ret then
      some { s with loop := s.loop.advance ret, tcp := s.tcp ++ s.loop.taken ret }
    else
      none

end ChunkSender

end ALCC
