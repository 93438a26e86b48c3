import ALCC.Model.Kernel
import Mathlib.Algebra.Group.Nat.Defs

/-! Acknowledgements of one TCP byte stream on their way to a receiver thread. A message
acknowledges a count of bytes, and carries the sequence number of the next byte modulo `2 ^ 32`.
`β` is the state that the message handler works on, and `κ` what the clock shows it. -/

namespace ALCC

/-- A handler's state and the largest count of bytes acknowledged so far. -/
structure AckStream (β : Type*) where
  sock : β
  acked : Nat

/-- A message that acknowledges `bytes` bytes. -/
structure Ack (κ : Type*) where
  msg : Message
  bytes : Nat
  clock : κ

namespace AckStream

variable {β κ : Type*}

/-- TCP acknowledges more and more bytes. -/
def InOrder (acked bytes : Nat) : Prop := acked ≤ bytes ∧ bytes < acked + 2 ^ 31

/-- Messages overtake each other. -/
def AnyOrder (acked bytes : Nat) : Prop := acked ≤ bytes + 2 ^ 31 ∧ bytes ≤ acked + 2 ^ 31

instance (acked bytes : Nat) : Decidable (InOrder acked bytes) :=
  inferInstanceAs (Decidable (_ ∧ _))

instance (acked bytes : Nat) : Decidable (AnyOrder acked bytes) :=
  inferInstanceAs (Decidable (_ ∧ _))

/-- A message reaches the handler. The first byte of the stream has the number `first`. -/
def step (handler : β → κ → Message → Option β) (MayFollow : Nat → Nat → Prop)
    [∀ acked bytes, Decidable (MayFollow acked bytes)] (first : Nat) (s : AckStream β) (a : Ack κ) :
    Option (AckStream β) :=
  if a.msg.src_port ≠ CC_PORT ∧ a.msg.ack_seq.toNat = (first + a.bytes) % 2 ^ 32 ∧
      MayFollow s.acked a.bytes then
    (handler s.sock a.clock a.msg).map fun sock => ⟨sock, max s.acked a.bytes⟩
  else
    none

/-- The whole packets of the larger of two counts. -/
theorem max_div (acked bytes MTU : Nat) :
    max acked bytes / MTU = max (acked / MTU) (bytes / MTU) := by
  rcases Nat.le_total acked bytes with h | h
  · rw [Nat.max_eq_right h, Nat.max_eq_right (Nat.div_le_div_right h)]
  · rw [Nat.max_eq_left h, Nat.max_eq_left (Nat.div_le_div_right h)]

theorem step_cases {handler : β → κ → Message → Option β} {MayFollow : Nat → Nat → Prop}
    [∀ acked bytes, Decidable (MayFollow acked bytes)] {first : Nat} {s t : AckStream β} {a : Ack κ}
    (h : step handler MayFollow first s a = some t) :
    a.msg.src_port ≠ CC_PORT ∧ a.msg.ack_seq.toNat = (first + a.bytes) % 2 ^ 32 ∧
      MayFollow s.acked a.bytes ∧ handler s.sock a.clock a.msg = some t.sock ∧
      t.acked = max s.acked a.bytes := by
  rw [step] at h
  split at h
  · rename_i henabled
    obtain ⟨sock, hsock, rfl⟩ := Option.map_eq_some_iff.mp h
    exact ⟨henabled.1, henabled.2.1, henabled.2.2, hsock, rfl⟩
  · cases h

end AckStream

end ALCC
