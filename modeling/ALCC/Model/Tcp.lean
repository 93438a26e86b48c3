import ALCC.Model.AckStream
import ALCC.Model.Connection

/-! A connection with TCP around it. The kernel module reports the segments of the connection to the
receiver thread: those with bytes that `::send` took, and those of the peer, which acknowledge
bytes. -/

namespace ALCC

/-- The receiver thread of a library. `κ` is what the clock shows it upon a message. -/
structure Receiver (β ε κ : Type*) where
  /-- It is about to take a message. -/
  waits : β → Bool
  /-- It has processed the messages it took. -/
  idle : β → Bool
  /-- The step that takes a message. -/
  takes : Message → κ → ε
  /-- The steps of the threads that take no message. -/
  silent : ε → Bool
  /-- The packets that the library counts as outstanding. -/
  outstanding : β → Int

/-- A connection, and the largest count of bytes whose acknowledgement the receiver thread took. -/
structure Tcp (α β τ : Type*) where
  conn : Connection α β τ
  acked : Nat

namespace Tcp

open AckStream

variable {α β ε τ κ : Type*}

def init (cqueueArr : List α) (data : Int → α) (sock : β) : Tcp α β τ where
  conn := .init cqueueArr data sock
  acked := 0

inductive Action (α ε τ κ : Type*) where
  /-- A step of the connection in which no message is taken. -/
  | act (a : Connection.Action α ε τ)
  /-- The receiver thread takes the header of a segment that was sent. -/
  | segment (m : Message) (clock : κ)
  /-- The receiver thread takes the header of a segment of the peer. -/
  | ack (a : Ack κ)

/-- The step of the connection in an action. -/
def Action.conn (R : Receiver β ε κ) : Action α ε τ κ → Connection.Action α ε τ
  | .act a => a
  | .segment m clock => .thread (R.takes m clock)
  | .ack a => .thread (R.takes a.msg a.clock)

/-- The largest acknowledged count after an action. -/
def Action.acked (acked : Nat) : Action α ε τ κ → Nat
  | .ack a => max acked a.bytes
  | _ => acked

/-- What may happen. The first byte of the stream has the sequence number `first`. -/
def Enabled (R : Receiver β ε κ) (first : Nat) (s : Tcp α β τ) : Action α ε τ κ → Prop
  | .act (.thread e) => R.silent e = true
  | .act _ => True
  | .segment m _ => R.waits s.conn.sock = true ∧ m.src_port = CC_PORT
  | .ack a => R.waits s.conn.sock = true ∧ a.msg.src_port ≠ CC_PORT ∧
      a.msg.ack_seq.toNat = (first + a.bytes) % 2 ^ 32 ∧ AnyOrder s.acked a.bytes ∧
      a.bytes ≤ s.conn.handed.length

instance (R : Receiver β ε κ) (first : Nat) (s : Tcp α β τ) (a : Action α ε τ κ) :
    Decidable (s.Enabled R first a) := by
  unfold Enabled
  split <;> infer_instance

def step (L : Library β ε τ) (R : Receiver β ε κ) (first : Nat) (s : Tcp α β τ)
    (a : Action α ε τ κ) : Option (Tcp α β τ) :=
  if s.Enabled R first a then
    (s.conn.step L (a.conn R)).map fun conn => ⟨conn, a.acked s.acked⟩
  else
    none

theorem step_cases {L : Library β ε τ} {R : Receiver β ε κ} {first : Nat} {s t : Tcp α β τ}
    {a : Action α ε τ κ} (h : step L R first s a = some t) :
    s.Enabled R first a ∧ s.conn.step L (a.conn R) = some t.conn ∧ t.acked = a.acked s.acked := by
  rw [step] at h
  split at h
  · rename_i henabled
    obtain ⟨conn, hconn, rfl⟩ := Option.map_eq_some_iff.mp h
    exact ⟨henabled, hconn, rfl⟩
  · cases h

end Tcp

end ALCC
