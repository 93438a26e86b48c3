import ALCC.Model.AckStream
import ALCC.Model.Verus
import Mathlib.Logic.Function.Basic

/-! A connection of `libalcc_verus.cpp` that may restart: `ALCCSend` sends whole packets,
`ALCCReceive` takes messages and credits one packet a step, and `restartSlowStart` starts a new
session, in which packets are numbered from 1 again. The stream of bytes goes on; the kernel reports
its segments and their acknowledgements at any later time. -/

namespace ALCC.Verus

open MachineInt

variable {γ τ : Type*}

namespace ALCCSocket

/-- `restartSlowStart`, with the new window. -/
def restartSlowStart (s : ALCCSocket γ τ) (ctl : γ) : ALCCSocket γ τ :=
  { s with
    wCrt := 0
    seq := 0
    seqLast := 0
    startingSeq := 0
    pktSeq := 0
    sendingList := ∅
    seqNumbersList := ∅
    tempS := 1
    ctl }

/-- All that `ALCCSend` does for a packet. -/
def sendPacket (C : Controller γ τ) (pktTime : τ) (s : ALCCSocket γ τ) : ALCCSocket γ τ :=
  { s with
    pktSeq := s.pktSeq + 1
    tempS := s.tempS - 1
    wCrt := s.wCrt + 1
    seqNumbersList := s.seqNumbersList.insert (s.pktSeq + 1) pktTime
    sendingList := s.sendingList.insert (toI32 (s.pktSeq + 1)) (C.wBar s.ctl) }

end ALCCSocket

/-- `sender` is the `for` loop that `ALCCSend` is in, with `pktTime` and the rounds left. Of the
stream of bytes, `handed` were taken by `::send`, `base` of them before this session, and the packet
with number `k` ends at `packetEnd k`. `start` is the position of the segment that `startingSeq` was
taken from, and `acked` the largest count of bytes whose acknowledgement `ALCCReceive` took. -/
structure Session (γ τ : Type*) where
  threads : Threads γ τ
  sender : Option (τ × Nat)
  handed : Nat
  base : Nat
  packetEnd : Int → Nat
  start : Nat
  acked : Nat

namespace Session

inductive Action (γ τ : Type*) where
  /-- `sPkts = tempS`, and `gettimeofday` shows `now`. -/
  | turn (now : τ)
  /-- A packet of `size` bytes is sent. -/
  | send (size : Nat)
  /-- The `for` loop is left, since it is through or the queue is empty. -/
  | leave
  /-- A step of `ALCCReceive` that takes no message. -/
  | receiver (now : τ) (terminateThreads : Bool)
  /-- `ALCCReceive` takes the header of a segment that was sent, and that begins at `position`. -/
  | segment (m : Message) (position : Nat) (now : τ)
  /-- `ALCCReceive` takes an acknowledgement. -/
  | ack (a : Ack τ)
  | restart (ctl : γ)
  /-- `ALCCVerus` or `ALCCCurve` changes the window and the permits. -/
  | control (ctl : γ) (tempS : Int)

def init (sock : ALCCSocket γ τ) : Session γ τ where
  threads := ⟨sock, .loop⟩
  sender := none
  handed := 0
  base := 0
  packetEnd _ := 0
  start := 0
  acked := 0

/-- `ALCCReceive` is before `recvmsg`. -/
def Waits (s : Session γ τ) : Prop :=
  match s.threads.receiver with
  | .recvmsg => True
  | _ => False

instance (s : Session γ τ) : Decidable s.Waits := by
  unfold Waits
  split <;> infer_instance

/-- The first byte of the stream has the sequence number `first`. -/
def step (C : Controller γ τ) (first : Nat) (s : Session γ τ) :
    Action γ τ → Option (Session γ τ)
  | .turn now =>
    if s.sender.isNone ∧ 0 < s.threads.sock.tempS then
      some { s with sender := some (now, (toI32 s.threads.sock.tempS).toNat) }
    else
      none
  | .send size =>
    match s.sender with
    | some (pktTime, left + 1) =>
      if 0 < size ∧ size ≤ MTU then
        some { s with
          threads := s.threads.update (·.sendPacket C pktTime)
          sender := some (pktTime, left)
          handed := s.handed + size
          packetEnd := Function.update s.packetEnd (s.threads.sock.pktSeq + 1) (s.handed + size) }
      else
        none
    | _ => none
  | .leave => if s.sender.isSome then some { s with sender := none } else none
  | .receiver now terminateThreads =>
    (s.threads.receiverStep C none now terminateThreads).map fun threads => { s with threads }
  | .segment m position now =>
    if s.Waits ∧ m.src_port = CC_PORT ∧ m.rcv_seq.toNat = (first + position) % 2 ^ 32 ∧
        position ≤ s.handed then
      (s.threads.receiverStep C (some m) now false).map fun threads =>
        { s with threads, start := if s.threads.sock.startingSeq = 0 then position else s.start }
    else
      none
  | .ack a =>
    if s.Waits ∧ a.msg.src_port ≠ CC_PORT ∧ a.msg.ack_seq.toNat = (first + a.bytes) % 2 ^ 32 ∧
        a.bytes ≤ s.handed then
      (s.threads.receiverStep C (some a.msg) a.clock false).map fun threads =>
        { s with threads, acked := max s.acked a.bytes }
    else
      none
  | .restart ctl =>
    some { s with threads := s.threads.update (·.restartSlowStart ctl), base := s.handed }
  | .control ctl tempS =>
    some { s with threads := s.threads.update fun sock => { sock with ctl, tempS } }

end Session

end ALCC.Verus
