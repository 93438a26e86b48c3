import ALCC.Model.Connection
import ALCC.Model.Kernel
import ALCC.Theory.Binary64
import ALCC.Theory.MachineInt
import Mathlib.Data.Finmap

/-! The packet accounts of the `ALCCSocket` of `libalcc_verus.cpp`: what `ALCCSend` and
`ALCCReceive` do to the sequence numbers, to `wCrt` and to the lists of packets, between two
restarts. The window computations stay a parameter, the `Controller`; its state includes the local
variables of the threads that only these computations use. `ALCCReceive` reads a message with
`sscanf` formats wider than its variables; the variables get the numbers of the message here. -/

namespace ALCC.Verus

open Binary64 MachineInt

def MTU : Nat := 1448

/-- The window computations. `γ` is their state and `τ` the clock readings. -/
structure Controller (γ τ : Type*) where
  /-- `wBar`, converted to the `long long` that `sendingList` keeps. -/
  wBar : γ → Int
  /-- The effect of an acknowledged packet, with the new value of `tempS`: the exit from slow
  start, `updateUponReceivingPacket` but for `wCrt`, and the growth of slow start. The arguments
  are the times of receipt and sending, the window `w` of the packet, `seq`, `wCrt` and `tempS`.
  A packet without an entry in its list has no sending time or window. -/
  received : γ → (receivedtime : τ) → (sendTime : Option τ) → (w : Option Int) →
    (seq wCrt tempS : Int) → γ × Int

/-- The controller that does nothing. -/
instance : Inhabited (Controller Unit Unit) where
  default := ⟨fun _ => 1, fun _ _ _ _ _ _ tempS => ((), tempS)⟩

structure ALCCSocket (γ τ : Type*) where
  seq : Int
  pktSeq : Int
  startingSeq : Int
  seqLast : Nat
  tempS : Int
  wCrt : Int
  sendingList : Finmap fun _ : Int => Int
  seqNumbersList : Finmap fun _ : Int => τ
  ctl : γ

namespace ALCCSocket

variable {γ τ : Type*} (s : ALCCSocket γ τ)

/-- The constructor. -/
def new (ctl : γ) : ALCCSocket γ τ where
  seq := 0
  pktSeq := 0
  startingSeq := 0
  seqLast := 0
  tempS := 1
  wCrt := 0
  sendingList := ∅
  seqNumbersList := ∅
  ctl

/-- The test of `ALCCReceive` for an acknowledgement that is new. -/
def Fresh (ack_seq : Nat) : Prop :=
  let diff := toI64 (s.startingSeq - ack_seq)
  0 < s.startingSeq ∧ (s.startingSeq ≤ ack_seq ∨ 2 ^ 31 < diff)

instance (ack_seq : Nat) : Decidable (s.Fresh ack_seq) :=
  inferInstanceAs (Decidable (_ ∧ (_ ∨ _)))

/-- `tmp_numAcks`, the number of packets that a new acknowledgement covers. The one for a
wrap-around is computed in `double`. -/
def numAcks (ack_seq : Nat) : Int :=
  let tmp_numAcks := toI32 ((ack_seq - s.startingSeq).tdiv MTU)
  if tmp_numAcks < 0 then
    trunc (double (((2 ^ 32 - s.startingSeq + ack_seq : Int) : ℚ) / MTU))
  else
    tmp_numAcks

/-- A round of the loop of `ALCCReceive`. `wCrt` is tested and changed in one step here: in between
the sender thread can only add to it. -/
def creditPacket (C : Controller γ τ) (receivedtime : τ) : ALCCSocket γ τ :=
  let s := { s with seq := s.seq + 1, startingSeq := s.startingSeq + MTU }
  -- `begin()->first <= seq` and `size() > 0`
  if ∃ k ∈ s.seqNumbersList.keys, k ≤ s.seq then
    let sendTime := s.seqNumbersList.lookup s.seq
    let w := s.sendingList.lookup (toI32 s.seq)
    let wCrt := if (0 : Int) < s.wCrt then s.wCrt - 1 else s.wCrt
    let (ctl, tempS) := C.received s.ctl receivedtime sendTime w s.seq wCrt s.tempS
    { s with
      seqLast := if s.seqLast + 1 ≤ s.seq then s.seq.toNat else s.seqLast
      tempS
      wCrt
      sendingList := s.sendingList.erase (toI32 s.seq)
      seqNumbersList := s.seqNumbersList.erase s.seq
      ctl }
  else
    { s with wCrt := s.wCrt - 1 }

/-- The loop of `ALCCReceive`. -/
def creditPackets (C : Controller γ τ) (receivedtime : τ) (rounds : Nat) : ALCCSocket γ τ :=
  (fun t : ALCCSocket γ τ => t.creditPacket C receivedtime)^[rounds] s

/-- `ALCCReceive` upon a message, up to its loop, and the number of rounds. -/
def receive (m : Message) : ALCCSocket γ τ × Nat :=
  if s.startingSeq = 0 ∧ m.src_port = CC_PORT then
    ({ s with startingSeq := m.rcv_seq.toNat }, 0)
  else if m.src_port = CC_PORT then
    (s, 0)
  else if s.Fresh m.ack_seq.toNat then
    (s, (s.numAcks m.ack_seq.toNat).toNat)
  else
    (s, 0)

/-- `ALCCReceive` upon a message. -/
def alccReceive (C : Controller γ τ) (receivedtime : τ) (m : Message) : ALCCSocket γ τ :=
  (s.receive m).1.creditPackets C receivedtime (s.receive m).2

end ALCCSocket

/-- Where `ALCCReceive` stands. In its loop it knows the time of receipt and the rounds left. -/
inductive ReceiverPc (τ : Type*) where
  | loop
  | recvmsg
  | crediting (receivedtime : τ) (left : Nat)
  | returned

/-- An `ALCCSocket` with the thread `ALCCReceive`. -/
structure Threads (γ τ : Type*) where
  sock : ALCCSocket γ τ
  receiver : ReceiverPc τ

/-- The next step of `ALCCReceive`, where `recvmsg` would yield `m` or fail at the time `now`, or
any change of the window and the permits by `ALCCVerus` and `ALCCCurve`. -/
inductive Event (γ τ : Type*) where
  | receiver (m : Option Message) (now : τ)
  | control (ctl : γ) (tempS : Int)

namespace Threads

variable {γ τ : Type*}

def new (ctl : γ) : Threads γ τ := ⟨.new ctl, .loop⟩

def receiverStep (C : Controller γ τ) (s : Threads γ τ) (m : Option Message) (now : τ)
    (terminateThreads : Bool) : Option (Threads γ τ) :=
  match s.receiver with
  | .loop => some { s with receiver := if terminateThreads then .returned else .recvmsg }
  | .recvmsg =>
    match m with
    | none => some { s with receiver := .loop }
    | some m =>
      some { s with sock := (s.sock.receive m).1, receiver := .crediting now (s.sock.receive m).2 }
  | .crediting _ 0 => some { s with receiver := .loop }
  | .crediting receivedtime (left + 1) =>
    some { s with
      sock := s.sock.creditPacket C receivedtime
      receiver := .crediting receivedtime left }
  | .returned => none

def step (C : Controller γ τ) (e : Event γ τ) (terminateThreads : Bool) (s : Threads γ τ) :
    Option (Threads γ τ) :=
  match e with
  | .receiver m now => s.receiverStep C m now terminateThreads
  | .control ctl tempS => some { s with sock := { s.sock with ctl, tempS } }

/-- A step of the sender thread on the socket. -/
def update (f : ALCCSocket γ τ → ALCCSocket γ τ) (s : Threads γ τ) : Threads γ τ :=
  { s with sock := f s.sock }

end Threads

/-- `ALCCSend` and `alcc_close`, in which the deletion is commented out. -/
def library {γ τ : Type*} (C : Controller γ τ) : Library (Threads γ τ) (Event γ τ) τ where
  MTU := MTU
  test s terminateThreads := decide (0 < s.sock.tempS) && !terminateThreads
  turn _ s := s
  sPkts s := (toI32 s.sock.tempS).toNat
  breakInner := false
  dequeued := .update fun s => { s with pktSeq := s.pktSeq + 1 }
  sent := [
    fun _ => .update fun s => { s with tempS := s.tempS - 1 },
    fun _ => .update fun s => { s with wCrt := s.wCrt + 1 },
    fun pktTime => .update fun s =>
      { s with seqNumbersList := s.seqNumbersList.insert s.pktSeq pktTime },
    fun _ => .update fun s =>
      { s with sendingList := s.sendingList.insert (toI32 s.pktSeq) (C.wBar s.ctl) }]
  thread := Threads.step C
  deletes := false

end ALCC.Verus
