import ALCC.Model.Connection
import ALCC.Model.Kernel
import ALCC.Theory.Binary64
import ALCC.Theory.MachineInt
import Mathlib.Data.Finmap

/-! The `ALCCSocket` of `libalcc.cpp` and its threads. Packet counters are natural numbers: they
stay far below `2 ^ 64`. Sequence numbers come from the kernel and are below `2 ^ 32`, so their
conversion to `double` is exact. The send times kept in `seqNumbersList` are of any type `τ`, since
they are only logged. -/

namespace ALCC.Libalcc

open Binary64 MachineInt

def MTU : Nat := 1448

/-- `cc_loigc_thread` tells whether the thread has been started, so that it is joinable. -/
structure ALCCSocket (τ : Type*) where
  port : UInt16
  sentSeq : Nat
  rcvSeq : Nat
  rcvSeqLast : Nat
  tcpSeq : Nat
  cwnd : Nat
  tempS : Int
  pktsInFlight : Int
  seqNumbersList : Finmap fun _ : Nat => τ
  cc_loigc_thread : Bool

namespace ALCCSocket

variable {τ : Type*} (s : ALCCSocket τ)

/-- The constructor, which leaves `cwnd` unset. -/
def new (port : UInt16) (cwnd : Nat) : ALCCSocket τ where
  port
  sentSeq := 0
  rcvSeq := 0
  rcvSeqLast := 0
  tcpSeq := 0
  cwnd
  tempS := 1
  pktsInFlight := 0
  seqNumbersList := ∅
  cc_loigc_thread := false

/-- The test of `ack_receiver` for an acknowledgement that is new. -/
def Fresh (ack_seq : Nat) : Prop :=
  let diff := toI64 (toU64 (s.tcpSeq - ack_seq))
  0 < s.tcpSeq ∧ (s.tcpSeq ≤ ack_seq ∨ 2 ^ 31 < diff)

instance (ack_seq : Nat) : Decidable (s.Fresh ack_seq) :=
  inferInstanceAs (Decidable (_ ∧ (_ ∨ _)))

/-- `rcvSeq += (pow(2, 32) - tcpSeq + ack_seq) / MTU`, which is computed in `double`. -/
def addWrapped (ack_seq : Nat) : Nat :=
  let quotient := double (((2 ^ 32 - s.tcpSeq + ack_seq : Int) : ℚ) / MTU)
  (trunc (double (double s.rcvSeq + quotient))).toNat

/-- A new acknowledgement moves `rcvSeq` and `tcpSeq`. -/
def credit (ack_seq : Nat) : ALCCSocket τ :=
  let num := toI32 ((toU64 (ack_seq - s.tcpSeq) / MTU : Nat) : Int)
  { s with
    rcvSeq := if num < 0 then s.addWrapped ack_seq else s.rcvSeq + num.toNat
    tcpSeq := ack_seq }

/-- `begin()->first <= rcvSeq` and `size() > 0`, which say that some number in the list is at most
`rcvSeq`, and `find(rcvSeq) != end()`. -/
def Listed : Prop :=
  (∃ k ∈ s.seqNumbersList.keys, k ≤ s.rcvSeq) ∧ s.rcvSeq ∈ s.seqNumbersList

instance : Decidable s.Listed := inferInstanceAs (Decidable (_ ∧ _))

/-- What follows when the packet `rcvSeq` is listed. -/
def settle : ALCCSocket τ :=
  let numAcks := toI32 (s.rcvSeq - s.rcvSeqLast)
  { s with
    pktsInFlight := s.pktsInFlight - numAcks
    rcvSeqLast := if s.rcvSeqLast + 1 ≤ s.rcvSeq then s.rcvSeq else s.rcvSeqLast
    seqNumbersList := s.seqNumbersList.erase s.rcvSeq }

/-- `ack_receiver` upon a message, up to the change of `pktsInFlight`; the flag tells whether
`settle` follows. Assigning to `cc_loigc_thread` while it is joinable ends the process. -/
def receive (m : Message) : Option (ALCCSocket τ × Bool) :=
  if s.tcpSeq = 0 ∧ m.src_port = CC_PORT then
    if s.cc_loigc_thread then
      none
    else
      some ({ s with tcpSeq := m.rcv_seq.toNat, cc_loigc_thread := true }, false)
  else if m.src_port = CC_PORT then
    some (s, false)
  else if s.Fresh m.ack_seq.toNat then
    let s := s.credit m.ack_seq.toNat
    some (s, decide s.Listed)
  else
    some (s, false)

/-- `ack_receiver` upon a message; `none` when the process ends. -/
def ackReceiver (m : Message) : Option (ALCCSocket τ) :=
  (s.receive m).map fun (s, listed) => if listed then s.settle else s

/-- `fmax(0, cwnd - p - t)` as a `long long`, for the values `p` of `pktsInFlight` and `t` of
`tempS`. The difference is an `unsigned long long`; a conversion out of range yields `junk`. -/
def refill (p t junk : Int) : Int :=
  let amount := max 0 (double (toU64 (s.cwnd - p - t)))
  if amount < 2 ^ 63 then trunc amount else junk

/-- The argument of `refill` is in the range of `long long`. -/
def RefillInRange (p t : Int) : Prop := max 0 (double (toU64 (s.cwnd - p - t))) < 2 ^ 63

instance (p t : Int) : Decidable (s.RefillInRange p t) := inferInstanceAs (Decidable (_ < _))

end ALCCSocket

/-- Where `ack_receiver` stands: before the test of its loop, before `recvmsg`, or before
`settle`. -/
inductive ReceiverPc where
  | loop
  | recvmsg
  | settling
  | returned
  deriving DecidableEq

/-- Where `CC_logic` stands. It reads `pktsInFlight`, then `tempS`, then changes `tempS`. -/
inductive CCPc where
  | start
  | loop
  | readPktsInFlight
  | readTempS (p : Int)
  | refill (p t : Int)
  | returned
  deriving DecidableEq

/-- An `ALCCSocket` with the threads `ack_receiver` and `CC_logic`. -/
structure Threads (τ : Type*) where
  sock : ALCCSocket τ
  receiver : ReceiverPc
  cc : CCPc

/-- The next step of a thread: of `ack_receiver`, where `recvmsg` would yield `m` or fail, and of
`CC_logic`, where a conversion out of range would yield `junk`. -/
inductive Event where
  | receiver (m : Option Message)
  | cc (junk : Int)

namespace Threads

variable {τ : Type*}

def new (port : UInt16) (cwnd : Nat) : Threads τ := ⟨.new port cwnd, .loop, .start⟩

def receiverStep (s : Threads τ) (m : Option Message) (terminateThreads : Bool) :
    Option (Threads τ) :=
  match s.receiver with
  | .loop => some { s with receiver := if terminateThreads then .returned else .recvmsg }
  | .recvmsg =>
    match m with
    | none => some { s with receiver := .loop }
    | some m => (s.sock.receive m).map fun (sock, listed) =>
      { s with sock, receiver := if listed then .settling else .loop }
  | .settling => some { s with sock := s.sock.settle, receiver := .loop }
  | .returned => none

def ccStep (s : Threads τ) (junk : Int) (terminateThreads : Bool) : Option (Threads τ) :=
  if s.sock.cc_loigc_thread then
    match s.cc with
    | .start => some { s with sock := { s.sock with cwnd := 20 }, cc := .loop }
    | .loop => some { s with cc := if terminateThreads then .returned else .readPktsInFlight }
    | .readPktsInFlight => some { s with cc := .readTempS s.sock.pktsInFlight }
    | .readTempS p => some { s with cc := .refill p s.sock.tempS }
    | .refill p t =>
      some { s with
        sock := { s.sock with tempS := s.sock.tempS + s.sock.refill p t junk }
        cc := .loop }
    | .returned => none
  else
    none

def step (e : Event) (terminateThreads : Bool) (s : Threads τ) : Option (Threads τ) :=
  match e with
  | .receiver m => s.receiverStep m terminateThreads
  | .cc junk => s.ccStep junk terminateThreads

/-- A step of the sender thread on the socket. -/
def update (f : ALCCSocket τ → ALCCSocket τ) (s : Threads τ) : Threads τ :=
  { s with sock := f s.sock }

end Threads

/-- `pkt_sender` and `alcc_close`. -/
def library (τ : Type*) : Library (Threads τ) Event τ where
  MTU := MTU
  test s terminateThreads := decide (0 < s.sock.tempS) && !terminateThreads
  turn _ s := s
  sPkts s := (toI32 s.sock.tempS).toNat
  breakInner := false
  dequeued := .update fun s => { s with sentSeq := s.sentSeq + 1 }
  sent := [
    fun _ => .update fun s => { s with tempS := s.tempS - 1 },
    fun _ => .update fun s => { s with pktsInFlight := s.pktsInFlight + 1 },
    fun pktTime => .update fun s =>
      { s with seqNumbersList := s.seqNumbersList.insert s.sentSeq pktTime }]
  thread := Threads.step
  deletes := true

end ALCC.Libalcc
