import ALCC.Model.Connection
import ALCC.Model.Kernel
import ALCC.Theory.Binary64
import ALCC.Theory.MachineInt
import Mathlib.Data.Finmap

/-! The packet accounts of the `ALCCSocket` of `libalcc_copa.cpp`: what `pkt_sender` and
`ack_receiver` do to the sequence numbers and to the lists of packets. The window computations stay
a parameter, the `Controller`; its state includes the local variables of the threads that only
these computations use. `CC_logic` refills `tempS`, which nothing else in this library reads. -/

namespace ALCC.Copa

open Binary64 MachineInt

def MTU : Nat := 1484

/-- The window computations. `γ` is their state and `τ` the clock readings. -/
structure Controller (γ τ : Type*) where
  /-- The condition of the inner `while` for `seq_num` and `largest_ack`. -/
  ready : γ → (seq_num : Nat) → (largest_ack : Int) → Bool
  /-- `cur_time = current_timestamp(start_time_point)`. -/
  turn : τ → γ → γ
  cur_time : γ → τ
  /-- `_last_send_time += get_intersend_time()`. -/
  sent : γ → γ
  /-- The report of `seq_num` to `onPktSent` at the end of a train of packets. -/
  onPktSent : γ → (seq_num : Nat) → γ
  /-- The effect of an acknowledged packet that is listed: the link rate estimate and `onACK`. The
  arguments are the times of receipt and sending, and `rcvSeq`. -/
  received : γ → (receivedtime : τ) → (sender_timestamp : Option τ) → (rcvSeq : Nat) → γ
  /-- `last_recv_time = cur_time`. -/
  finish : γ → γ

/-- The controller that does nothing. -/
instance : Inhabited (Controller Unit Unit) where
  default := ⟨fun _ _ _ => true, fun _ _ => (), fun _ => (), fun _ => (), fun _ _ => (),
    fun _ _ _ _ => (), fun _ => ()⟩

/-- `seq_num` is a local variable of `pkt_sender`. It and `_largest_ack` are `int`s, so the numbers
here are those of the source for fewer than `2 ^ 31` packets. -/
structure ALCCSocket (γ τ : Type*) where
  rcvSeq : Nat
  rcvSeqLast : Nat
  tcpSeq : Nat
  seq_num : Nat
  largest_ack : Int
  seqNumbersList : Finmap fun _ : Nat => τ
  senderTimestampList : Finmap fun _ : Nat => τ
  cc_loigc_thread : Bool
  ctl : γ

namespace ALCCSocket

variable {γ τ : Type*} (s : ALCCSocket γ τ)

/-- The constructor and the start of `pkt_sender`. -/
def new (ctl : γ) : ALCCSocket γ τ where
  rcvSeq := 0
  rcvSeqLast := 0
  tcpSeq := 0
  seq_num := 1
  largest_ack := -1
  seqNumbersList := ∅
  senderTimestampList := ∅
  cc_loigc_thread := false
  ctl

/-- The test of `ack_receiver` for an acknowledgement that is new. -/
def Fresh (ack_seq : Nat) : Prop :=
  let diff := toI64 (toU64 (s.tcpSeq - ack_seq))
  0 < s.tcpSeq ∧ (s.tcpSeq ≤ ack_seq ∨ 2 ^ 31 < diff)

instance (ack_seq : Nat) : Decidable (s.Fresh ack_seq) :=
  inferInstanceAs (Decidable (_ ∧ (_ ∨ _)))

/-- The number of packets that a new acknowledgement covers. The one for a wrap-around is computed
in `double`. -/
def numAcks (ack_seq : Nat) : Int :=
  let numAcks := toI32 ((toU64 (ack_seq - s.tcpSeq) / MTU : Nat) : Int)
  if numAcks < 0 then
    trunc (double (((2 ^ 32 - s.tcpSeq + ack_seq : Int) : ℚ) / MTU))
  else
    numAcks

/-- The new value of `tcpSeq` in a round of the loop of `ack_receiver`. -/
def nextTcpSeq : Nat :=
  if 2 ^ 32 < s.tcpSeq + MTU then s.tcpSeq + MTU - 2 ^ 32 else s.tcpSeq + MTU

/-- A round of the loop of `ack_receiver`. -/
def creditPacket (C : Controller γ τ) (receivedtime : τ) : ALCCSocket γ τ :=
  let s := { s with rcvSeq := s.rcvSeq + 1, tcpSeq := s.nextTcpSeq }
  -- `begin()->first <= rcvSeq` and `size() > 0`, then `find(rcvSeq) != end()`
  if (∃ k ∈ s.seqNumbersList.keys, k ≤ s.rcvSeq) ∧ s.rcvSeq ∈ s.seqNumbersList then
    { s with
      rcvSeqLast := if s.rcvSeqLast + 1 ≤ s.rcvSeq then s.rcvSeq else s.rcvSeqLast
      largest_ack := max s.largest_ack s.rcvSeq
      ctl := C.received s.ctl receivedtime (s.senderTimestampList.lookup s.rcvSeq) s.rcvSeq }
  else
    s

/-- The loop of `ack_receiver`. Round `i` reads the clock as `now i`. -/
def creditPackets (C : Controller γ τ) (now : Nat → τ) (rounds : Nat) : ALCCSocket γ τ :=
  (List.range rounds).foldl (fun t i => t.creditPacket C (now i)) s

/-- `ack_receiver` upon a message, up to its loop, and the number of rounds if the loop is reached.
Assigning to `cc_loigc_thread` while it is joinable ends the process. -/
def receive (m : Message) : Option (ALCCSocket γ τ × Option Nat) :=
  if s.tcpSeq = 0 ∧ m.src_port = CC_PORT then
    if s.cc_loigc_thread then
      none
    else
      some ({ s with tcpSeq := m.rcv_seq.toNat, cc_loigc_thread := true }, none)
  else if m.src_port = CC_PORT then
    some (s, none)
  else if s.Fresh m.ack_seq.toNat then
    some (s, some (s.numAcks m.ack_seq.toNat).toNat)
  else
    some (s, none)

/-- The end of a message whose acknowledgement was new. -/
def finish (C : Controller γ τ) : ALCCSocket γ τ := { s with ctl := C.finish s.ctl }

/-- `ack_receiver` upon a message. -/
def ackReceiver (C : Controller γ τ) (now : Nat → τ) (m : Message) : Option (ALCCSocket γ τ) :=
  (s.receive m).map fun
    | (s, none) => s
    | (s, some rounds) => (s.creditPackets C now rounds).finish C

end ALCCSocket

/-- Where `ack_receiver` stands. In its loop it knows the rounds left. -/
inductive ReceiverPc where
  | loop
  | recvmsg
  | crediting (left : Nat)
  | returned
  deriving DecidableEq

/-- An `ALCCSocket` with the thread `ack_receiver`. -/
structure Threads (γ τ : Type*) where
  sock : ALCCSocket γ τ
  receiver : ReceiverPc

/-- The next step of `ack_receiver`, where `recvmsg` would yield `m` or fail, and the clock shows
`now`. -/
inductive Event (τ : Type*) where
  | receiver (m : Option Message) (now : τ)

namespace Threads

variable {γ τ : Type*}

def new (ctl : γ) : Threads γ τ := ⟨.new ctl, .loop⟩

def receiverStep (C : Controller γ τ) (s : Threads γ τ) (m : Option Message) (now : τ)
    (terminateThreads : Bool) : Option (Threads γ τ) :=
  match s.receiver with
  | .loop => some { s with receiver := if terminateThreads then .returned else .recvmsg }
  | .recvmsg =>
    match m with
    | none => some { s with receiver := .loop }
    | some m => (s.sock.receive m).map fun
      | (sock, none) => { s with sock, receiver := .loop }
      | (sock, some rounds) => { s with sock, receiver := .crediting rounds }
  | .crediting 0 => some { s with sock := s.sock.finish C, receiver := .loop }
  | .crediting (left + 1) =>
    some { s with sock := s.sock.creditPacket C now, receiver := .crediting left }
  | .returned => none

def step (C : Controller γ τ) (e : Event τ) (terminateThreads : Bool) (s : Threads γ τ) :
    Option (Threads γ τ) :=
  match e with
  | .receiver m now => s.receiverStep C m now terminateThreads

/-- A step of the sender thread on the socket. -/
def update (f : ALCCSocket γ τ → ALCCSocket γ τ) (s : Threads γ τ) : Threads γ τ :=
  { s with sock := f s.sock }

end Threads

/-- `pkt_sender` and `alcc_close`. The inner loop does not look at `terminateThreads` and sends one
chunk a turn. -/
def library {γ τ : Type*} (C : Controller γ τ) : Library (Threads γ τ) (Event τ) τ where
  MTU := MTU
  test s _ := C.ready s.sock.ctl s.sock.seq_num s.sock.largest_ack
  turn now := .update fun s => { s with ctl := C.turn now s.ctl }
  sPkts _ := 1
  breakInner := true
  dequeued s := s
  sent := [
    fun pktTime => .update fun s =>
      { s with seqNumbersList := s.seqNumbersList.insert s.seq_num pktTime },
    fun _ => .update fun s =>
      { s with senderTimestampList := s.senderTimestampList.insert s.seq_num (C.cur_time s.ctl) },
    fun _ => .update fun s => { s with ctl := C.sent s.ctl },
    fun _ => .update fun s => { s with ctl := C.onPktSent s.ctl s.seq_num },
    fun _ => .update fun s => { s with seq_num := s.seq_num + 1 }]
  thread := Threads.step C
  deletes := true

end ALCC.Copa
