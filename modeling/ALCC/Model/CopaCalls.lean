import ALCC.Model.CopaPacing

/-! The calls of the window computations by the two threads of `libalcc_copa.cpp`, each of them a
step of its own: `pkt_sender` calls `set_timestamp` and `onPktSent`, and `ack_receiver` calls
`set_timestamp` and `onACK`. Nothing keeps one thread from calling `set_timestamp` between the two
calls of the other one, with an older reading of the clock. -/

namespace ALCC.Copa

/-- Where `ack_receiver` stands. -/
inductive CallerPc where
  | loop
  | recvmsg
  | crediting (left : Nat)
  /-- In a round of its loop, behind `set_timestamp`. -/
  | stamped (left : Nat)
  | returned
  deriving DecidableEq

/-- An `ALCCSocket` with the thread `ack_receiver`. -/
structure Callers where
  sock : ALCCSocket (Pacer Window) ℚ
  receiver : CallerPc

/-- A call of the window computations. -/
def ALCCSocket.call (f : Pacer Window → Window) (s : ALCCSocket (Pacer Window) ℚ) :
    ALCCSocket (Pacer Window) ℚ :=
  { s with ctl := { s.ctl with window := f s.ctl } }

/-- `set_timestamp` of `pkt_sender` at the end of a train. -/
def ALCCSocket.stampTrain (s : ALCCSocket (Pacer Window) ℚ) : ALCCSocket (Pacer Window) ℚ :=
  if s.seq_num % train_length = 0 then s.call fun p => p.window.setTimestamp p.cur_time else s

/-- `onPktSent` at the end of a train. -/
def ALCCSocket.reportTrain (s : ALCCSocket (Pacer Window) ℚ) : ALCCSocket (Pacer Window) ℚ :=
  if s.seq_num % train_length = 0 then
    s.call (·.window.onPktSent (s.seq_num / train_length : Nat))
  else s

/-- A round of the loop of `ack_receiver` counts a packet. -/
def ALCCSocket.count (s : ALCCSocket (Pacer Window) ℚ) : ALCCSocket (Pacer Window) ℚ :=
  { s with rcvSeq := s.rcvSeq + 1, tcpSeq := s.nextTcpSeq }

/-- `onACK` for the packet counted last, and what follows in the round. -/
def ALCCSocket.acknowledge (sent_time : ℚ) (s : ALCCSocket (Pacer Window) ℚ) :
    ALCCSocket (Pacer Window) ℚ :=
  { s with
    rcvSeqLast := if s.rcvSeqLast + 1 ≤ s.rcvSeq then s.rcvSeq else s.rcvSeqLast
    largest_ack := max s.largest_ack s.rcvSeq
    ctl :=
      if (s.rcvSeq - 1) % train_length = 0 then
        { s.ctl with window := s.ctl.window.onACK (s.rcvSeq / train_length : Nat) sent_time }
      else s.ctl }

namespace Callers

def new (p : Pacer Window) : Callers := ⟨.new p, .loop⟩

/-- A round of the loop of `ack_receiver` up to `set_timestamp`. To read the sending time of a
packet that has none is undefined behaviour. -/
def stamp (now : ℚ) (left : Nat) (b : Callers) : Option Callers :=
  let s := b.sock.count
  if (∃ k ∈ s.seqNumbersList.keys, k ≤ s.rcvSeq) ∧ s.rcvSeq ∈ s.seqNumbersList then
    if s.rcvSeq ∈ s.senderTimestampList then
      let s := if (s.rcvSeq - 1) % train_length = 0 then s.call (·.window.setTimestamp now) else s
      some ⟨s, .stamped left⟩
    else none
  else some ⟨s, .crediting left⟩

/-- The rest of the round. -/
def credit (left : Nat) (b : Callers) : Option Callers :=
  (b.sock.senderTimestampList.lookup b.sock.rcvSeq).map fun sent_time =>
    ⟨b.sock.acknowledge sent_time, .crediting left⟩

def receiverStep (b : Callers) (m : Option Message) (now : ℚ) (terminateThreads : Bool) :
    Option Callers :=
  match b.receiver with
  | .loop => some { b with receiver := if terminateThreads then .returned else .recvmsg }
  | .recvmsg =>
    match m with
    | none => some { b with receiver := .loop }
    | some m => (b.sock.receive m).map fun
      | (sock, none) => ⟨sock, .loop⟩
      | (sock, some rounds) => ⟨sock, .crediting rounds⟩
  | .crediting 0 => some { b with receiver := .loop }
  | .crediting (left + 1) => b.stamp now left
  | .stamped left => b.credit left
  | .returned => none

def step (e : Event ℚ) (terminateThreads : Bool) (b : Callers) : Option Callers :=
  match e with
  | .receiver m now => b.receiverStep m now terminateThreads

/-- A step of the sender thread on the socket. -/
def update (f : ALCCSocket (Pacer Window) ℚ → ALCCSocket (Pacer Window) ℚ) (b : Callers) :
    Callers :=
  { b with sock := f b.sock }

end Callers

open Pacer in
/-- `pkt_sender` and `alcc_close`, with the two calls at the end of a train. -/
def callers : Library Callers (Event ℚ) ℚ where
  MTU := MTU
  test b _ := b.sock.ctl.Open Window.ops b.sock.seq_num b.sock.largest_ack ∧
    b.sock.ctl.Due Window.ops b.sock.ctl.cur_time
  turn now := .update fun s => { s with ctl := (pacer Window.ops).turn now s.ctl }
  sPkts _ := 1
  breakInner := true
  dequeued b := b
  sent := [
    fun pktTime => .update fun s =>
      { s with seqNumbersList := s.seqNumbersList.insert s.seq_num pktTime },
    fun _ => .update fun s =>
      { s with senderTimestampList := s.senderTimestampList.insert s.seq_num s.ctl.cur_time },
    fun _ => .update fun s => { s with ctl := (pacer Window.ops).sent s.ctl },
    fun _ => .update .stampTrain,
    fun _ => .update .reportTrain,
    fun _ => .update fun s => { s with seq_num := s.seq_num + 1 }]
  thread := Callers.step
  deletes := true

end ALCC.Copa
