import ALCC.Model.Copa
import ALCC.Model.CopaWindow

/-! The pacing of `pkt_sender` in `libalcc_copa.cpp`, over any window computations. The test of the
inner `while` compares the end of the pacing interval with `cur_time`, a local variable that is
assigned before the outer loop and at the start of each turn of the inner one. With
`train_length = 1` the branch of the link rate estimate is never taken. -/

namespace ALCC.Copa

open Binary64

/-- The window computations as the two threads use them. Both calls come after
`set_timestamp(cur_time)`, and are one step with it here; `CopaCalls` takes them apart. -/
structure WindowOps (ω : Type*) where
  get_the_window : ω → ℚ
  get_intersend_time : ω → ℚ
  onPktSent : (cur_time : ℚ) → (seq_num : Int) → ω → ω
  onACK : (cur_time : ℚ) → (ack : Int) → (sent_time : ℚ) → ω → ω

def Window.ops : WindowOps Window where
  get_the_window := the_window
  get_intersend_time := intersend_time
  onPktSent cur_time seq_num w := (w.setTimestamp cur_time).onPktSent seq_num
  onACK cur_time ack sent_time w := (w.setTimestamp cur_time).onACK ack sent_time

/-- `cur_time` is the local variable of `pkt_sender`. -/
structure Pacer (ω : Type*) where
  window : ω
  cur_time : ℚ
  last_send_time : ℚ

namespace Pacer

variable {ω : Type*} (W : WindowOps ω)

/-- What `pkt_sender` does before its loop, with its two readings of the clock. -/
def start (last_send_time cur_time : ℚ) : Pacer Window :=
  ⟨.start cur_time, cur_time, last_send_time⟩

/-- `seq_num < _largest_ack + 1 + get_the_window()`. -/
def Open (p : Pacer ω) (seq_num : Nat) (largest_ack : Int) : Prop :=
  seq_num < double ((largest_ack + 1 : Int) + W.get_the_window p.window)

/-- `_last_send_time + get_intersend_time() * train_length <= cur_time`. -/
def Due (p : Pacer ω) (cur_time : ℚ) : Prop :=
  double (p.last_send_time + double (W.get_intersend_time p.window * train_length)) ≤ cur_time

instance (p : Pacer ω) (seq_num : Nat) (largest_ack : Int) :
    Decidable (p.Open W seq_num largest_ack) :=
  inferInstanceAs (Decidable (_ < _))

instance (p : Pacer ω) (cur_time : ℚ) : Decidable (p.Due W cur_time) :=
  inferInstanceAs (Decidable (_ ≤ _))

/-- `set_timestamp(cur_time)` and `onPktSent`, at the end of a train. -/
def onPktSent (p : Pacer ω) (seq_num : Nat) : Pacer ω :=
  if seq_num % train_length = 0 then
    { p with window := W.onPktSent p.cur_time (seq_num / train_length : Nat) p.window }
  else p

/-- `set_timestamp(cur_time)` and `onACK`, at the end of a train. A packet without a sending time is
undefined behaviour. -/
def received (p : Pacer ω) (cur_time : ℚ) (sender_timestamp : Option ℚ) (rcvSeq : Nat) : Pacer ω :=
  match sender_timestamp with
  | none => p
  | some sent_time =>
    if (rcvSeq - 1) % train_length = 0 then
      { p with window := W.onACK cur_time (rcvSeq / train_length : Nat) sent_time p.window }
    else p

end Pacer

open Pacer in
/-- The controller of `pkt_sender`; `cur_time` of `ack_receiver` and `receivedtime` are read
together. -/
def pacer {ω : Type*} (W : WindowOps ω) : Controller (Pacer ω) ℚ where
  ready p seq_num largest_ack := p.Open W seq_num largest_ack ∧ p.Due W p.cur_time
  turn now p := { p with cur_time := now }
  cur_time p := p.cur_time
  sent p :=
    { p with last_send_time := double (p.last_send_time + W.get_intersend_time p.window) }
  onPktSent := onPktSent W
  received := received W
  finish := id

end ALCC.Copa
