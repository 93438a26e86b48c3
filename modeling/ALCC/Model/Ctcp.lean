import ALCC.Theory.Binary64
import Mathlib.Algebra.Order.Monoid.WithTop
import Mathlib.Data.Int.Notation

/-! A flow of `ctcp.hh`, over any congestion controller, in exact arithmetic: `send_data` after the
handshake, the receiver of `receiver.cc`, and a network between them that may lose packets, repeat
them and deliver them in any order. The counters and the numbers in the headers are `int`s, so those
here are the ones of the source for fewer than `2 ^ 31` packets. A division by zero yields `⊤`. The
sender also remembers what it has done, which no call of the source looks at. -/

namespace ALCC.Ctcp

open Binary64

structure TCPHeader where
  seq_num : Int
  flow_id : Int
  src_id : Int
  sender_timestamp : ℚ
  receiver_timestamp : ℚ
  deriving DecidableEq

/-- `packet_size - sizeof(TCPHeader)`. -/
def data_size : Nat := 1440 - 32

/-- The class that `CTCP` is a template over; `ω` is the state of its objects. -/
structure CCC (ω : Type*) where
  init : ω → ω
  close : ω → ω
  onACK : (ack : Int) → (receiver_timestamp sent_time : ℚ) → ω → ω
  onPktSent : (seq_num : Int) → ω → ω
  onTimeout : ω → ω
  onLinkRateMeasurement : (measured_link_rate : WithTop ℚ) → ω → ω
  set_timestamp : ℚ → ω → ω
  get_the_window : ω → ℚ
  get_intersend_time : ω → ℚ
  get_timeout : ω → ℚ

/-- The arguments of `send_data`, and `train_length`. -/
structure Params where
  flow_size : ℚ
  byte_switched : Bool
  flow_id : Int
  src_id : Int
  train_length : Nat

/-- Where `send_data` stands. -/
inductive SenderPc where
  /-- Before the test of the outer `while`. -/
  | outer
  /-- Before the test of the inner `while`. -/
  | inner
  /-- Before `timeout` is computed. -/
  | polling
  /-- In `receivedata`. -/
  | waiting (timeout : Int)
  /-- Behind the loop. -/
  | closing
  | closed
  deriving DecidableEq

/-- A call of `onACK`, and the time of it. -/
structure Sample where
  ack : Int
  sent_time : ℚ
  taken_at : ℚ

/-- Of `buf` the header is kept. `sent` are the packets sent, `gaps` the intersend times added for
them, `reports` the numbers reported to `onPktSent`, and `samples` the calls of `onACK`. -/
structure Sender (ω : Type*) where
  congctrl : ω
  largest_ack : Int
  last_send_time : ℚ
  seq_num : Nat
  buf : TCPHeader
  cur_time : ℚ
  last_ack_time : ℚ
  link_rate_estimate : ℚ
  last_recv_time : ℚ
  delay_sum : ℚ
  num_packets_transmitted : Nat
  pc : SenderPc
  sent : List TCPHeader
  gaps : List ℚ
  reports : List Int
  samples : List Sample

namespace Sender

variable {ω : Type*} (W : CCC ω) (p : Params) (s : Sender ω)

/-- What `send_data` does before its loop, with its two readings of the clock. -/
def start (congctrl : ω) (buf : TCPHeader) (last_send_time cur_time : ℚ) : Sender ω where
  congctrl := W.init (W.set_timestamp cur_time congctrl)
  largest_ack := -1
  last_send_time
  seq_num := 0
  buf
  cur_time
  last_ack_time := last_send_time
  link_rate_estimate := 0
  last_recv_time := 0
  delay_sum := 0
  num_packets_transmitted := 0
  pc := .outer
  sent := []
  gaps := []
  reports := []
  samples := []

/-- The test of the outer `while`. -/
def Unfinished : Prop :=
  (if p.byte_switched then ((s.num_packets_transmitted * data_size : Nat) : ℚ) else s.cur_time) <
    p.flow_size

instance : Decidable (s.Unfinished p) := inferInstanceAs (Decidable (_ < _))

/-- The test of the inner `while`. -/
def Ready : Prop :=
  ((s.seq_num : ℚ) < s.largest_ack + 1 + W.get_the_window s.congctrl ∧
      s.last_send_time + W.get_intersend_time s.congctrl * p.train_length ≤ s.cur_time ∧
      s.Unfinished p) ∨
    s.seq_num % p.train_length ≠ 0

instance : Decidable (s.Ready W p) := inferInstanceAs (Decidable ((_ ∧ _ ∧ _) ∨ _))

/-- The outer `while` up to the inner one. -/
def turn (now : ℚ) : Sender ω :=
  if s.Unfinished p then
    let s := { s with cur_time := now }
    if 2000 < now - s.last_ack_time then
      if s.Unfinished p then
        { s with
          congctrl := W.init (W.set_timestamp now s.congctrl)
          largest_ack := s.seq_num - 1
          last_send_time := now
          last_ack_time := now
          pc := .inner }
      else
        { s with pc := .closing }
    else
      { s with pc := .inner }
  else
    { s with pc := .closing }

def header : TCPHeader where
  seq_num := s.seq_num
  flow_id := p.flow_id
  src_id := p.src_id
  sender_timestamp := s.cur_time
  receiver_timestamp := 0

/-- The body of the inner `while`. -/
def send : Sender ω :=
  let gap := W.get_intersend_time s.congctrl
  let s :=
    { s with
      buf := s.header p
      last_send_time := s.last_send_time + gap
      sent := s.sent ++ [s.header p]
      gaps := s.gaps ++ [gap] }
  let s :=
    if s.seq_num % p.train_length = 0 then
      { s with
        congctrl :=
          W.onPktSent (s.seq_num / p.train_length : Nat) (W.set_timestamp s.cur_time s.congctrl)
        reports := s.reports ++ [((s.seq_num / p.train_length : Nat) : Int)] }
    else s
  { s with seq_num := s.seq_num + 1 }

/-- What follows the inner `while`, up to the next reading of the clock. -/
def catchUp : Sender ω :=
  let s :=
    if W.get_intersend_time s.congctrl * p.train_length ≤ s.cur_time - s.last_send_time ∨
        s.largest_ack + W.get_the_window s.congctrl ≤ s.seq_num then
      { s with last_send_time := s.cur_time }
    else s
  { s with pc := .polling }

/-- The reading of the clock and the call of `receivedata`, which takes an `int`. -/
def poll (now : ℚ) : Sender ω :=
  let timeout :=
    if 0 < W.get_the_window s.congctrl then
      min 1000 (s.last_send_time + W.get_intersend_time s.congctrl * p.train_length - now)
    else s.last_send_time + 1000
  { s with cur_time := now, pc := .waiting (trunc timeout) }

/-- `receivedata` times out. -/
def timedOut (now : ℚ) : Sender ω :=
  let s := { s with cur_time := now, pc := .outer }
  if s.last_send_time + W.get_timeout s.congctrl < now then
    { s with congctrl := W.onTimeout s.congctrl }
  else s

/-- The estimate of the link rate, once `cur_time` is read. -/
def estimate (seq_num : Int) : Sender ω :=
  let s :=
    if (seq_num - 1).tmod p.train_length ≠ 0 ∧ s.last_recv_time ≠ 0 then
      let alpha : ℚ := 1 / 16
      let link_rate_estimate :=
        if s.link_rate_estimate = 0 then s.cur_time - s.last_recv_time
        else (1 - alpha) * s.link_rate_estimate + alpha * (s.cur_time - s.last_recv_time)
      let rate : WithTop ℚ :=
        if link_rate_estimate = 0 then ⊤ else (1000 / link_rate_estimate : ℚ)
      { s with
        link_rate_estimate
        congctrl :=
          if 2 * p.train_length < seq_num then W.onLinkRateMeasurement rate s.congctrl
          else s.congctrl }
    else s
  { s with last_recv_time := s.cur_time }

/-- The statistics, `onACK` and `_largest_ack`. -/
def credit (ack_header : TCPHeader) : Sender ω :=
  let s :=
    { s with
      delay_sum := s.delay_sum + (s.cur_time - ack_header.sender_timestamp)
      num_packets_transmitted := s.num_packets_transmitted + 1 }
  let s :=
    if (ack_header.seq_num - 1).tmod p.train_length = 0 then
      let ack := ack_header.seq_num.tdiv p.train_length
      { s with
        congctrl :=
          W.onACK ack ack_header.receiver_timestamp ack_header.sender_timestamp
            (W.set_timestamp s.cur_time s.congctrl)
        samples := s.samples ++ [⟨ack, ack_header.sender_timestamp, s.cur_time⟩] }
    else s
  { s with largest_ack := max s.largest_ack ack_header.seq_num }

/-- What follows `receivedata` once there is a packet in `buf`, or it has failed. -/
def receive (now : ℚ) : Sender ω :=
  let ack_header := { s.buf with seq_num := s.buf.seq_num + 1 }
  let s := { s with pc := .outer }
  if ack_header.src_id ≠ p.src_id ∨ ack_header.flow_id ≠ p.flow_id then s
  else
    ({ s with cur_time := now, last_ack_time := now }.estimate W p ack_header.seq_num).credit W p
      ack_header

/-- What follows the loop. -/
def finish (now : ℚ) : Sender ω :=
  { s with cur_time := now, congctrl := W.close (W.set_timestamp now s.congctrl), pc := .closed }

end Sender

/-- What `receivedata` returns, a packet by its place among the echoes. -/
inductive Receipt where
  | timeout
  | error
  | packet (index : Nat)

inductive Action where
  /-- The next step of the sender outside `receivedata`, if the clock shows `now`. -/
  | sender (now : ℚ)
  /-- `receivedata` returns, and the clock shows `now`. -/
  | receive (r : Receipt) (now : ℚ)
  /-- `echo_packets` takes the packet at a place. -/
  | echo (index : Nat) (receiver_timestamp : ℚ)

/-- `packets` is all that was ever sent to the receiver, and `echoes` what the receiver has sent. -/
structure Flow (ω : Type*) where
  sender : Sender ω
  packets : List TCPHeader
  echoes : List TCPHeader

namespace Flow

variable {ω : Type*} (W : CCC ω) (p : Params)

def start (congctrl : ω) (buf : TCPHeader) (last_send_time cur_time : ℚ)
    (packets echoes : List TCPHeader) : Flow ω :=
  ⟨.start W congctrl buf last_send_time cur_time, packets, echoes⟩

def senderStep (now : ℚ) (s : Flow ω) : Option (Flow ω) :=
  match s.sender.pc with
  | .outer => some { s with sender := s.sender.turn W p now }
  | .inner =>
    if s.sender.Ready W p then
      some { s with sender := s.sender.send W p, packets := s.packets ++ [s.sender.header p] }
    else
      some { s with sender := s.sender.catchUp W p }
  | .polling => some { s with sender := s.sender.poll W p now }
  | .waiting _ => none
  | .closing => some { s with sender := s.sender.finish W now }
  | .closed => none

/-- A negative `timeout` is none. -/
def receiveStep (timeout : Int) (now : ℚ) (s : Flow ω) : Receipt → Option (Flow ω)
  | .timeout => if 0 ≤ timeout then some { s with sender := s.sender.timedOut W now } else none
  | .error => some { s with sender := s.sender.receive W p now }
  | .packet index => s.echoes[index]?.map fun buf =>
      { s with sender := { s.sender with buf }.receive W p now }

def step (s : Flow ω) : Action → Option (Flow ω)
  | .sender now => s.senderStep W p now
  | .receive r now =>
    match s.sender.pc with
    | .waiting timeout => s.receiveStep W p timeout now r
    | _ => none
  | .echo index receiver_timestamp =>
    s.packets[index]?.map fun header =>
      { s with echoes := s.echoes ++ [{ header with receiver_timestamp }] }

end Flow

end ALCC.Ctcp
