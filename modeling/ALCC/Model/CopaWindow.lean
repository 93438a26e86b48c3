import ALCC.Theory.Binary64
import Mathlib.Algebra.Order.Monoid.WithTop
import Mathlib.Data.List.DropRight
import Mathlib.Data.List.Sort

/-! The window computations of `libalcc_copa.cpp`, with `rtt-window.cc` and `ReduceOnLoss` of
`estimators.cc`, in exact arithmetic: `double` is `ℚ`, and `numeric_limits<double>::max()` is `⊤`.
Estimators that nothing reads are left out. -/

namespace ALCC.Copa

open Binary64

/-- The samples have the time and the value, the oldest first. -/
structure ExtremeWindow where
  find_min : Bool
  max_time : WithTop ℚ
  vals : List (ℚ × ℚ)
  extreme : WithTop ℚ

namespace ExtremeWindow

/-- The constructor. The extreme of no samples is the largest `double`, or the smallest positive
normal one. -/
def new (find_min : Bool) : ExtremeWindow where
  find_min
  max_time := (10000 : ℚ)
  vals := []
  extreme := if find_min then ⊤ else (2 ^ (-1022 : ℤ) : ℚ)

def clear (w : ExtremeWindow) : ExtremeWindow := new w.find_min

def updateMaxTime (t : WithTop ℚ) (w : ExtremeWindow) : ExtremeWindow := { w with max_time := t }

/-- `operator double`, once there is a sample. -/
def value (w : ExtremeWindow) : ℚ := w.extreme.untopD 0

/-- `vals.front().first < now - max_time`. -/
def Old (w : ExtremeWindow) (now : ℚ) (x : ℚ × ℚ) : Prop := x.1 + w.max_time < now

instance (w : ExtremeWindow) (now : ℚ) : DecidablePred (w.Old now) := fun x =>
  inferInstanceAs (Decidable (x.1 + w.max_time < now))

/-- The loop of `clear_old_hist`. -/
def popOld (w : ExtremeWindow) (now : ℚ) : List (ℚ × ℚ) → Bool → List (ℚ × ℚ) × Bool
  | x :: y :: rest, recompute =>
    if w.Old now x then
      popOld w now (y :: rest)
        (decide (if w.find_min then x.2 ≤ w.extreme else w.extreme ≤ x.2) || recompute)
    else
      (x :: y :: rest, recompute)
  | vals, recompute => (vals, recompute)

def clearOldHist (now : ℚ) (w : ExtremeWindow) : ExtremeWindow :=
  let (vals, recompute) := w.popOld now w.vals false
  { w with
    vals
    extreme :=
      match vals with
      | x :: _ => if recompute then x.2 else w.extreme
      | [] => w.extreme }

/-- The start of `new_sample`. -/
def pushSample (val now : ℚ) (w : ExtremeWindow) : ExtremeWindow :=
  { w with
    vals :=
      (w.vals.rdropWhile fun x => decide (if w.find_min then val < x.2 else x.2 < val)) ++
        [(now, val)]
    extreme := if if w.find_min then val < w.extreme else w.extreme < val then ↑val else w.extreme }

def newSample (val now : ℚ) (w : ExtremeWindow) : ExtremeWindow :=
  (w.pushSample val now).clearOldHist now

end ExtremeWindow

structure RTTWindow where
  srtt : ℚ
  latest_rtt : ℚ
  min_rtt : ExtremeWindow
  unjittered_rtt : ExtremeWindow
  is_copa_min : ExtremeWindow
  is_copa_max : ExtremeWindow

namespace RTTWindow

def new : RTTWindow where
  srtt := 0
  latest_rtt := 0
  min_rtt := .new true
  unjittered_rtt := .new true
  is_copa_min := .new true
  is_copa_max := .new false

def clear (r : RTTWindow) : RTTWindow :=
  { r with
    srtt := 0
    min_rtt := r.min_rtt.clear
    unjittered_rtt := r.unjittered_rtt.clear
    is_copa_min := r.is_copa_min.clear
    is_copa_max := r.is_copa_max.clear }

def srtt_alpha : ℚ := 1 / 16

def newRttSample (rtt now : ℚ) (r : RTTWindow) : RTTWindow :=
  let srtt := if r.srtt = 0 then rtt else r.srtt
  let srtt := srtt_alpha * rtt + (1 - srtt_alpha) * srtt
  let max_time : WithTop ℚ := max (10000 : ℚ) (r.min_rtt.extreme.map (20 * ·))
  { srtt
    latest_rtt := rtt
    min_rtt := (r.min_rtt.updateMaxTime max_time).newSample rtt now
    unjittered_rtt :=
      (r.unjittered_rtt.updateMaxTime (min max_time (srtt * (1 / 2) : ℚ))).newSample rtt now
    is_copa_min := (r.is_copa_min.updateMaxTime (min max_time (srtt * 4 : ℚ))).newSample rtt now
    is_copa_max := (r.is_copa_max.updateMaxTime (min max_time (srtt * 4 : ℚ))).newSample rtt now }

def isCopa (r : RTTWindow) : Bool :=
  let threshold := r.min_rtt.value + 1 / 10 * (r.is_copa_max.value - r.min_rtt.value)
  decide (r.is_copa_min.value < threshold)

end RTTWindow

structure ReduceOnLoss where
  num_lost : Nat
  num_pkts : Nat
  prev_win_time : ℚ

namespace ReduceOnLoss

def new : ReduceOnLoss := ⟨0, 0, 0⟩

/-- Whether to reduce is the second component. -/
def update (loss : Bool) (cur_time rtt : ℚ) (r : ReduceOnLoss) : ReduceOnLoss × Bool :=
  let num_lost := if loss then r.num_lost + 1 else r.num_lost
  let num_pkts := r.num_pkts + 1
  if r.prev_win_time + 2 * rtt < cur_time ∧ 20 < num_pkts then
    (⟨0, 0, cur_time⟩, decide ((3 / 10 : ℚ) < num_lost / num_pkts))
  else
    (⟨num_lost, num_pkts, r.prev_win_time⟩, false)

end ReduceOnLoss

/-- The values that are compared here, and of `OperationMode` likewise. -/
inductive UtilityMode where
  | CONSTANT_DELTA
  | TCP_COOP
  | AUTO_MODE
  deriving DecidableEq

inductive OperationMode where
  | DEFAULT_MODE
  | LOSS_SENSITIVE_MODE
  deriving DecidableEq

def num_probe_pkts : Nat := 10

def train_length : Nat := 1

def utility_mode : UtilityMode := .AUTO_MODE

def do_slow_start : Bool := true

def default_delta : ℚ := 2 / 100

/-- The members of `ALCCSocket` that the window computations use. Of `unacknowledged_packets` only
the keys are kept, in their order. -/
structure Window where
  cur_tick : ℚ
  delta : ℚ
  the_window : ℚ
  intersend_time : ℚ
  cur_intersend_time : ℚ
  external_min_rtt : ℚ
  min_rtt : WithTop ℚ
  rtt_window : RTTWindow
  unacknowledged_packets : List Int
  last_update_time : ℚ
  update_dir : Int
  prev_update_dir : Int
  update_amt : ℚ
  num_pkts_acked : Nat
  operation_mode : OperationMode
  prev_delta_update_time : ℚ
  prev_delta_update_time_loss : ℚ
  reduce_on_loss : ReduceOnLoss
  slow_start : Bool

namespace Window

def init (w : Window) : Window :=
  { w with
    intersend_time := if w.external_min_rtt ≠ 0 then w.external_min_rtt / num_probe_pkts else 0
    the_window := num_probe_pkts
    min_rtt := ⊤
    delta := if utility_mode ≠ .CONSTANT_DELTA then 1 else w.delta
    unacknowledged_packets := []
    rtt_window := w.rtt_window.clear
    cur_intersend_time := 0
    last_update_time := 0
    update_dir := 1
    prev_update_dir := 1
    update_amt := 1
    num_pkts_acked := 0
    operation_mode := .DEFAULT_MODE
    prev_delta_update_time := 0
    prev_delta_update_time_loss := 0
    reduce_on_loss := .new
    slow_start := true }

/-- The constructor. -/
def new : Window :=
  init
    { cur_tick := 0
      delta := 1
      the_window := 0
      intersend_time := 0
      cur_intersend_time := 0
      external_min_rtt := 0
      min_rtt := ⊤
      rtt_window := .new
      unacknowledged_packets := []
      last_update_time := 0
      update_dir := 0
      prev_update_dir := 0
      update_amt := 0
      num_pkts_acked := 0
      operation_mode := .DEFAULT_MODE
      prev_delta_update_time := 0
      prev_delta_update_time_loss := 0
      reduce_on_loss := .new
      slow_start := false }

def setMinRtt (x : ℚ) (w : Window) : Window :=
  init { w with external_min_rtt := if w.external_min_rtt = 0 then x else min w.external_min_rtt x }

def setTimestamp (s_cur_tick : ℚ) (w : Window) : Window := { w with cur_tick := s_cur_tick }

/-- What `pkt_sender` does before its loop, where `cur_time` is its second reading of the clock. -/
def start (cur_time : ℚ) : Window := init (setTimestamp cur_time (setMinRtt 20 new))

/-- The start of `update_delta`. -/
def updateMode (w : Window) : Window :=
  if utility_mode = .AUTO_MODE then
    { w with
      operation_mode := if w.rtt_window.isCopa then .DEFAULT_MODE else .LOSS_SENSITIVE_MODE }
  else w

/-- `update_delta` in the default mode. -/
def updateDeltaDefault (cur_rtt : ℚ) (w : Window) : Window :=
  if w.prev_delta_update_time = 0 ∨ w.prev_delta_update_time_loss + cur_rtt < w.cur_tick then
    let delta := if w.delta < default_delta then default_delta else w.delta
    { w with delta := min delta default_delta, prev_delta_update_time := w.cur_tick }
  else w

/-- The change of `delta` in the loss sensitive mode. -/
def changeDelta (pkt_lost : Bool) (cur_rtt : ℚ) (w : Window) : Window :=
  if pkt_lost ∧ w.prev_delta_update_time_loss + cur_rtt < w.cur_tick then
    { w with delta := w.delta * 2, prev_delta_update_time_loss := w.cur_tick }
  else if w.prev_delta_update_time + cur_rtt < w.cur_tick then
    { w with delta := 1 / (1 / w.delta + 1), prev_delta_update_time := w.cur_tick }
  else w

/-- `update_delta` in the loss sensitive mode. -/
def updateDeltaLoss (pkt_lost : Bool) (cur_rtt : ℚ) (w : Window) : Window :=
  let w := if w.prev_delta_update_time = 0 then { w with delta := default_delta } else w
  let w := w.changeDelta pkt_lost cur_rtt
  { w with delta := min w.delta default_delta }

def updateDelta (pkt_lost : Bool) (cur_rtt : ℚ) (w : Window) : Window :=
  let w := w.updateMode
  if w.operation_mode = .DEFAULT_MODE ∧ utility_mode ≠ .TCP_COOP then
    w.updateDeltaDefault cur_rtt
  else if utility_mode = .TCP_COOP ∨ w.operation_mode = .LOSS_SENSITIVE_MODE then
    w.updateDeltaLoss pkt_lost cur_rtt
  else w

/-- `rtt` in `update_intersend_time`. -/
def rtt (w : Window) : ℚ := w.rtt_window.unjittered_rtt.value

def queuing_delay (w : Window) : ℚ := w.rtt - w.min_rtt.untopD 0

def target_window (w : Window) : WithTop ℚ :=
  if w.queuing_delay = 0 then ⊤ else ((w.rtt / (w.queuing_delay * w.delta) : ℚ) : WithTop ℚ)

/-- The start-up behaviour. -/
def slowStart (w : Window) : Window :=
  if do_slow_start ∨ w.target_window = ⊤ then
    { w with
      the_window := w.the_window + 1
      slow_start := if w.target_window ≤ (w.the_window + 1 : ℚ) then false else w.slow_start }
  else w

/-- The velocity, once for an RTT. -/
def updateAmt (w : Window) : Window :=
  let w :=
    if w.last_update_time + w.rtt_window.latest_rtt < w.cur_tick then
      let w :=
        if 0 < w.prev_update_dir * w.update_dir then
          { w with update_amt :=
              if w.update_amt < 6 / 1000 then w.update_amt + 5 / 1000
              else (trunc w.update_amt * 2 : Int) }
        else
          { w with update_amt := 1, prev_update_dir := w.prev_update_dir * -1 }
      { w with last_update_time := w.cur_tick, update_dir := 0 }
    else w
  let update_amt := if w.the_window * w.delta < w.update_amt then w.update_amt / 2 else w.update_amt
  { w with update_amt := max update_amt 1 }

/-- A step towards `target_window`. -/
def updateWindow (w : Window) : Window :=
  let w := w.updateAmt
  if w.the_window < w.target_window then
    { w with
      update_dir := w.update_dir + 1
      the_window := w.the_window + w.update_amt / (w.delta * w.the_window) }
  else
    { w with
      update_dir := w.update_dir - 1
      the_window := w.the_window - w.update_amt / (w.delta * w.the_window) }

/-- `_the_window = max(2.0, _the_window)`, and the intersend time for it. -/
def setIntersendTime (w : Window) : Window :=
  let the_window := max 2 w.the_window
  let cur_intersend_time := 1 / 2 * w.rtt / the_window
  { w with the_window, cur_intersend_time, intersend_time := cur_intersend_time }

/-- The first two RTTs are for probing. -/
def Probing (w : Window) : Prop := w.num_pkts_acked < 2 * num_probe_pkts - 1

instance (w : Window) : Decidable w.Probing := inferInstanceAs (Decidable (_ < _))

def updateIntersendTime (w : Window) : Window :=
  if w.Probing then w
  else if w.slow_start then w.slowStart.setIntersendTime
  else w.updateWindow.setIntersendTime

/-- The state of the loop over `unacknowledged_packets`, whose entries `left` are not erased. -/
structure AckLoop where
  left : List Int
  pkt_lost : Bool
  reduce : Bool
  reduce_on_loss : ReduceOnLoss

/-- The loop over `unacknowledged_packets`. The source has just erased the entry of `seq_num` when
it goes on from it, which is undefined; here the loop goes on behind it, and no result about the
window depends on what it removes. The branch for a lost packet is never taken: an entry before
`seq_num` leaves the loop. -/
def ackLoop (seq_num : Int) (cur_time rtt : ℚ) : List Int → AckLoop → AckLoop
  | [], r => r
  | x :: rest, r =>
    if x < seq_num then
      { r with left := rest }
    else if seq_num < x then
      r
    else
      let (reduce_on_loss, reduce) := r.reduce_on_loss.update true cur_time rtt
      let r :=
        if x < seq_num then
          { r with pkt_lost := true, reduce := r.reduce || reduce, reduce_on_loss }
        else r
      ackLoop seq_num cur_time rtt rest { r with left := rest }

/-- `onACK` up to the call of `update_intersend_time`. -/
def sample (sent_time : ℚ) (w : Window) : Window :=
  let rtt_window := w.rtt_window.newRttSample (w.cur_tick - sent_time) w.cur_tick
  { w with rtt_window, min_rtt := rtt_window.min_rtt.extreme }.updateDelta false
    (w.cur_tick - sent_time)

/-- `onACK` after the call of `update_intersend_time`. -/
def settle (seq_num : Int) (w : Window) : Window :=
  let start : AckLoop := ⟨w.unacknowledged_packets, false, false, w.reduce_on_loss⟩
  let r :=
    if seq_num ∈ w.unacknowledged_packets then
      ackLoop seq_num w.cur_tick w.rtt_window.latest_rtt w.unacknowledged_packets start
    else start
  let w := { w with unacknowledged_packets := r.left }
  let w := if r.pkt_lost then w.updateDelta true 0 else w
  let (reduce_on_loss, reduce) := r.reduce_on_loss.update false w.cur_tick w.rtt_window.latest_rtt
  let w := { w with reduce_on_loss }
  let w :=
    if r.reduce || reduce then
      { w with the_window := w.the_window * (7 / 10) }.setIntersendTime
    else w
  { w with num_pkts_acked := w.num_pkts_acked + 1 }

def onACK (ack : Int) (sent_time : ℚ) (w : Window) : Window :=
  (w.sample sent_time).updateIntersendTime.settle ack

def onPktSent (seq_num : Int) (w : Window) : Window :=
  { w with
    unacknowledged_packets :=
      if seq_num ∈ w.unacknowledged_packets then w.unacknowledged_packets
      else w.unacknowledged_packets.orderedInsert (· ≤ ·) seq_num
    intersend_time := w.cur_intersend_time }

/-- The calls of the two threads. -/
inductive Call where
  | setTimestamp (s_cur_tick : ℚ)
  | onPktSent (seq_num : Int)
  | onACK (ack : Int) (sent_time : ℚ)

def step (w : Window) : Call → Option Window
  | .setTimestamp s_cur_tick => some (w.setTimestamp s_cur_tick)
  | .onPktSent seq_num => some (w.onPktSent seq_num)
  | .onACK ack sent_time => some (w.onACK ack sent_time)

end Window

end ALCC.Copa
