import ALCC.Model.CopaWindow

/-! The accounts of lost packets in `onACK`, in `libalcc_copa.cpp` and in the native
`markoviancc.cc` that it was ported from. Both loop over `unacknowledged_packets` while they erase
its entries. To go on from an entry that has been erased is undefined behaviour, which yields
`none`. -/

namespace ALCC.Copa

structure PacketData where
  sent_time : ℚ
  intersend_time : ℚ
  intersend_time_vel : ℚ
  rtt : ℚ
  prev_avg_sending_rate : ℚ

/-- A `std::map<SeqNum, PacketData>`, in the order of its keys. -/
structure PacketMap where
  entries : List (Int × PacketData)
  sorted : entries.Pairwise fun x y => x.1 < y.1

namespace PacketMap

def keys (m : PacketMap) : List Int := m.entries.map Prod.fst

def erase (k : Int) (m : PacketMap) : PacketMap where
  entries := m.entries.filter fun x => x.1 ≠ k
  sorted := m.sorted.filter _

end PacketMap

/-- The members that the loop changes, and its local variables. `prev` has the values of
`prev_rtt_update_time`, `prev_intersend_time`, `prev_intersend_time_vel`, `prev_rtt` and
`prev_avg_sending_rate`, and `lossUpdates` counts the calls of `reduce_on_loss.update(true, ..)`. -/
structure Scan where
  unacknowledged_packets : PacketMap
  prev : PacketData
  num_pkts_lost : Nat
  reduce_on_loss : ReduceOnLoss
  lossUpdates : Nat
  pkt_lost : Bool
  reduce : Bool

namespace Scan

variable (seq_num : Int) (cur_time rtt : ℚ)

/-- The part of the loop body that the two versions share. -/
def visit (r : Scan) (x : Int × PacketData) : Scan :=
  let r := { r with prev := x.2 }
  let r :=
    if x.1 < seq_num then
      let (reduce_on_loss, reduce) := r.reduce_on_loss.update true cur_time rtt
      { r with
        num_pkts_lost := r.num_pkts_lost + 1
        pkt_lost := true
        reduce_on_loss
        lossUpdates := r.lossUpdates + 1
        reduce := r.reduce || reduce }
    else r
  { r with unacknowledged_packets := r.unacknowledged_packets.erase x.1 }

/-- The loop of `libalcc_copa.cpp`. At the end of a round the iterator of the loop moves on from the
entry of this round, which has to be in the map. -/
def ackLoop : List (Int × PacketData) → Scan → Option Scan
  | [], r => some r
  | x :: rest, r =>
    if x.1 < seq_num then
      some { r with unacknowledged_packets := r.unacknowledged_packets.erase x.1 }
    else if seq_num < x.1 then
      some r
    else
      let r := r.visit seq_num cur_time rtt x
      if x.1 ∈ r.unacknowledged_packets.keys then ackLoop rest r else none

/-- The loop of `markoviancc.cc`, whose assertion says that the keys are in order. -/
def nativeLoop : List (Int × PacketData) → Scan → Option Scan
  | [], r => some r
  | x :: rest, r =>
    if seq_num < x.1 then
      some r
    else
      let r := r.visit seq_num cur_time rtt x
      if x.1 ∈ r.unacknowledged_packets.keys then nativeLoop rest r else none

end Scan

/-- The members of `ALCCSocket` or `MarkovianCC`. `deltaLosses` counts the calls of
`update_delta(true)`. -/
structure Flow where
  window : Window
  unacknowledged_packets : PacketMap
  prev : PacketData
  num_pkts_lost : Nat
  deltaLosses : Nat
  lossUpdates : Nat

namespace Flow

variable (loop : Int → ℚ → ℚ → List (Int × PacketData) → Scan → Option Scan) (f : Flow)

/-- The loop and what stands around it. -/
def scan (seq_num : Int) : Option Scan :=
  let start : Scan :=
    ⟨f.unacknowledged_packets, f.prev, f.num_pkts_lost, f.window.reduce_on_loss, f.lossUpdates,
      false, false⟩
  if seq_num ∈ f.unacknowledged_packets.keys then
    loop seq_num f.window.cur_tick f.window.rtt_window.latest_rtt f.unacknowledged_packets.entries
      start
  else some start

/-- The end of `onACK`. -/
def conclude (r : Scan) : Flow :=
  let w := { f.window with unacknowledged_packets := r.unacknowledged_packets.keys }
  let w := if r.pkt_lost then w.updateDelta true 0 else w
  let (reduce_on_loss, reduce) := r.reduce_on_loss.update false w.cur_tick w.rtt_window.latest_rtt
  let w := { w with reduce_on_loss }
  let w :=
    if r.reduce || reduce then
      { w with the_window := w.the_window * (7 / 10) }.setIntersendTime
    else w
  { window := { w with num_pkts_acked := w.num_pkts_acked + 1 }
    unacknowledged_packets := r.unacknowledged_packets
    prev := r.prev
    num_pkts_lost := r.num_pkts_lost
    deltaLosses := if r.pkt_lost then f.deltaLosses + 1 else f.deltaLosses
    lossUpdates := r.lossUpdates }

/-- `onACK`, with the loop of one of the two versions. -/
def acknowledge (seq_num : Int) (sent_time : ℚ) : Option Flow :=
  let f := { f with window := (f.window.sample sent_time).updateIntersendTime }
  (f.scan loop seq_num).map f.conclude

/-- `ALCCSocket::onACK`. -/
def onACK (ack : Int) (sent_time : ℚ) : Option Flow := f.acknowledge Scan.ackLoop ack sent_time

/-- `MarkovianCC::onACK`, without its assertions. It counts from another number. -/
def nativeOnACK (ack : Int) (sent_time : ℚ) : Option Flow :=
  f.acknowledge Scan.nativeLoop (ack - 1) sent_time

end Flow

end ALCC.Copa
