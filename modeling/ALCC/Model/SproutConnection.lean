import ALCC.Model.SproutPacket
import ALCC.Theory.MachineInt
import Mathlib.Data.List.Sort

/-! The accounts of bytes in the port of Sprout to TCP. A sender numbers its packets in
`Connection::new_packet`, and bounds the packets that may still be late by its `SendQueue`; the
receiver adds up the packets in its `RecvQueue`, and sends the sum back as `received_or_lost_count`.
The round-trip times, the forecasts and the arrivals per tick are left out. All calls of `timestamp`
in a step yield the same time. -/

namespace ALCC.Sprout

open MachineInt

namespace SendQueue

/-- In milliseconds. -/
def REORDER_LIMIT : UInt64 := 10

/-- `add`, with the queue of numbers and times, the front first. When the queue becomes empty an
assertion fails. -/
def add (seq now : UInt64) (sent_packets : List (UInt64 × UInt64)) :
    Option (UInt16 × List (UInt64 × UInt64)) :=
  match (sent_packets ++ [(seq, now)]).dropWhile fun x => x.2 < now - REORDER_LIMIT with
  | [] => none
  | front :: sent_packets =>
    let throwaway_before_seq := seq - front.1
    let throwaway_before_seq :=
      if 65535 < throwaway_before_seq then 65535 else throwaway_before_seq
    some (throwaway_before_seq.toUInt16, front :: sent_packets)

end SendQueue

structure PacketLen where
  seq : UInt64
  len : Nat

/-- The entries stand in the order of their priority. -/
structure RecvQueue where
  received_sequence_numbers : List PacketLen
  throwaway_before : UInt64

namespace RecvQueue

def recv (seq : UInt64) (throwaway_window : UInt16) (len : Nat) (q : RecvQueue) : RecvQueue where
  received_sequence_numbers :=
    q.received_sequence_numbers.orderedInsert (fun a b => a.seq ≤ b.seq) ⟨seq, len⟩
  throwaway_before := max q.throwaway_before (seq - throwaway_window.toUInt64)

/-- `packet_count`, with the queue after it. -/
def packet_count (q : RecvQueue) : UInt64 × RecvQueue :=
  let kept := q.received_sequence_numbers.dropWhile fun p => p.seq < q.throwaway_before
  let buffer_sum := toI32 (kept.map PacketLen.len).sum
  (q.throwaway_before + .ofInt buffer_sum, { q with received_sequence_numbers := kept })

end RecvQueue

structure Connection where
  server : Bool
  next_seq : UInt64
  saved_timestamp : UInt16
  saved_timestamp_received_at : UInt64
  expected_receiver_seq : UInt64
  send_queue : List (UInt64 × UInt64)
  recv_queue : RecvQueue

namespace Connection

/-- The two constructors. -/
def new (server : Bool) : Connection where
  server
  next_seq := 0
  saved_timestamp := -1
  saved_timestamp_received_at := 0
  expected_receiver_seq := 0
  send_queue := []
  recv_queue := ⟨[], 0⟩

def direction (c : Connection) : Direction := if c.server then .TO_CLIENT else .TO_SERVER

def timestamp16 (now : UInt64) : UInt16 :=
  let ts := (now % 65536).toUInt16
  if ts = -1 then ts + 1 else ts

def new_packet (s_payload : Bytes) (time_to_next : UInt16) (now : UInt64) (c : Connection) :
    Option (Packet × Connection) :=
  let held := now - c.saved_timestamp_received_at
  let recent := decide (held < 1000)
  (SendQueue.add c.next_seq now c.send_queue).map fun (throwaway_window, send_queue) =>
    ({ seq := c.next_seq
       direction := c.direction
       timestamp := timestamp16 now
       timestamp_reply := if recent then c.saved_timestamp + held.toUInt16 else -1
       throwaway_window
       time_to_next
       payloadSize := .ofNat s_payload.length
       payload := s_payload },
     { c with
       next_seq := c.next_seq + (.ofNat s_payload.length + 50)
       saved_timestamp := if recent then -1 else c.saved_timestamp
       saved_timestamp_received_at := if recent then 0 else c.saved_timestamp_received_at
       send_queue })

/-- What `Connection::recv` does with a packet. -/
def receive (p : Packet) (now : UInt64) (c : Connection) : Option Connection :=
  if p.direction = (if c.server then .TO_SERVER else .TO_CLIENT) then
    let c := { c with
      recv_queue := c.recv_queue.recv p.seq p.throwaway_window p.payload.length }
    if c.expected_receiver_seq ≤ p.seq then
      some { c with
        expected_receiver_seq := p.seq + 1
        saved_timestamp := if p.timestamp ≠ -1 then p.timestamp else c.saved_timestamp
        saved_timestamp_received_at :=
          if p.timestamp ≠ -1 then now else c.saved_timestamp_received_at }
    else
      some c
  else
    none

end Connection

/-- The packets that one end sends to the other. `received` is the number of those received. -/
structure Link where
  sender : Connection
  receiver : Connection
  inFlight : List Packet
  received : Nat

namespace Link

inductive Action where
  | send (s_payload : Bytes) (time_to_next : UInt16) (now : UInt64)
  | receive (now : UInt64)
  /-- A forecast of the receiver calls `packet_count`. -/
  | forecast

def start (server : Bool) : Link where
  sender := .new server
  receiver := .new !server
  inFlight := []
  received := 0

def step (s : Link) : Action → Option Link
  | .send s_payload time_to_next now =>
    (s.sender.new_packet s_payload time_to_next now).map fun (p, sender) =>
      { s with sender, inFlight := s.inFlight ++ [p] }
  | .receive now =>
    match s.inFlight with
    | [] => none
    | p :: inFlight =>
      (s.receiver.receive p now).map fun receiver =>
        { s with receiver, inFlight, received := s.received + 1 }
  | .forecast =>
    let receiver := { s.receiver with recv_queue := s.receiver.recv_queue.packet_count.2 }
    some { s with receiver }

/-- The result of `packet_count`. -/
def count (s : Link) : UInt64 := s.receiver.recv_queue.packet_count.1

/-- `current_queue_bytes_estimate`, of a forecast that is not delayed. -/
def estimate (s : Link) : Int := toI32 (s.sender.next_seq - s.count).toNat

end Link

end ALCC.Sprout
