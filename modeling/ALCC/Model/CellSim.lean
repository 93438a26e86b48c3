import ALCC.Theory.MachineInt
import ALCC.Theory.Run

/-! The emulation of a cellular link in `cellsim.cc`. A packet is delayed, and then waits for the
opportunities of a schedule, each of which delivers 1500 bytes. A failed assertion yields `none`.
What is printed is part of the state; reading the numbers from the file is left out. -/

namespace ALCC.CellSim

open MachineInt

structure DelayedPacket where
  entry_time : UInt64
  release_time : UInt64
  contents : List UInt8

structure PartialPacket where
  bytes_earned : Int
  packet : DelayedPacket

/-- The delay of a delivery stands as it is before its conversion to `int`. -/
inductive Line where
  | delivery (now : UInt64) (delay : UInt64)
  | bin (bin_sec used_bytes total_bytes : UInt64)

structure DelayQueue where
  delay : List DelayedPacket
  pdp : List DelayedPacket
  limbo : List PartialPacket
  schedule : List UInt64
  delivered : List (List UInt8)
  ms_delay : UInt64
  total_bytes : UInt64
  used_bytes : UInt64
  bin_sec : UInt64
  printed : List Line

namespace DelayQueue

def SERVICE_PACKET_SIZE : Int := 1500

/-- The loop that reads the schedule. -/
def load (base_timestamp : UInt64) : (file schedule : List UInt64) → Option (List UInt64)
  | [], schedule => some schedule
  | ms :: file, schedule =>
    let ms := ms + base_timestamp
    if schedule.getLast?.all (· ≤ ms) then load base_timestamp file (schedule ++ [ms])
    else none

def new (ms_delay : UInt64) (file : List UInt64) (base_timestamp timestamp : UInt64) :
    Option DelayQueue :=
  (load base_timestamp file []).map fun schedule =>
    { delay := []
      pdp := []
      limbo := []
      schedule
      delivered := []
      ms_delay
      total_bytes := 0
      used_bytes := 0
      bin_sec := timestamp / 1000
      printed := [] }

/-- Deliver a packet. -/
def deliver (now : UInt64) (packet : DelayedPacket) (q : DelayQueue) : DelayQueue :=
  { q with
    total_bytes := q.total_bytes + .ofNat packet.contents.length
    used_bytes := q.used_bytes + .ofNat packet.contents.length
    printed := q.printed ++ [.delivery now (now - packet.entry_time)]
    delivered := q.delivered ++ [packet.contents] }

/-- Execute the regular queue `pdp`. -/
def regular (now : UInt64) : (pdp : List DelayedPacket) → (bytes_to_play_with : Int) → DelayQueue →
    Option DelayQueue
  | [], bytes_to_play_with, q =>
    if 0 < bytes_to_play_with then
      if q.limbo.isEmpty then
        some { q with pdp := [], total_bytes := q.total_bytes + .ofInt bytes_to_play_with }
      else
        none
    else
      some { q with pdp := [] }
  | packet :: pdp, bytes_to_play_with, q =>
    if 0 < bytes_to_play_with then
      if q.limbo.isEmpty then
        if toI32 packet.contents.length ≤ bytes_to_play_with then
          regular now pdp (toI32 (bytes_to_play_with - packet.contents.length))
            (q.deliver now packet)
        else
          some { q with pdp, limbo := [⟨bytes_to_play_with, packet⟩] }
      else
        none
    else
      some { q with pdp := packet :: pdp }

/-- An opportunity: execute the limbo queue first. -/
def serve (now : UInt64) (q : DelayQueue) : Option DelayQueue :=
  match q.limbo with
  | [] => q.regular now q.pdp SERVICE_PACKET_SIZE
  | front :: limbo =>
    let size := front.packet.contents.length
    if toI32 size ≤ front.bytes_earned + SERVICE_PACKET_SIZE then
      let bytes_to_play_with := toI32 (SERVICE_PACKET_SIZE - (size - front.bytes_earned))
      if 0 ≤ bytes_to_play_with ∧ limbo.isEmpty then
        regular now q.pdp bytes_to_play_with { q.deliver now front.packet with limbo }
      else
        none
    else
      let bytes_earned := front.bytes_earned + SERVICE_PACKET_SIZE
      if bytes_earned < toI32 size then
        some { q with limbo := { front with bytes_earned } :: limbo }
      else
        none

/-- Execute the packet delivery schedule. -/
def execute (now : UInt64) : (schedule : List UInt64) → DelayQueue → Option DelayQueue
  | [], q => some { q with schedule := [] }
  | ms :: schedule, q =>
    if ms ≤ now then (q.serve now).bind (execute now schedule)
    else some { q with schedule := ms :: schedule }

/-- Some rounds of the loop that prints the bins. -/
def print : (rounds : Nat) → DelayQueue → DelayQueue
  | 0, q => q
  | rounds + 1, q =>
    print rounds { q with
      printed := q.printed ++ [.bin q.bin_sec q.used_bytes q.total_bytes]
      total_bytes := 0
      used_bytes := 0
      bin_sec := q.bin_sec + 1 }

def tick (now : UInt64) (q : DelayQueue) : Option DelayQueue :=
  let q := { q with
    pdp := q.pdp ++ q.delay.takeWhile fun p => p.release_time ≤ now
    delay := q.delay.dropWhile fun p => p.release_time ≤ now }
  (execute now q.schedule q).map fun q => q.print ((now / 1000).toNat - q.bin_sec.toNat)

def INT_MAX : Int := 2 ^ 31 - 1

def wait_time (now : UInt64) (q : DelayQueue) : Option (Int × DelayQueue) :=
  (q.tick now).bind fun q =>
    let delay_wait :=
      match q.delay with
      | [] => INT_MAX
      | front :: _ => max 0 (toI32 (front.release_time - now).toNat)
    match q.schedule with
    | [] => some (min delay_wait INT_MAX, q)
    | front :: _ =>
      let schedule_wait := toI32 (front - now).toNat
      if 0 ≤ schedule_wait then some (min delay_wait schedule_wait, q) else none

def read (now : UInt64) (q : DelayQueue) : Option (List (List UInt8) × DelayQueue) :=
  (q.tick now).map fun q => (q.delivered, { q with delivered := [] })

def write (now : UInt64) (packet : List UInt8) (q : DelayQueue) : DelayQueue :=
  { q with delay := q.delay ++ [⟨now, now + q.ms_delay, packet⟩] }

end DelayQueue

/-- A queue, what `timestamp` yields, and all packets that were written and read. -/
structure Emulator where
  timestamp : UInt64
  queue : DelayQueue
  written : List (List UInt8)
  received : List (List UInt8)

namespace Emulator

inductive Action where
  | freeze_timestamp (timestamp : UInt64)
  | write (packet : List UInt8)
  | read
  | wait_time

def start (ms_delay : UInt64) (file : List UInt64) (base_timestamp timestamp : UInt64) :
    Option Emulator :=
  (DelayQueue.new ms_delay file base_timestamp timestamp).map fun queue =>
    ⟨timestamp, queue, [], []⟩

def step (s : Emulator) : Action → Option Emulator
  | .freeze_timestamp timestamp => some { s with timestamp }
  | .write packet =>
    some { s with
      queue := s.queue.write s.timestamp packet
      written := s.written ++ [packet] }
  | .read => (s.queue.read s.timestamp).map fun (packets, queue) =>
    { s with queue, received := s.received ++ packets }
  | .wait_time => (s.queue.wait_time s.timestamp).map fun (_, queue) => { s with queue }

end Emulator

end ALCC.CellSim
