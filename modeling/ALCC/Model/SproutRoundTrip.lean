import ALCC.Model.SproutConnection
import ALCC.Theory.Run
import Mathlib.Data.Rat.Floor
import Mathlib.Logic.Function.Basic

/-! The round-trip times of `network.cc`, in exact arithmetic. A packet carries the low bits of its
sender's clock. The other end sends them back, advanced by the time it held them, and takes each of
them once. Here the network may lose packets, repeat them and deliver them in any order. Each packet
and each end also remember the clocks as they were in full, which no call of the source looks at. -/

namespace ALCC.Sprout

/-- A failed assertion yields `none`. -/
def timestamp_diff (tsnew tsold : UInt16) : Option UInt16 :=
  let diff : Int := tsnew.toNat - tsold.toNat
  let diff := if diff < 0 then diff + 65536 else diff
  if 0 ≤ diff ∧ diff ≤ 65535 then some (.ofInt diff) else none

structure RoundTrip where
  RTT_hit : Bool
  SRTT : ℚ
  RTTVAR : ℚ

namespace RoundTrip

def MIN_RTO : Nat := 50

def MAX_RTO : Nat := 5000

def new : RoundTrip where
  RTT_hit := false
  SRTT := 1000
  RTTVAR := 500

/-- `Connection::recv` upon a sample. -/
def observe (r : RoundTrip) (R : UInt16) : RoundTrip :=
  if R < 50000 then
    if r.RTT_hit then
      { r with
        RTTVAR := (1 - 1 / 4) * r.RTTVAR + 1 / 4 * |r.SRTT - R.toNat|
        SRTT := (1 - 1 / 8) * r.SRTT + 1 / 8 * R.toNat }
    else
      { RTT_hit := true
        SRTT := R.toNat
        RTTVAR := R.toNat / 2 }
  else
    r

def timeout (r : RoundTrip) : Nat :=
  let RTO := ⌈r.SRTT + 4 * r.RTTVAR⌉.toNat
  if RTO < MIN_RTO then MIN_RTO else if MAX_RTO < RTO then MAX_RTO else RTO

end RoundTrip

/-- The packet whose timestamp comes back was sent at `sent_at`, and `held` for some time. The first
is a time of the end it comes back to, the second one of the other end. -/
structure Echo where
  sent_at : UInt64
  held : UInt64

structure Transmission where
  packet : Packet
  sent_at : UInt64
  echo : Option Echo

/-- A sample, the time at which it was taken, and what it measures. -/
structure Sample where
  R : UInt16
  taken_at : UInt64
  echo : Option Echo

/-- `saved` is when the other end sent the packet of `saved_timestamp`. -/
structure Endpoint where
  timestamp : UInt64
  conn : Connection
  rtt : RoundTrip
  saved : Option UInt64
  samples : List Sample

namespace Endpoint

/-- The first call of `timestamp` yields 1000. -/
def new (server : Bool) : Endpoint where
  timestamp := 1000
  conn := .new server
  rtt := .new
  saved := none
  samples := []

def send (s_payload : Bytes) (time_to_next : UInt16) (e : Endpoint) :
    Option (Transmission × Endpoint) :=
  (e.conn.new_packet s_payload time_to_next e.timestamp).map fun (packet, conn) =>
    let held := e.timestamp - e.conn.saved_timestamp_received_at
    if held < 1000 then
      (⟨packet, e.timestamp, e.saved.map (⟨·, held⟩)⟩, { e with conn, saved := none })
    else
      (⟨packet, e.timestamp, none⟩, { e with conn })

/-- `Connection::recv` with the estimates of the round-trip time. -/
def recv (m : Transmission) (e : Endpoint) : Option Endpoint :=
  (e.conn.receive m.packet e.timestamp).bind fun conn =>
    if e.conn.expected_receiver_seq ≤ m.packet.seq then
      let saved := if m.packet.timestamp ≠ -1 then some m.sent_at else e.saved
      if m.packet.timestamp_reply ≠ -1 then
        (timestamp_diff (Connection.timestamp16 e.timestamp) m.packet.timestamp_reply).map fun R =>
          { e with
            conn
            saved
            rtt := e.rtt.observe R
            samples := e.samples ++ [⟨R, e.timestamp, m.echo⟩] }
      else
        some { e with conn, saved }
    else
      some { e with conn }

end Endpoint

/-- Two ends, each named by its `server`, and all that each of them has sent. -/
structure Exchange where
  ends : Bool → Endpoint
  sent : Bool → List Transmission

namespace Exchange

/-- What happens at the end `server`. It receives any packet that the other end has sent. -/
inductive Action where
  | freeze_timestamp (server : Bool) (timestamp : UInt64)
  | send (server : Bool) (s_payload : Bytes) (time_to_next : UInt16)
  | recv (server : Bool) (index : Nat)

def start : Exchange where
  ends := .new
  sent _ := []

def update (server : Bool) (e : Endpoint) (s : Exchange) : Exchange :=
  { s with ends := Function.update s.ends server e }

def step (s : Exchange) : Action → Option Exchange
  | .freeze_timestamp server timestamp =>
    some (s.update server { s.ends server with timestamp })
  | .send server s_payload time_to_next =>
    ((s.ends server).send s_payload time_to_next).map fun (m, e) =>
      { s.update server e with
        sent := Function.update s.sent server (s.sent server ++ [m]) }
  | .recv server index =>
    (s.sent !server)[index]?.bind fun m => ((s.ends server).recv m).map (s.update server)

end Exchange

end ALCC.Sprout
