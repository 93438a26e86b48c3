import ALCC.Model.SproutForecast
import ALCC.Theory.Run

/-! The congestion control of Sprout over TCP: `sproutconn.cc`, with what `network.cc` does for it,
and the transmissions of `sproutbt2.cc`. Two ends each send at will and forecast what the other end
may send; packets arrive in order. A failed assertion, an exception and an access out of bounds
yield `none`. The outgoing queue, which `sproutbt2.cc` does not use, is left out, and so are the
round-trip times, and the socket that a client opens anew after `PORT_HOP_INTERVAL`. -/

namespace ALCC.Sprout

open MachineInt

/-- The message `DeliveryForecast` on the wire. -/
structure Protobuf where
  SerializeAsString : DeliveryForecast → Bytes
  ParseFromString : Bytes → Option DeliveryForecast

structure ForecastPacket where
  forecast : Bytes
  data : Bytes

namespace ForecastPacket

/-- `add_forecast`. -/
def add_forecast (F : Protobuf) (s_forecast : DeliveryForecast) (p : ForecastPacket) :
    Option ForecastPacket :=
  let forecast := F.SerializeAsString s_forecast
  if forecast.length ≤ 65535 then some { p with forecast } else none

/-- The constructor from a string. The size stands in front in the order of the host, the low byte
first. -/
def parse : (incoming : Bytes) → Option ForecastPacket
  | low :: high :: rest =>
    let size := low.toNat + 256 * high.toNat
    some ⟨rest.take size, rest.drop size⟩
  | _ => none

def tostring (p : ForecastPacket) : Bytes :=
  let forecast_size := p.forecast.length % 65536
  [.ofNat forecast_size, .ofNat (forecast_size / 256)] ++
    (if forecast_size = 0 then [] else p.forecast) ++ p.data

end ForecastPacket

/-- With the members of its `conn`, and what `timestamp` yields in its program. -/
structure SproutConnection where
  timestamp : UInt64
  conn : Connection
  has_remote_addr : Bool
  last_heard : UInt64
  forecastr : Receiver
  forecastr_initialized : Bool
  local_forecast_time : UInt64
  remote_forecast_time : UInt64
  last_outgoing_ended_flight : Bool
  current_queue_bytes_estimate : Int
  current_forecast_tick : Int
  operative_forecast : DeliveryForecast

namespace SproutConnection

def TARGET_DELAY_TICKS : Int := 5

def SERVER_ASSOCIATION_TIMEOUT : UInt64 := 2000000

def PORT_HOP_INTERVAL : UInt64 := 2000000

variable (N : Numerics) (F : Protobuf)

/-- `Connection::forecast`. -/
def forecast (c : SproutConnection) : Option (DeliveryForecast × SproutConnection) :=
  (c.forecastr.advance_to N c.timestamp).bind fun forecastr =>
    (forecastr.forecast c.conn.recv_queue).map fun (the_fc, recv_queue, forecastr) =>
      (the_fc, { c with conn := { c.conn with recv_queue }, forecastr })

/-- The constructors. The first call of `timestamp` yields 1000. -/
def new (server : Bool) : Option SproutConnection :=
  (Receiver.new N).bind fun forecastr =>
    (forecast N
      { timestamp := 1000
        conn := .new server
        has_remote_addr := !server
        last_heard := -1
        forecastr
        forecastr_initialized := false
        local_forecast_time := 0
        remote_forecast_time := 0
        last_outgoing_ended_flight := true
        current_queue_bytes_estimate := 0
        current_forecast_tick := 0
        operative_forecast := ⟨0, 0, []⟩ }).map fun (operative_forecast, c) =>
      { c with operative_forecast }

/-- `operative_forecast.counts`. -/
def counts (index : Int) (c : SproutConnection) : Option UInt32 :=
  if 0 ≤ index then c.operative_forecast.counts[index.toNat]? else none

def counts_size (c : SproutConnection) : Int := c.operative_forecast.counts.length

/-- Some rounds of the loop of `update_queue_estimate`. -/
def decrement : (rounds : Nat) → SproutConnection → Option SproutConnection
  | 0, c => some c
  | rounds + 1, c =>
    (c.counts c.current_forecast_tick).bind fun count =>
      let estimate := toI32 (c.current_queue_bytes_estimate - (1440 * count).toNat)
      decrement rounds { c with
        current_queue_bytes_estimate := if estimate < 0 then 0 else estimate
        current_forecast_tick := c.current_forecast_tick + 1 }

def update_queue_estimate (c : SproutConnection) : Option SproutConnection :=
  let new_forecast_tick :=
    min (toI32 ((c.timestamp - c.remote_forecast_time) / Receiver.TICK_LENGTH).toNat)
      (c.counts_size - 1)
  c.decrement (new_forecast_tick - c.current_forecast_tick).toNat

/-- `Connection::send`, with the packet that is sent. -/
def conn_send (s : Bytes) (time_to_next : UInt16) (c : SproutConnection) :
    Option (Option Packet × SproutConnection) :=
  if c.has_remote_addr then
    (c.conn.new_packet s time_to_next c.timestamp).bind fun (px, conn) =>
      let c := { c with conn }
      if c.conn.server then
        some (px, { c with
          has_remote_addr := !decide (SERVER_ASSOCIATION_TIMEOUT < c.timestamp - c.last_heard) })
      else if PORT_HOP_INTERVAL < c.timestamp + 1 then
        none
      else
        some (px, c)
  else
    some (none, c)

/-- The part of `send` that considers the forecast. -/
def consider_forecast (to_send : ForecastPacket) (c : SproutConnection) :
    Option (ForecastPacket × SproutConnection) :=
  if c.last_outgoing_ended_flight then
    (c.forecast N).bind fun (the_fc, c) =>
      if the_fc.time ≠ c.local_forecast_time then
        (to_send.add_forecast F the_fc).map fun to_send =>
          (to_send, { c with local_forecast_time := the_fc.time })
      else
        some (to_send, c)
  else
    some (to_send, c)

def send (s : Bytes) (time_to_next : UInt16) (c : SproutConnection) :
    Option (Option Packet × SproutConnection) :=
  (c.consider_forecast N F ⟨[], s⟩).bind fun (to_send, c) =>
    let outgoing := to_send.tostring
    (conn_send outgoing time_to_next
      { c with last_outgoing_ended_flight := decide (0 < time_to_next) }).bind fun (px, c) =>
        (update_queue_estimate { c with
          current_queue_bytes_estimate :=
            toI32 (c.current_queue_bytes_estimate + outgoing.length) }).map fun c => (px, c)

/-- `Connection::recv` of the packet `p`. -/
def conn_recv (p : Packet) (c : SproutConnection) : Option SproutConnection :=
  (c.conn.receive p c.timestamp).bind fun conn =>
    let forecastr :=
      if c.forecastr_initialized then c.forecastr else c.forecastr.warp_to c.timestamp
    (forecastr.advance_to N c.timestamp).map fun forecastr =>
      let in_order := decide (c.conn.expected_receiver_seq ≤ p.seq)
      { c with
        conn
        forecastr := forecastr.recv p.time_to_next p.payload.length
        forecastr_initialized := true
        has_remote_addr := in_order || c.has_remote_addr
        last_heard := if in_order then c.timestamp else c.last_heard }

/-- `recv`, with the data of the packet `p`. -/
def recv (p : Packet) (c : SproutConnection) : Option (Bytes × SproutConnection) :=
  (c.conn_recv N p).bind fun c =>
    (ForecastPacket.parse p.payload).bind fun packet =>
      if packet.forecast.length = 0 then some (packet.data, c)
      else
        (F.ParseFromString packet.forecast).bind fun operative_forecast =>
          let estimate := toI32 (c.conn.next_seq - operative_forecast.received_or_lost_count).toNat
          if 0 ≤ estimate then
            (update_queue_estimate { c with
              operative_forecast
              remote_forecast_time := c.timestamp
              current_queue_bytes_estimate := estimate
              current_forecast_tick := 0 }).map fun c => (packet.data, c)
          else
            none

/-- The result and `CWND`. -/
def window_size (c : SproutConnection) : Option (Int × Int × SproutConnection) :=
  c.update_queue_estimate.bind fun c =>
    let cumulative_delivery_tick := c.current_forecast_tick + TARGET_DELAY_TICKS
    let cumulative_delivery_tick :=
      if c.counts_size ≤ cumulative_delivery_tick then c.counts_size - 1
      else cumulative_delivery_tick
    (c.counts cumulative_delivery_tick).bind fun ahead =>
      (c.counts c.current_forecast_tick).map fun behind =>
        let cumulative_delivery_forecast := toI32 (1440 * (ahead - behind)).toNat
        let CWND := cumulative_delivery_forecast.tdiv 1440
        let bytes_to_send := toI32 (cumulative_delivery_forecast - c.current_queue_bytes_estimate)
        (if bytes_to_send < 0 then 0 else bytes_to_send, CWND, c)

end SproutConnection

/-- The sending loop of `sproutbt2.cc`, with the packets that are sent. -/
def burst (N : Numerics) (F : Protobuf) (bytes_to_send : Nat) (c : SproutConnection) :
    Option (List Packet × SproutConnection) :=
  let this_packet_size := min 1440 bytes_to_send
  let rest := bytes_to_send - this_packet_size
  (c.send N F (.replicate this_packet_size 120) (if rest = 0 then 50 else 0)).bind fun (px, c) =>
    if 0 < rest then (burst N F rest c).map fun (pxs, c) => (px.toList ++ pxs, c)
    else some (px.toList, c)
termination_by bytes_to_send

/-- Two ends, each named by its `server`, and the packets on the way from each of them. -/
structure Session where
  ends : Bool → SproutConnection
  inFlight : Bool → List Packet

namespace Session

/-- What happens at the end `server`. -/
inductive Action where
  | freeze_timestamp (server : Bool) (timestamp : UInt64)
  | send (server : Bool) (s : Bytes) (time_to_next : UInt16)
  | recv (server : Bool)
  | window_size (server : Bool)

def start (N : Numerics) : Option Session :=
  (SproutConnection.new N false).bind fun client =>
    (SproutConnection.new N true).map fun server_ =>
      { ends := fun server => if server then server_ else client
        inFlight := fun _ => [] }

def update (server : Bool) (c : SproutConnection) (s : Session) : Session :=
  { s with ends := Function.update s.ends server c }

def step (N : Numerics) (F : Protobuf) (s : Session) : Action → Option Session
  | .freeze_timestamp server timestamp =>
    some (s.update server { s.ends server with timestamp })
  | .send server data time_to_next =>
    ((s.ends server).send N F data time_to_next).map fun (px, c) =>
      { s.update server c with
        inFlight := Function.update s.inFlight server (s.inFlight server ++ px.toList) }
  | .recv server =>
    match s.inFlight (!server) with
    | [] => none
    | p :: rest =>
      ((s.ends server).recv N F p).map fun (_, c) =>
        { s.update server c with inFlight := Function.update s.inFlight (!server) rest }
  | .window_size server => (s.ends server).window_size.map fun (_, _, c) => s.update server c

end Session

end ALCC.Sprout
