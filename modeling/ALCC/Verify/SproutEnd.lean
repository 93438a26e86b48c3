import ALCC.Model.SproutSession
import ALCC.Verify.SproutPackets
import ALCC.Verify.SproutReceiver

/-! One end of a Sprout session: each call keeps what the others rely on (`EndInv`), as long as the
numbers of bytes fit in an `int`. -/

namespace ALCC.Sprout

open MachineInt

/-- Forecasts come back as they were, and take few bytes. -/
structure Protobuf.Lawful (F : Protobuf) : Prop where
  parse : ∀ {f : DeliveryForecast}, f.Valid → F.ParseFromString (F.SerializeAsString f) = some f
  pos : ∀ {f : DeliveryForecast}, f.Valid → 0 < (F.SerializeAsString f).length
  le : ∀ {f : DeliveryForecast}, f.Valid → (F.SerializeAsString f).length ≤ 64

theorem ForecastPacket.parse_tostring {p : ForecastPacket} (h : p.forecast.length ≤ 65535) :
    parse p.tostring = some p := by
  have hmod : p.forecast.length % 65536 = p.forecast.length := Nat.mod_eq_of_lt (by omega)
  have hsize : (UInt8.ofNat p.forecast.length).toNat +
      256 * (UInt8.ofNat (p.forecast.length / 256)).toNat = p.forecast.length := by
    rw [UInt8.toNat_ofNat', UInt8.toNat_ofNat']
    omega
  have hforecast : (if p.forecast.length = 0 then [] else p.forecast) = p.forecast := by
    split
    · rename_i h0
      exact (List.eq_nil_of_length_eq_zero h0).symm
    · rfl
  rw [tostring]
  simp only [hmod, hforecast, List.cons_append, List.nil_append, parse, hsize]
  rw [List.take_left, List.drop_left]

theorem ForecastPacket.length_tostring {p : ForecastPacket} (h : p.forecast.length ≤ 65535) :
    p.tostring.length = p.forecast.length + p.data.length + 2 := by
  have hmod : p.forecast.length % 65536 = p.forecast.length := Nat.mod_eq_of_lt (by omega)
  rw [tostring]
  simp only [hmod]
  split
  · rename_i h0
    simp only [List.length_append, List.length_cons, List.length_nil]
    omega
  · simp only [List.length_append, List.length_cons, List.length_nil]
    omega

namespace SproutConnection

variable {N : Numerics} {F : Protobuf} {server : Bool} {next : Nat} {c : SproutConnection}

/-- Between the calls, when the other end has sent the bytes up to `next`. -/
structure EndInv (N : Numerics) (server : Bool) (next : Nat) (c : SproutConnection) : Prop where
  server : c.conn.server = server
  early : 1000 ≤ c.timestamp.toNat
  late : c.timestamp.toNat + 20 < 2 ^ 64
  ready : c.forecastr.Ready N
  time : c.forecastr.time ≤ c.timestamp
  cached : c.forecastr.cached_forecast.received_or_lost_count.toNat ≤ next
  operative : c.operative_forecast.Valid
  tick : 0 ≤ c.current_forecast_tick ∧ c.current_forecast_tick < 8
  estimate : 0 ≤ c.current_queue_bytes_estimate ∧ c.current_queue_bytes_estimate < 2 ^ 31

theorem counts_eq (h : c.operative_forecast.Valid) {index : Int} (h0 : 0 ≤ index) (h8 : index < 8) :
    ∃ count, c.counts index = some count ∧ count.toNat ≤ 234 := by
  have hlt : index.toNat < c.operative_forecast.counts.length := by
    rw [h.length, Receiver.NUM_TICKS]
    omega
  rw [counts, if_pos h0, List.getElem?_eq_getElem hlt]
  exact ⟨_, rfl, h.bound _ (List.getElem_mem hlt)⟩

/-- Later counts are not less. -/
theorem counts_mono (h : c.operative_forecast.Valid) {i j : Int} {count count' : UInt32}
    (hij : i ≤ j) (hi : c.counts i = some count) (hj : c.counts j = some count') :
    count ≤ count' := by
  rw [counts] at hi hj
  obtain ⟨h0, hi⟩ := Option.ite_none_right_eq_some.mp hi
  obtain ⟨-, hj⟩ := Option.ite_none_right_eq_some.mp hj
  obtain ⟨hilt, rfl⟩ := List.getElem?_eq_some_iff.mp hi
  obtain ⟨hjlt, rfl⟩ := List.getElem?_eq_some_iff.mp hj
  rcases hij.eq_or_lt with rfl | hlt
  · exact UInt32.le_refl _
  · exact List.pairwise_iff_getElem.mp h.sorted _ _ hilt hjlt (by omega)

theorem toNat_mul_1440 (count : UInt32) (h : count.toNat ≤ 234) :
    (1440 * count).toNat = 1440 * count.toNat := by
  rw [UInt32.toNat_mul, show (1440 : UInt32).toNat = 1440 from rfl]
  omega

theorem decrement_spec (rounds : Nat) (h : c.operative_forecast.Valid)
    (h0 : 0 ≤ c.current_forecast_tick) (h8 : c.current_forecast_tick + rounds < 8)
    (hest : 0 ≤ c.current_queue_bytes_estimate) (hest' : c.current_queue_bytes_estimate < 2 ^ 31) :
    ∃ estimate, c.decrement rounds = some { c with
        current_queue_bytes_estimate := estimate
        current_forecast_tick := c.current_forecast_tick + rounds } ∧
      0 ≤ estimate ∧ estimate ≤ c.current_queue_bytes_estimate := by
  induction rounds generalizing c with
  | zero =>
    refine ⟨c.current_queue_bytes_estimate, ?_, hest, le_rfl⟩
    rw [decrement, Nat.cast_zero, add_zero]
  | succ rounds ih =>
    push_cast at h8
    obtain ⟨count, hcount, hle⟩ := counts_eq h h0 (by omega)
    have hmul := toNat_mul_1440 count hle
    have hI32 : toI32 (c.current_queue_bytes_estimate - (1440 * count).toNat) =
        c.current_queue_bytes_estimate - (1440 * count).toNat :=
      toI32_of_mem (by omega) (by omega)
    rw [decrement, hcount, Option.bind_some, hI32]
    generalize hd : (if c.current_queue_bytes_estimate - ((1440 * count).toNat : Int) < 0 then 0
      else c.current_queue_bytes_estimate - ((1440 * count).toNat : Int)) = estimate
    have hestimate : 0 ≤ estimate ∧ estimate ≤ c.current_queue_bytes_estimate := by
      rw [← hd]
      split <;> omega
    obtain ⟨estimate', hdecrement, hpos, hle'⟩ := ih (c := { c with
      current_queue_bytes_estimate := estimate
      current_forecast_tick := c.current_forecast_tick + 1 }) h (by simp only; omega)
      (by simp only; omega) hestimate.1 (by simp only; omega)
    have htick : c.current_forecast_tick + 1 + (rounds : Int) =
        c.current_forecast_tick + ((rounds + 1 : Nat) : Int) := by
      push_cast
      ring
    subst hd
    rw [← htick]
    exact ⟨estimate', hdecrement, hpos, hle'.trans hestimate.2⟩

/-- The tick up to which `update_queue_estimate` goes. -/
def new_forecast_tick (c : SproutConnection) : Int :=
  min (toI32 ((c.timestamp - c.remote_forecast_time) / Receiver.TICK_LENGTH).toNat)
    (c.counts_size - 1)

/-- The estimate is lowered, and the tick is the one of the time. -/
theorem EndInv.update_queue_estimate (h : c.EndInv N server next) : ∃ estimate tick,
    c.update_queue_estimate = some { c with
      current_queue_bytes_estimate := estimate, current_forecast_tick := tick } ∧
    EndInv N server next { c with
      current_queue_bytes_estimate := estimate, current_forecast_tick := tick } ∧
    estimate ≤ c.current_queue_bytes_estimate ∧ c.new_forecast_tick ≤ tick := by
  have hsize : c.counts_size = 8 := by
    rw [counts_size, h.operative.length]
    rfl
  have hnew : c.new_forecast_tick ≤ 7 := by
    rw [new_forecast_tick, hsize]
    exact min_le_right _ _
  obtain ⟨h0, h8⟩ := h.tick
  obtain ⟨estimate, hdecrement, hpos, hle⟩ := decrement_spec
    (c.new_forecast_tick - c.current_forecast_tick).toNat h.operative h0 (by omega)
    h.estimate.1 h.estimate.2
  refine ⟨estimate, _, hdecrement, { h with tick := ?_, estimate := ?_ }, hle, by omega⟩
  · exact ⟨by simp only; omega, by simp only; omega⟩
  · exact ⟨hpos, hle.trans_lt h.estimate.2⟩

/-- The other end is known, and was heard of recently. -/
def Attached (c : SproutConnection) : Prop :=
  c.has_remote_addr = true ∧
    (c.conn.server = true → c.timestamp - c.last_heard ≤ SERVER_ASSOCIATION_TIMEOUT)

/-- The window is not negative, and at most what the forecast promises. -/
theorem EndInv.window_size (h : c.EndInv N server next) : ∃ bytes_to_send CWND c',
    c.window_size = some (bytes_to_send, CWND, c') ∧ c'.EndInv N server next ∧
      c'.conn = c.conn ∧ 0 ≤ CWND ∧ CWND ≤ 234 ∧ 0 ≤ bytes_to_send ∧
      bytes_to_send ≤ 1440 * CWND ∧
      (0 < bytes_to_send → bytes_to_send + c'.current_queue_bytes_estimate = 1440 * CWND) ∧
      c'.new_forecast_tick ≤ c'.current_forecast_tick ∧ c'.timestamp = c.timestamp ∧
      (c.Attached → c'.Attached) := by
  obtain ⟨estimate, tick, hupdate, hinv, -, hsettled⟩ := h.update_queue_estimate
  rw [SproutConnection.window_size, hupdate, Option.bind_some]
  generalize hc' : ({ c with
    current_queue_bytes_estimate := estimate, current_forecast_tick := tick } : SproutConnection) =
      c' at hinv ⊢
  have hconn : c'.conn = c.conn := by rw [← hc']
  have hframe : c'.new_forecast_tick ≤ c'.current_forecast_tick ∧ c'.timestamp = c.timestamp ∧
      (c.Attached → c'.Attached) := by
    subst hc'
    exact ⟨hsettled, rfl, id⟩
  have hsize : c'.counts_size = 8 := by
    rw [counts_size, hinv.operative.length]
    rfl
  obtain ⟨h0, h8⟩ := hinv.tick
  generalize htick : (if c'.counts_size ≤ c'.current_forecast_tick + TARGET_DELAY_TICKS then
    c'.counts_size - 1 else c'.current_forecast_tick + TARGET_DELAY_TICKS) = cumulative
  have hcumulative : c'.current_forecast_tick ≤ cumulative ∧ cumulative < 8 := by
    rw [← htick, hsize, TARGET_DELAY_TICKS]
    split <;> omega
  obtain ⟨ahead, hahead, hle⟩ := counts_eq hinv.operative (h0.trans hcumulative.1) hcumulative.2
  obtain ⟨behind, hbehind, -⟩ := counts_eq hinv.operative h0 h8
  have hmono := counts_mono hinv.operative hcumulative.1 hbehind hahead
  have hsub : (ahead - behind).toNat = ahead.toNat - behind.toNat :=
    UInt32.toNat_sub_of_le _ _ hmono
  have hmul := toNat_mul_1440 (ahead - behind) (by omega)
  obtain ⟨hest, hest'⟩ := hinv.estimate
  simp only [htick, hahead, hbehind, Option.bind_some, Option.map_some, hmul, hsub]
  have hcount : ahead.toNat - behind.toNat ≤ 234 := (Nat.sub_le _ _).trans hle
  generalize ahead.toNat - behind.toNat = count at hcount ⊢
  have hI32 : toI32 ((1440 * count : Nat) : Int) = 1440 * count := by
    rw [toI32_of_mem (by omega) (by omega)]
    push_cast
    rfl
  have hdiv : (1440 * (count : Int)).tdiv 1440 = count := Int.mul_tdiv_cancel_left _ (by decide)
  rw [hI32, hdiv, toI32_of_mem (by omega) (by omega)]
  refine ⟨_, _, _, rfl, hinv, hconn, by omega, by omega, ?_, ?_, ?_, hframe⟩
  · split <;> omega
  · split <;> omega
  · split <;> omega

/-- What a forecast does to the queue of the packets that were received. -/
def Forecasted (recv_queue recv_queue' : RecvQueue) : Prop :=
  recv_queue' = recv_queue ∨ recv_queue' = recv_queue.packet_count.2

/-- A forecast is valid, and counts nothing that was not sent. -/
theorem forecast_spec (hN : N.Lawful) (hearly : 1000 ≤ c.timestamp.toNat)
    (hlate : c.timestamp.toNat + 20 < 2 ^ 64) (hready : c.forecastr.Ready N)
    (htime : c.forecastr.time ≤ c.timestamp)
    (hcached : c.forecastr.cached_forecast.received_or_lost_count.toNat ≤ next)
    (hcount : c.conn.recv_queue.packet_count.1.toNat ≤ next) :
    ∃ f recv_queue forecastr, c.forecast N = some (f, { c with
        conn := { c.conn with recv_queue }, forecastr }) ∧
      forecastr.Ready N ∧ forecastr.time ≤ c.timestamp ∧
      forecastr.cached_forecast.received_or_lost_count.toNat ≤ next ∧
      f.Valid ∧ f.received_or_lost_count.toNat ≤ next ∧
      Forecasted c.conn.recv_queue recv_queue := by
  obtain ⟨r, hadvance, hready, htime, hnear, hcached'⟩ := hready.advance_to hN hlate htime
  have hne : r.time ≠ 0 := by
    intro h0
    rw [h0, UInt64.toNat_zero, Nat.zero_add] at hnear
    exact absurd (hearly.trans hnear) (by decide)
  obtain ⟨f, recv_queue, r', hforecast, hready', hvalid, hf, htime', hqueue⟩ :=
    hready.forecast hne c.conn.recv_queue
  have hle : f.received_or_lost_count.toNat ≤ next := by
    rcases hqueue with ⟨rfl, -⟩ | ⟨hnew, -⟩
    · rw [hcached']
      exact hcached
    · rw [hnew]
      exact hcount
  refine ⟨f, recv_queue, r', ?_, hready', htime' ▸ htime, hf ▸ hle, hvalid, hle,
    hqueue.imp And.right And.right⟩
  rw [SproutConnection.forecast, hadvance, Option.bind_some, hforecast, Option.map_some]

/-- A new end has a forecast. -/
theorem new_spec (hN : N.Lawful) (server : Bool) : ∃ c recv_queue,
    new N server = some c ∧ (∀ next, c.EndInv N server next) ∧
      Forecasted (Connection.new server).recv_queue recv_queue ∧
      c.conn = { Connection.new server with recv_queue } := by
  obtain ⟨r, hnew, hready, htime, hcached⟩ := Receiver.new_ready hN
  have hzero : (⟨[], 0⟩ : RecvQueue).packet_count.1.toNat = 0 := by decide
  have hearly : 1000 ≤ (1000 : UInt64).toNat := by decide
  have hlate : (1000 : UInt64).toNat + 20 < 2 ^ 64 := by decide
  have htime : r.time ≤ 1000 := htime ▸ (by decide : (0 : UInt64) ≤ 1000)
  have hcached : r.cached_forecast.received_or_lost_count.toNat ≤ 0 := by rw [hcached]; rfl
  obtain ⟨f, recv_queue, forecastr, hforecast, hready', htime', hcached', hvalid, -, hqueue⟩ :=
    forecast_spec (c := {
      timestamp := 1000
      conn := .new server
      has_remote_addr := !server
      last_heard := -1
      forecastr := r
      forecastr_initialized := false
      local_forecast_time := 0
      remote_forecast_time := 0
      last_outgoing_ended_flight := true
      current_queue_bytes_estimate := 0
      current_forecast_tick := 0
      operative_forecast := ⟨0, 0, []⟩ }) hN hearly hlate hready htime hcached hzero.le
  rw [new, hnew, Option.bind_some, hforecast, Option.map_some]
  refine ⟨_, recv_queue, rfl, fun next => ?_, hqueue, rfl⟩
  exact {
    server := rfl
    early := hearly
    late := hlate
    ready := hready'
    time := htime'
    cached := hcached'.trans (Nat.zero_le next)
    operative := hvalid
    tick := (by decide : (0 : Int) ≤ 0 ∧ (0 : Int) < 8)
    estimate := (by decide : (0 : Int) ≤ 0 ∧ (0 : Int) < 2 ^ 31) }

theorem EndInv.forecast (hN : N.Lawful) (h : c.EndInv N server next)
    (hcount : c.conn.recv_queue.packet_count.1.toNat ≤ next) :
    ∃ f recv_queue forecastr, c.forecast N = some (f, { c with
        conn := { c.conn with recv_queue }, forecastr }) ∧
      EndInv N server next { c with conn := { c.conn with recv_queue }, forecastr } ∧
      f.Valid ∧ f.received_or_lost_count.toNat ≤ next ∧
      Forecasted c.conn.recv_queue recv_queue := by
  obtain ⟨f, recv_queue, forecastr, hforecast, hready, htime, hcached, hvalid, hle, hqueue⟩ :=
    forecast_spec hN h.early h.late h.ready h.time h.cached hcount
  exact ⟨f, recv_queue, forecastr, hforecast,
    { h with ready := hready, time := htime, cached := hcached }, hvalid, hle, hqueue⟩

theorem EndInv.mono {next' : Nat} (h : c.EndInv N server next) (hle : next ≤ next') :
    c.EndInv N server next' := { h with cached := h.cached.trans hle }

theorem update_queue_estimate_settled (h : c.new_forecast_tick ≤ c.current_forecast_tick) :
    c.update_queue_estimate = some c := by
  change c.decrement (c.new_forecast_tick - c.current_forecast_tick).toNat = some c
  rw [Int.toNat_of_nonpos (sub_nonpos.mpr h)]
  rfl

/-- A packet has no forecast, or one that counts bytes up to `next`. -/
def Carries (F : Protobuf) (next : Nat) (packet : ForecastPacket) : Prop :=
  packet.forecast = [] ∨ ∃ f : DeliveryForecast, f.Valid ∧ f.received_or_lost_count.toNat ≤ next ∧
    packet.forecast = F.SerializeAsString f

theorem Carries.length_le {packet : ForecastPacket} (hF : F.Lawful) (h : Carries F next packet) :
    packet.forecast.length ≤ 64 := by
  rcases h with hnil | ⟨f, hvalid, -, heq⟩
  · exact hnil ▸ Nat.zero_le 64
  · exact heq ▸ hF.le hvalid

theorem Carries.mono {next' : Nat} {packet : ForecastPacket} (h : Carries F next packet)
    (hle : next ≤ next') : Carries F next' packet := by
  rcases h with hnil | ⟨f, hvalid, hcount, heq⟩
  · exact .inl hnil
  · exact .inr ⟨f, hvalid, hcount.trans hle, heq⟩

theorem EndInv.consider_forecast (hN : N.Lawful) (hF : F.Lawful) (h : c.EndInv N server next)
    (hcount : c.conn.recv_queue.packet_count.1.toNat ≤ next) (s : Bytes) :
    ∃ to_send recv_queue forecastr local_forecast_time,
      c.consider_forecast N F ⟨[], s⟩ = some (to_send, { c with
        conn := { c.conn with recv_queue }, forecastr, local_forecast_time }) ∧
      EndInv N server next { c with
        conn := { c.conn with recv_queue }, forecastr, local_forecast_time } ∧
      to_send.data = s ∧ Carries F next to_send ∧ Forecasted c.conn.recv_queue recv_queue ∧
      (c.last_outgoing_ended_flight = false → to_send.forecast = []) := by
  rw [SproutConnection.consider_forecast]
  split
  · rename_i hflight
    obtain ⟨f, recv_queue, forecastr, hforecast, hinv, hvalid, hle, hqueue⟩ :=
      h.forecast hN hcount
    have hnot : c.last_outgoing_ended_flight = false → ∀ packet : ForecastPacket,
        packet.forecast = [] := fun hfalse => by
      rw [hflight] at hfalse
      cases hfalse
    rw [hforecast, Option.bind_some]
    simp only
    split
    · have hlength := (hF.le hvalid).trans (by decide : 64 ≤ 65535)
      rw [ForecastPacket.add_forecast, if_pos hlength, Option.map_some]
      exact ⟨_, recv_queue, forecastr, f.time, rfl, { hinv with }, rfl, .inr ⟨f, hvalid, hle, rfl⟩,
        hqueue, fun hfalse => hnot hfalse _⟩
    · exact ⟨_, recv_queue, forecastr, c.local_forecast_time, rfl, hinv, rfl, .inl rfl, hqueue,
        fun _ => rfl⟩
  · exact ⟨_, c.conn.recv_queue, c.forecastr, c.local_forecast_time, rfl, h, rfl, .inl rfl,
      .inl rfl, fun _ => rfl⟩

/-- The packet that `Connection::send` makes, unless the other end is lost. -/
theorem EndInv.conn_send (h : c.EndInv N server next)
    (hhop : server = true ∨ c.timestamp + 1 ≤ PORT_HOP_INTERVAL) (s : Bytes)
    (time_to_next : UInt16) : ∃ px conn has_remote_addr,
      conn_send s time_to_next c = some (px, { c with conn, has_remote_addr }) ∧
      conn.server = c.conn.server ∧ conn.recv_queue = c.conn.recv_queue ∧
      (c.Attached → px ≠ none ∧ has_remote_addr = true) ∧
      (px = none ∧ conn = c.conn ∨
        ∃ p, px = some p ∧ c.conn.new_packet s time_to_next c.timestamp = some (p, conn)) := by
  rw [SproutConnection.conn_send]
  split
  · rename_i hremote
    obtain ⟨p, d, hpacket, -, -, hserver, hqueue, -⟩ :=
      Connection.new_packet_spec c.conn s time_to_next (le_trans (by decide) h.early)
    rw [hpacket, Option.bind_some]
    simp only
    split
    · rename_i hserver'
      refine ⟨_, d, _, rfl, hserver, hqueue, fun hattached => ⟨nofun, ?_⟩, .inr ⟨p, rfl, rfl⟩⟩
      have hrecent := hattached.2 (hserver.symm.trans hserver')
      rw [decide_eq_false (UInt64.not_lt.mpr hrecent)]
      rfl
    · rename_i hclient
      have hclient : server ≠ true := by
        rw [← h.server, ← hserver]
        exact hclient
      rw [if_neg (UInt64.not_lt.mpr (hhop.resolve_left hclient))]
      exact ⟨_, d, c.has_remote_addr, rfl, hserver, hqueue, fun _ => ⟨nofun, hremote⟩,
        .inr ⟨p, rfl, rfl⟩⟩
  · rename_i hremote
    exact ⟨none, c.conn, c.has_remote_addr, rfl, rfl, rfl, fun hattached =>
      absurd hattached.1 hremote, .inl ⟨rfl, rfl⟩⟩

/-- What `send` does. -/
structure SendSpec (F : Protobuf) (next : Nat) (s : Bytes) (time_to_next : UInt16)
    (c : SproutConnection) (px : Option Packet) (c' : SproutConnection) : Prop where
  timestamp : c'.timestamp = c.timestamp
  remote_forecast_time : c'.remote_forecast_time = c.remote_forecast_time
  operative_forecast : c'.operative_forecast = c.operative_forecast
  last_outgoing : c'.last_outgoing_ended_flight = decide (0 < time_to_next)
  attached : c.Attached → px ≠ none ∧ c'.Attached
  recv_queue : Forecasted c.conn.recv_queue c'.conn.recv_queue
  packet : ∃ to_send recv_queue, to_send.data = s ∧ Carries F next to_send ∧
    Forecasted c.conn.recv_queue recv_queue ∧
    (c.last_outgoing_ended_flight = false → to_send.forecast = []) ∧
    (px = none ∧ c'.conn = { c.conn with recv_queue } ∨ ∃ p, px = some p ∧
      Connection.new_packet to_send.tostring time_to_next c.timestamp { c.conn with recv_queue } =
        some (p, c'.conn)) ∧
    c'.current_queue_bytes_estimate ≤ c.current_queue_bytes_estimate + to_send.tostring.length ∧
    (c.new_forecast_tick ≤ c.current_forecast_tick →
      c'.current_forecast_tick = c.current_forecast_tick ∧ c'.current_queue_bytes_estimate =
        c.current_queue_bytes_estimate + to_send.tostring.length)

theorem EndInv.send (hN : N.Lawful) (hF : F.Lawful) (h : c.EndInv N server next)
    (hcount : c.conn.recv_queue.packet_count.1.toNat ≤ next) {s : Bytes}
    (hest : c.current_queue_bytes_estimate + s.length + 66 < 2 ^ 31)
    (hhop : server = true ∨ c.timestamp + 1 ≤ PORT_HOP_INTERVAL) (time_to_next : UInt16) :
    ∃ px c', c.send N F s time_to_next = some (px, c') ∧ c'.EndInv N server next ∧
      SendSpec F next s time_to_next c px c' := by
  obtain ⟨to_send, recv_queue, forecastr, local_forecast_time, hconsider, hinv, hdata, hcarries,
    hqueue, hflight⟩ := h.consider_forecast hN hF hcount s
  have hsmall := hcarries.length_le hF
  have hlength := ForecastPacket.length_tostring (hsmall.trans (by decide))
  rw [hdata] at hlength
  rw [SproutConnection.send, hconsider, Option.bind_some]
  simp only
  have hended : EndInv N server next { c with
      conn := { c.conn with recv_queue }, forecastr, local_forecast_time
      last_outgoing_ended_flight := decide (0 < time_to_next) } := { hinv with }
  obtain ⟨px, conn, has_remote_addr, hsend, hserver, hconn, hattached, hpx⟩ :=
    hended.conn_send hhop to_send.tostring time_to_next
  have hestimate : toI32 (c.current_queue_bytes_estimate + to_send.tostring.length) =
      c.current_queue_bytes_estimate + to_send.tostring.length := by
    obtain ⟨h0, -⟩ := h.estimate
    exact toI32_of_mem (by omega) (by omega)
  have hadded : EndInv N server next { c with
      conn, has_remote_addr, forecastr, local_forecast_time
      last_outgoing_ended_flight := decide (0 < time_to_next)
      current_queue_bytes_estimate :=
        c.current_queue_bytes_estimate + to_send.tostring.length } := { hended with
    server := hserver.trans hended.server
    estimate := by
      obtain ⟨h0, -⟩ := h.estimate
      exact ⟨by simp only; omega, by simp only; omega⟩ }
  obtain ⟨estimate, tick, hupdate, hend, hle, -⟩ := hadded.update_queue_estimate
  rw [hsend, Option.bind_some]
  simp only [hestimate, hupdate, Option.map_some]
  have hattached' : c.Attached → px ≠ none ∧ has_remote_addr = true ∧ (conn.server = true →
      c.timestamp - c.last_heard ≤ SERVER_ASSOCIATION_TIMEOUT) := fun hc =>
    ⟨(hattached hc).1, (hattached hc).2, fun hs => hc.2 (hserver.symm.trans hs)⟩
  refine ⟨px, _, rfl, hend, rfl, rfl, rfl, rfl, hattached', hconn ▸ hqueue, to_send, recv_queue,
    hdata, hcarries, hqueue, hflight, hpx, hle, fun hsettled => ?_⟩
  have hsame := (update_queue_estimate_settled (c := { c with
    conn, has_remote_addr, forecastr, local_forecast_time
    last_outgoing_ended_flight := decide (0 < time_to_next)
    current_queue_bytes_estimate :=
      c.current_queue_bytes_estimate + to_send.tostring.length }) hsettled).symm.trans hupdate
  have hsame := Option.some.inj hsame
  exact ⟨(congrArg SproutConnection.current_forecast_tick hsame).symm,
    (congrArg SproutConnection.current_queue_bytes_estimate hsame).symm⟩

/-- The forecast of a packet is used when it counts bytes that this end has sent. -/
theorem EndInv.recv (hN : N.Lawful) (hF : F.Lawful) (h : c.EndInv N server next) {p : Packet}
    {conn : Connection} {packet : ForecastPacket}
    (hreceive : c.conn.receive p c.timestamp = some conn) (hpayload : p.payload = packet.tostring)
    (hcarries : Carries F c.conn.next_seq.toNat packet)
    (hnear : ∀ f, F.ParseFromString packet.forecast = some f →
      c.conn.next_seq.toNat < f.received_or_lost_count.toNat + 2 ^ 31) :
    ∃ c', c.recv N F p = some (packet.data, c') ∧ c'.EndInv N server next ∧ c'.conn = conn := by
  have hserver := (Connection.receive_spec hreceive).2
  have hnext := (Connection.receive_sender hreceive).1
  obtain ⟨r, hadvance, hready, htime, -, hcached⟩ := Receiver.Ready.advance_to hN
    (r := if c.forecastr_initialized then c.forecastr else c.forecastr.warp_to c.timestamp)
    (by split; exacts [h.ready, h.ready.warp_to]) h.late
    (by split; exacts [h.time, UInt64.le_refl _])
  have hcached' : r.cached_forecast = c.forecastr.cached_forecast := by
    rw [hcached]
    split <;> rfl
  rw [SproutConnection.recv, conn_recv, hreceive, Option.bind_some]
  simp only [hadvance, Option.map_some, Option.bind_some, hpayload,
    ForecastPacket.parse_tostring ((hcarries.length_le hF).trans (by decide))]
  generalize decide (c.conn.expected_receiver_seq ≤ p.seq) = in_order
  have hend : EndInv N server next { c with
      conn
      forecastr := r.recv p.time_to_next packet.tostring.length
      forecastr_initialized := true
      has_remote_addr := in_order || c.has_remote_addr
      last_heard := if in_order then c.timestamp else c.last_heard } := { h with
    server := hserver.trans h.server
    ready := hready.recv _ _
    time := htime
    cached := (congrArg (·.received_or_lost_count.toNat) hcached').trans_le h.cached }
  rcases hcarries with hnil | ⟨f, hvalid, hle, heq⟩
  · rw [if_pos (List.length_eq_zero_iff.mpr hnil)]
    exact ⟨_, rfl, hend, rfl⟩
  · have hpos := hF.pos hvalid
    have hparse := hF.parse hvalid
    rw [← heq] at hpos hparse
    have hestimate : toI32 (conn.next_seq - f.received_or_lost_count).toNat =
        (c.conn.next_seq.toNat - f.received_or_lost_count.toNat : Nat) := by
      have hlt := hnear f hparse
      rw [hnext, toNat_sub hle]
      exact toI32_of_mem (by omega) (by omega)
    have hlt := hnear f hparse
    rw [if_neg hpos.ne', hparse, Option.bind_some, hestimate, if_pos (Int.natCast_nonneg _)]
    have hused : EndInv N server next { c with
        conn
        forecastr := r.recv p.time_to_next packet.tostring.length
        forecastr_initialized := true
        has_remote_addr := in_order || c.has_remote_addr
        last_heard := if in_order then c.timestamp else c.last_heard
        operative_forecast := f
        remote_forecast_time := c.timestamp
        current_queue_bytes_estimate :=
          (c.conn.next_seq.toNat - f.received_or_lost_count.toNat : Nat)
        current_forecast_tick := 0 } := { hend with
      operative := hvalid
      tick := ⟨le_rfl, (by decide : (0 : Int) < 8)⟩
      estimate := ⟨Int.natCast_nonneg _, by simp only; omega⟩ }
    obtain ⟨estimate, tick, hupdate, hfinal, -, -⟩ := hused.update_queue_estimate
    rw [hupdate, Option.map_some]
    exact ⟨_, rfl, hfinal, rfl⟩

end SproutConnection

end ALCC.Sprout
