import ALCC.Verify.SproutSession
import Mathlib.Data.List.DropRight

/-! The sending loop of `sproutbt2.cc`. It cuts the window into packets of 1440 bytes, of which the
last one says when the next is to come, and only the first one has a forecast. After the loop the
estimate of the queue is what the forecast promises, but for the headers (`burst_fills`). -/

namespace ALCC.Sprout

open Machine

theorem RecvQueue.packet_count_again (q : RecvQueue) :
    q.packet_count.2.packet_count.1 = q.packet_count.1 := by
  have hkept : q.packet_count.2.received_sequence_numbers.dropWhile (fun p =>
      decide (p.seq < q.packet_count.2.throwaway_before)) =
        q.packet_count.2.received_sequence_numbers := List.dropWhile_idempotent ..
  conv_lhs => rw [packet_count]
  simp only [hkept]
  rfl

namespace SproutConnection

variable {N : Numerics} {F : Protobuf} {server : Bool} {next : Nat} {c : SproutConnection}

theorem Forecasted.count_eq {recv_queue recv_queue' : RecvQueue}
    (h : Forecasted recv_queue recv_queue') :
    recv_queue'.packet_count.1 = recv_queue.packet_count.1 := by
  rcases h with rfl | rfl
  · rfl
  · exact recv_queue.packet_count_again

/-- The bytes of data in a packet. -/
def dataLength (p : Packet) : Nat :=
  ((ForecastPacket.parse p.payload).map fun packet => packet.data.length).getD 0

/-- The bytes of the forecast in a packet. -/
def forecastLength (p : Packet) : Nat :=
  ((ForecastPacket.parse p.payload).map fun packet => packet.forecast.length).getD 0

/-- One packet, while the other end is known and the estimate is the one of the time. -/
theorem EndInv.send_one (hN : N.Lawful) (hF : F.Lawful) (h : c.EndInv N server next)
    (hcount : c.conn.recv_queue.packet_count.1.toNat ≤ next)
    (hsettled : c.new_forecast_tick ≤ c.current_forecast_tick) (hattached : c.Attached)
    {s : Bytes} (hest : c.current_queue_bytes_estimate + s.length + 66 < 2 ^ 31)
    (hhop : server = true ∨ c.timestamp + 1 ≤ PORT_HOP_INTERVAL) (time_to_next : UInt16) :
    ∃ p c', c.send N F s time_to_next = some (some p, c') ∧ c'.EndInv N server next ∧
      c'.conn.recv_queue.packet_count.1.toNat ≤ next ∧
      c'.new_forecast_tick ≤ c'.current_forecast_tick ∧ c'.Attached ∧
      c'.timestamp = c.timestamp ∧ c'.last_outgoing_ended_flight = decide (0 < time_to_next) ∧
      p.time_to_next = time_to_next ∧ dataLength p = s.length ∧ forecastLength p ≤ 64 ∧
      (c.last_outgoing_ended_flight = false → forecastLength p = 0) ∧
      c'.current_queue_bytes_estimate =
        c.current_queue_bytes_estimate + s.length + 2 + forecastLength p := by
  obtain ⟨px, c', hsend, hend, hspec⟩ := h.send hN hF hcount hest hhop time_to_next
  obtain ⟨hpx, hattached'⟩ := hspec.attached hattached
  obtain ⟨to_send, recv_queue, rfl, hcarries, -, hflight, hsent, -, hsame⟩ := hspec.packet
  obtain ⟨p, rfl, hpacket⟩ := hsent.resolve_left fun hnone => hpx hnone.1
  obtain ⟨p', d, hpacket', hpayload, htime, -, -, -⟩ :=
    Connection.new_packet_spec { c.conn with recv_queue } to_send.tostring time_to_next
      (le_trans (by decide) h.early)
  rw [hpacket] at hpacket'
  cases hpacket'
  obtain ⟨htick, hestimate⟩ := hsame hsettled
  have hsmall := hcarries.length_le hF
  have hlength := ForecastPacket.length_tostring (hsmall.trans (by decide))
  have hparse : ForecastPacket.parse p.payload = some to_send := by
    rw [hpayload, ForecastPacket.parse_tostring (hsmall.trans (by decide))]
  have hforecast : forecastLength p = to_send.forecast.length := by
    rw [forecastLength, hparse]
    rfl
  have hnew : c'.new_forecast_tick = c.new_forecast_tick := by
    rw [new_forecast_tick, new_forecast_tick, hspec.timestamp, hspec.remote_forecast_time,
      counts_size, counts_size, hspec.operative_forecast]
  refine ⟨p, c', hsend, hend, ?_, ?_, hattached', hspec.timestamp, hspec.last_outgoing, htime, ?_,
    hforecast ▸ hsmall, fun hfalse => ?_, ?_⟩
  · rw [hspec.recv_queue.count_eq]
    exact hcount
  · rw [hnew, htick]
    exact hsettled
  · rw [dataLength, hparse]
    rfl
  · rw [hforecast, hflight hfalse]
    rfl
  · rw [hestimate, hforecast]
    omega

/-- What the packets of a burst are like. -/
structure Burst (bytes_to_send : Nat) (pxs : List Packet) : Prop where
  data : (pxs.map dataLength).sum = bytes_to_send
  size : ∀ p ∈ pxs, dataLength p ≤ 1440
  time_to_next : pxs.map Packet.time_to_next = .replicate ((bytes_to_send - 1) / 1440) 0 ++ [50]
  first : ∀ p ∈ pxs.head?, forecastLength p ≤ 64
  rest : ∀ p ∈ pxs.tail, forecastLength p = 0

theorem Burst.length {bytes_to_send : Nat} {pxs : List Packet} (h : Burst bytes_to_send pxs) :
    pxs.length = (bytes_to_send - 1) / 1440 + 1 := by
  rw [← List.length_map, h.time_to_next, List.length_append, List.length_replicate,
    List.length_singleton]

theorem EndInv.burst (hN : N.Lawful) (hF : F.Lawful) {bytes_to_send : Nat}
    (h : c.EndInv N server next) (hcount : c.conn.recv_queue.packet_count.1.toNat ≤ next)
    (hsettled : c.new_forecast_tick ≤ c.current_forecast_tick) (hattached : c.Attached)
    (hest : c.current_queue_bytes_estimate + 2 * bytes_to_send + 132 < 2 ^ 31)
    (hhop : server = true ∨ c.timestamp + 1 ≤ PORT_HOP_INTERVAL) :
    ∃ pxs c' extra, burst N F bytes_to_send c = some (pxs, c') ∧ c'.EndInv N server next ∧
      Burst bytes_to_send pxs ∧
      c'.current_queue_bytes_estimate =
        c.current_queue_bytes_estimate + bytes_to_send + 2 * pxs.length + (extra : Nat) ∧
      extra ≤ 64 ∧ (c.last_outgoing_ended_flight = false →
        extra = 0 ∧ ∀ p ∈ pxs, forecastLength p = 0) := by
  induction bytes_to_send using Nat.strongRecOn generalizing c with
  | ind bytes_to_send ih =>
    rw [Sprout.burst]
    rcases le_or_gt bytes_to_send 1440 with hle | hgt
    · -- the last packet
      obtain ⟨p, c', hsend, hend, -, -, -, -, -, htime, hdata, hsmall, hflight, hestimate⟩ :=
        h.send_one hN hF hcount hsettled hattached (s := .replicate bytes_to_send 120)
          (by rw [List.length_replicate]; omega) hhop 50
      rw [List.length_replicate] at hdata hestimate
      simp only [min_eq_right hle, Nat.sub_self, if_true, hsend, Option.bind_some, lt_irrefl,
        if_false]
      refine ⟨_, c', forecastLength p, rfl, hend, ⟨?_, ?_, ?_, ?_, ?_⟩, ?_, hsmall,
        fun hfalse => ⟨hflight hfalse, ?_⟩⟩
      · simp [hdata]
      · simp [hdata, hle]
      · simp [htime, show (bytes_to_send - 1) / 1440 = 0 by omega]
      · simp [hsmall]
      · simp
      · simp only [Option.toList_some, List.length_singleton]
        omega
      · simpa using hflight hfalse
    · obtain ⟨p, d, hsend, hend, hcount', hsettled', hattached', htimestamp, hlast, htime, hdata,
          hsmall, hflight, hestimate⟩ :=
        h.send_one hN hF hcount hsettled hattached (s := .replicate 1440 120)
          (by rw [List.length_replicate]; omega) hhop 0
      rw [List.length_replicate] at hdata hestimate
      have hrest : bytes_to_send - 1440 ≠ 0 := by omega
      have hpos : 0 < bytes_to_send - 1440 := by omega
      obtain ⟨pxs, c', extra, hburst, hend', hpackets, hestimate', -, hlater⟩ :=
        ih (bytes_to_send - 1440) (by omega) hend hcount' hsettled' hattached' (by omega)
          (htimestamp ▸ hhop)
      obtain ⟨rfl, hnone⟩ := hlater (hlast.trans (by decide))
      simp only [min_eq_left hgt.le, hrest, if_false, hsend, Option.bind_some, hpos, if_true,
        hburst, Option.map_some]
      refine ⟨_, c', forecastLength p, rfl, hend', ⟨?_, ?_, ?_, ?_, ?_⟩, ?_, hsmall,
        fun hfalse => ⟨hflight hfalse, ?_⟩⟩
      · simp [hdata, hpackets.data]
        omega
      · simpa [hdata] using hpackets.size
      · have hsucc : (bytes_to_send - 1) / 1440 = (bytes_to_send - 1440 - 1) / 1440 + 1 := by omega
        simp [htime, hpackets.time_to_next, hsucc, List.replicate_succ]
      · simp [hsmall]
      · simpa using hnone
      · simp only [Option.toList_some, List.singleton_append, List.length_cons]
        omega
      · simpa [hflight hfalse] using hnone

end SproutConnection

namespace Session

open SproutConnection

variable {N : Numerics} {F : Protobuf}

/-- **The window is filled.** In every state that a session can reach, an end that knows the other
one and whose window is open can send all of it. The packets are of at most 1440 bytes, and add up
to the window. After them the end takes the queue to be what its last forecast promises for the
coming ticks, with 2 bytes more for each packet and those of at most one forecast. -/
theorem burst_fills (hN : N.Lawful) (hF : F.Lawful) : ∃ s₀, start N = some s₀ ∧
    ∀ actions, Guarded (step N F) (Fits F) s₀ actions →
      ∃ s, run (step N F) s₀ actions = some s ∧ ∀ server, (s.ends server).Attached →
        server = true ∨ (s.ends server).timestamp + 1 ≤ PORT_HOP_INTERVAL →
        ∃ bytes_to_send CWND c, (s.ends server).window_size = some (bytes_to_send, CWND, c) ∧
          (0 < bytes_to_send → ∃ pxs c', burst N F bytes_to_send.toNat c = some (pxs, c') ∧
            Burst bytes_to_send.toNat pxs ∧
            1440 * CWND + 2 * pxs.length ≤ c'.current_queue_bytes_estimate ∧
            c'.current_queue_bytes_estimate ≤ 1440 * CWND + 2 * pxs.length + 64) := by
  obtain ⟨s₀, hstart, hinv⟩ := start_spec (F := F) hN
  refine ⟨s₀, hstart, fun actions hguarded => ?_⟩
  obtain ⟨s, hrun, hinv⟩ := hguarded.total (fun _ _ h ha => h.step hN hF ha) hinv
  refine ⟨s, hrun, fun server hattached hhop => ?_⟩
  obtain ⟨bytes_to_send, CWND, c, hwindow, hend, hconn, -, hCWND, -, -, hfills, hsettled,
    htimestamp, hkeep⟩ := (hinv.ends server).window_size
  refine ⟨bytes_to_send, CWND, c, hwindow, fun hpos => ?_⟩
  have hfills := hfills hpos
  have hestimate := hend.estimate.1
  obtain ⟨pxs, c', extra, hburst, -, hpackets, hestimate', hextra, -⟩ :=
    hend.burst hN hF (hconn ▸ hinv.count_le server) hsettled (hkeep hattached)
      (show c.current_queue_bytes_estimate + 2 * (bytes_to_send.toNat : Int) + 132 < 2 ^ 31 by
        omega) (htimestamp ▸ hhop)
  exact ⟨pxs, c', hburst, hpackets, by omega, by omega⟩

theorem burst_fills_start : ∃ s₀, start .approximate = some s₀ ∧
    ∃ bytes_to_send CWND c, (s₀.ends false).window_size = some (bytes_to_send, CWND, c) ∧
      (0 < bytes_to_send → ∃ pxs c',
        burst .approximate .wire bytes_to_send.toNat c = some (pxs, c') ∧
        Burst bytes_to_send.toNat pxs ∧
        1440 * CWND + 2 * pxs.length ≤ c'.current_queue_bytes_estimate ∧
        c'.current_queue_bytes_estimate ≤ 1440 * CWND + 2 * pxs.length + 64) := by
  obtain ⟨s₀, hstart, hfills⟩ := burst_fills Numerics.approximate_lawful Protobuf.wire_lawful
  obtain ⟨htimestamp, -, -, hserver, hremote⟩ := start_fresh hstart false
  obtain ⟨s, hrun, hfills⟩ := hfills [] trivial
  cases hrun
  refine ⟨s₀, hstart, hfills false ⟨hremote, fun htrue => ?_⟩ (.inr ?_)⟩
  · rw [hserver] at htrue
    cases htrue
  · rw [htimestamp]
    decide

end Session

end ALCC.Sprout
