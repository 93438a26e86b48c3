import ALCC.Verify.SproutWire

/-! Both ends of a Sprout session. A forecast on the way never counts a byte that the end it goes to
has not sent, since that end numbers its bytes and the numbers only grow. So no assertion fails in
any order of the calls of the two ends, and each window is between 0 and the bytes of the forecast
(`run_safe`). -/

namespace ALCC.Sprout

open Machine MachineInt

namespace Link.LinkInv

variable {s t : Link}

/-- What the account of a link depends on. -/
theorem congr (h : LinkInv s) (hserver : t.sender.server = s.sender.server)
    (hnext : t.sender.next_seq = s.sender.next_seq)
    (hsend : t.sender.send_queue = s.sender.send_queue)
    (hserver' : t.receiver.server = s.receiver.server)
    (hrecv : t.receiver.recv_queue = s.receiver.recv_queue) (hinFlight : t.inFlight = s.inFlight)
    (hreceived : t.received = s.received) : LinkInv t where
  queue := by
    rw [hrecv, hinFlight, hnext]
    exact h.queue
  sent := hinFlight ▸ h.sent
  direction := by
    rw [hinFlight, Connection.direction, hserver]
    exact h.direction
  ends := by rw [hserver', hserver, h.ends]
  send_queue := by
    rw [hsend, hnext]
    exact h.send_queue
  next_seq := hnext ▸ h.next_seq
  received := by
    rw [hreceived, hrecv]
    exact h.received

/-- The count of the receiver is not ahead of the sender. -/
theorem count_le (h : LinkInv s) : s.count.toNat ≤ s.sender.next_seq.toNat := by
  rcases eq_or_ne s.receiver.recv_queue.received_sequence_numbers [] with hnil | hne
  · obtain ⟨next, hqueue, hchain⟩ := h.queue
    have hcount : s.count = s.receiver.recv_queue.throwaway_before := by
      have hzero : UInt64.ofInt (toI32 (0 : Nat)) = 0 := by decide
      simp only [count, RecvQueue.packet_count, hnil, List.dropWhile_nil, List.map_nil,
        List.sum_nil, hzero, UInt64.add_zero]
    have hsum := hchain.sum_eq
    have hbefore := hqueue.before
    rw [hcount]
    omega
  · have hpos : LinkInv { s with received := 1 } := { h with received := fun _ => hne }
    exact (Nat.le_add_right _ 50).trans (hpos.count_add_le Nat.one_pos).1

/-- A forecast of the receiver keeps the account. -/
theorem forecasted (h : LinkInv s) {recv_queue : RecvQueue}
    (hqueue : SproutConnection.Forecasted s.receiver.recv_queue recv_queue)
    (hserver : t.sender.server = s.sender.server) (hnext : t.sender.next_seq = s.sender.next_seq)
    (hsend : t.sender.send_queue = s.sender.send_queue)
    (hserver' : t.receiver.server = s.receiver.server) (hrecv : t.receiver.recv_queue = recv_queue)
    (hinFlight : t.inFlight = s.inFlight) (hreceived : t.received = s.received) : LinkInv t := by
  rcases hqueue with rfl | rfl
  · exact h.congr hserver hnext hsend hserver' hrecv hinFlight hreceived
  · exact h.forecast.congr hserver hnext hsend hserver' hrecv hinFlight hreceived

end Link.LinkInv

namespace Session

open SproutConnection

variable {N : Numerics} {F : Protobuf} {s t : Session} {server : Bool}

/-- The packets from the end `server` to the other one. -/
def link (s : Session) (server : Bool) : Link where
  sender := (s.ends server).conn
  receiver := (s.ends !server).conn
  inFlight := s.inFlight server
  received := 0

/-- The time goes on, a payload leaves room for the forecast, numbers fit in their types, and there
is a packet to receive. -/
def Fits (F : Protobuf) (s : Session) : Action → Prop
  | .freeze_timestamp server timestamp =>
    (s.ends server).timestamp ≤ timestamp ∧ timestamp.toNat + 20 < 2 ^ 64
  | .send server data _ =>
    data.length ≤ 1964 ∧ (s.ends server).conn.next_seq.toNat + data.length + 116 < 2 ^ 63 ∧
      (s.ends server).current_queue_bytes_estimate + data.length + 66 < 2 ^ 31 ∧
      (server = true ∨ (s.ends server).timestamp + 1 ≤ PORT_HOP_INTERVAL)
  | .recv server => ∃ p rest, s.inFlight (!server) = p :: rest ∧ ∀ packet f,
      ForecastPacket.parse p.payload = some packet → F.ParseFromString packet.forecast = some f →
      (s.ends server).conn.next_seq.toNat < f.received_or_lost_count.toNat + 2 ^ 31
  | .window_size _ => True

/-- Between the steps. -/
structure SessionInv (N : Numerics) (F : Protobuf) (s : Session) : Prop where
  ends : ∀ server, (s.ends server).EndInv N server (s.ends !server).conn.next_seq.toNat
  link : ∀ server, Link.LinkInv (s.link server)
  packets : ∀ server, ∀ p ∈ s.inFlight server, ∃ packet : ForecastPacket,
    p.payload = packet.tostring ∧ Carries F (s.ends !server).conn.next_seq.toNat packet

namespace SessionInv

/-- A step of the end `server`, which leaves the other end as it is. -/
theorem of_end (h : SessionInv N F s) (server : Bool) (hother : t.ends (!server) = s.ends (!server))
    (hend : (t.ends server).EndInv N server (s.ends !server).conn.next_seq.toNat)
    (hnext : (s.ends server).conn.next_seq.toNat ≤ (t.ends server).conn.next_seq.toNat)
    (hfrom : Link.LinkInv (t.link server)) (hto : Link.LinkInv (t.link !server))
    (hpackets : ∀ p ∈ t.inFlight server, p ∈ s.inFlight server ∨ ∃ packet : ForecastPacket,
      p.payload = packet.tostring ∧ Carries F (s.ends !server).conn.next_seq.toNat packet)
    (hrest : ∀ p ∈ t.inFlight (!server), p ∈ s.inFlight (!server)) : SessionInv N F t := by
  have hcases : ∀ e : Bool, e = server ∨ e = !server := fun e => by
    cases e <;> cases server <;> simp
  refine ⟨fun e => ?_, fun e => ?_, fun e p hp => ?_⟩
  · rcases hcases e with rfl | rfl
    · rw [hother]
      exact hend
    · have hle : (s.ends !!server).conn.next_seq.toNat ≤ (t.ends !!server).conn.next_seq.toNat := by
        rw [Bool.not_not]
        exact hnext
      rw [hother]
      exact (h.ends !server).mono hle
  · rcases hcases e with rfl | rfl
    · exact hfrom
    · exact hto
  · rcases hcases e with rfl | rfl
    · rw [hother]
      rcases hpackets p hp with hp | hp
      · exact h.packets e p hp
      · exact hp
    · obtain ⟨packet, hpayload, hcarries⟩ := h.packets (!server) p (hrest p hp)
      rw [Bool.not_not] at hcarries ⊢
      exact ⟨packet, hpayload, hcarries.mono hnext⟩

end SessionInv

@[simp] theorem update_self (c : SproutConnection) (s : Session) :
    (s.update server c).ends server = c :=
  Function.update_self ..

@[simp] theorem update_other (c : SproutConnection) (s : Session) :
    (s.update server c).ends (!server) = s.ends !server :=
  Function.update_of_ne (Bool.not_ne_self server) ..

theorem start_spec (hN : N.Lawful) : ∃ s₀, start N = some s₀ ∧ SessionInv N F s₀ := by
  have hnew := new_spec hN
  choose c recv_queue hnew hend hqueue hconn using hnew
  have hends : ∀ server : Bool, (if server then c true else c false) = c server := fun server => by
    cases server <;> rfl
  rw [start, hnew, Option.bind_some, hnew, Option.map_some]
  refine ⟨_, rfl, fun server => ?_, fun server => ?_, nofun⟩
  · simp only [hends]
    exact hend server _
  · refine (Link.LinkInv.start server).forecasted (hqueue !server) ?_ ?_ ?_ ?_ ?_ rfl rfl <;>
      simp only [link, hends, hconn] <;> rfl

namespace SessionInv

/-- A step in which an end neither sends nor receives. -/
theorem of_conn (h : SessionInv N F s) {c : SproutConnection}
    (hconn : c.conn = (s.ends server).conn)
    (hend : c.EndInv N server (s.ends !server).conn.next_seq.toNat) :
    SessionInv N F (s.update server c) := by
  have hlink : ∀ e, (s.update server c).link e = s.link e := by
    have hconns : ∀ e, ((s.update server c).ends e).conn = (s.ends e).conn := by
      intro e
      rcases eq_or_ne e server with rfl | hne
      · rw [update_self, hconn]
      · exact congrArg SproutConnection.conn (Function.update_of_ne hne ..)
    intro e
    rw [Session.link, Session.link, hconns, hconns]
    rfl
  apply h.of_end server (update_other c s)
  · rw [update_self]
    exact hend
  · rw [update_self, hconn]
  · exact hlink server ▸ h.link server
  · exact hlink (!server) ▸ h.link !server
  · exact fun p hp => .inl hp
  · exact fun p hp => hp

theorem freeze_timestamp (h : SessionInv N F s) {timestamp : UInt64}
    (ha : s.Fits F (.freeze_timestamp server timestamp)) :
    SessionInv N F (s.update server { s.ends server with timestamp }) := by
  obtain ⟨hle, hlate⟩ := ha
  have hend := h.ends server
  exact h.of_conn rfl { hend with
    early := hend.early.trans (UInt64.le_iff_toNat_le.mp hle)
    late := hlate
    time := UInt64.le_trans hend.time hle }

/-- What the end `server` has counted, the other one has sent. -/
theorem count_le (h : SessionInv N F s) (server : Bool) :
    (s.ends server).conn.recv_queue.packet_count.1.toNat ≤
      (s.ends !server).conn.next_seq.toNat := by
  have hcount := (h.link !server).count_le
  rw [Link.count, Session.link, Bool.not_not] at hcount
  exact hcount

theorem send (hN : N.Lawful) (hF : F.Lawful) (h : SessionInv N F s) {data : Bytes}
    {time_to_next : UInt16} (ha : s.Fits F (.send server data time_to_next)) :
    ∃ t, step N F s (.send server data time_to_next) = some t ∧ SessionInv N F t := by
  obtain ⟨hdata, hroom, hest, hhop⟩ := ha
  obtain ⟨px, c, hsend, hend, hspec⟩ :=
    (h.ends server).send hN hF (h.count_le server) hest hhop time_to_next
  obtain ⟨to_send, recv_queue, rfl, hcarries, hqueue, -, hpx, -⟩ := hspec.packet
  have hlength := ForecastPacket.length_tostring ((hcarries.length_le hF).trans (by decide))
  have hsmall := hcarries.length_le hF
  have hserver : c.conn.server = (s.ends server).conn.server :=
    hend.server.trans (h.ends server).server.symm
  have hlink := h.link server
  -- the packet, if there is one, is the next of the link
  obtain ⟨hrecv, hnext, hpayload, hfrom⟩ : c.conn.recv_queue = recv_queue ∧
      (s.ends server).conn.next_seq.toNat ≤ c.conn.next_seq.toNat ∧
      (∀ p ∈ px.toList, p.payload = to_send.tostring) ∧
      Link.LinkInv { s.link server with
        sender := c.conn, inFlight := s.inFlight server ++ px.toList } := by
    rcases hpx with ⟨rfl, hconn⟩ | ⟨p, rfl, hpacket⟩
    · have hnext := congrArg Connection.next_seq hconn
      have hsend := congrArg Connection.send_queue hconn
      exact ⟨hconn ▸ rfl, hconn ▸ le_rfl, nofun,
        hlink.congr hserver hnext hsend rfl rfl (List.append_nil _) rfl⟩
    · obtain ⟨p', d, hpacket', hpayload, -, -, hd, hnext⟩ :=
        Connection.new_packet_spec { (s.ends server).conn with recv_queue } to_send.tostring
          time_to_next (le_trans (by decide) (h.ends server).early)
      rw [hpacket] at hpacket'
      cases hpacket'
      have hlink' : Link.LinkInv { s.link server with
          sender := { (s.ends server).conn with recv_queue } } :=
        hlink.congr rfl rfl rfl rfl rfl rfl rfl
      have hlt : (s.ends server).conn.next_seq.toNat + to_send.tostring.length + 50 < 2 ^ 63 := by
        omega
      have hfits : Link.Fits { s.link server with
            sender := { (s.ends server).conn with recv_queue } }
          (.send to_send.tostring time_to_next (s.ends server).timestamp) := ⟨by omega, hlt⟩
      refine ⟨hd, ?_, List.forall_mem_singleton.mpr hpayload, hlink'.send hfits ?_⟩
      · rw [hnext, UInt64.toNat_add, UInt64.toNat_add, UInt64.toNat_ofNat',
          show (50 : UInt64).toNat = 50 from rfl]
        simp only
        omega
      · rw [Link.step, hpacket, Option.map_some]
        rfl
  rw [step, hsend, Option.map_some]
  refine ⟨_, rfl, h.of_end server (update_other c s) ?_ ?_ ?_ ?_ ?_ ?_⟩
  · simpa using hend
  · simpa using hnext
  · refine hfrom.congr ?_ ?_ ?_ ?_ ?_ ?_ rfl <;> simp [Session.link]
  · refine (h.link !server).forecasted (by simpa [Session.link] using hqueue) ?_ ?_ ?_ ?_ ?_ ?_
      rfl <;> simp [Session.link, hserver, hrecv]
  · intro p hp
    have hp : p ∈ s.inFlight server ++ px.toList := by simpa using hp
    rcases List.mem_append.mp hp with hp | hp
    · exact .inl hp
    · exact .inr ⟨to_send, hpayload p hp, hcarries⟩
  · intro p hp
    simpa using hp

theorem recv (hN : N.Lawful) (hF : F.Lawful) (h : SessionInv N F s)
    (ha : s.Fits F (.recv server)) : ∃ t, step N F s (.recv server) = some t ∧
      SessionInv N F t := by
  obtain ⟨p, rest, hinFlight, hnear⟩ := ha
  have hlink := h.link !server
  have hp : p ∈ s.inFlight (!server) := hinFlight ▸ List.mem_cons_self
  have hne : (s.link !server).inFlight ≠ [] := List.ne_nil_of_mem hp
  obtain ⟨packet, hpayload, hcarries⟩ := h.packets (!server) p hp
  rw [Bool.not_not] at hcarries
  obtain ⟨l, hstep⟩ := hlink.receive_enabled hne (s.ends server).timestamp
  rw [Link.step, show (s.link !server).inFlight = p :: rest from hinFlight] at hstep
  obtain ⟨conn, hreceive, -⟩ := Option.map_eq_some_iff.mp hstep
  have hreceived := hlink.receive hinFlight hreceive
  rw [Session.link, Bool.not_not] at hreceive
  obtain ⟨c, hrecv, hend, rfl⟩ := (h.ends server).recv hN hF hreceive hpayload hcarries
    fun f hf => hnear packet f (hpayload ▸ ForecastPacket.parse_tostring
      ((hcarries.length_le hF).trans (by decide))) hf
  obtain ⟨hnext, hsend⟩ := Connection.receive_sender hreceive
  have hserver := (Connection.receive_spec hreceive).2
  have hto : Link.LinkInv { s.link !server with receiver := c.conn, inFlight := rest } :=
    { hreceived with received := fun hpos => absurd hpos (lt_irrefl 0) }
  rw [step, hinFlight]
  simp only [hrecv, Option.map_some]
  refine ⟨_, rfl, h.of_end server (update_other c s) ?_ ?_ ?_ ?_ ?_ ?_⟩
  · simpa using hend
  · simp [hnext]
  · refine (h.link server).congr ?_ ?_ ?_ ?_ ?_ ?_ rfl <;> simp [Session.link, *]
  · refine hto.congr ?_ ?_ ?_ ?_ ?_ ?_ rfl <;> simp [Session.link]
  · intro q hq
    exact .inl (by simpa using hq)
  · intro q hq
    have hq : q ∈ rest := by simpa using hq
    exact hinFlight ▸ List.mem_cons_of_mem p hq

/-- A step that fits happens, and keeps the invariant. -/
theorem step (hN : N.Lawful) (hF : F.Lawful) (h : SessionInv N F s) {a : Action}
    (ha : s.Fits F a) : ∃ t, s.step N F a = some t ∧ SessionInv N F t := by
  cases a with
  | freeze_timestamp server timestamp => exact ⟨_, rfl, h.freeze_timestamp ha⟩
  | send server data time_to_next => exact h.send hN hF ha
  | recv server => exact h.recv hN hF ha
  | window_size server =>
    obtain ⟨bytes_to_send, CWND, c, hwindow, hend, hconn, -⟩ := (h.ends server).window_size
    rw [Session.step, hwindow]
    exact ⟨_, rfl, h.of_conn hconn hend⟩

end SessionInv

/-- What holds at the end `server`: the forecasts that it sends count nothing that was not sent, and
its window is not negative, and at most what its last forecast promises for some ticks. -/
structure Safe (F : Protobuf) (s : Session) (server : Bool) : Prop where
  forecasts : ∀ p ∈ s.inFlight server, ∃ packet : ForecastPacket,
    ForecastPacket.parse p.payload = some packet ∧
    ∀ f, packet.forecast ≠ [] → F.ParseFromString packet.forecast = some f →
      f.Valid ∧ f.received_or_lost_count ≤ (s.ends !server).conn.next_seq
  operative : (s.ends server).operative_forecast.Valid
  estimate : 0 ≤ (s.ends server).current_queue_bytes_estimate
  window : ∃ bytes_to_send CWND c, (s.ends server).window_size = some (bytes_to_send, CWND, c) ∧
    0 ≤ bytes_to_send ∧ bytes_to_send ≤ 1440 * CWND ∧ 0 ≤ CWND ∧ CWND ≤ 234

theorem SessionInv.safe (hF : F.Lawful) (h : SessionInv N F s) (server : Bool) :
    s.Safe F server where
  forecasts p hp := by
    obtain ⟨packet, hpayload, hcarries⟩ := h.packets server p hp
    refine ⟨packet, hpayload ▸ ForecastPacket.parse_tostring
      ((hcarries.length_le hF).trans (by decide)), fun f hne hf => ?_⟩
    obtain ⟨f', hvalid, hle, heq⟩ := hcarries.resolve_left hne
    rw [heq, hF.parse hvalid] at hf
    cases hf
    exact ⟨hvalid, UInt64.le_iff_toNat_le.mpr hle⟩
  operative := (h.ends server).operative
  estimate := (h.ends server).estimate.1
  window := by
    obtain ⟨bytes_to_send, CWND, c, hwindow, -, -, h0, hle, hpos, hbound, -⟩ :=
      (h.ends server).window_size
    exact ⟨_, _, _, hwindow, hpos, hbound, h0, hle⟩

/-- **No assertion fails.** Whatever the two ends send, and in whatever order they send, receive and
look at their windows, each of these calls succeeds, and both ends are safe. -/
theorem run_safe (hN : N.Lawful) (hF : F.Lawful) : ∃ s₀, start N = some s₀ ∧
    ∀ actions, Guarded (step N F) (Fits F) s₀ actions →
      ∃ s, run (step N F) s₀ actions = some s ∧ ∀ server, s.Safe F server := by
  obtain ⟨s₀, hstart, hinv⟩ := start_spec (F := F) hN
  refine ⟨s₀, hstart, fun actions hguarded => ?_⟩
  obtain ⟨s, hrun, hinv⟩ := hguarded.total (fun _ _ h ha => h.step hN hF ha) hinv
  exact ⟨s, hrun, hinv.safe hF⟩

/-- Nothing is sent before the first step, and the client knows the server. -/
theorem start_fresh {s₀ : Session} (h : start N = some s₀) (server : Bool) :
    (s₀.ends server).timestamp = 1000 ∧ (s₀.ends server).conn.next_seq = 0 ∧
      (s₀.ends server).current_queue_bytes_estimate = 0 ∧
      (s₀.ends server).conn.server = server ∧ (s₀.ends server).has_remote_addr = !server := by
  have hnew : ∀ {server c}, new N server = some c → c.timestamp = 1000 ∧
      c.conn.next_seq = 0 ∧ c.current_queue_bytes_estimate = 0 ∧ c.conn.server = server ∧
      c.has_remote_addr = !server := by
    intro server c hc
    obtain ⟨r, -, hc⟩ := Option.bind_eq_some_iff.mp hc
    obtain ⟨⟨f, d⟩, hforecast, rfl⟩ := Option.map_eq_some_iff.mp hc
    obtain ⟨r', -, hforecast⟩ := Option.bind_eq_some_iff.mp hforecast
    obtain ⟨_, -, heq⟩ := Option.map_eq_some_iff.mp hforecast
    cases heq
    exact ⟨rfl, rfl, rfl, rfl, rfl⟩
  obtain ⟨client, hclient, h⟩ := Option.bind_eq_some_iff.mp h
  obtain ⟨server_, hserver, rfl⟩ := Option.map_eq_some_iff.mp h
  cases server with
  | false => exact hnew hclient
  | true => exact hnew hserver

theorem run_safe_sent : ∃ s₀, start .approximate = some s₀ ∧
    ∃ s, run (step .approximate .wire) s₀ [.send true [104, 105] 50, .window_size true] = some s ∧
      ∀ server, s.Safe .wire server := by
  obtain ⟨s₀, hstart, hsafe⟩ := run_safe Numerics.approximate_lawful Protobuf.wire_lawful
  obtain ⟨-, hnext, hestimate, -⟩ := start_fresh hstart true
  refine ⟨s₀, hstart, hsafe _ ⟨⟨by decide, ?_, ?_, .inl rfl⟩, fun _ _ => ⟨trivial, fun _ _ =>
    trivial⟩⟩⟩
  · rw [hnext]
    decide
  · rw [hestimate]
    decide

end Session

end ALCC.Sprout
