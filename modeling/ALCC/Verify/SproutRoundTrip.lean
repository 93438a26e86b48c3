import ALCC.Model.SproutRoundTrip
import ALCC.Verify.SproutPackets

/-! The samples of the round-trip time. Each one is the time since a packet left, less the time that
the other end held its timestamp, up to one millisecond: the value 65535 of a timestamp is left out,
and moves it by one. So the estimate lies between the shortest and the longest round trip, whatever
the network does to the packets (`run_round_trip`). -/

namespace ALCC.Sprout

open Machine Sprout.Connection

theorem timestamp_diff_eq (tsnew tsold : UInt16) :
    timestamp_diff tsnew tsold = some (tsnew - tsold) := by
  have hnew := tsnew.toNat_lt
  have hold := tsold.toNat_lt
  have hsub : (tsnew - tsold).toNat = (65536 - tsold.toNat + tsnew.toNat) % 65536 :=
    UInt16.toNat_sub ..
  have hofInt : ∀ n : Nat, n < 65536 → (UInt16.ofInt n).toNat = n := fun n hn => by
    rw [UInt16.ofInt, UInt16.toNat_ofNat']
    omega
  rw [timestamp_diff]
  split
  · rename_i hneg
    rw [if_pos (by omega)]
    congr 1
    apply UInt16.toNat_inj.mp
    have := hofInt (tsnew.toNat + 65536 - tsold.toNat) (by omega)
    rw [show (tsnew.toNat - tsold.toNat + 65536 : Int) =
      (tsnew.toNat + 65536 - tsold.toNat : Nat) by omega, this, hsub]
    omega
  · rename_i hpos
    rw [if_pos (by omega)]
    congr 1
    apply UInt16.toNat_inj.mp
    have := hofInt (tsnew.toNat - tsold.toNat) (by omega)
    rw [show (tsnew.toNat - tsold.toNat : Int) = (tsnew.toNat - tsold.toNat : Nat) by omega,
      this, hsub]
    omega

/-- The round trip that a sample measures. -/
def Echo.trip (taken_at : UInt64) (e : Echo) : Int :=
  taken_at.toNat - e.sent_at.toNat - e.held.toNat

/-- The echo comes back in time for the low bits to tell its age. -/
def Echo.Timely (taken_at : UInt64) (e : Echo) : Prop :=
  0 ≤ e.trip taken_at ∧ e.trip taken_at < 65535

instance (taken_at : UInt64) (e : Echo) : Decidable (e.Timely taken_at) :=
  inferInstanceAs (Decidable (_ ∧ _))

theorem Echo.Timely.close {e : Echo} {taken_at : UInt64} (h : e.Timely taken_at) {R : UInt16}
    (hR : R = timestamp16 taken_at - (timestamp16 e.sent_at + e.held.toUInt16)) (hlt : R < 50000) :
    |(R.toNat : Int) - e.trip taken_at| ≤ 1 := by
  obtain ⟨hnonneg, hbound⟩ := h
  rw [trip] at hnonneg hbound ⊢
  obtain ⟨i, hi, htaken⟩ := toNat_timestamp16 taken_at
  obtain ⟨j, hj, hsent⟩ := toNat_timestamp16 e.sent_at
  have hlt := UInt16.lt_iff_toNat_lt.mp hlt
  rw [hR, UInt16.toNat_sub, UInt16.toNat_add, UInt64.toNat_toUInt16, htaken, hsent] at *
  rw [abs_le]
  change _ < 50000 at hlt
  omega

namespace RoundTrip

/-- The estimate lies between `lo` and `hi`. -/
structure Within (lo hi : ℚ) (r : RoundTrip) : Prop where
  SRTT : r.RTT_hit = true → lo ≤ r.SRTT ∧ r.SRTT ≤ hi
  RTTVAR : 0 ≤ r.RTTVAR

theorem Within.observe {lo hi : ℚ} {r : RoundTrip} (h : r.Within lo hi) {R : UInt16}
    (hR : R < 50000 → lo ≤ R.toNat ∧ (R.toNat : ℚ) ≤ hi) : (r.observe R).Within lo hi := by
  have h0 : (0 : ℚ) ≤ R.toNat := Nat.cast_nonneg _
  rw [RoundTrip.observe]
  split
  · rename_i hlt
    obtain ⟨hlo, hhi⟩ := hR hlt
    split
    · rename_i hhit
      obtain ⟨hlo', hhi'⟩ := h.SRTT hhit
      refine ⟨fun _ => ⟨?_, ?_⟩, ?_⟩
      · change lo ≤ (1 - 1 / 8) * r.SRTT + 1 / 8 * R.toNat
        linarith
      · change (1 - 1 / 8) * r.SRTT + 1 / 8 * R.toNat ≤ hi
        linarith
      · have hvar := h.RTTVAR
        have habs := abs_nonneg (r.SRTT - R.toNat)
        change 0 ≤ (1 - 1 / 4) * r.RTTVAR + 1 / 4 * |r.SRTT - R.toNat|
        linarith
    · exact ⟨fun _ => ⟨hlo, hhi⟩, div_nonneg h0 zero_le_two⟩
  · exact h

theorem Within.foldl {lo hi : ℚ} {Rs : List UInt16} {r : RoundTrip} (h : r.Within lo hi)
    (hRs : ∀ R ∈ Rs, R < 50000 → lo ≤ R.toNat ∧ (R.toNat : ℚ) ≤ hi) :
    (Rs.foldl RoundTrip.observe r).Within lo hi := by
  induction Rs generalizing r with
  | nil => exact h
  | cons R Rs ih =>
    obtain ⟨hR, hRs⟩ := List.forall_mem_cons.mp hRs
    exact ih (h.observe hR) hRs

/-- A packet is not given up before the estimate is over, or `MAX_RTO`. -/
theorem le_timeout {r : RoundTrip} (h : 0 ≤ r.RTTVAR) : min r.SRTT MAX_RTO ≤ r.timeout := by
  have hceil : r.SRTT ≤ (⌈r.SRTT + 4 * r.RTTVAR⌉.toNat : ℚ) := by
    have hle := Int.le_ceil (r.SRTT + 4 * r.RTTVAR)
    have hself : ((⌈r.SRTT + 4 * r.RTTVAR⌉ : ℤ) : ℚ) ≤ (⌈r.SRTT + 4 * r.RTTVAR⌉.toNat : ℤ) :=
      Int.cast_le.mpr (Int.self_le_toNat _)
    push_cast at hself
    linarith
  rw [timeout]
  split
  · rename_i hlt
    exact (min_le_left ..).trans (hceil.trans (Nat.cast_le.mpr hlt.le))
  · split
    · exact min_le_right ..
    · exact (min_le_left ..).trans hceil

end RoundTrip

/-- An echo at the end `server` of a packet of `own`, as the other end makes it. -/
structure Echo.Genuine (own : List Transmission) (e : Echo) : Prop where
  held : e.held < 1000
  sent : ∃ m ∈ own, m.sent_at = e.sent_at

theorem Echo.Genuine.mono {own own' : List Transmission} {e : Echo} (h : e.Genuine own)
    (hsub : own ⊆ own') : e.Genuine own' where
  held := h.held
  sent := h.sent.imp fun _ hm => ⟨hsub hm.1, hm.2⟩

/-- A packet of the end `server`, when the other end has sent `other`. -/
structure Transmission.Inv (server : Bool) (other : List Transmission) (m : Transmission) :
    Prop where
  direction : m.packet.direction = if server then .TO_CLIENT else .TO_SERVER
  timestamp : m.packet.timestamp = timestamp16 m.sent_at
  silent : m.echo = none → m.packet.timestamp_reply = -1
  echo : ∀ e, m.echo = some e → e.Genuine other ∧
    m.packet.timestamp_reply = timestamp16 e.sent_at + e.held.toUInt16

theorem Transmission.Inv.mono {server : Bool} {other other' : List Transmission} {m : Transmission}
    (h : m.Inv server other) (hsub : other ⊆ other') : m.Inv server other' where
  direction := h.direction
  timestamp := h.timestamp
  silent := h.silent
  echo e he := ⟨(h.echo e he).1.mono hsub, (h.echo e he).2⟩

/-- A sample at an end that has sent `own`. -/
structure Sample.Inv (own : List Transmission) (x : Sample) : Prop where
  echo : ∃ e, x.echo = some e ∧ e.Genuine own ∧ e.Timely x.taken_at ∧
    x.R = timestamp16 x.taken_at - (timestamp16 e.sent_at + e.held.toUInt16)

/-- The end `server`, which has sent `own`, while the other one has sent `other`. -/
structure Endpoint.Inv (server : Bool) (own other : List Transmission) (e : Endpoint) : Prop where
  server : e.conn.server = server
  early : 1000 ≤ e.timestamp.toNat
  received_at : e.conn.saved_timestamp_received_at ≤ e.timestamp
  idle : e.saved = none → e.conn.saved_timestamp_received_at = 0
  saved : ∀ sent_at, e.saved = some sent_at →
    e.conn.saved_timestamp = timestamp16 sent_at ∧ ∃ m ∈ other, m.sent_at = sent_at
  rtt : e.rtt = (e.samples.map Sample.R).foldl RoundTrip.observe .new
  samples : ∀ x ∈ e.samples, x.Inv own

namespace Endpoint.Inv

variable {server : Bool} {own other : List Transmission} {e : Endpoint}

theorem mono {own' other' : List Transmission} (h : e.Inv server own other) (hown : own ⊆ own')
    (hother : other ⊆ other') : e.Inv server own' other' where
  server := h.server
  early := h.early
  received_at := h.received_at
  idle := h.idle
  saved sent_at hsaved :=
    ⟨(h.saved sent_at hsaved).1, (h.saved sent_at hsaved).2.imp fun _ hm => ⟨hother hm.1, hm.2⟩⟩
  rtt := h.rtt
  samples x hx := by
    obtain ⟨echo, heq, hgenuine, htimely, hR⟩ := (h.samples x hx).echo
    exact ⟨echo, heq, hgenuine.mono hown, htimely, hR⟩

/-- Something is held only if it was received. -/
theorem saved_of_recent (h : e.Inv server own other)
    (hrecent : e.timestamp - e.conn.saved_timestamp_received_at < 1000) :
    ∃ sent_at, e.saved = some sent_at := by
  cases hsaved : e.saved with
  | some sent_at => exact ⟨sent_at, rfl⟩
  | none =>
    rw [h.idle hsaved, UInt64.sub_zero, UInt64.lt_iff_toNat_lt] at hrecent
    exact absurd hrecent h.early.not_gt

theorem send (h : e.Inv server own other) (s_payload : Bytes) (time_to_next : UInt16) :
    ∃ m e', e.send s_payload time_to_next = some (m, e') ∧ m.Inv server other ∧
      e'.Inv server own other := by
  obtain ⟨p, d, hpacket, -, -, hdirection, htimestamp, hreply, hserver, -, -, hsaved, hat⟩ :=
    new_packet_eq e.conn s_payload time_to_next (le_trans (by decide) h.early)
  rw [Connection.direction, h.server] at hdirection
  rw [Endpoint.send, hpacket, Option.map_some]
  by_cases hrecent : e.timestamp - e.conn.saved_timestamp_received_at < 1000
  · rw [if_pos hrecent] at hreply hsaved hat
    obtain ⟨sent_at, hsome⟩ := h.saved_of_recent hrecent
    obtain ⟨heq, hother⟩ := h.saved sent_at hsome
    simp only [if_pos hrecent, hsome, Option.map_some]
    refine ⟨_, _, rfl, ⟨hdirection, htimestamp, fun hnone => ?_, fun echo hecho => ?_⟩, ?_⟩
    · cases hnone
    · cases hecho
      exact ⟨⟨hrecent, hother⟩, heq ▸ hreply⟩
    · exact {
        server := hserver.trans h.server
        early := h.early
        received_at := by
          change d.saved_timestamp_received_at ≤ e.timestamp
          rw [hat]
          exact UInt64.zero_le
        idle := fun _ => hat
        saved := fun sent_at hnone => by cases hnone
        rtt := h.rtt
        samples := h.samples }
  · rw [if_neg hrecent] at hreply hsaved hat
    simp only [if_neg hrecent]
    refine ⟨_, _, rfl, ⟨hdirection, htimestamp, fun _ => hreply, fun echo hecho => ?_⟩, ?_⟩
    · cases hecho
    exact {
      server := hserver.trans h.server
      early := h.early
      received_at := by
        change d.saved_timestamp_received_at ≤ e.timestamp
        rw [hat]
        exact h.received_at
      idle := fun hnone => hat.trans (h.idle hnone)
      saved := fun sent_at hsome => by
        change d.saved_timestamp = _ ∧ _
        rw [hsaved]
        exact h.saved sent_at hsome
      rtt := h.rtt
      samples := h.samples }

theorem recv (h : e.Inv server own other) {m : Transmission} (hm : m.Inv (!server) own)
    (hmem : m ∈ other) (htimely : e.conn.expected_receiver_seq ≤ m.packet.seq →
      ∀ echo ∈ m.echo, echo.Timely e.timestamp) :
    ∃ e', e.recv m = some e' ∧ e'.Inv server own other := by
  have hdirection : m.packet.direction =
      if e.conn.server then .TO_SERVER else .TO_CLIENT := by
    rw [hm.direction, h.server]
    cases server <;> rfl
  obtain ⟨d, hreceive, hserver, hsaved, hat⟩ := receive_eq e.timestamp hdirection
  have hts : m.packet.timestamp ≠ -1 := hm.timestamp ▸ timestamp16_ne m.sent_at
  rw [Endpoint.recv, hreceive, Option.bind_some]
  by_cases hseq : e.conn.expected_receiver_seq ≤ m.packet.seq
  · rw [if_pos ⟨hseq, hts⟩] at hsaved hat
    have hnow : e.timestamp ≠ 0 := fun h0 => by
      have hearly := h.early
      rw [h0] at hearly
      exact absurd hearly (by decide)
    -- the end after it has saved the timestamp
    have hinv : ∀ rtt samples, rtt = (samples.map Sample.R).foldl RoundTrip.observe .new →
        (∀ x ∈ samples, x.Inv own) → Endpoint.Inv server own other
          { e with conn := d, saved := some m.sent_at, rtt, samples } :=
      fun rtt samples hrtt hsamples => {
        server := hserver.trans h.server
        early := h.early
        received_at := hat ▸ UInt64.le_refl _
        idle := nofun
        saved := fun sent_at heq => by
          cases heq
          exact ⟨hsaved.trans hm.timestamp, m, hmem, rfl⟩
        rtt := hrtt
        samples := hsamples }
    simp only [if_pos hseq, if_pos hts, timestamp_diff_eq, Option.map_some]
    cases hecho : m.echo with
    | none =>
      rw [if_neg (not_not.mpr (hm.silent hecho))]
      exact ⟨_, rfl, hinv e.rtt e.samples h.rtt h.samples⟩
    | some echo =>
      obtain ⟨hgenuine, hreply⟩ := hm.echo echo hecho
      split
      · refine ⟨_, rfl, hinv _ _ ?_ (List.forall_mem_append.mpr ⟨h.samples,
          List.forall_mem_singleton.mpr ⟨echo, rfl, hgenuine, htimely hseq echo hecho, ?_⟩⟩)⟩
        · rw [List.map_append, List.foldl_append, ← h.rtt]
          rfl
        · rw [hreply]
      · exact ⟨_, rfl, hinv e.rtt e.samples h.rtt h.samples⟩
  · rw [if_neg fun hand => hseq hand.1] at hsaved hat
    simp only [if_neg hseq]
    refine ⟨_, rfl, ?_⟩
    exact {
      server := hserver.trans h.server
      early := h.early
      received_at := by
        change d.saved_timestamp_received_at ≤ e.timestamp
        rw [hat]
        exact h.received_at
      idle := fun hnone => hat.trans (h.idle hnone)
      saved := fun sent_at hsome => by
        change d.saved_timestamp = _ ∧ _
        rw [hsaved]
        exact h.saved sent_at hsome
      rtt := h.rtt
      samples := h.samples }

end Endpoint.Inv

namespace Exchange

/-- Clocks do not go back, and what comes back does so in time. -/
def Fits (s : Exchange) : Action → Prop
  | .freeze_timestamp server timestamp => (s.ends server).timestamp ≤ timestamp
  | .send .. => True
  | .recv server index => index < (s.sent !server).length ∧
      ∀ m ∈ (s.sent !server)[index]?, (s.ends server).conn.expected_receiver_seq ≤ m.packet.seq →
        ∀ echo ∈ m.echo, echo.Timely (s.ends server).timestamp

instance (s : Exchange) : ∀ a, Decidable (s.Fits a)
  | .freeze_timestamp server timestamp =>
    inferInstanceAs (Decidable ((s.ends server).timestamp ≤ timestamp))
  | .send .. => .isTrue trivial
  | .recv server index => inferInstanceAs (Decidable (index < (s.sent !server).length ∧
      ∀ m ∈ (s.sent !server)[index]?, (s.ends server).conn.expected_receiver_seq ≤ m.packet.seq →
        ∀ echo ∈ m.echo, echo.Timely (s.ends server).timestamp))

structure Inv (s : Exchange) : Prop where
  ends : ∀ server, (s.ends server).Inv server (s.sent server) (s.sent !server)
  sent : ∀ server, ∀ m ∈ s.sent server, m.Inv server (s.sent !server)

variable {s t : Exchange} {server : Bool}

theorem inv_start : start.Inv where
  ends _ := ⟨rfl, le_rfl, UInt64.zero_le, fun _ => rfl, nofun, rfl, nofun⟩
  sent := nofun

/-- A step of the end `server`, in which it may send. -/
theorem Inv.update (h : s.Inv) {e : Endpoint} (ms : List Transmission)
    (he : e.Inv server (s.sent server) (s.sent !server))
    (hms : ∀ m ∈ ms, m.Inv server (s.sent !server)) :
    Inv { s.update server e with
      sent := Function.update s.sent server (s.sent server ++ ms) } := by
  have hcases : ∀ e : Bool, e = server ∨ e = !server := fun e => by
    cases e <;> cases server <;> simp
  have hself : Function.update s.sent server (s.sent server ++ ms) server = s.sent server ++ ms :=
    Function.update_self ..
  have hother : Function.update s.sent server (s.sent server ++ ms) (!server) = s.sent !server :=
    Function.update_of_ne (Bool.not_ne_self server) ..
  have hother' : Function.update s.ends server e (!server) = s.ends !server :=
    Function.update_of_ne (Bool.not_ne_self server) ..
  have hsub : s.sent server ⊆ s.sent server ++ ms := List.subset_append_left _ _
  refine ⟨fun x => ?_, fun x m hm => ?_⟩ <;> rcases hcases x with rfl | rfl
  · simp only [Exchange.update, Function.update_self, hother]
    exact he.mono hsub (List.Subset.refl _)
  · have hend := h.ends !server
    rw [Bool.not_not] at hend
    simp only [Exchange.update, hother, hother', Bool.not_not, hself]
    exact hend.mono (List.Subset.refl _) hsub
  · simp only [hself, hother] at hm ⊢
    rcases List.mem_append.mp hm with hm | hm
    · exact h.sent x m hm
    · exact hms m hm
  · simp only [hother, Bool.not_not, hself] at hm ⊢
    have hinv := h.sent (!server) m hm
    rw [Bool.not_not] at hinv
    exact hinv.mono hsub

/-- A step in which nothing is sent. -/
theorem Inv.update_end (h : s.Inv) {e : Endpoint}
    (he : e.Inv server (s.sent server) (s.sent !server)) : (s.update server e).Inv := by
  have hinv := h.update [] he nofun
  rw [List.append_nil, Function.update_eq_self] at hinv
  exact hinv

theorem Inv.step (h : s.Inv) {a : Action} (ha : s.Fits a) : ∃ t, s.step a = some t ∧ t.Inv := by
  cases a with
  | freeze_timestamp server timestamp =>
    have hend := h.ends server
    have hle := UInt64.le_iff_toNat_le.mp ha
    refine ⟨_, rfl, h.update_end { hend with
      early := hend.early.trans hle
      received_at := UInt64.le_trans hend.received_at ha }⟩
  | send server s_payload time_to_next =>
    obtain ⟨m, e, hsend, hm, he⟩ := (h.ends server).send s_payload time_to_next
    rw [Exchange.step, hsend, Option.map_some]
    exact ⟨_, rfl, h.update _ he (List.forall_mem_singleton.mpr hm)⟩
  | recv server index =>
    obtain ⟨hlt, htimely⟩ := ha
    have hindex : (s.sent !server)[index]? = some (s.sent !server)[index] :=
      List.getElem?_eq_getElem hlt
    generalize (s.sent !server)[index] = m at hindex
    have hmem := List.mem_of_getElem? hindex
    have hm := h.sent (!server) m hmem
    rw [Bool.not_not] at hm
    obtain ⟨e, hrecv, he⟩ := (h.ends server).recv hm hmem (htimely m hindex)
    rw [Exchange.step, hindex, Option.bind_some, hrecv, Option.map_some]
    exact ⟨_, rfl, h.update_end he⟩

/-- Each sample is the time since a packet left that the end `server` did send, less the time for
which the other end held its timestamp, up to a millisecond; the estimate lies between the shortest
and the longest of these times, and the timeout is not before the estimate, or `MAX_RTO`. -/
structure Measured (s : Exchange) (server : Bool) : Prop where
  samples : ∀ x ∈ (s.ends server).samples, ∃ e, x.echo = some e ∧ e.Genuine (s.sent server) ∧
    (x.R < 50000 → |(x.R.toNat : Int) - e.trip x.taken_at| ≤ 1)
  rtt : ∀ lo hi : Int, (∀ x ∈ (s.ends server).samples, x.R < 50000 → ∀ e ∈ x.echo,
      lo ≤ e.trip x.taken_at ∧ e.trip x.taken_at ≤ hi) →
    (s.ends server).rtt.Within (lo - 1) (hi + 1)
  timeout : min (s.ends server).rtt.SRTT RoundTrip.MAX_RTO ≤ (s.ends server).rtt.timeout

theorem Inv.measured (h : s.Inv) (server : Bool) : s.Measured server := by
  have hend := h.ends server
  refine ⟨fun x hx => ?_, fun lo hi htrips => ?_, ?_⟩
  · obtain ⟨e, hecho, hgenuine, htimely, hR⟩ := (hend.samples x hx).echo
    exact ⟨e, hecho, hgenuine, htimely.close hR⟩
  · have hnew : RoundTrip.new.Within (lo - 1) (hi + 1) :=
      ⟨fun hhit => absurd hhit Bool.false_ne_true, (by decide : (0 : ℚ) ≤ 500)⟩
    rw [hend.rtt]
    refine hnew.foldl fun R hR hlt => ?_
    obtain ⟨x, hx, rfl⟩ := List.mem_map.mp hR
    obtain ⟨e, hecho, -, htimely, hR⟩ := (hend.samples x hx).echo
    obtain ⟨hlo, hhi⟩ := htrips x hx hlt e hecho
    have hclose := abs_le.mp (htimely.close hR hlt)
    have hlo' : lo - 1 ≤ (x.R.toNat : Int) := by omega
    have hhi' : (x.R.toNat : Int) ≤ hi + 1 := by omega
    exact ⟨by exact_mod_cast hlo', by exact_mod_cast hhi'⟩
  · have hnew : RoundTrip.new.Within 0 65535 :=
      ⟨fun hhit => absurd hhit Bool.false_ne_true, (by decide : (0 : ℚ) ≤ 500)⟩
    refine RoundTrip.le_timeout ?_
    rw [hend.rtt]
    refine (hnew.foldl fun R _ _ => ⟨Nat.cast_nonneg _, ?_⟩).RTTVAR
    exact_mod_cast Nat.le_of_lt_succ R.toNat_lt

end Exchange

end ALCC.Sprout
