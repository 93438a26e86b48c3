import ALCC.Verify.VerusSession

/-! Slow start in `libalcc_verus.cpp`. The first window and the first permit are one packet, and an
acknowledged packet brings two permits: the one it gives back, and the one of the larger window. So
permits and packets in flight together are the window, and at most two packets are sent for each one
acknowledged (`slowStart_of_run`). -/

namespace ALCC.Verus

open Binary64 Machine MachineInt

namespace Window

variable {ctl : Window} {receivedtime sendTime : Timeval} {w : Option Int} {seq wCrt tempS : Int}

/-- If slow start goes on after an acknowledged packet, neither limit is exceeded, and the window
grows. -/
theorem received_of_slowStart
    (h : (ctl.received receivedtime (some sendTime) w seq wCrt tempS).1.slowStart = true) :
    ctl.slowStart = true ∧ seq ≤ 5000 ∧ ∃ updated : Window,
      updated.slowStart = true ∧ updated.wBar = ctl.wBar ∧
        ctl.received receivedtime (some sendTime) w seq wCrt tempS =
          updated.growSlowStart wCrt tempS := by
  by_cases hexit : ctl.slowStart ∧
      (SS_EXIT_THRESHOLD < delay receivedtime sendTime ∨ 5000 < seq)
  · simp only [received, exitSlowStart, if_pos hexit, updateUponReceivingPacket, growSlowStart] at h
    cases h
  · have hreceived : ctl.received receivedtime (some sendTime) w seq wCrt tempS =
        (ctl.updateUponReceivingPacket (delay receivedtime sendTime) (w.getD 0)).growSlowStart
          wCrt tempS := by
      simp only [received, exitSlowStart, if_neg hexit]
    have hslow : ctl.slowStart = true := by
      by_contra hslow
      rw [hreceived, growSlowStart, updateUponReceivingPacket, if_neg hslow] at h
      exact hslow h
    have hseq : ¬ 5000 < seq := fun hseq => hexit ⟨hslow, .inr hseq⟩
    refine ⟨hslow, not_lt.mp hseq, _, ?_, ?_, hreceived⟩
    · exact hslow
    · rfl

/-- The window grows by one packet, and the permits fill it up. -/
theorem growSlowStart_eq {n d : Int} (hslow : ctl.slowStart = true) (hwBar : ctl.wBar = n)
    (hd : n + 1 - wCrt - tempS = d) (hnonneg : 0 ≤ d) (hn : |n| < 2 ^ 50) (hwCrt : |wCrt| < 2 ^ 50)
    (htempS : |tempS| < 2 ^ 50) :
    ctl.growSlowStart wCrt tempS = ({ ctl with wBar := (n + 1 : Int) }, tempS + d) := by
  rw [abs_lt] at hn hwCrt htempS
  have hgrown : double (ctl.wBar + 1) = (n + 1 : Int) := by
    rw [hwBar, ← Int.cast_one, ← Int.cast_add, double_intCast (by rw [abs_lt]; omega)]
  have hopen : double (((n + 1 : Int) : ℚ) - double wCrt) = (n + 1 - wCrt : Int) := by
    rw [double_intCast (show |wCrt| < 2 ^ 53 by rw [abs_lt]; omega), ← Int.cast_sub,
      double_intCast (by rw [abs_lt]; omega)]
  have hrefill : double (((n + 1 - wCrt : Int) : ℚ) - double tempS) = d := by
    rw [double_intCast (show |tempS| < 2 ^ 53 by rw [abs_lt]; omega), ← Int.cast_sub, hd,
      double_intCast (by rw [abs_lt]; omega)]
  have hmax : max 0 (d : ℚ) = d := max_eq_right (by exact_mod_cast hnonneg)
  have htrunc : trunc (d : ℚ) = d := by
    rw [trunc, if_pos (by exact_mod_cast hnonneg), Int.floor_intCast]
  simp only [growSlowStart, if_pos hslow, hgrown, hopen, hrefill, hmax, htrunc]

end Window

/-- A credit of a listed packet. -/
theorem ALCCSocket.creditPacket_of_mem {γ τ : Type*} (C : Controller γ τ) {s : ALCCSocket γ τ}
    (receivedtime : τ) (hmem : s.seq + 1 ∈ s.seqNumbersList) {wCrt : Int}
    (hwCrt : wCrt = if 0 < s.wCrt then s.wCrt - 1 else s.wCrt) :
    (s.creditPacket C receivedtime).wCrt = wCrt ∧
      ((s.creditPacket C receivedtime).ctl, (s.creditPacket C receivedtime).tempS) =
        C.received s.ctl receivedtime (s.seqNumbersList.lookup (s.seq + 1))
          (s.sendingList.lookup (toI32 (s.seq + 1))) (s.seq + 1) wCrt s.tempS := by
  have hsome : ∃ k ∈ s.seqNumbersList.keys, k ≤ s.seq + 1 :=
    ⟨_, Finmap.mem_keys.mpr hmem, Int.le_refl _⟩
  simp only [ALCCSocket.creditPacket, if_pos hsome, ← hwCrt, and_self]

/-- Besides the loop, a message has an effect on `startingSeq` only. -/
theorem ALCCSocket.receive_eq {γ τ : Type*} (s : ALCCSocket γ τ) (m : Message) :
    ∃ startingSeq, (s.receive m).1 = { s with startingSeq } := by
  simp only [ALCCSocket.receive]
  split_ifs <;> exact ⟨_, rfl⟩

namespace Session

/-- The permits and the window in slow start. `seq` is the number of packets credited. -/
structure SlowStart (s : Session Window Timeval) : Prop where
  permits : ((s.threads.sock.tempS + s.threads.sock.wCrt : Int) : ℚ) = s.threads.sock.ctl.wBar
  wBar : s.threads.sock.ctl.wBar = ((1 + s.threads.sock.seq : Int) : ℚ)
  pktSeq : s.threads.sock.pktSeq ≤ 2 * s.threads.sock.seq + 1

/-- A step of the slow-start phase, in which only `ALCCSend` and `ALCCReceive` act: a credited
packet has its entry in `seqNumbersList`. -/
def InSlowStart (s : Session Window Timeval) : Action Window Timeval → Prop
  | .restart _ | .control .. => False
  | .receiver .. => 0 < s.threads.receiver.pending →
      s.threads.sock.seq + 1 ∈ s.threads.sock.seqNumbersList
  | _ => True

instance (s : Session Window Timeval) (a : Action Window Timeval) :
    Decidable (s.InSlowStart a) := by
  unfold InSlowStart
  split <;> infer_instance

/-- The accounts of slow start. -/
structure GrowthInv (s : Session Window Timeval) : Prop where
  permits : s.threads.sock.tempS + s.threads.sock.wCrt = 1 + s.threads.sock.seq
  wBar : s.threads.sock.ctl.wBar = ((1 + s.threads.sock.seq : Int) : ℚ)
  wCrt : s.threads.sock.wCrt = s.threads.sock.pktSeq - s.threads.sock.seq
  tempS : 0 ≤ s.threads.sock.tempS
  /-- The sender thread does not use up more permits than there are. -/
  left : ∀ pktTime left, s.sender = some (pktTime, left) → left ≤ s.threads.sock.tempS
  seq : 0 ≤ s.threads.sock.seq ∧ s.threads.sock.seq ≤ 5000
  listed : ∀ k ∈ s.threads.sock.seqNumbersList, k ≤ s.threads.sock.pktSeq
  inFlight : 0 ≤ s.threads.sock.wCrt

namespace GrowthInv

variable {s t : Session Window Timeval} {a : Action Window Timeval} {first : Nat}

theorem slowStart (h : GrowthInv s) : SlowStart s := by
  refine ⟨?_, h.wBar, ?_⟩
  · rw [h.permits, h.wBar]
  · have hpermits := h.permits
    have hwCrt := h.wCrt
    have htempS := h.tempS
    omega

/-- The phase begins with the constructor, or with `restartSlowStart`. -/
theorem new {ctl : Window} (hsock : s.threads.sock = .new ctl) (hsender : s.sender = none)
    (hwBar : ctl.wBar = 1) : GrowthInv s := by
  refine ⟨?_, ?_, ?_, ?_, ?_, ?_, ?_, ?_⟩
  · rw [hsock]
    rfl
  · rw [hsock]
    exact hwBar
  · rw [hsock]
    rfl
  · rw [hsock]
    exact Int.one_nonneg
  · rw [hsender]
    rintro _ _ ⟨⟩
  · rw [hsock]
    exact ⟨Int.le_refl 0, show (0 : Int) ≤ 5000 by decide⟩
  · rw [hsock]
    rintro k ⟨⟩
  · rw [hsock]
    exact Int.le_refl 0

theorem send {pktTime : Timeval} {left size : Nat} (h : GrowthInv s)
    (hsender : s.sender = some (pktTime, left + 1)) :
    GrowthInv { s with
      threads := s.threads.update (·.sendPacket controller pktTime)
      sender := some (pktTime, left)
      handed := s.handed + size
      packetEnd := Function.update s.packetEnd (s.threads.sock.pktSeq + 1) (s.handed + size) } := by
  have hpermits := h.permits
  have hwCrt := h.wCrt
  have hleft := h.left pktTime (left + 1) hsender
  have hinFlight := h.inFlight
  refine ⟨?_, h.wBar, ?_, ?_, ?_, h.seq, ?_, ?_⟩
  · simp only [Threads.update, ALCCSocket.sendPacket]
    omega
  · simp only [Threads.update, ALCCSocket.sendPacket]
    omega
  · simp only [Threads.update, ALCCSocket.sendPacket]
    omega
  · rintro _ _ ⟨⟩
    simp only [Threads.update, ALCCSocket.sendPacket]
    omega
  · intro k hk
    simp only [Threads.update, ALCCSocket.sendPacket] at hk ⊢
    rcases Finmap.mem_insert.mp hk with rfl | hk
    · exact Int.le_refl _
    · exact Int.le_add_one (h.listed k hk)
  · simp only [Threads.update, ALCCSocket.sendPacket]
    omega

/-- A listed packet is credited, and slow start goes on: the packet leaves, and two permits come. -/
theorem credit {receivedtime : Timeval} {receiver : ReceiverPc Timeval}
    (h : s.threads.sock.ctl.slowStart = true → GrowthInv s)
    (hmem : s.threads.sock.seq + 1 ∈ s.threads.sock.seqNumbersList)
    (hslow : (s.threads.sock.creditPacket controller receivedtime).ctl.slowStart = true) :
    GrowthInv { s with
      threads := ⟨s.threads.sock.creditPacket controller receivedtime, receiver⟩ } := by
  obtain ⟨hwCrt', hreceived⟩ :=
    ALCCSocket.creditPacket_of_mem controller receivedtime hmem rfl
  obtain ⟨sendTime, hsendTime⟩ := Finmap.mem_iff.mp hmem
  rw [hsendTime, show controller.received = Window.received from rfl] at hreceived
  obtain ⟨hslow', hlt, updated, hupdated, hwBar, hgrow⟩ :=
    Window.received_of_slowStart (by rw [← hreceived]; exact hslow)
  have h := h hslow'
  have hpermits := h.permits
  have hwCrt := h.wCrt
  have htempS := h.tempS
  obtain ⟨hseq, hle⟩ := h.seq
  have hlisted := h.listed _ hmem
  rw [if_pos (by omega)] at hwCrt' hgrow
  rw [if_pos (by omega), hgrow, Window.growSlowStart_eq (n := 1 + s.threads.sock.seq) (d := 2)
    hupdated (hwBar.trans h.wBar) (by omega) (by decide) (by rw [abs_lt]; omega)
    (by rw [abs_lt]; omega) (by rw [abs_lt]; omega)] at hreceived
  obtain ⟨hctl, htempS'⟩ := Prod.mk.inj hreceived
  refine ⟨?_, ?_, ?_, ?_, ?_, ?_, ?_, ?_⟩
  · simp only [hwCrt', htempS', ALCCSocket.creditPacket_seq]
    omega
  · simp only [hctl, ALCCSocket.creditPacket_seq]
    rw [Int.add_assoc]
  · simp only [hwCrt', ALCCSocket.creditPacket_seq, ALCCSocket.creditPacket_pktSeq]
    omega
  · simp only [htempS']
    omega
  · intro pktTime left hsender
    have hleft := h.left pktTime left hsender
    simp only [htempS']
    omega
  · simp only [ALCCSocket.creditPacket_seq]
    omega
  · intro k hk
    simp only [ALCCSocket.creditPacket_pktSeq]
    exact h.listed k (ALCCSocket.mem_creditPacket.mp hk).2
  · simp only [hwCrt']
    omega

/-- A message does not touch the accounts. -/
theorem receive {m : Message} {receiver : ReceiverPc Timeval} {start acked : Nat}
    (h : s.threads.sock.ctl.slowStart = true → GrowthInv s)
    (hslow : (s.threads.sock.receive m).1.ctl.slowStart = true) :
    GrowthInv { s with threads := ⟨(s.threads.sock.receive m).1, receiver⟩, start, acked } := by
  obtain ⟨startingSeq, heq⟩ := ALCCSocket.receive_eq s.threads.sock m
  rw [heq] at hslow ⊢
  have h := h hslow
  exact ⟨h.permits, h.wBar, h.wCrt, h.tempS, h.left, h.seq, h.listed, h.inFlight⟩

/-- A step of the phase after which slow start goes on. -/
theorem step (h : s.threads.sock.ctl.slowStart = true → GrowthInv s) (hG : s.InSlowStart a)
    (hs : s.step controller first a = some t) (hslow : t.threads.sock.ctl.slowStart = true) :
    GrowthInv t := by
  cases a with
  | turn now =>
    obtain ⟨⟨-, hpos⟩, hs⟩ := Option.ite_none_right_eq_some.mp hs
    rw [← Option.some.inj hs] at hslow ⊢
    have h := h hslow
    refine ⟨h.permits, h.wBar, h.wCrt, h.tempS, ?_, h.seq, h.listed, h.inFlight⟩
    rintro _ _ ⟨⟩
    have hpermits := h.permits
    have hinFlight := h.inFlight
    have hseq := h.seq.2
    simp only [toI32]
    omega
  | send size =>
    simp only [Session.step] at hs
    split at hs
    · rename_i hsender
      obtain ⟨-, hs⟩ := Option.ite_none_right_eq_some.mp hs
      rw [← Option.some.inj hs] at hslow ⊢
      exact (h hslow).send hsender
    · cases hs
  | leave =>
    obtain ⟨-, hs⟩ := Option.ite_none_right_eq_some.mp hs
    rw [← Option.some.inj hs] at hslow ⊢
    have h := h hslow
    refine ⟨h.permits, h.wBar, h.wCrt, h.tempS, ?_, h.seq, h.listed, h.inFlight⟩
    rintro _ _ ⟨⟩
  | receiver now terminateThreads =>
    obtain ⟨threads, hthreads, rfl⟩ := Option.map_eq_some_iff.mp hs
    rcases Threads.receiverStep_none hthreads with ⟨hsock, -, -⟩ |
      ⟨receivedtime, left, hreceiver, rfl⟩
    · obtain ⟨sock, receiver⟩ := threads
      obtain rfl : sock = s.threads.sock := hsock
      have h := h hslow
      exact ⟨h.permits, h.wBar, h.wCrt, h.tempS, h.left, h.seq, h.listed, h.inFlight⟩
    · exact credit h (hG (by rw [hreceiver]; exact Nat.succ_pos left)) hslow
  | segment m position now =>
    obtain ⟨⟨hwaits, -⟩, hs⟩ := Option.ite_none_right_eq_some.mp hs
    obtain ⟨threads, hthreads, rfl⟩ := Option.map_eq_some_iff.mp hs
    rw [Threads.receiverStep_some hwaits.recvmsg hthreads] at hslow ⊢
    exact receive h hslow
  | ack a =>
    obtain ⟨⟨hwaits, -⟩, hs⟩ := Option.ite_none_right_eq_some.mp hs
    obtain ⟨threads, hthreads, rfl⟩ := Option.map_eq_some_iff.mp hs
    rw [Threads.receiverStep_some hwaits.recvmsg hthreads] at hslow ⊢
    exact receive h hslow
  | restart ctl | control ctl tempS => exact hG.elim

end GrowthInv

end Session

end ALCC.Verus
