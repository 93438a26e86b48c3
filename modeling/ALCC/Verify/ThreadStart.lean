import ALCC.Verify.CopaAcks
import ALCC.Verify.LibalccAcks

/-! The congestion control thread is started when `tcpSeq` is 0, and starting it again would end the
process. In `libalcc_copa.cpp` no message brings `tcpSeq` back to 0. In `libalcc.cpp` one does: a
new acknowledgement of the number 0, to which the sequence numbers wrap around. -/

namespace ALCC

open Machine MachineInt

namespace Libalcc

variable {τ : Type*} {s : ALCCSocket τ} {m : Message}

/-- A message reaches `ack_receiver`. -/
def messageStep (s : ALCCSocket τ) (m : Message) : Option (ALCCSocket τ) := s.ackReceiver m

/-- The thread runs, and `tcpSeq` is a sequence number other than 0. -/
structure Started (s : ALCCSocket τ) : Prop where
  thread : s.cc_loigc_thread = true
  pos : 0 < s.tcpSeq
  lt : s.tcpSeq < 2 ^ 32

theorem Started.settle (h : Started s) : Started s.settle := ⟨h.thread, h.pos, h.lt⟩

/-- An acknowledgement of the number 0 is not new. -/
def NotToZero (s : ALCCSocket τ) (m : Message) : Prop :=
  m.src_port ≠ CC_PORT ∧ m.ack_seq = 0 → s.tcpSeq ≤ 2 ^ 31

instance (s : ALCCSocket τ) : DecidablePred (NotToZero s) := fun m =>
  inferInstanceAs (Decidable (m.src_port ≠ CC_PORT ∧ m.ack_seq = 0 → s.tcpSeq ≤ 2 ^ 31))

theorem ne_zero_of_fresh (hzero : NotToZero s m) (hm : m.src_port ≠ CC_PORT)
    (hfresh : s.Fresh m.ack_seq.toNat) : 0 < m.ack_seq.toNat := by
  refine Nat.pos_of_ne_zero fun hack => ?_
  have hle := hzero ⟨hm, UInt32.toNat.inj hack⟩
  obtain ⟨hpos, hfresh⟩ := hfresh
  rw [hack, toU64, toI64] at hfresh
  omega

theorem Started.messageStep (h : Started s) (hzero : NotToZero s m) :
    ∃ t, messageStep s m = some t ∧ Started t := by
  by_cases hm : m.src_port = CC_PORT
  · have hreceive : s.receive m = some (s, false) := by
      rw [ALCCSocket.receive, if_neg (fun hstart => h.pos.ne' hstart.1), if_pos hm]
    exact ⟨s, by rw [Libalcc.messageStep, ALCCSocket.ackReceiver, hreceive]; rfl, h⟩
  · by_cases hfresh : s.Fresh m.ack_seq.toNat
    · refine ⟨_, ALCCSocket.ackReceiver_fresh hm hfresh, ?_⟩
      have hcredit : Started (s.credit m.ack_seq.toNat) := by
        refine ⟨(ALCCSocket.credit_cc_loigc_thread _).trans h.thread, ?_, ?_⟩
        · rw [ALCCSocket.credit_tcpSeq]
          exact ne_zero_of_fresh hzero hm hfresh
        · rw [ALCCSocket.credit_tcpSeq]
          exact m.ack_seq.toNat_lt
      split
      · exact hcredit.settle
      · exact hcredit
    · exact ⟨s, ALCCSocket.ackReceiver_stale hm hfresh, h⟩

/-- The first message is the header of a segment from this side. -/
theorem Started.first (port : UInt16) (cwnd : Nat) (hm : m.src_port = CC_PORT)
    (hseq : m.rcv_seq ≠ 0) :
    ∃ t, Libalcc.messageStep (.new port cwnd : ALCCSocket τ) m = some t ∧ Started t := by
  have hfirst : Libalcc.messageStep (.new port cwnd : ALCCSocket τ) m = some
      { ALCCSocket.new port cwnd with tcpSeq := m.rcv_seq.toNat, cc_loigc_thread := true } := by
    rw [Libalcc.messageStep, ALCCSocket.ackReceiver, ALCCSocket.receive, if_pos ⟨rfl, hm⟩]
    rfl
  refine ⟨_, hfirst, ⟨rfl, ?_, ?_⟩⟩
  · exact Nat.pos_of_ne_zero fun hzero => hseq (UInt32.toNat.inj hzero)
  · exact m.rcv_seq.toNat_lt

end Libalcc

namespace Copa

variable {γ τ : Type*} {C : Controller γ τ} {s : ALCCSocket γ τ} {now : Nat → τ} {m : Message}

/-- A message reaches `ack_receiver`, and round `i` of the loop reads the clock as `now i`. -/
def messageStep (C : Controller γ τ) (s : ALCCSocket γ τ) (a : (Nat → τ) × Message) :
    Option (ALCCSocket γ τ) := s.ackReceiver C a.1 a.2

/-- The thread runs, and `tcpSeq` is a sequence number, where `2 ^ 32` stands for 0. -/
structure Started (s : ALCCSocket γ τ) : Prop where
  thread : s.cc_loigc_thread = true
  pos : 0 < s.tcpSeq
  le : s.tcpSeq ≤ 2 ^ 32

theorem Started.finish (h : Started s) : Started (s.finish C) := ⟨h.thread, h.pos, h.le⟩

theorem Started.creditPacket (h : Started s) (receivedtime : τ) :
    Started (s.creditPacket C receivedtime) := by
  obtain ⟨hthread, hpos, hle⟩ := h
  have hnext : 0 < s.nextTcpSeq ∧ s.nextTcpSeq ≤ 2 ^ 32 := by
    rw [ALCCSocket.nextTcpSeq, MTU]
    split <;> omega
  refine ⟨?_, ?_, ?_⟩
  · simp only [ALCCSocket.creditPacket]
    split <;> exact hthread
  · rw [ALCCSocket.creditPacket_tcpSeq]
    exact hnext.1
  · rw [ALCCSocket.creditPacket_tcpSeq]
    exact hnext.2

theorem Started.creditPackets (h : Started s) (now : Nat → τ) (rounds : Nat) :
    Started (s.creditPackets C now rounds) := by
  rw [ALCCSocket.creditPackets]
  induction rounds with
  | zero => exact h
  | succ rounds ih =>
    rw [List.range_succ, List.foldl_append]
    exact ih.creditPacket (now rounds)

theorem Started.messageStep (h : Started s) (a : (Nat → τ) × Message) :
    ∃ t, messageStep C s a = some t ∧ Started t := by
  obtain ⟨now, m⟩ := a
  by_cases hm : m.src_port = CC_PORT
  · have hreceive : s.receive m = some (s, none) := by
      rw [ALCCSocket.receive, if_neg (fun hstart => h.pos.ne' hstart.1), if_pos hm]
    exact ⟨s, by rw [Copa.messageStep, ALCCSocket.ackReceiver, hreceive]; rfl, h⟩
  · by_cases hfresh : s.Fresh m.ack_seq.toNat
    · refine ⟨_, ALCCSocket.ackReceiver_fresh now hm hfresh, ?_⟩
      exact (h.creditPackets now (s.numAcks m.ack_seq.toNat).toNat).finish
    · exact ⟨s, ALCCSocket.ackReceiver_stale now hm hfresh, h⟩

theorem Started.first (C : Controller γ τ) (ctl : γ) (now : Nat → τ) (hm : m.src_port = CC_PORT)
    (hseq : m.rcv_seq ≠ 0) : ∃ t, Copa.messageStep C (.new ctl) (now, m) = some t ∧ Started t := by
  have hfirst : Copa.messageStep C (.new ctl) (now, m) = some
      { ALCCSocket.new ctl with tcpSeq := m.rcv_seq.toNat, cc_loigc_thread := true } := by
    rw [Copa.messageStep, ALCCSocket.ackReceiver, ALCCSocket.receive, if_pos ⟨rfl, hm⟩]
    rfl
  refine ⟨_, hfirst, ⟨rfl, ?_, ?_⟩⟩
  · exact Nat.pos_of_ne_zero fun hzero => hseq (UInt32.toNat.inj hzero)
  · exact m.rcv_seq.toNat_lt.le

end Copa

/-- **The congestion control thread is started once.** In every run of messages that starts with a
segment from this side whose number is not 0, neither library starts the thread again, in
`libalcc.cpp` as long as no acknowledgement of the number 0 is new. -/
theorem started_once {τ γ : Type*} (C : Copa.Controller γ τ) (port : UInt16) (cwnd : Nat) (ctl : γ)
    (m : Message) (now : Nat → τ) (hm : m.src_port = CC_PORT) (hseq : m.rcv_seq ≠ 0) :
    (∀ messages, Guarded Libalcc.messageStep Libalcc.NotToZero
        (.new port cwnd : Libalcc.ALCCSocket τ) (m :: messages) →
      ∃ t, run Libalcc.messageStep (.new port cwnd : Libalcc.ALCCSocket τ) (m :: messages) =
        some t ∧ t.cc_loigc_thread = true) ∧
    ∀ messages, ∃ t, run (Copa.messageStep C) (.new ctl) ((now, m) :: messages) = some t ∧
      t.cc_loigc_thread = true := by
  refine ⟨fun messages h => ?_, fun messages => ?_⟩
  · obtain ⟨s, hs, hstarted⟩ := Libalcc.Started.first (τ := τ) port cwnd hm hseq
    rw [run_cons_of_step hs]
    obtain ⟨t, ht, hlast⟩ := Guarded.total (fun _ _ hs hzero => hs.messageStep hzero) hstarted
      (h.2 s hs)
    exact ⟨t, ht, hlast.thread⟩
  · obtain ⟨s, hs, hstarted⟩ := Copa.Started.first C ctl now hm hseq
    rw [run_cons_of_step hs]
    obtain ⟨t, ht, hlast⟩ := run_total (fun s a hs => hs.messageStep a) hstarted messages
    exact ⟨t, ht, hlast.thread⟩

theorem started_once_segment :
    (∃ t, run Libalcc.messageStep (.new 5001 20 : Libalcc.ALCCSocket Unit)
      [⟨CC_PORT, 5001, 1, 0⟩, ⟨5001, CC_PORT, 0, 1449⟩] = some t ∧ t.cc_loigc_thread = true) ∧
    ∃ t, run (Copa.messageStep default) (.new ())
      [(fun _ => (), ⟨CC_PORT, 5001, 1, 0⟩), (fun _ => (), ⟨5001, CC_PORT, 0, 0⟩)] = some t ∧
      t.cc_loigc_thread = true := by
  have h := started_once default 5001 20 () ⟨CC_PORT, 5001, 1, 0⟩ (fun _ => ()) rfl (by decide)
  exact ⟨h.1 _ (by decide +kernel), h.2 _⟩

/-- The stream wraps around to the number 0, and the next segment from this side ends the
process. -/
theorem started_twice : run Libalcc.messageStep (.new 5001 20 : Libalcc.ALCCSocket Unit)
    [⟨CC_PORT, 5001, 4294965848, 0⟩, ⟨5001, CC_PORT, 0, 0⟩, ⟨CC_PORT, 5001, 0, 0⟩] = none := by
  decide +kernel

end ALCC
