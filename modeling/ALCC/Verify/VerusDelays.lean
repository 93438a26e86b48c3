import ALCC.Verify.VerusSession

/-! The delay samples of `libalcc_verus.cpp`. `ALCCReceive` numbers packets by counting acknowledged
bytes in units of `MTU` from `startingSeq` on, and looks up the send time of the packet with this
number. Packets are at most `MTU` bytes long, so packet `k` of a session ends before the `k`-th such
unit, provided that `startingSeq` is not before the session (`DelayInv`). After a restart it may be:
then the sample is the age of a packet that nobody has acknowledged. -/

namespace ALCC.Verus

open Binary64 Machine MachineInt

variable {γ τ : Type*} {C : Controller γ τ} {first : Nat}

/-- A message does not credit more bytes than it acknowledges beyond the position `whole`, provided
that it is not too far behind. -/
theorem rounds_le {s : ALCCSocket γ τ} (whole wraps : Nat) {bytes : Nat}
    (hseq : s.startingSeq + 2 ^ 32 * wraps = (first + whole : Nat))
    (hbound : s.startingSeq < 2 ^ 33) (hlag : (whole : Int) ≤ bytes + min (2 ^ 31) s.startingSeq)
    {rounds : Nat} (hrounds : rounds = if s.Fresh ((first + bytes) % 2 ^ 32) then
      (s.numAcks ((first + bytes) % 2 ^ 32)).toNat else 0) :
    (0 < rounds → whole + MTU * rounds ≤ bytes) ∧ s.startingSeq + MTU * rounds < 2 ^ 33 := by
  have hstream := Nat.div_add_mod (first + bytes) (2 ^ 32)
  have hlt := Nat.mod_lt (first + bytes) (Nat.two_pow_pos 32)
  generalize (first + bytes) % 2 ^ 32 = ack_seq at hrounds hstream hlt
  generalize (first + bytes) / 2 ^ 32 = passed at hstream
  have hnone : rounds = 0 →
      (0 < rounds → whole + MTU * rounds ≤ bytes) ∧ s.startingSeq + MTU * rounds < 2 ^ 33 := by
    rintro rfl
    exact ⟨fun h => absurd h (Nat.lt_irrefl 0), by simpa using hbound⟩
  have hsome : ∀ v : Nat, rounds = v / MTU → whole + v ≤ bytes → s.startingSeq + v < 2 ^ 33 →
      (0 < rounds → whole + MTU * rounds ≤ bytes) ∧ s.startingSeq + MTU * rounds < 2 ^ 33 := by
    intro v hv hbytes hseq
    have hmul := Nat.mul_div_le v MTU
    rw [hv, ← Nat.cast_mul]
    generalize MTU * (v / MTU) = credited at hmul
    exact ⟨fun _ => by omega, by omega⟩
  by_cases hfresh : s.Fresh ack_seq
  · rw [if_pos hfresh] at hrounds
    have hpos := hfresh.1
    by_cases hahead : s.startingSeq ≤ ack_seq
    · obtain ⟨v, hv⟩ := Int.eq_ofNat_of_zero_le (show 0 ≤ (ack_seq : Int) - s.startingSeq by omega)
      rw [ALCCSocket.numAcks_ahead (d := v) (by omega) (by omega), Int.toNat_natCast] at hrounds
      exact hsome v hrounds (by omega) (by omega)
    · have hbehind : (ack_seq : Int) + 2 ^ 31 < s.startingSeq := by
        have hdiff := hfresh.2.resolve_left hahead
        rw [toI64] at hdiff
        omega
      rw [ALCCSocket.numAcks_behind hbehind hbound] at hrounds
      by_cases hneg : (2 ^ 32 - s.startingSeq + ack_seq : Int) ≤ 0
      · have htrunc :
            trunc (double (((2 ^ 32 - s.startingSeq + ack_seq : Int) : ℚ) / MTU)) ≤ 0 := by
          apply trunc_double_nonpos
          apply div_nonpos_of_nonpos_of_nonneg _ (Nat.cast_nonneg _)
          exact_mod_cast hneg
        exact hnone (hrounds.trans (Int.toNat_of_nonpos htrunc))
      · obtain ⟨v, hv⟩ := Int.eq_ofNat_of_zero_le (not_le.mp hneg).le
        rw [hv, Int.cast_natCast, trunc_double_div (by decide) (by omega),
          Int.toNat_natCast] at hrounds
        exact hsome v hrounds (by omega) (by omega)
  · rw [if_neg hfresh] at hrounds
    exact hnone hrounds

namespace Session

variable {s t : Session γ τ} {a : Action γ τ}

/-- A packet that `ALCCReceive` looks up is in the list, and all its bytes are acknowledged. The
look-up takes place if the list holds a packet not after this one. -/
def Sampled (s : Session γ τ) (a : Action γ τ) : Prop :=
  s.Credits a →
    (∃ k ∈ s.threads.sock.seqNumbersList.keys, k ≤ s.threads.sock.seq + 1) →
    s.threads.sock.seq + 1 ∈ s.threads.sock.seqNumbersList ∧
      s.packetEnd (s.threads.sock.seq + 1) ≤ s.acked

instance (s : Session γ τ) (a : Action γ τ) : Decidable (s.Sampled a) :=
  inferInstanceAs (Decidable (_ → _ → _ ∧ _))

/-- A segment that `startingSeq` is taken from belongs to the session, an acknowledgement is at most
`2 ^ 31` bytes behind `startingSeq` and not before the last wrap-around, and no restart interrupts
the credits of a message. -/
def Timely (s : Session γ τ) : Action γ τ → Prop
  | .segment _ position _ => s.threads.sock.startingSeq = 0 → s.base ≤ position
  | .ack a => 0 < s.threads.sock.startingSeq →
      s.start + MTU * s.threads.sock.seq ≤ a.bytes + min (2 ^ 31) s.threads.sock.startingSeq
  | .restart _ => s.threads.receiver.pending = 0
  | _ => True

instance (s : Session γ τ) : DecidablePred s.Timely
  | .segment .. | .ack _ => inferInstanceAs (Decidable (_ → _))
  | .restart _ => inferInstanceAs (Decidable (_ = _))
  | .turn _ | .send _ | .leave | .receiver .. | .control .. => .isTrue trivial

/-- Packet `k` ends at most `k * MTU` bytes after the start of the session, and the credits that
`ALCCReceive` is to make are covered by the acknowledged bytes. -/
structure DelayInv (first : Nat) (s : Session γ τ) : Prop extends CountInv s.threads.sock where
  packetEnd : ∀ k, s.threads.sock.seq < k → k ≤ s.threads.sock.pktSeq →
    s.packetEnd k ≤ s.base + MTU * k
  handed : s.handed ≤ s.base + MTU * s.threads.sock.pktSeq
  acked : s.acked ≤ s.handed
  unstarted : s.threads.sock.startingSeq = 0 →
    s.threads.sock.seq = 0 ∧ s.threads.receiver.pending = 0
  started : s.threads.sock.startingSeq ≠ 0 → s.base ≤ s.start ∧ ∃ wraps : Nat,
    s.threads.sock.startingSeq + 2 ^ 32 * wraps = first + s.start + MTU * s.threads.sock.seq
  startingSeq : 0 ≤ s.threads.sock.startingSeq
  bound : s.threads.sock.startingSeq + MTU * s.threads.receiver.pending < 2 ^ 33
  pending : 0 < s.threads.receiver.pending →
    s.start + MTU * (s.threads.sock.seq + s.threads.receiver.pending) ≤ s.acked

namespace DelayInv

theorem init (ctl : γ) : DelayInv first (.init (.new ctl) : Session γ τ) where
  toCountInv := .new ctl
  packetEnd k hlt hle := absurd (show k ≤ 0 from hle) (Int.not_le.mpr hlt)
  handed := Int.le_refl 0
  acked := Nat.le_refl 0
  unstarted _ := ⟨rfl, rfl⟩
  started h := absurd rfl h
  startingSeq := Int.le_refl 0
  bound := show (0 : Int) + MTU * 0 < 2 ^ 33 by decide
  pending h := absurd h (Nat.lt_irrefl 0)

theorem startingSeq_ne_zero (h : DelayInv first s) (hpending : 0 < s.threads.receiver.pending) :
    s.threads.sock.startingSeq ≠ 0 := by
  intro hzero
  have := (h.unstarted hzero).2
  omega

/-- The credits to make are those of packets of the session. -/
theorem seq_add_pending_le (h : DelayInv first s) (hpending : 0 < s.threads.receiver.pending) :
    s.base ≤ s.start ∧
      s.threads.sock.seq + s.threads.receiver.pending ≤ s.threads.sock.pktSeq := by
  obtain ⟨hbase, -⟩ := h.started (h.startingSeq_ne_zero hpending)
  have hcovered := h.pending hpending
  have hacked := h.acked
  have hhanded := h.handed
  rw [MTU] at hcovered hhanded
  exact ⟨hbase, by omega⟩

theorem owned (h : DelayInv first s) (a : Action γ τ) : Owned s a := by
  intro hcredits
  have hpending : 0 < s.threads.receiver.pending := by
    cases a <;> first | exact hcredits | exact hcredits.elim
  have := (h.seq_add_pending_le hpending).2
  omega

theorem sampled (h : DelayInv first s) (a : Action γ τ) : Sampled s a := by
  intro hcredits _
  have howned := h.owned a hcredits
  have hpending : 0 < s.threads.receiver.pending := by
    cases a <;> first | exact hcredits | exact hcredits.elim
  obtain ⟨hbase, -⟩ := h.seq_add_pending_le hpending
  refine ⟨(h.listed _).mpr ⟨by omega, by omega⟩, ?_⟩
  have hcovered := h.pending hpending
  have hend := h.packetEnd (s.threads.sock.seq + 1) (by omega) (by omega)
  rw [MTU] at hcovered hend
  omega

theorem send {pktTime : τ} {left size : Nat} (h : DelayInv first s) (hsize : size ≤ MTU) :
    DelayInv first { s with
      threads := s.threads.update (·.sendPacket C pktTime)
      sender := some (pktTime, left)
      handed := s.handed + size
      packetEnd := Function.update s.packetEnd (s.threads.sock.pktSeq + 1) (s.handed + size) } where
  toCountInv := h.toCountInv.sendPacket pktTime
  packetEnd k hlt hle := by
    have hhanded := h.handed
    change k ≤ s.threads.sock.pktSeq + 1 at hle
    rw [MTU] at hsize hhanded ⊢
    simp only [Function.update_apply]
    split
    · omega
    · have hend := h.packetEnd k hlt (by omega)
      rwa [MTU] at hend
  handed := by
    have hhanded := h.handed
    change ((s.handed + size : Nat) : Int) ≤ s.base + MTU * (s.threads.sock.pktSeq + 1)
    rw [MTU] at hsize hhanded ⊢
    omega
  acked := Nat.le_add_right_of_le h.acked
  unstarted := h.unstarted
  started := h.started
  startingSeq := h.startingSeq
  bound := h.bound
  pending := h.pending

/-- A credit moves `startingSeq` over the packet that `seq` moves to. -/
theorem credit {receivedtime : τ} {left : Nat} (h : DelayInv first s)
    (hreceiver : s.threads.receiver = .crediting receivedtime (left + 1)) :
    DelayInv first { s with
      threads := ⟨s.threads.sock.creditPacket C receivedtime, .crediting receivedtime left⟩ } := by
  have hpending : s.threads.receiver.pending = left + 1 := by rw [hreceiver]; rfl
  have hle := (h.seq_add_pending_le (by omega)).2
  have hcovered := h.pending (by omega)
  have hbound := h.bound
  have hstart := h.startingSeq
  obtain ⟨hbase, wraps, hwraps⟩ := h.started (h.startingSeq_ne_zero (by omega))
  rw [hpending] at hcovered hbound
  rw [MTU] at hcovered hbound hwraps
  refine ⟨h.toCountInv.creditPacket (by omega) _, ?_, ?_, h.acked, ?_, ?_, ?_, ?_, ?_⟩
  · intro k hlt hk
    simp only [ALCCSocket.creditPacket_seq, ALCCSocket.creditPacket_pktSeq] at hlt hk
    exact h.packetEnd k (by omega) hk
  · simp only [ALCCSocket.creditPacket_pktSeq]
    exact h.handed
  · simp only [ALCCSocket.creditPacket_startingSeq, MTU]
    omega
  · simp only [ALCCSocket.creditPacket_startingSeq, ALCCSocket.creditPacket_seq, MTU]
    exact fun _ => ⟨hbase, wraps, by omega⟩
  · simp only [ALCCSocket.creditPacket_startingSeq, MTU]
    omega
  · simp only [ALCCSocket.creditPacket_startingSeq, ReceiverPc.pending, MTU]
    omega
  · simp only [ALCCSocket.creditPacket_seq, ReceiverPc.pending, MTU]
    omega

/-- A segment of the session is taken, and `startingSeq` may be set. -/
theorem segment {m : Message} {position : Nat} {now : τ} (h : DelayInv first s)
    (hwaits : s.threads.receiver = .recvmsg) (hm : m.src_port = CC_PORT)
    (hseq : m.rcv_seq.toNat = (first + position) % 2 ^ 32)
    (htimely : s.threads.sock.startingSeq = 0 → s.base ≤ position) :
    DelayInv first { s with
      threads := ⟨(s.threads.sock.receive m).1, .crediting now (s.threads.sock.receive m).2⟩
      start := if s.threads.sock.startingSeq = 0 then position else s.start } := by
  have hnone := h.pending
  have hbound := h.bound
  rw [hwaits] at hbound
  simp only [ALCCSocket.receive, hm, and_true, if_true]
  by_cases hzero : s.threads.sock.startingSeq = 0
  · have hcount := (h.unstarted hzero).1
    have hstream := Nat.div_add_mod (first + position) (2 ^ 32)
    have hlt := m.rcv_seq.toNat_lt
    simp only [if_pos hzero]
    refine ⟨⟨h.nonneg, h.le, h.wCrt, h.listed⟩, h.packetEnd, h.handed, h.acked,
      fun _ => ⟨hcount, rfl⟩, fun _ => ⟨htimely hzero, (first + position) / 2 ^ 32, ?_⟩,
      Int.natCast_nonneg _, ?_, fun hpos => absurd hpos (Nat.lt_irrefl 0)⟩
    · simp only [hcount]
      omega
    · simp only [ReceiverPc.pending]
      omega
  · simp only [if_neg hzero]
    exact ⟨h.toCountInv, h.packetEnd, h.handed, h.acked, fun h => absurd h hzero, h.started,
      h.startingSeq, hbound, fun hpos => absurd hpos (Nat.lt_irrefl 0)⟩

/-- An acknowledgement is taken, which covers all packets that are to be credited. -/
theorem ack {a : Ack τ} (h : DelayInv first s) (hwaits : s.threads.receiver = .recvmsg)
    (hport : a.msg.src_port ≠ CC_PORT) (hack : a.msg.ack_seq.toNat = (first + a.bytes) % 2 ^ 32)
    (hhanded : a.bytes ≤ s.handed) (htimely : s.Timely (.ack a)) :
    DelayInv first { s with
      threads := ⟨(s.threads.sock.receive a.msg).1,
        .crediting a.clock (s.threads.sock.receive a.msg).2⟩
      acked := max s.acked a.bytes } := by
  have hstart := h.startingSeq
  have hacked := h.acked
  have hbound := h.bound
  rw [hwaits] at hbound
  rw [ALCCSocket.receive_ack hport]
  generalize hrounds : (if s.threads.sock.Fresh a.msg.ack_seq.toNat then
    (s.threads.sock.numAcks a.msg.ack_seq.toNat).toNat else 0) = rounds
  have hkept : s.threads.sock.startingSeq = 0 → s.threads.sock.seq = 0 ∧ rounds = 0 := by
    intro hzero
    refine ⟨(h.unstarted hzero).1, ?_⟩
    rw [← hrounds, if_neg fun hfresh => hfresh.1.ne' hzero]
  have hcovered : (0 < rounds → s.start + MTU * (s.threads.sock.seq + rounds) ≤ a.bytes) ∧
      s.threads.sock.startingSeq + MTU * rounds < 2 ^ 33 := by
    by_cases hzero : s.threads.sock.startingSeq = 0
    · rw [(hkept hzero).2, hzero]
      exact ⟨fun hpos => absurd hpos (Nat.lt_irrefl 0), by decide⟩
    · obtain ⟨-, wraps, hwraps⟩ := h.started hzero
      obtain ⟨seq, hseq⟩ := Int.eq_ofNat_of_zero_le h.nonneg
      have hlag := htimely (by omega)
      rw [hseq] at hwraps hlag ⊢
      rw [hack] at hrounds
      obtain ⟨hle, hlt⟩ := rounds_le (s.start + MTU * seq) wraps (by push_cast; omega)
        (by simpa [ReceiverPc.pending] using hbound) (by push_cast; omega) hrounds.symm
      refine ⟨fun hpos => ?_, hlt⟩
      have := hle hpos
      rw [mul_add, ← add_assoc]
      exact_mod_cast this
  refine ⟨h.toCountInv, h.packetEnd, h.handed, Nat.max_le.mpr ⟨hacked, hhanded⟩, hkept, h.started,
    hstart, hcovered.2, fun hpos => ?_⟩
  have := hcovered.1 hpos
  simp only [ReceiverPc.pending] at this ⊢
  omega

theorem restart (h : DelayInv first s) (ctl : γ) (hpending : s.threads.receiver.pending = 0) :
    DelayInv first { s with
      threads := s.threads.update (·.restartSlowStart ctl), base := s.handed } where
  toCountInv := .new ctl
  packetEnd k hlt hle := absurd (show k ≤ 0 from hle) (Int.not_le.mpr hlt)
  handed := by simp [Threads.update, ALCCSocket.restartSlowStart]
  acked := h.acked
  unstarted _ := ⟨rfl, hpending⟩
  started h := absurd rfl h
  startingSeq := Int.le_refl 0
  bound := by
    change 0 + MTU * (s.threads.receiver.pending : Int) < 2 ^ 33
    rw [hpending]
    decide
  pending hpos := absurd hpending hpos.ne'

theorem step (h : DelayInv first s) (hG : s.Timely a) (hs : s.step C first a = some t) :
    DelayInv first t := by
  cases a with
  | turn now | leave =>
    obtain ⟨-, hs⟩ := Option.ite_none_right_eq_some.mp hs
    rw [← Option.some.inj hs]
    exact ⟨h.toCountInv, h.packetEnd, h.handed, h.acked, h.unstarted, h.started, h.startingSeq,
      h.bound, h.pending⟩
  | send size =>
    simp only [Session.step] at hs
    split at hs
    · obtain ⟨⟨-, hsize⟩, hs⟩ := Option.ite_none_right_eq_some.mp hs
      rw [← Option.some.inj hs]
      exact h.send hsize
    · cases hs
  | receiver now terminateThreads =>
    obtain ⟨threads, hthreads, rfl⟩ := Option.map_eq_some_iff.mp hs
    rcases Threads.receiverStep_none hthreads with ⟨hsock, hpending, hpending'⟩ |
      ⟨receivedtime, left, hreceiver, rfl⟩
    · obtain ⟨sock, receiver⟩ := threads
      obtain rfl : sock = s.threads.sock := hsock
      have hbound := h.bound
      rw [hpending] at hbound
      refine ⟨h.toCountInv, h.packetEnd, h.handed, h.acked,
        fun hzero => ⟨(h.unstarted hzero).1, hpending'⟩, h.started, h.startingSeq, ?_,
        fun hpos => absurd hpending' hpos.ne'⟩
      simp only [hpending']
      exact hbound
    · exact h.credit hreceiver
  | segment m position now =>
    obtain ⟨⟨hwaits, hm, hseq, -⟩, hs⟩ := Option.ite_none_right_eq_some.mp hs
    obtain ⟨threads, hthreads, rfl⟩ := Option.map_eq_some_iff.mp hs
    rw [Threads.receiverStep_some hwaits.recvmsg hthreads]
    exact h.segment hwaits.recvmsg hm hseq hG
  | ack a =>
    obtain ⟨⟨hwaits, hport, hack, hhanded⟩, hs⟩ := Option.ite_none_right_eq_some.mp hs
    obtain ⟨threads, hthreads, rfl⟩ := Option.map_eq_some_iff.mp hs
    rw [Threads.receiverStep_some hwaits.recvmsg hthreads]
    exact h.ack hwaits.recvmsg hport hack hhanded hG
  | restart ctl =>
    rw [← Option.some.inj hs]
    exact h.restart ctl hG
  | control ctl tempS =>
    rw [← Option.some.inj hs]
    exact ⟨⟨h.nonneg, h.le, h.wCrt, h.listed⟩, h.packetEnd, h.handed, h.acked, h.unstarted,
      h.started, h.startingSeq, h.bound, h.pending⟩

end DelayInv

/-- **A delay sample is the age of an acknowledged packet** as long as the steps are timely. -/
theorem sampled_of_timely (ctl : γ) {acts : List (Action γ τ)}
    (h : Guarded (step C first) Timely (.init (.new ctl)) acts) :
    Guarded (step C first) Sampled (.init (.new ctl)) acts :=
  h.guarded (fun _ _ _ h hG hs => DelayInv.step h hG hs) (fun _ a h _ => DelayInv.sampled h a)
    (DelayInv.init ctl)

theorem sampled_one_packet :
    Guarded (step controller 1) Sampled (.init (.new .initial)) onePacket :=
  sampled_of_timely _ (by decide +kernel)

/-- After the restart a packet is sent, while the third packet of the old session is still with the
kernel. `startingSeq` is taken from its segment. -/
def newPacket : List (Action Window Timeval) :=
  [.turn ⟨2, 0⟩, .send 1448, .leave, .receiver ⟨2, 0⟩ false,
    .segment ⟨CC_PORT, 50000, 2897, 0⟩ 2896 ⟨2, 0⟩, .receiver ⟨2, 0⟩ false, .receiver ⟨2, 0⟩ false,
    .ack ⟨⟨50000, CC_PORT, 0, 4345⟩, 4344, ⟨2, 20000⟩⟩, .receiver ⟨2, 20000⟩ false]

/-- The acknowledgement of the old packet is taken for one of the new packet. -/
theorem old_ack_sampled :
    ¬ Guarded (step controller 1) Sampled (.init (.new .initial)) (thenRestart ++ newPacket) := by
  decide +kernel

end Session

end ALCC.Verus
