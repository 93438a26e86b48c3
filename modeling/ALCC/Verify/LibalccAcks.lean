import ALCC.Model.AckStream
import ALCC.Model.Libalcc
import ALCC.Theory.Run

/-! The packets that `ack_receiver` of `libalcc.cpp` credits for a stream of acknowledgements. It
sets `tcpSeq` to the acknowledged number, so the bytes beyond the last whole packet are forgotten:
the packets credited are those of the acknowledged bytes exactly as long as no two consecutive
remainders add up to a packet (`credited_iff_noneLost`). -/

namespace ALCC.Libalcc

open AckStream Binary64 Machine MachineInt

variable {τ : Type*} {s t : ALCCSocket τ} {m : Message} {first : Nat}

namespace ALCCSocket

@[simp] theorem settle_rcvSeq : s.settle.rcvSeq = s.rcvSeq := rfl

@[simp] theorem settle_tcpSeq : s.settle.tcpSeq = s.tcpSeq := rfl

@[simp] theorem credit_tcpSeq (ack_seq : Nat) : (s.credit ack_seq).tcpSeq = ack_seq := rfl

@[simp] theorem credit_cc_loigc_thread (ack_seq : Nat) :
    (s.credit ack_seq).cc_loigc_thread = s.cc_loigc_thread := by
  cases s
  rfl

/-- What the first half of `ack_receiver` leaves alone. -/
structure Kept (s t : ALCCSocket τ) : Prop where
  sentSeq : t.sentSeq = s.sentSeq
  rcvSeqLast : t.rcvSeqLast = s.rcvSeqLast
  cwnd : t.cwnd = s.cwnd
  tempS : t.tempS = s.tempS
  pktsInFlight : t.pktsInFlight = s.pktsInFlight
  seqNumbersList : t.seqNumbersList = s.seqNumbersList

theorem Kept.refl (s : ALCCSocket τ) : Kept s s := ⟨rfl, rfl, rfl, rfl, rfl, rfl⟩

theorem Kept.credit (ack_seq : Nat) : Kept s (s.credit ack_seq) := by
  cases s
  exact ⟨rfl, rfl, rfl, rfl, rfl, rfl⟩

/-- The second half settles the packets from `rcvSeqLast` up to `rcvSeq`. -/
theorem settle_eq (hle : s.rcvSeqLast ≤ s.rcvSeq) (hlt : s.rcvSeq < s.rcvSeqLast + 2 ^ 31) :
    s.settle.rcvSeqLast = s.rcvSeq ∧
      s.settle.pktsInFlight = s.pktsInFlight - (s.rcvSeq - s.rcvSeqLast) := by
  have hnumAcks : toI32 (s.rcvSeq - s.rcvSeqLast) = s.rcvSeq - s.rcvSeqLast :=
    toI32_of_mem (by omega) (by omega)
  simp only [settle, hnumAcks, and_true]
  split <;> omega

theorem receive_fresh (hm : m.src_port ≠ CC_PORT) (hfresh : s.Fresh m.ack_seq.toNat) :
    s.receive m = some (s.credit m.ack_seq.toNat, decide (s.credit m.ack_seq.toNat).Listed) := by
  simp only [receive, hm, and_false, if_false, hfresh, if_true]

theorem receive_stale (hm : m.src_port ≠ CC_PORT) (hstale : ¬ s.Fresh m.ack_seq.toNat) :
    s.receive m = some (s, false) := by
  simp only [receive, hm, and_false, if_false, hstale]

/-- Only the first segment from this side matters. -/
theorem receive_segment {listed : Bool} (hm : m.src_port = CC_PORT)
    (h : s.receive m = some (t, listed)) : listed = false ∧ (t = s ∨ s.tcpSeq = 0 ∧
      s.cc_loigc_thread = false ∧
      t = { s with tcpSeq := m.rcv_seq.toNat, cc_loigc_thread := true }) := by
  rw [receive] at h
  split at h
  · rename_i hstart
    split at h <;> cases h
    rename_i hthread
    exact ⟨rfl, .inr ⟨hstart.1, Bool.eq_false_iff.mpr hthread, rfl⟩⟩
  · cases h
    exact ⟨rfl, .inl rfl⟩

theorem ackReceiver_fresh (hm : m.src_port ≠ CC_PORT) (hfresh : s.Fresh m.ack_seq.toNat) :
    s.ackReceiver m = some (if (s.credit m.ack_seq.toNat).Listed then
      (s.credit m.ack_seq.toNat).settle else s.credit m.ack_seq.toNat) := by
  simp only [ackReceiver, receive_fresh hm hfresh, Option.map_some, decide_eq_true_eq]

theorem ackReceiver_stale (hm : m.src_port ≠ CC_PORT) (hstale : ¬ s.Fresh m.ack_seq.toNat) :
    s.ackReceiver m = some s := by
  simp only [ackReceiver, receive_stale hm hstale, Option.map_some, Bool.false_eq_true, if_false]

/-- What a new acknowledgement does to `rcvSeq` and `tcpSeq`. -/
theorem ackReceiver_credit (hm : m.src_port ≠ CC_PORT) (hfresh : s.Fresh m.ack_seq.toNat)
    (hs : s.ackReceiver m = some t) :
    t.rcvSeq = (s.credit m.ack_seq.toNat).rcvSeq ∧ t.tcpSeq = m.ack_seq.toNat := by
  rw [ackReceiver_fresh hm hfresh] at hs
  cases hs
  split <;> simp only [settle_rcvSeq, settle_tcpSeq, credit_tcpSeq, and_self]

/-- A number that is ahead by `d` without a wrap-around. -/
theorem credit_ahead {ack_seq d : Nat} (hack : ack_seq = s.tcpSeq + d) (hd : d < 2 ^ 32) :
    (s.credit ack_seq).rcvSeq = s.rcvSeq + d / MTU := by
  simp only [credit, toI32_toU64_sub_div hack hd (show 2 ≤ MTU by decide)]
  rw [if_neg (Int.natCast_nonneg _).not_gt, Int.toNat_natCast]

/-- A number that is ahead by `d` after a wrap-around. -/
theorem credit_wrapped {ack_seq d : Nat} (hack : ack_seq + 2 ^ 32 = s.tcpSeq + d)
    (hd : d < 2 ^ 31) :
    (s.credit ack_seq).rcvSeq =
      (trunc (double (double s.rcvSeq + double ((d : ℚ) / MTU)))).toNat := by
  have hnum : toI32 ((toU64 (ack_seq - s.tcpSeq) / MTU : Nat) : Int) < 0 := by
    rw [MTU, toU64, toI32]
    omega
  have hgap : (2 ^ 32 - s.tcpSeq + ack_seq : Int) = d := by omega
  simp only [credit, if_pos hnum, addWrapped, hgap, Int.cast_natCast]

/-- The next number of an orderly stream is new, unless `tcpSeq` is 0. -/
theorem fresh_of_inOrder {acked bytes : Nat} (hpos : s.tcpSeq ≠ 0)
    (hseq : s.tcpSeq = (first + acked) % 2 ^ 32) (horder : InOrder acked bytes) :
    s.Fresh ((first + bytes) % 2 ^ 32) := by
  obtain ⟨hle, hlt⟩ := horder
  refine ⟨Nat.pos_of_ne_zero hpos, ?_⟩
  rw [toU64, toI64]
  omega

end ALCCSocket

/-- A message of an acknowledgement stream reaches `ack_receiver`. -/
def ackStep (first : Nat) :
    AckStream (ALCCSocket τ) → Ack Unit → Option (AckStream (ALCCSocket τ)) :=
  AckStream.step (fun s _ m => s.ackReceiver m) InOrder first

variable {st st' : AckStream (ALCCSocket τ)} {a : Ack Unit} {acts : List (Ack Unit)}

/-- All acknowledged packets are credited. -/
def Credited (st : AckStream (ALCCSocket τ)) : Prop := st.sock.rcvSeq = st.acked / MTU

/-- The acknowledgement of `a.bytes` bytes completes no packet together with the forgotten
remainder. Once an acknowledged number was 0, it must complete no packet at all. In a wrap-around
after `2 ^ 42` packets the sum in doubles has to be right. -/
def NoneLost (st : AckStream (ALCCSocket τ)) (a : Ack Unit) : Prop :=
  if st.sock.tcpSeq = 0 then
    a.bytes / MTU = st.acked / MTU
  else if a.msg.ack_seq.toNat < st.sock.tcpSeq ∧ 2 ^ 42 ≤ a.bytes / MTU then
    (trunc (double (double (st.acked / MTU : Nat) +
      double (((a.bytes - st.acked : Nat) : ℚ) / MTU)))).toNat = a.bytes / MTU
  else
    st.acked % MTU + (a.bytes - st.acked) % MTU < MTU

/-- The packets are credited and `tcpSeq` is the acknowledged number, or 0 for ever. -/
structure AckInv (first : Nat) (st : AckStream (ALCCSocket τ)) : Prop where
  credited : Credited st
  tcpSeq : st.sock.tcpSeq ≠ 0 → st.sock.tcpSeq = (first + st.acked) % 2 ^ 32

/-- The quotients of two summands add up when the remainders do not reach the divisor. -/
theorem div_add_div_eq_iff {a b c : Nat} (hab : a ≤ b) (hc : 0 < c) :
    a / c + (b - a) / c = b / c ↔ a % c + (b - a) % c < c := by
  have h := Nat.add_div (a := a) (b := b - a) hc
  rw [Nat.add_sub_cancel' hab] at h
  rw [h]
  split <;> omega

theorem AckInv.step (h : AckInv first st) (hs : ackStep first st a = some st') :
    (Credited st' ↔ NoneLost st a) ∧
      (st'.sock.tcpSeq ≠ 0 → st'.sock.tcpSeq = (first + st'.acked) % 2 ^ 32) := by
  obtain ⟨hport, hack, horder, hsock, hacked⟩ := AckStream.step_cases hs
  rw [Nat.max_eq_right horder.1] at hacked
  have hcredited : st.sock.rcvSeq = st.acked / MTU := h.credited
  by_cases hzero : st.sock.tcpSeq = 0
  · rw [ALCCSocket.ackReceiver_stale hport (fun hfresh => hfresh.1.ne' hzero)] at hsock
    rw [Credited, NoneLost, if_pos hzero, hacked, ← Option.some.inj hsock, hcredited]
    exact ⟨eq_comm, fun hne => absurd hzero hne⟩
  have hseq := h.tcpSeq hzero
  have hfresh := ALCCSocket.fresh_of_inOrder hzero hseq horder
  rw [← hack] at hfresh
  obtain ⟨hrcv, htcp⟩ := ALCCSocket.ackReceiver_credit hport hfresh hsock
  refine ⟨?_, fun _ => by rw [htcp, hack, hacked]⟩
  rw [Credited, NoneLost, if_neg hzero, hacked, hrcv]
  obtain ⟨hle, hlt⟩ := horder
  by_cases hwrap : a.msg.ack_seq.toNat < st.sock.tcpSeq
  · rw [ALCCSocket.credit_wrapped (d := a.bytes - st.acked) (by omega) (by omega), hcredited]
    by_cases hlarge : 2 ^ 42 ≤ a.bytes / MTU
    · rw [if_pos ⟨hwrap, hlarge⟩]
    · have hsum : st.acked / MTU + (a.bytes - st.acked) / MTU < 2 ^ 42 := by
        have : _ ≤ (st.acked + (a.bytes - st.acked)) / MTU := Nat.div_add_div_le_add_div
        rw [Nat.add_sub_cancel' hle] at this
        exact lt_of_le_of_lt this (not_le.mp hlarge)
      rw [if_neg fun h => hlarge h.2, trunc_double_add_div (by decide) (by decide) (by omega) hsum,
        Int.toNat_natCast, div_add_div_eq_iff hle (by decide)]
  · rw [ALCCSocket.credit_ahead (d := a.bytes - st.acked) (by omega) (by omega), hcredited,
      if_neg fun h => hwrap h.1, div_add_div_eq_iff hle (by decide)]

/-- The packets that a new acknowledgement credits when it loses none. -/
theorem AckInv.credit_rcvSeq (h : AckInv first st) (hzero : st.sock.tcpSeq ≠ 0)
    (hport : a.msg.src_port ≠ CC_PORT) (hack : a.msg.ack_seq.toNat = (first + a.bytes) % 2 ^ 32)
    (horder : InOrder st.acked a.bytes) (hlost : NoneLost st a) :
    st.sock.Fresh a.msg.ack_seq.toNat ∧
      (st.sock.credit a.msg.ack_seq.toNat).rcvSeq = a.bytes / MTU := by
  have hfresh : st.sock.Fresh a.msg.ack_seq.toNat := by
    rw [hack]
    exact ALCCSocket.fresh_of_inOrder hzero (h.tcpSeq hzero) horder
  obtain ⟨t, ht⟩ : ∃ t, st.sock.ackReceiver a.msg = some t :=
    ⟨_, ALCCSocket.ackReceiver_fresh hport hfresh⟩
  have hs : ackStep first st a = some ⟨t, max st.acked a.bytes⟩ := by
    rw [ackStep, AckStream.step, if_pos ⟨hport, hack, horder⟩, ht, Option.map_some]
  have hcredited := (h.step hs).1.mpr hlost
  rw [Credited, Nat.max_eq_right horder.1] at hcredited
  exact ⟨hfresh, (ALCCSocket.ackReceiver_credit hport hfresh ht).1.symm.trans hcredited⟩

/-- For every first sequence number and every orderly stream of acknowledgements: all acknowledged
packets are credited after every message exactly if no message loses one. -/
theorem credited_iff_noneLost (s : ALCCSocket τ) (acts : List (Ack Unit)) (hseq : s.tcpSeq = first)
    (hfirst : first < 2 ^ 32) (hrcv : s.rcvSeq = 0)
    (hrun : run (ackStep first) ⟨s, 0⟩ acts = some st) :
    Always (ackStep first) Credited ⟨s, 0⟩ acts ↔ Guarded (ackStep first) NoneLost ⟨s, 0⟩ acts := by
  refine always_iff_guarded (I := AckInv first) (fun _ h => h.credited)
    (fun _ _ _ h hG hs => ⟨(h.step hs).1.mpr hG, (h.step hs).2⟩)
    (fun _ _ _ h hG hs => (h.step hs).1.not.mpr hG)
    ⟨hrcv.trans (Nat.zero_div _).symm, fun _ => ?_⟩ hrun
  rw [hseq, Nat.add_zero, Nat.mod_eq_of_lt hfirst]

instance (st : AckStream (ALCCSocket τ)) (a : Ack Unit) : Decidable (NoneLost st a) := by
  unfold NoneLost
  infer_instance

/-- A socket that has seen its first segment, with the sequence number 1. -/
def started : ALCCSocket Unit := { ALCCSocket.new 0 0 with tcpSeq := 1, cc_loigc_thread := true }

/-- An acknowledgement of `bytes` bytes from port 50000. -/
def ackOf (bytes : Nat) : Ack Unit := ⟨⟨50000, CC_PORT, 0, UInt32.ofNat (1 + bytes)⟩, bytes, ()⟩

theorem rcvSeq_eq_two_packets :
    Always (ackStep 1) Credited ⟨started, 0⟩ [ackOf 1448, ackOf 2896] :=
  (credited_iff_noneLost started [ackOf 1448, ackOf 2896] rfl (by decide) rfl
    (Option.some_get (by decide)).symm).mpr (by decide)

/-- Two acknowledgements of 1000 bytes each credit no packet, one of 2000 bytes credits one. -/
theorem two_acks_lose_packet :
    (run (ackStep 1) ⟨started, 0⟩ [ackOf 1000, ackOf 2000]).map
        (fun st => (st.sock.rcvSeq, st.acked / MTU)) = some (0, 1) ∧
      (run (ackStep 1) ⟨started, 0⟩ [ackOf 2000]).map
        (fun st => (st.sock.rcvSeq, st.acked / MTU)) = some (1, 1) := by
  decide +kernel

end ALCC.Libalcc
