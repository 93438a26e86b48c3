import ALCC.Verify.Isolation
import ALCC.Verify.Ledger
import Mathlib.Order.Interval.Finset.Nat

/-! The list of send times of `libalcc.cpp`. A message erases the entry of the packet `rcvSeq` only,
so an acknowledgement of several packets leaves the entries of the others behind. The list holds
the unacknowledged packets, and no others, exactly as long as every message acknowledges at most one
packet (`listed_iff_single`). -/

namespace ALCC.Libalcc

open AckStream Binary64 Machine

variable {τ : Type*} {s t : ALCCSocket τ} {first : Nat}

/-- The sender thread has sent a packet, or an acknowledgement arrives. -/
inductive ListAction (τ : Type*) where
  | sent (pktTime : τ)
  | ack (a : Ack Unit)

/-- A message acknowledges whole packets, all of them sent, in the order of the stream. -/
def listStep (first : Nat) (st : AckStream (ALCCSocket τ)) :
    ListAction τ → Option (AckStream (ALCCSocket τ))
  | .sent pktTime => some { st with sock := st.sock.sendPacket pktTime }
  | .ack a =>
    if MTU ∣ a.bytes ∧ a.bytes ≤ MTU * st.sock.sentSeq then
      AckStream.step (fun s _ m => s.ackReceiver m) (· ≤ ·) first st a
    else
      none

/-- The listed packets are those sent and not acknowledged. -/
structure Listed (st : AckStream (ALCCSocket τ)) : Prop where
  rcvSeq : st.sock.rcvSeq = st.acked / MTU
  keys : st.sock.seqNumbersList.keys = Finset.Ioc (st.acked / MTU) st.sock.sentSeq

/-- A message acknowledges one packet at most, and none once an acknowledged number was 0. In a
wrap-around after `2 ^ 53` packets the sum in doubles has to be right. -/
def Single (st : AckStream (ALCCSocket τ)) : ListAction τ → Prop
  | .sent _ => True
  | .ack a => a.bytes / MTU ≤ st.acked / MTU ∨
      a.bytes / MTU = st.acked / MTU + 1 ∧ st.sock.tcpSeq ≠ 0 ∧
        (a.msg.ack_seq.toNat < st.sock.tcpSeq ∧ 2 ^ 53 ≤ a.bytes / MTU →
          (trunc (double (double (st.acked / MTU : Nat) + 1))).toNat = a.bytes / MTU)

instance (st : AckStream (ALCCSocket τ)) (a : ListAction τ) : Decidable (Single st a) := by
  unfold Single
  split <;> infer_instance

/-- `tcpSeq` is the acknowledged number, or 0 for ever. -/
structure ListInv (first : Nat) (st : AckStream (ALCCSocket τ)) : Prop extends Listed st where
  whole : MTU ∣ st.acked
  sent : st.acked / MTU ≤ st.sock.sentSeq
  tcpSeq : st.sock.tcpSeq ≠ 0 → st.sock.tcpSeq = (first + st.acked) % 2 ^ 32

variable {st st' : AckStream (ALCCSocket τ)} {a : Ack Unit}

namespace ALCCSocket

/-- A message takes at most one entry from the list. -/
theorem erase_subset_ackReceiver {m : Message} (h : s.ackReceiver m = some t) :
    ∃ k, s.seqNumbersList.keys.erase k ⊆ t.seqNumbersList.keys := by
  obtain ⟨⟨u, listed⟩, hreceive, rfl⟩ := Option.map_eq_some_iff.mp h
  refine ⟨u.rcvSeq, ?_⟩
  rw [← (receive_kept hreceive).seqNumbersList]
  cases listed with
  | false => exact Finset.erase_subset _ _
  | true =>
    change _ ⊆ (u.seqNumbersList.erase u.rcvSeq).keys
    rw [Finmap.keys_erase]

theorem settle_sentSeq : s.settle.sentSeq = s.sentSeq := rfl

/-- The settled packet leaves the list. -/
theorem settle_keys : s.settle.seqNumbersList.keys = s.seqNumbersList.keys.erase s.rcvSeq :=
  Finmap.keys_erase _ _

/-- A new acknowledgement of one packet. -/
theorem credit_one {ack_seq : Nat} (hack : ack_seq = (s.tcpSeq + MTU) % 2 ^ 32)
    (htcpSeq : s.tcpSeq < 2 ^ 32) : (s.credit ack_seq).rcvSeq =
      if ack_seq < s.tcpSeq then (trunc (double (double s.rcvSeq + 1))).toNat
      else s.rcvSeq + 1 := by
  have hone : double ((MTU : ℚ) / MTU) = 1 := by
    rw [div_self (by norm_num [MTU])]
    exact_mod_cast double_natCast (n := 1) (by decide)
  have hMTU : MTU < 2 ^ 31 := by decide
  split_ifs with hwrap
  · rw [credit_wrapped (d := MTU) (by omega) hMTU, hone]
  · rw [credit_ahead (d := MTU) (by omega) (by omega), Nat.div_self (by decide)]

end ALCCSocket

/-- A repeated acknowledgement changes nothing. -/
theorem ListInv.repeated (h : ListInv first st) (hport : a.msg.src_port ≠ CC_PORT)
    (hack : a.msg.ack_seq.toNat = (first + a.bytes) % 2 ^ 32) (hbytes : a.bytes = st.acked) :
    st.sock.ackReceiver a.msg = some st.sock := by
  apply ALCCSocket.Ignores.ackReceiver
  by_cases hzero : st.sock.tcpSeq = 0
  · exact ALCCSocket.ignores_of_zero hzero hport
  · rw [ALCCSocket.Ignores, if_neg hport]
    intro _
    refine ⟨by rw [hack, hbytes, h.tcpSeq hzero], ?_⟩
    intro hlisted
    have hmem := Finmap.mem_keys.mpr hlisted.2
    rw [h.keys, h.rcvSeq] at hmem
    exact absurd (Finset.mem_Ioc.mp hmem).1 (Nat.lt_irrefl _)

/-- The sum in doubles is right below `2 ^ 53`. -/
theorem trunc_double_succ {n : Nat} (hn : n + 1 < 2 ^ 53) :
    (trunc (double (double n + 1))).toNat = n + 1 := by
  have hsum : double (double n + 1) = (n + 1 : Nat) := by
    rw [double_natCast (by omega)]
    exact_mod_cast double_natCast hn
  rw [hsum, trunc, if_pos (Nat.cast_nonneg _), Int.floor_natCast, Int.toNat_natCast]

/-- An acknowledgement of one more packet. -/
theorem ListInv.single (h : ListInv first st)
    (hack : a.msg.ack_seq.toNat = (first + a.bytes) % 2 ^ 32)
    (hbytes : a.bytes = st.acked + MTU) (hzero : st.sock.tcpSeq ≠ 0) :
    st.sock.Fresh a.msg.ack_seq.toNat ∧
      ((st.sock.credit a.msg.ack_seq.toNat).rcvSeq = st.acked / MTU + 1 ↔ Single st (.ack a)) := by
  have hseq := h.tcpSeq hzero
  have hpos : 0 < MTU := by decide
  have hMTU : MTU < 2 ^ 31 := by decide
  have hquot : a.bytes / MTU = st.acked / MTU + 1 := by rw [hbytes, Nat.add_div_right _ hpos]
  refine ⟨?_, ?_⟩
  · rw [hack]
    exact ALCCSocket.fresh_of_inOrder hzero hseq ⟨by omega, by omega⟩
  · rw [ALCCSocket.credit_one (by omega) (by omega), h.rcvSeq, Single, hquot]
    simp only [Nat.not_succ_le_self, false_or, true_and, ne_eq, hzero, not_false_eq_true]
    by_cases hwrap : a.msg.ack_seq.toNat < st.sock.tcpSeq
    · rw [if_pos hwrap]
      refine ⟨fun hsum _ => hsum, fun hsum => ?_⟩
      rcases Nat.lt_or_ge (st.acked / MTU + 1) (2 ^ 53) with hlt | hge
      · exact trunc_double_succ hlt
      · exact hsum ⟨hwrap, hge⟩
    · rw [if_neg hwrap]
      exact iff_of_true rfl fun hlate => absurd hlate.1 hwrap

/-- The next packet is listed, and leaves the list. -/
theorem ListInv.credited (h : ListInv first st) (hport : a.msg.src_port ≠ CC_PORT)
    (hfresh : st.sock.Fresh a.msg.ack_seq.toNat) (hsent : st.acked / MTU + 1 ≤ st.sock.sentSeq)
    (hrcvSeq : (st.sock.credit a.msg.ack_seq.toNat).rcvSeq = st.acked / MTU + 1) :
    st.sock.ackReceiver a.msg = some (st.sock.credit a.msg.ack_seq.toNat).settle ∧
      (st.sock.credit a.msg.ack_seq.toNat).settle.seqNumbersList.keys =
        Finset.Ioc (st.acked / MTU + 1) st.sock.sentSeq := by
  have hkept := ALCCSocket.Kept.credit (s := st.sock) a.msg.ack_seq.toNat
  have hkeys : (st.sock.credit a.msg.ack_seq.toNat).seqNumbersList.keys =
      Finset.Ioc (st.acked / MTU) st.sock.sentSeq := by
    rw [hkept.seqNumbersList]
    exact h.keys
  have hmem : (st.sock.credit a.msg.ack_seq.toNat).rcvSeq ∈
      (st.sock.credit a.msg.ack_seq.toNat).seqNumbersList := by
    rw [← Finmap.mem_keys, hkeys, hrcvSeq]
    exact Finset.mem_Ioc.mpr ⟨Nat.lt_succ_self _, hsent⟩
  refine ⟨?_, ?_⟩
  · rw [ALCCSocket.ackReceiver_fresh hport hfresh,
      if_pos ⟨⟨_, Finmap.mem_keys.mpr hmem, Nat.le_refl _⟩, hmem⟩]
  · rw [ALCCSocket.settle_keys, hkeys, hrcvSeq]
    ext k
    rw [Finset.mem_erase, Finset.mem_Ioc, Finset.mem_Ioc]
    omega

theorem ListInv.sentStep (h : ListInv first st) (pktTime : τ) :
    ListInv first { st with sock := st.sock.sendPacket pktTime } where
  rcvSeq := h.rcvSeq
  keys := by
    ext k
    have hsent := h.sent
    have hkeys : k ∈ st.sock.seqNumbersList ↔ k ∈ Finset.Ioc (st.acked / MTU) st.sock.sentSeq := by
      rw [← h.keys, Finmap.mem_keys]
    simp only [ALCCSocket.sendPacket, Finmap.mem_keys, Finmap.mem_insert, hkeys, Finset.mem_Ioc]
    omega
  whole := h.whole
  sent := Nat.le_succ_of_le h.sent
  tcpSeq := h.tcpSeq

/-- A message that acknowledges two packets or more leaves one of them in the list. -/
theorem Listed.not_of_skip (h : Listed st) (hs : st.sock.ackReceiver a.msg = some st'.sock)
    (hacked : st.acked / MTU + 2 ≤ st'.acked / MTU) (hsent : st'.acked / MTU ≤ st.sock.sentSeq) :
    ¬ Listed st' := by
  intro h'
  obtain ⟨k, hk⟩ := ALCCSocket.erase_subset_ackReceiver hs
  rw [h.keys, h'.keys] at hk
  have hleft : ∀ j, st.acked / MTU < j → j ≤ st.acked / MTU + 2 → j ≠ k → False := by
    intro j hlt hle hne
    have hmem := hk (Finset.mem_erase.mpr ⟨hne, Finset.mem_Ioc.mpr ⟨hlt, by omega⟩⟩)
    have := (Finset.mem_Ioc.mp hmem).1
    omega
  by_cases hne : st.acked / MTU + 1 = k
  · exact hleft (st.acked / MTU + 2) (by omega) (by omega) (by omega)
  · exact hleft (st.acked / MTU + 1) (by omega) (by omega) hne

/-- A message that acknowledges one more packet. -/
theorem ListInv.oneMore (h : ListInv first st)
    (hack : a.msg.ack_seq.toNat = (first + a.bytes) % 2 ^ 32) (hport : a.msg.src_port ≠ CC_PORT)
    (hzero : st.sock.tcpSeq ≠ 0) (hs : st.sock.ackReceiver a.msg = some st'.sock)
    (hbytes : a.bytes = st.acked + MTU) (hacked : st'.acked = a.bytes)
    (hsent : a.bytes / MTU ≤ st.sock.sentSeq) :
    (Listed st' ↔ Single st (.ack a)) ∧ (Single st (.ack a) → ListInv first st') := by
  have hone : a.bytes / MTU = st.acked / MTU + 1 := by
    rw [hbytes, Nat.add_div_right _ (show 0 < MTU by decide)]
  obtain ⟨hfresh, hiff⟩ := h.single hack hbytes hzero
  obtain ⟨hrcvSeq, htcpSeq⟩ := ALCCSocket.ackReceiver_credit hport hfresh hs
  have hstep : Single st (.ack a) → ListInv first st' := by
    intro hG
    obtain ⟨ht, hkeys⟩ := h.credited hport hfresh (by omega) (hiff.mpr hG)
    have hsettled := Option.some.inj (hs.symm.trans ht)
    have hsentSeq : st'.sock.sentSeq = st.sock.sentSeq := by
      rw [hsettled, ALCCSocket.settle_sentSeq, (ALCCSocket.Kept.credit _).sentSeq]
    refine ⟨⟨?_, ?_⟩, ?_, ?_, fun _ => ?_⟩
    · rw [hrcvSeq, hiff.mpr hG, hacked, hone]
    · rw [hacked, hone, hsentSeq, hsettled]
      exact hkeys
    · rw [hacked, hbytes]
      exact (Nat.dvd_add_right h.whole).mpr (Nat.dvd_refl MTU)
    · rw [hacked, hsentSeq]
      exact hsent
    · rw [htcpSeq, hack, hacked]
  refine ⟨⟨fun h' => ?_, fun hG => (hstep hG).toListed⟩, hstep⟩
  rw [← hiff, ← hrcvSeq, h'.rcvSeq, hacked, hone]

/-- What a message makes of the list. -/
theorem ListInv.ackStep (h : ListInv first st) (hs : listStep first st (.ack a) = some st') :
    (Listed st' ↔ Single st (.ack a)) ∧ (Single st (.ack a) → ListInv first st') := by
  obtain ⟨⟨hdvd, hsent⟩, hs⟩ := Option.ite_none_right_eq_some.mp hs
  obtain ⟨hport, hack, hle, hsock, hacked⟩ := AckStream.step_cases hs
  rw [Nat.max_eq_right hle] at hacked
  have hpos : 0 < MTU := by decide
  have hold := Nat.mul_div_cancel' h.whole
  have hnew := Nat.mul_div_cancel' hdvd
  have hmono : st.acked / MTU ≤ a.bytes / MTU := Nat.div_le_div_right hle
  have hsent' : a.bytes / MTU ≤ st.sock.sentSeq := Nat.div_le_of_le_mul hsent
  rcases Nat.eq_or_lt_of_le hmono with heq | hlt
  · -- the acknowledgement is a repeated one
    have hbytes : a.bytes = st.acked := by rw [← hold, ← hnew, heq]
    have hst' : st' = st := by
      rw [h.repeated hport hack hbytes] at hsock
      cases st
      cases st'
      simp_all
    have hG : Single st (.ack a) := .inl heq.ge
    rw [hst']
    exact ⟨iff_of_true h.toListed hG, fun _ => h⟩
  by_cases hzero : st.sock.tcpSeq = 0
  · -- and ignored
    have hG : ¬ Single st (.ack a) := by
      rintro (hle | ⟨-, hne, -⟩)
      · exact absurd hle (by omega)
      · exact hne hzero
    refine ⟨iff_of_false ?_ hG, fun hG' => absurd hG' hG⟩
    intro h'
    rw [ALCCSocket.ackReceiver_stale hport (fun hfresh => hfresh.1.ne' hzero)] at hsock
    have hrcvSeq := h'.rcvSeq
    rw [← Option.some.inj hsock, h.rcvSeq, hacked] at hrcvSeq
    omega
  rcases Nat.eq_or_lt_of_le (Nat.succ_le_of_lt hlt) with heq | htwo
  · have hbytes : a.bytes = st.acked + MTU := by
      rw [← hold, ← hnew, ← heq, Nat.mul_succ]
    exact h.oneMore hack hport hzero hsock hbytes hacked hsent'
  · have hG : ¬ Single st (.ack a) := by
      rintro (hle | ⟨heq, -⟩) <;> omega
    have hskip := h.not_of_skip hsock (by rw [hacked]; omega) (by rw [hacked]; exact hsent')
    exact ⟨iff_of_false hskip hG, fun hG' => absurd hG' hG⟩

theorem ListInv.step {act : ListAction τ} (h : ListInv first st)
    (hs : listStep first st act = some st') :
    (Listed st' ↔ Single st act) ∧ (Single st act → ListInv first st') := by
  cases act with
  | sent pktTime =>
    rw [← Option.some.inj hs]
    have h' := h.sentStep pktTime
    exact ⟨iff_of_true h'.toListed trivial, fun _ => h'⟩
  | ack a => exact h.ackStep hs

/-- For every order of packets sent and acknowledgements: the list holds the unacknowledged packets
after every message exactly if every message acknowledges at most one. -/
theorem listed_iff_single (s : ALCCSocket τ) (acts : List (ListAction τ)) (hseq : s.tcpSeq = first)
    (hfirst : first < 2 ^ 32) (hrcv : s.rcvSeq = 0)
    (hlist : s.seqNumbersList.keys = Finset.Ioc 0 s.sentSeq)
    (hrun : run (listStep first) ⟨s, 0⟩ acts = some st) :
    Always (listStep first) Listed ⟨s, 0⟩ acts ↔ Guarded (listStep first) Single ⟨s, 0⟩ acts := by
  apply always_iff_guarded (I := ListInv first) (fun _ h => h.toListed)
    (fun _ _ _ h hG hs => (h.step hs).2 hG) (fun _ _ _ h hG hs => (h.step hs).1.not.mpr hG) _ hrun
  refine ⟨⟨hrcv.trans (Nat.zero_div _).symm, ?_⟩, Nat.dvd_zero _, ?_, fun _ => ?_⟩
  · rw [Nat.zero_div]
    exact hlist
  · rw [Nat.zero_div]
    exact Nat.zero_le _
  · rw [hseq, Nat.add_zero, Nat.mod_eq_of_lt hfirst]

theorem listed_two_packets :
    Always (listStep 1) Listed ⟨started, 0⟩
      [.sent (), .sent (), .ack (ackOf 1448), .ack (ackOf 2896)] :=
  (listed_iff_single started [.sent (), .sent (), .ack (ackOf 1448), .ack (ackOf 2896)] rfl
    (by decide) rfl rfl (Option.some_get (by decide +kernel)).symm).mpr (by decide +kernel)

/-- One acknowledgement of both packets leaves the entry of the first one. -/
theorem cumulative_ack_not_listed :
    ¬ Always (listStep 1) Listed ⟨started, 0⟩ [.sent (), .sent (), .ack (ackOf 2896)] :=
  fun h =>
    have hrun := (Option.some_get (by decide +kernel)).symm
    absurd (h.last hrun).keys (by decide +kernel)

end ALCC.Libalcc
