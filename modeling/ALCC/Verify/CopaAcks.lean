import ALCC.Model.AckStream
import ALCC.Model.Copa
import ALCC.Theory.Run

/-! The packets that `ack_receiver` of `libalcc_copa.cpp` credits for a stream of acknowledgements
in any order. `tcpSeq` stays at the end of the last whole packet, so no remainder is forgotten. But
an acknowledgement from before a wrap-around of the sequence numbers looks far ahead after it, and
one that is `2 ^ 31` bytes or more ahead across a wrap-around looks old (`credited_iff_inReach`). -/

namespace ALCC.Copa

open AckStream Binary64 Machine MachineInt

variable {γ τ : Type*} {C : Controller γ τ} {s t : ALCCSocket γ τ} {m : Message} {first p : Nat}

/-- The value of `tcpSeq` at the position `p` of the stream. -/
def seqAt (p : Nat) : Nat := (p - 1) % 2 ^ 32 + 1

namespace ALCCSocket

@[simp] theorem creditPacket_rcvSeq (receivedtime : τ) :
    (s.creditPacket C receivedtime).rcvSeq = s.rcvSeq + 1 := by
  rw [creditPacket]
  split <;> rfl

@[simp] theorem creditPacket_tcpSeq (receivedtime : τ) :
    (s.creditPacket C receivedtime).tcpSeq = s.nextTcpSeq := by
  simp only [creditPacket]
  split <;> simp only

@[simp] theorem creditPacket_seq_num (receivedtime : τ) :
    (s.creditPacket C receivedtime).seq_num = s.seq_num := by
  rw [creditPacket]
  split <;> rfl

@[simp] theorem finish_rcvSeq : (s.finish C).rcvSeq = s.rcvSeq := rfl

theorem nextTcpSeq_eq (hpos : 1 ≤ p) (h : s.tcpSeq = seqAt p) : s.nextTcpSeq = seqAt (p + MTU) := by
  rw [nextTcpSeq, h, seqAt, seqAt, MTU]
  split <;> omega

/-- The rounds of the loop move `tcpSeq` along the stream. -/
theorem creditPackets_eq (now : Nat → τ) (hpos : 1 ≤ p) (h : s.tcpSeq = seqAt p) (rounds : Nat) :
    (s.creditPackets C now rounds).rcvSeq = s.rcvSeq + rounds ∧
      (s.creditPackets C now rounds).tcpSeq = seqAt (p + MTU * rounds) := by
  unfold creditPackets
  induction rounds with
  | zero => exact ⟨rfl, h⟩
  | succ n ih =>
    obtain ⟨hrcv, htcp⟩ := ih
    simp only [List.range_succ, List.foldl_append, List.foldl_cons, List.foldl_nil,
      creditPacket_rcvSeq, creditPacket_tcpSeq, Nat.mul_succ, ← Nat.add_assoc]
    exact ⟨by rw [hrcv], nextTcpSeq_eq (Nat.le_add_right_of_le hpos) htcp⟩

theorem receive_fresh (hm : m.src_port ≠ CC_PORT) (hfresh : s.Fresh m.ack_seq.toNat) :
    s.receive m = some (s, some (s.numAcks m.ack_seq.toNat).toNat) := by
  simp only [receive, hm, and_false, if_false, hfresh, if_true]

theorem receive_stale (hm : m.src_port ≠ CC_PORT) (hstale : ¬ s.Fresh m.ack_seq.toNat) :
    s.receive m = some (s, none) := by
  simp only [receive, hm, and_false, if_false, hstale]

/-- Only the first segment from this side matters. -/
theorem receive_segment {rounds : Option Nat} (hm : m.src_port = CC_PORT)
    (h : s.receive m = some (t, rounds)) : rounds = none ∧ (t = s ∨ s.tcpSeq = 0 ∧
      t = { s with tcpSeq := m.rcv_seq.toNat, cc_loigc_thread := true }) := by
  rw [receive] at h
  split at h
  · rename_i hstart
    split at h <;> cases h
    exact ⟨rfl, .inr ⟨hstart.1, rfl⟩⟩
  · cases h
    exact ⟨rfl, .inl rfl⟩

theorem ackReceiver_fresh (now : Nat → τ) (hm : m.src_port ≠ CC_PORT)
    (hfresh : s.Fresh m.ack_seq.toNat) :
    s.ackReceiver C now m =
      some ((s.creditPackets C now (s.numAcks m.ack_seq.toNat).toNat).finish C) := by
  simp only [ackReceiver, receive_fresh hm hfresh, Option.map_some]

theorem ackReceiver_stale (now : Nat → τ) (hm : m.src_port ≠ CC_PORT)
    (hstale : ¬ s.Fresh m.ack_seq.toNat) : s.ackReceiver C now m = some s := by
  simp only [ackReceiver, receive_stale hm hstale, Option.map_some]

/-- A number that is ahead by `d`, after a wrap-around or not. -/
theorem numAcks_ahead {ack_seq d : Nat}
    (hack : ack_seq = s.tcpSeq + d ∨ ack_seq + 2 ^ 32 = s.tcpSeq + d ∧ d < 2 ^ 31)
    (hd : d < 2 ^ 32) : s.numAcks ack_seq = (d / MTU : Nat) := by
  rcases hack with hack | ⟨hack, hlt⟩
  · simp only [numAcks, toI32_toU64_sub_div hack hd (show 2 ≤ MTU by decide)]
    rw [if_neg (Int.natCast_nonneg _).not_gt]
  · have hnum : toI32 ((toU64 (ack_seq - s.tcpSeq) / MTU : Nat) : Int) < 0 := by
      rw [MTU, toU64, toI32]
      omega
    have hdiff : (2 ^ 32 - s.tcpSeq + ack_seq : Int) = d := by omega
    simp only [numAcks, if_pos hnum, hdiff, Int.cast_natCast]
    exact trunc_double_div (by decide) (by omega)

end ALCCSocket

/-- A message of an acknowledgement stream reaches `ack_receiver`. -/
def ackStep (C : Controller γ τ) (first : Nat) :
    AckStream (ALCCSocket γ τ) → Ack (Nat → τ) → Option (AckStream (ALCCSocket γ τ)) :=
  AckStream.step (fun s now m => s.ackReceiver C now m) AnyOrder first

variable {st st' : AckStream (ALCCSocket γ τ)} {a : Ack (Nat → τ)}

/-- The acknowledged whole packets are credited. -/
def Credited (st : AckStream (ALCCSocket γ τ)) : Prop := st.sock.rcvSeq = st.acked / MTU

/-- With `whole` the bytes of the acknowledged whole packets: the acknowledgement is ahead of them
by less than `2 ^ 31` bytes, or no wrap-around lies between the two. -/
def InReach (first : Nat) (st : AckStream (ALCCSocket γ τ)) (a : Ack (Nat → τ)) : Prop :=
  let whole := MTU * (st.acked / MTU)
  (whole ≤ a.bytes ∧ a.bytes < whole + 2 ^ 31) ∨
    (first + a.bytes) / 2 ^ 32 = (first + whole - 1) / 2 ^ 32

section Positions

variable {whole : Nat} (bytes : Nat)

/-- An acknowledgement ahead is new if it is not too far ahead, or there is no wrap-around. -/
theorem fresh_of_ahead (hseq : s.tcpSeq = seqAt (first + whole)) (hpos : 1 ≤ first)
    (hle : whole ≤ bytes) (hahead : bytes < whole + 2 ^ 31 ∨
      (first + bytes) / 2 ^ 32 = (first + whole - 1) / 2 ^ 32) :
    s.Fresh ((first + bytes) % 2 ^ 32) ∧
      s.numAcks ((first + bytes) % 2 ^ 32) = ((bytes - whole) / MTU : Nat) := by
  rw [seqAt] at hseq
  refine ⟨?_, ALCCSocket.numAcks_ahead ?_ ?_⟩
  · simp only [ALCCSocket.Fresh, toU64, toI64]
    omega
  · omega
  · omega

/-- An acknowledgement behind by less than `2 ^ 31` bytes is new if a wrap-around lies between. -/
theorem fresh_of_behind (hseq : s.tcpSeq = seqAt (first + whole)) (hpos : 1 ≤ first)
    (hback : whole ≤ bytes + 2 ^ 31)
    (hlap : (first + bytes) / 2 ^ 32 < (first + whole - 1) / 2 ^ 32) :
    s.Fresh ((first + bytes) % 2 ^ 32) ∧
      s.numAcks ((first + bytes) % 2 ^ 32) = ((bytes + 2 ^ 32 - whole) / MTU : Nat) := by
  rw [seqAt] at hseq
  refine ⟨?_, ALCCSocket.numAcks_ahead (.inl ?_) ?_⟩
  · simp only [ALCCSocket.Fresh, toU64, toI64]
    omega
  · omega
  · omega

/-- All other acknowledgements are old. -/
theorem not_fresh (hseq : s.tcpSeq = seqAt (first + whole)) (hpos : 1 ≤ first)
    (hback : whole ≤ bytes + 2 ^ 31)
    (hbehind : bytes < whole ∧ (first + bytes) / 2 ^ 32 = (first + whole - 1) / 2 ^ 32 ∨
      whole + 2 ^ 31 ≤ bytes ∧ bytes < whole + 2 ^ 32 ∧
        (first + whole - 1) / 2 ^ 32 < (first + bytes) / 2 ^ 32) :
    ¬ s.Fresh ((first + bytes) % 2 ^ 32) := by
  rw [seqAt] at hseq
  simp only [ALCCSocket.Fresh, toU64, toI64]
  omega

end Positions

/-- `tcpSeq` is where the last credited packet ends. -/
def Aligned (first : Nat) (s : ALCCSocket γ τ) : Prop := s.tcpSeq = seqAt (first + MTU * s.rcvSeq)

theorem Aligned.creditPackets (h : Aligned first s) (hpos : 1 ≤ first) (now : Nat → τ)
    (rounds : Nat) : Aligned first (s.creditPackets C now rounds) := by
  obtain ⟨hrcv, htcp⟩ :=
    ALCCSocket.creditPackets_eq (C := C) now (Nat.le_add_right_of_le hpos) h rounds
  rw [Aligned, hrcv, htcp, Nat.mul_add, Nat.add_assoc]

theorem Aligned.finish (h : Aligned first s) : Aligned first (s.finish C) := h

/-- A message from the peer keeps `tcpSeq` aligned, whatever it credits. -/
theorem Aligned.ackReceiver {now : Nat → τ} (h : Aligned first s) (hpos : 1 ≤ first)
    (hm : m.src_port ≠ CC_PORT) (hs : s.ackReceiver C now m = some t) :
    Aligned first t ∧ t.rcvSeq = s.rcvSeq +
      if s.Fresh m.ack_seq.toNat then (s.numAcks m.ack_seq.toNat).toNat else 0 := by
  split
  · rename_i hfresh
    rw [ALCCSocket.ackReceiver_fresh now hm hfresh] at hs
    generalize (s.numAcks m.ack_seq.toNat).toNat = rounds at hs ⊢
    rw [← Option.some.inj hs, ALCCSocket.finish_rcvSeq]
    exact ⟨(h.creditPackets hpos now rounds).finish,
      (ALCCSocket.creditPackets_eq now (Nat.le_add_right_of_le hpos) h rounds).1⟩
  · rename_i hstale
    rw [ALCCSocket.ackReceiver_stale now hm hstale] at hs
    rw [← Option.some.inj hs]
    exact ⟨h, rfl⟩

structure AckInv (first : Nat) (st : AckStream (ALCCSocket γ τ)) : Prop where
  credited : Credited st
  aligned : Aligned first st.sock

theorem AckInv.step (h : AckInv first st) (hpos : 1 ≤ first)
    (hs : ackStep C first st a = some st') :
    (Credited st' ↔ InReach first st a) ∧ Aligned first st'.sock := by
  obtain ⟨hport, hack, ⟨hback, hahead⟩, hsock, hacked⟩ := AckStream.step_cases hs
  obtain ⟨haligned, hrcv⟩ := h.aligned.ackReceiver hpos hport hsock
  refine ⟨?_, haligned⟩
  have hseq := h.aligned
  have hcredited : st.sock.rcvSeq = st.acked / MTU := h.credited
  rw [Aligned, hcredited] at hseq
  rw [Credited, InReach]
  simp only [hrcv, hack, hcredited, hacked]
  generalize hwhole : MTU * (st.acked / MTU) = whole at hseq
  have hrem : whole ≤ st.acked ∧ st.acked < whole + 1484 := by
    have := Nat.div_add_mod st.acked MTU
    have := Nat.mod_lt st.acked (show 0 < MTU by decide)
    rw [show MTU = 1484 from rfl] at *
    omega
  have hcount : ∀ bytes, whole ≤ bytes → bytes / MTU = st.acked / MTU + (bytes - whole) / MTU := by
    intro bytes hle
    rw [← hwhole, Nat.add_comm, ← Nat.add_mul_div_left _ _ (show 0 < MTU by decide),
      Nat.sub_add_cancel (hwhole ▸ hle)]
  have hmax : max st.acked a.bytes / MTU = st.acked / MTU + (max st.acked a.bytes - whole) / MTU :=
    hcount _ (by omega)
  rw [hmax]
  by_cases hlap : (first + a.bytes) / 2 ^ 32 < (first + whole - 1) / 2 ^ 32
  · -- a number from before the wrap-around looks far ahead
    obtain ⟨hfresh, hnum⟩ := fresh_of_behind _ hseq hpos (by omega) hlap
    rw [if_pos hfresh, hnum, Int.toNat_natCast, MTU]
    omega
  by_cases hahead : whole ≤ a.bytes ∧ (a.bytes < whole + 2 ^ 31 ∨
      (first + a.bytes) / 2 ^ 32 = (first + whole - 1) / 2 ^ 32)
  · obtain ⟨hfresh, hnum⟩ := fresh_of_ahead _ hseq hpos hahead.1 hahead.2
    rw [if_pos hfresh, hnum, Int.toNat_natCast, MTU]
    omega
  · rw [if_neg (not_fresh _ hseq hpos (by omega) (by omega)), MTU]
    omega

/-- The rounds for an acknowledgement in reach. -/
theorem AckInv.rcvSeq_add_rounds (C : Controller γ τ) {acked : Nat} (h : AckInv first ⟨s, acked⟩)
    (hpos : 1 ≤ first) (hport : a.msg.src_port ≠ CC_PORT)
    (hack : a.msg.ack_seq.toNat = (first + a.bytes) % 2 ^ 32) (horder : AnyOrder acked a.bytes)
    (hreach : InReach first ⟨s, acked⟩ a) :
    s.rcvSeq + (if s.Fresh a.msg.ack_seq.toNat then (s.numAcks a.msg.ack_seq.toNat).toNat else 0) =
      max acked a.bytes / MTU := by
  obtain ⟨t, ht⟩ : ∃ t, s.ackReceiver C a.clock a.msg = some t := by
    by_cases hfresh : s.Fresh a.msg.ack_seq.toNat
    · exact ⟨_, ALCCSocket.ackReceiver_fresh a.clock hport hfresh⟩
    · exact ⟨_, ALCCSocket.ackReceiver_stale a.clock hport hfresh⟩
  have hs : ackStep C first ⟨s, acked⟩ a = some ⟨t, max acked a.bytes⟩ := by
    rw [ackStep, AckStream.step, if_pos ⟨hport, hack, horder⟩, ht, Option.map_some]
  rw [← (h.aligned.ackReceiver hpos hport ht).2]
  exact (h.step hpos hs).1.mpr hreach

/-- For every first sequence number and every stream of acknowledgements in any order: all
acknowledged packets, and no others, are credited after every message exactly if every message is
in reach. -/
theorem credited_iff_inReach (s : ALCCSocket γ τ) (acts : List (Ack (Nat → τ))) (hpos : 1 ≤ first)
    (hfirst : first < 2 ^ 32) (hseq : s.tcpSeq = first) (hrcv : s.rcvSeq = 0)
    (hrun : run (ackStep C first) ⟨s, 0⟩ acts = some st) :
    Always (ackStep C first) Credited ⟨s, 0⟩ acts ↔
      Guarded (ackStep C first) (InReach first) ⟨s, 0⟩ acts := by
  refine always_iff_guarded (I := AckInv first) (fun _ h => h.credited)
    (fun _ _ _ h hG hs => ⟨(h.step hpos hs).1.mpr hG, (h.step hpos hs).2⟩)
    (fun _ _ _ h hG hs => (h.step hpos hs).1.not.mpr hG) ⟨?_, ?_⟩ hrun
  · rw [Credited, hrcv, Nat.zero_div]
  · rw [Aligned, hseq, hrcv, seqAt]
    omega

instance (st : AckStream (ALCCSocket γ τ)) (a : Ack (Nat → τ)) :
    Decidable (InReach first st a) := by
  unfold InReach
  infer_instance

/-- A socket that has seen its first segment. -/
def started (first : Nat) : ALCCSocket Unit Unit :=
  { ALCCSocket.new () with tcpSeq := first, cc_loigc_thread := true }

/-- An acknowledgement of `bytes` bytes from port 50000. -/
def ackOf (first bytes : Nat) : Ack (Nat → Unit) :=
  ⟨⟨50000, CC_PORT, 0, UInt32.ofNat (first + bytes)⟩, bytes, fun _ => ()⟩

theorem rcvSeq_eq_reordered :
    Always (ackStep default 1) Credited ⟨started 1, 0⟩ [ackOf 1 2968, ackOf 1 1484, ackOf 1 4452] :=
  (credited_iff_inReach (started 1) [ackOf 1 2968, ackOf 1 1484, ackOf 1 4452] (by decide)
    (by decide) rfl rfl (Option.some_get (by decide +kernel)).symm).mpr (by decide +kernel)

/-- The second acknowledgement is old, but from before a wrap-around: it credits 2894180 packets.
The last one of the other stream is `2 ^ 31` bytes ahead, after a wrap-around: it is dropped. -/
theorem reordered_ack_not_credited :
    (∃ st, run (ackStep default 4294965812) ⟨started 4294965812, 0⟩
        [ackOf 4294965812 2968, ackOf 4294965812 0] = some st ∧
      st.acked = 2968 ∧ st.sock.rcvSeq = 2 + 2894180) ∧
    (run (ackStep default 4294967295) ⟨started 4294967295, 0⟩
      [ackOf 4294967295 1, ackOf 4294967295 2147483648]).map
        (fun st => (st.sock.rcvSeq, st.acked / MTU)) = some (0, 1447091) := by
  constructor
  · have hrun := (Option.some_get (x := run (ackStep default 4294965812) ⟨started 4294965812, 0⟩
      [ackOf 4294965812 2968, ackOf 4294965812 0]) (by decide +kernel)).symm
    refine ⟨_, hrun, by decide +kernel, ?_⟩
    obtain ⟨u, hu, hrun⟩ := run_cons.mp hrun
    obtain ⟨v, hv, hrun⟩ := run_cons.mp hrun
    rw [← Option.some.inj hrun]
    have hinv : AckInv 4294965812 ⟨started 4294965812, 0⟩ := ⟨rfl, rfl⟩
    obtain ⟨hcredited, haligned⟩ := hinv.step (by decide) hu
    have hu2 : u.sock.rcvSeq = 2 := by
      rw [hcredited.mpr (by decide), (AckStream.step_cases hu).2.2.2.2]
      rfl
    obtain ⟨hport, hack, -, hsock, -⟩ := AckStream.step_cases hv
    rw [Aligned, hu2] at haligned
    obtain ⟨hfresh, hnum⟩ := fresh_of_behind (ackOf 4294965812 0).bytes haligned (by decide)
      (by decide) (by decide)
    rw [← hu2] at haligned
    rw [(Aligned.ackReceiver haligned (by decide) hport hsock).2, hack, if_pos hfresh, hnum, hu2]
    rfl
  · decide +kernel

end ALCC.Copa
