import ALCC.Model.AckStream
import ALCC.Model.Verus
import ALCC.Theory.Run

/-! The packets that `ALCCReceive` of `libalcc_verus.cpp` credits for a stream of acknowledgements
in any order. `startingSeq` is the end of the last credited packet, and it is never reduced modulo
`2 ^ 32`: the correction for a wrap-around is right for the first one and gives a negative count
from the second one on, so that nothing is credited any more (`credited_iff_oneWrap`). -/

namespace ALCC.Verus

open AckStream Binary64 Machine MachineInt

variable {γ τ : Type*} {C : Controller γ τ} {s t : ALCCSocket γ τ} {m : Message} {first : Nat}
  {receivedtime : τ}

namespace ALCCSocket

@[simp] theorem creditPacket_seq : (s.creditPacket C receivedtime).seq = s.seq + 1 := by
  simp only [creditPacket]
  split <;> simp only

@[simp] theorem creditPacket_startingSeq :
    (s.creditPacket C receivedtime).startingSeq = s.startingSeq + MTU := by
  simp only [creditPacket]
  split <;> simp only

@[simp] theorem creditPacket_pktSeq : (s.creditPacket C receivedtime).pktSeq = s.pktSeq := by
  simp only [creditPacket]
  split <;> simp only

/-- Both branches take the packet out of the window. -/
theorem creditPacket_wCrt (h : 0 < s.wCrt) : (s.creditPacket C receivedtime).wCrt = s.wCrt - 1 := by
  simp only [creditPacket, if_pos h]
  split <;> simp only

theorem creditPackets_eq (receivedtime : τ) (rounds : Nat) :
    (s.creditPackets C receivedtime rounds).seq = s.seq + rounds ∧
      (s.creditPackets C receivedtime rounds).startingSeq = s.startingSeq + MTU * rounds := by
  unfold creditPackets
  induction rounds with
  | zero => simp
  | succ n ih =>
    obtain ⟨hseq, hstart⟩ := ih
    simp only [Function.iterate_succ_apply', creditPacket_seq, creditPacket_startingSeq, hseq,
      hstart, Nat.cast_succ, mul_add, mul_one, add_assoc, and_self]

/-- The rounds of the loop for a message from the peer. -/
theorem receive_ack (hm : m.src_port ≠ CC_PORT) : s.receive m =
    (s, if s.Fresh m.ack_seq.toNat then (s.numAcks m.ack_seq.toNat).toNat else 0) := by
  simp only [receive, hm, and_false, if_false]
  split <;> rfl

/-- The count of packets for a number that is behind `startingSeq`. -/
theorem numAcks_behind {ack_seq : Nat} (hbehind : (ack_seq : Int) + 2 ^ 31 < s.startingSeq)
    (hbound : s.startingSeq < 2 ^ 33) :
    s.numAcks ack_seq = trunc (double (((2 ^ 32 - s.startingSeq + ack_seq : Int) : ℚ) / MTU)) := by
  obtain ⟨gap, hgap⟩ := Int.eq_ofNat_of_zero_le (show 0 ≤ s.startingSeq - ack_seq by omega)
  have htdiv : ((ack_seq : Int) - s.startingSeq).tdiv MTU = -((gap / MTU : Nat) : Int) := by
    rw [show (ack_seq : Int) - s.startingSeq = -(gap : Int) by omega, Int.neg_tdiv]
    rfl
  have hneg : toI32 ((ack_seq - s.startingSeq).tdiv MTU) < 0 := by
    rw [htdiv, toI32, MTU]
    omega
  simp only [numAcks, if_pos hneg]

/-- The count of packets for a number that is ahead of `startingSeq`. -/
theorem numAcks_ahead {ack_seq d : Nat} (hahead : (ack_seq : Int) = s.startingSeq + d)
    (hd : d < 2 ^ 32) : s.numAcks ack_seq = (d / MTU : Nat) := by
  have htdiv : ((ack_seq : Int) - s.startingSeq).tdiv MTU = (d / MTU : Nat) := by
    rw [show (ack_seq : Int) - s.startingSeq = (d : Int) by omega]
    rfl
  have hnum : toI32 ((ack_seq - s.startingSeq).tdiv MTU) = (d / MTU : Nat) := by
    rw [htdiv, toI32, MTU]
    omega
  simp only [numAcks, hnum]
  rw [if_neg (Int.natCast_nonneg _).not_gt]

end ALCCSocket

/-- The acknowledgement of `bytes` bytes after the position `whole`: no wrap-around has occurred, or
only one, and the acknowledgement is less than `2 ^ 31` bytes ahead. -/
def OneWrap (first whole bytes : Nat) : Prop :=
  first + bytes < 2 ^ 32 ∨ first + bytes < 2 ^ 33 ∧ bytes < whole + 2 ^ 31

instance (first whole bytes : Nat) : Decidable (OneWrap first whole bytes) :=
  inferInstanceAs (Decidable (_ ∨ _ ∧ _))

/-- The number of rounds for every distance between an acknowledgement and `startingSeq`. -/
theorem rounds_eq {whole bytes : Nat} (hseq : s.startingSeq = (first + whole : Nat))
    (hpos : 1 ≤ first) (hbound : first + whole < 2 ^ 33) (hback : whole ≤ bytes + 2 ^ 31)
    (hahead : bytes < whole + 2 ^ 32) :
    (if s.Fresh ((first + bytes) % 2 ^ 32) then
      (s.numAcks ((first + bytes) % 2 ^ 32)).toNat else 0) =
      if OneWrap first whole bytes then (bytes - whole) / MTU else 0 := by
  generalize hack : (first + bytes) % 2 ^ 32 = ack_seq
  have hfresh : s.Fresh ack_seq ↔ first + whole ≤ ack_seq ∨ ack_seq + 2 ^ 31 < first + whole := by
    simp only [ALCCSocket.Fresh, toI64, hseq]
    omega
  have hzero : bytes < whole → (bytes - whole) / MTU = 0 := fun h => by
    rw [Nat.sub_eq_zero_of_le h.le, Nat.zero_div]
  have hwrap : OneWrap first whole bytes ↔
      first + bytes < 2 ^ 32 ∨ first + bytes < 2 ^ 33 ∧ bytes < whole + 2 ^ 31 := Iff.rfl
  by_cases hle : first + whole ≤ ack_seq
  · -- no wrap-around
    rw [if_pos (hfresh.mpr (.inl hle)), if_pos (hwrap.mpr (by omega)),
      ALCCSocket.numAcks_ahead (d := bytes - whole) (by omega) (by omega), Int.toNat_natCast]
  by_cases hnear : ack_seq + 2 ^ 31 < first + whole
  · have hbehind : (ack_seq : Int) + 2 ^ 31 < s.startingSeq := by omega
    have hnum := ALCCSocket.numAcks_behind (s := s) hbehind (by omega)
    rw [if_pos (hfresh.mpr (.inr hnear)), hnum]
    by_cases hd : whole ≤ bytes ∧ first + bytes < 2 ^ 33
    · -- one wrap-around, and the correction is right
      have hgap : (2 ^ 32 - s.startingSeq + ack_seq : Int) = (bytes - whole : Nat) := by omega
      rw [if_pos (hwrap.mpr (by omega)), hgap, Int.cast_natCast,
        trunc_double_div (by decide) (by omega), Int.toNat_natCast]
    · -- the correction is negative
      have hneg : trunc (double (((2 ^ 32 - s.startingSeq + ack_seq : Int) : ℚ) / MTU)) ≤ 0 := by
        refine trunc_double_nonpos (div_nonpos_of_nonpos_of_nonneg ?_ (Nat.cast_nonneg _))
        exact_mod_cast (show 2 ^ 32 - s.startingSeq + ack_seq ≤ 0 by omega)
      rw [Int.toNat_of_nonpos hneg]
      split_ifs with h
      · rw [hwrap] at h
        exact (hzero (by omega)).symm
      · rfl
  · rw [if_neg (by rw [hfresh]; omega)]
    split_ifs with h
    · rw [hwrap] at h
      exact (hzero (by omega)).symm
    · rfl

/-- A message of an acknowledgement stream reaches `ALCCReceive`. -/
def ackStep (C : Controller γ τ) (first : Nat) :
    AckStream (ALCCSocket γ τ) → Ack τ → Option (AckStream (ALCCSocket γ τ)) :=
  AckStream.step (fun s receivedtime m => some (s.alccReceive C receivedtime m)) AnyOrder first

variable {st st' : AckStream (ALCCSocket γ τ)} {a : Ack τ}

/-- The acknowledged whole packets are credited. -/
def Credited (st : AckStream (ALCCSocket γ τ)) : Prop := st.sock.seq = (st.acked / MTU : Nat)

/-- The acknowledgement completes no packet, or meets at most one wrap-around. -/
def InReach (first : Nat) (st : AckStream (ALCCSocket γ τ)) (a : Ack τ) : Prop :=
  a.bytes / MTU ≤ st.acked / MTU ∨ OneWrap first (MTU * (st.acked / MTU)) a.bytes

instance (st : AckStream (ALCCSocket γ τ)) (a : Ack τ) : Decidable (InReach first st a) :=
  inferInstanceAs (Decidable (_ ∨ _))

/-- `startingSeq` is where the last credited packet ends. -/
def Aligned (first : Nat) (s : ALCCSocket γ τ) : Prop := s.startingSeq = first + MTU * s.seq

/-- What a message from the peer credits. -/
theorem Aligned.alccReceive (receivedtime : τ) (h : Aligned first s)
    (hm : m.src_port ≠ CC_PORT) :
    Aligned first (s.alccReceive C receivedtime m) ∧
      (s.alccReceive C receivedtime m).seq = s.seq +
        ((if s.Fresh m.ack_seq.toNat then (s.numAcks m.ack_seq.toNat).toNat else 0 : Nat) :
          Int) := by
  rw [ALCCSocket.alccReceive, ALCCSocket.receive_ack hm]
  generalize (if s.Fresh m.ack_seq.toNat then (s.numAcks m.ack_seq.toNat).toNat else 0) = rounds
  obtain ⟨hseq, hstart⟩ := ALCCSocket.creditPackets_eq (C := C) (s := s) receivedtime rounds
  refine ⟨?_, hseq⟩
  rw [Aligned] at h
  rw [Aligned, hseq, hstart, h, mul_add, add_assoc]

structure AckInv (first : Nat) (st : AckStream (ALCCSocket γ τ)) : Prop where
  credited : Credited st
  aligned : Aligned first st.sock
  bound : first + MTU * (st.acked / MTU) < 2 ^ 33

theorem AckInv.init (hfirst : first < 2 ^ 32) (hstart : s.startingSeq = first) (hseq : s.seq = 0) :
    AckInv first ⟨s, 0⟩ where
  credited := by rw [Credited, hseq, Nat.zero_div, Nat.cast_zero]
  aligned := by rw [Aligned, hstart, hseq, mul_zero, add_zero]
  bound := by
    simp only [Nat.zero_div]
    omega

/-- What a message of the stream credits. -/
theorem AckInv.seq_step (h : AckInv first st) (hpos : 1 ≤ first)
    (hs : ackStep C first st a = some st') :
    Aligned first st'.sock ∧ st'.acked / MTU = max (st.acked / MTU) (a.bytes / MTU) ∧
      st'.sock.seq = (st.acked / MTU : Nat) +
        ((if OneWrap first (MTU * (st.acked / MTU)) a.bytes then
          a.bytes / MTU - st.acked / MTU else 0 : Nat) : Int) := by
  obtain ⟨hport, hack, ⟨hback, hahead⟩, hsock, hacked⟩ := AckStream.step_cases hs
  obtain ⟨haligned, hseq⟩ := h.aligned.alccReceive (C := C) a.clock hport
  rw [Option.some.inj hsock] at haligned hseq
  have hstart : st.sock.startingSeq = (first + MTU * (st.acked / MTU) : Nat) := by
    rw [h.aligned, h.credited]
    push_cast
    rfl
  have hdiv := Nat.div_add_mod st.acked MTU
  have hmod := Nat.mod_lt st.acked (show 0 < MTU by decide)
  rw [hack, rounds_eq hstart hpos h.bound (by omega) (by rw [MTU] at *; omega), h.credited,
    Nat.sub_mul_div] at hseq
  refine ⟨haligned, ?_, hseq⟩
  rw [hacked]
  exact max_div _ _ _

theorem AckInv.step (h : AckInv first st) (hpos : 1 ≤ first)
    (hs : ackStep C first st a = some st') :
    (Credited st' ↔ InReach first st a) ∧ (InReach first st a → AckInv first st') := by
  obtain ⟨haligned, hmax, hseq⟩ := h.seq_step hpos hs
  have hcredited : Credited st' ↔ InReach first st a := by
    rw [Credited, InReach, hseq, hmax]
    split_ifs with hreach
    · simp only [hreach, or_true, iff_true]
      omega
    · simp only [hreach, or_false]
      omega
  refine ⟨hcredited, fun hreach => ⟨hcredited.mpr hreach, haligned, ?_⟩⟩
  rw [hmax]
  rcases hreach with hle | hreach
  · rw [max_eq_left hle]
    exact h.bound
  · have hwhole := Nat.mul_div_le a.bytes MTU
    have hbound := h.bound
    rcases max_choice (st.acked / MTU) (a.bytes / MTU) with hm | hm
    · rw [hm]
      exact hbound
    · rw [hm]
      rcases hreach with h | h <;> omega

/-- The rounds for an acknowledgement in reach. -/
theorem AckInv.seq_add_rounds (C : Controller γ τ) (h : AckInv first st) (hpos : 1 ≤ first)
    (hport : a.msg.src_port ≠ CC_PORT) (hack : a.msg.ack_seq.toNat = (first + a.bytes) % 2 ^ 32)
    (horder : AnyOrder st.acked a.bytes) (hreach : InReach first st a) :
    st.sock.seq + (st.sock.receive a.msg).2 = (max st.acked a.bytes / MTU : Nat) ∧
      first + MTU * (max st.acked a.bytes / MTU) < 2 ^ 33 := by
  have hs : ackStep C first st a =
      some ⟨st.sock.alccReceive C a.clock a.msg, max st.acked a.bytes⟩ := by
    rw [ackStep, AckStream.step, if_pos ⟨hport, hack, horder⟩, Option.map_some]
  have hinv := (h.step hpos hs).2 hreach
  refine ⟨?_, hinv.bound⟩
  rw [ALCCSocket.receive_ack hport, ← (h.aligned.alccReceive a.clock hport).2]
  exact hinv.credited

/-- For every first sequence number and every stream of acknowledgements in any order: all
acknowledged packets, and no others, are credited after every message exactly if every message is
in reach. -/
theorem credited_iff_oneWrap (s : ALCCSocket γ τ) (acts : List (Ack τ)) (hpos : 1 ≤ first)
    (hfirst : first < 2 ^ 32) (hstart : s.startingSeq = first) (hseq : s.seq = 0)
    (hrun : run (ackStep C first) ⟨s, 0⟩ acts = some st) :
    Always (ackStep C first) Credited ⟨s, 0⟩ acts ↔
      Guarded (ackStep C first) (InReach first) ⟨s, 0⟩ acts :=
  always_iff_guarded (I := AckInv first) (fun _ h => h.credited)
    (fun _ _ _ h hG hs => (h.step hpos hs).2 hG)
    (fun _ _ _ h hG hs => (h.step hpos hs).1.not.mpr hG) (.init hfirst hstart hseq) hrun

/-- A socket that has seen its first segment. -/
def started (first : Nat) : ALCCSocket Unit Unit :=
  { ALCCSocket.new () with startingSeq := first }

/-- An acknowledgement of `bytes` bytes from port 50000. -/
def ackOf (first bytes : Nat) : Ack Unit :=
  ⟨⟨50000, CC_PORT, 0, UInt32.ofNat (first + bytes)⟩, bytes, ()⟩

theorem seq_eq_first_wrap :
    Always (ackStep default 4294967295) Credited ⟨started 4294967295, 0⟩
      [ackOf 4294967295 2896, ackOf 4294967295 1448] :=
  (credited_iff_oneWrap (started 4294967295) [ackOf 4294967295 2896, ackOf 4294967295 1448]
    (by decide) (by decide) rfl rfl (Option.some_get (by decide +kernel)).symm).mpr
    (by decide +kernel)

/-- Acknowledgements that are all in reach, up to the last byte before the second wrap-around. -/
def upToSecondWrap : List (Ack Unit) :=
  [2147483648, 4294967294, 5368709120, 6442450944, 7516192768, 8589934590].map (ackOf 1)

/-- The next acknowledgement completes 741534 packets, and credits none. -/
theorem second_wrap_not_credited :
    ∃ st, run (ackStep default 1) ⟨started 1, 0⟩ (upToSecondWrap ++ [ackOf 1 9663676416]) =
        some st ∧
      st.acked / MTU = 5932275 + 741534 ∧ st.sock.seq = 5932275 := by
  obtain ⟨st, hst⟩ := Option.isSome_iff_exists.mp
    (show (run (ackStep default 1) ⟨started 1, 0⟩
      (upToSecondWrap ++ [ackOf 1 9663676416])).isSome by decide +kernel)
  obtain ⟨u, hu⟩ := Option.isSome_iff_exists.mp
    (show (run (ackStep default 1) ⟨started 1, 0⟩ upToSecondWrap).isSome by decide +kernel)
  have hacked : u.acked = 8589934590 := by
    have : (run (ackStep default 1) ⟨started 1, 0⟩ upToSecondWrap).map (·.acked) =
        some 8589934590 := by decide +kernel
    rw [hu] at this
    exact Option.some.inj this
  have hinv : AckInv 1 u := Guarded.invariant (G := InReach 1)
    (fun _ _ _ h hG hs => (h.step (by decide) hs).2 hG) (.init (by decide) rfl rfl)
    (by decide +kernel) hu
  have hstep := hst
  rw [run_concat hu] at hstep
  obtain ⟨-, hmax, hseq⟩ := hinv.seq_step (by decide) hstep
  rw [hacked] at hmax hseq
  exact ⟨st, hst, hmax.trans (by decide), hseq.trans (by decide)⟩

end ALCC.Verus
