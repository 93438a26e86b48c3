import ALCC.Verify.Ledger

/-! The permits of `libalcc.cpp`: `CC_logic` refills `tempS` up to the window, less the packets in
flight. Between its two reads the sender thread may turn permits into packets, which then are
missing from both. As long as this does not happen, permits and packets in flight together never
exceed the window (`PermitInv`), so no refill leaves the range of its type
(`always_safe_of_covered`). -/

namespace ALCC.Libalcc

open Binary64 Connection Machine MachineInt

variable {α τ : Type*}

section Accounts

/-- The permit taken for a packet that is not counted in flight yet. -/
def inTransit : SenderPc α τ → Int
  | .recording _ _ 1 => 1
  | _ => 0

/-- The permits that the `for` loop is still going to take. -/
def owed : SenderPc α τ → Nat
  | .round _ left | .recording _ left (_ + 1) => left
  | .sending _ left _ | .recording _ left 0 => left + 1
  | _ => 0

theorem inTransit_nonneg (pc : SenderPc α τ) : 0 ≤ inTransit pc := by
  unfold inTransit
  split <;> decide

/-- After the updates of `sent` the accounts are those of the next round. -/
theorem settled_of_none {pktTime : τ} {left k : Nat} (hk : (library τ).sent[k]? = none) :
    owed (.recording pktTime left k : SenderPc α τ) = left ∧
      inTransit (.recording pktTime left k : SenderPc α τ) = 0 := by
  have hlen : 3 ≤ k := List.getElem?_eq_none_iff.mp hk
  obtain ⟨k, rfl⟩ := Nat.exists_eq_add_of_le' hlen
  exact ⟨rfl, rfl⟩

end Accounts

/-- Permits and packets in flight, the packet between the two included. -/
def outstanding (pc : SenderPc α τ) (s : ALCCSocket τ) : Int :=
  s.tempS + s.pktsInFlight + inTransit pc

/-- The accounts of permits and packets. -/
structure PermitInv (pc : SenderPc α τ) (b : Threads τ) : Prop where
  owed : (owed pc : Int) ≤ b.sock.tempS
  total : outstanding pc b.sock ≤ 20
  inFlight : b.sock.pktsInFlight = b.sock.sentSeq - pc.before 2 - b.sock.rcvSeqLast
  counted : b.sock.rcvSeqLast + pc.before 2 ≤ b.sock.sentSeq
  listed : ∀ k ∈ b.sock.seqNumbersList, k + pc.before 2 ≤ b.sock.sentSeq
  rcvSeqLast : min b.sock.rcvSeqLast (2 ^ 53) ≤ b.sock.rcvSeq
  tcpSeq : b.sock.tcpSeq ≤ 2 ^ 32
  settling : b.receiver = .settling → b.sock.rcvSeq ∈ b.sock.seqNumbersList
  cwnd : b.cc ≠ .start → b.sock.cwnd = 20
  readTempS : ∀ p, b.cc = .readTempS p → 0 ≤ p ∧ b.sock.tempS + p ≤ 20
  refill : ∀ p t, b.cc = .refill p t → 0 ≤ p ∧ 0 ≤ t ∧ p + t ≤ 20

namespace PermitInv

variable {pc pc' : SenderPc α τ} {b b' : Threads τ} {now : τ} {terminateThreads : Bool}

theorem ledger (h : PermitInv pc b) : LedgerInv pc b :=
  ⟨h.inFlight, h.counted, h.listed, h.rcvSeqLast, h.tcpSeq, h.settling⟩

/-- The accounts of the permits alone. -/
theorem of_ledger (h : LedgerInv pc b) (howed : (Libalcc.owed pc : Int) ≤ b.sock.tempS)
    (htotal : outstanding pc b.sock ≤ 20) (hcwnd : b.cc ≠ .start → b.sock.cwnd = 20)
    (hreadTempS : ∀ p, b.cc = .readTempS p → 0 ≤ p ∧ b.sock.tempS + p ≤ 20)
    (hrefill : ∀ p t, b.cc = .refill p t → 0 ≤ p ∧ 0 ≤ t ∧ p + t ≤ 20) : PermitInv pc b :=
  ⟨howed, htotal, h.inFlight, h.counted, h.listed, h.rcvSeqLast, h.tcpSeq, h.settling, hcwnd,
    hreadTempS, hrefill⟩

theorem new (port : UInt16) (cwnd : Nat) : PermitInv (.outer : SenderPc α τ) (.new port cwnd) := by
  apply of_ledger (.new port cwnd)
  · exact (by decide : (0 : Int) ≤ 1)
  · exact (by decide : (1 : Int) + 0 + 0 ≤ 20)
  · exact fun h => absurd rfl h
  · rintro p ⟨⟩
  · rintro p t ⟨⟩

theorem tempS_nonneg (h : PermitInv pc b) : 0 ≤ b.sock.tempS :=
  le_trans (Int.natCast_nonneg _) h.owed

theorem pktsInFlight_nonneg (h : PermitInv pc b) : 0 ≤ b.sock.pktsInFlight := by
  have := h.inFlight
  have := h.counted
  omega

/-- Permits and packets together, without the packet between the two. -/
theorem tempS_add_le (h : PermitInv pc b) : b.sock.tempS + b.sock.pktsInFlight ≤ 20 := by
  have := h.total
  have := inTransit_nonneg pc
  rw [outstanding] at *
  omega

/-- A move to a place with the same accounts. -/
theorem move (h : PermitInv pc b) (howed : Libalcc.owed pc' ≤ Libalcc.owed pc)
    (htransit : inTransit pc' = inTransit pc) (huncounted : pc'.before 2 = pc.before 2) :
    PermitInv pc' b := by
  refine of_ledger (h.ledger.move huncounted) ?_ ?_ h.cwnd h.readTempS h.refill
  · exact le_trans (by exact_mod_cast howed) h.owed
  · rw [outstanding, htransit]
    exact h.total

/-- `tempS -= 1`, `pktsInFlight += 1` and the entry in `seqNumbersList`. -/
theorem record {pktTime : τ} {left k : Nat} {update : τ → Threads τ → Threads τ}
    (h : PermitInv (.recording pktTime left k : SenderPc α τ) b)
    (hk : (library τ).sent[k]? = some update) :
    PermitInv (.recording pktTime left (k + 1) : SenderPc α τ) (update pktTime b) := by
  have hledger := h.ledger.record hk
  have howed := h.owed
  have htotal := h.total
  match k, hk with
  | 0, rfl =>
    simp only [Libalcc.owed, outstanding, inTransit] at howed htotal
    refine of_ledger hledger ?_ ?_ h.cwnd ?_ h.refill
    · simp only [Threads.update, Libalcc.owed]
      omega
    · simp only [Threads.update, outstanding, inTransit]
      omega
    · intro p hp
      obtain ⟨hnonneg, hle⟩ := h.readTempS p hp
      simp only [Threads.update]
      omega
  | 1, rfl =>
    simp only [outstanding, inTransit] at htotal
    refine of_ledger hledger howed ?_ h.cwnd h.readTempS h.refill
    simp only [Threads.update, outstanding, inTransit]
    omega
  | 2, rfl => exact of_ledger hledger howed htotal h.cwnd h.readTempS h.refill

/-- What the sender thread does. -/
theorem sender (h : PermitInv pc b)
    (hs : Moves (library τ) terminateThreads now pc b pc' b') : PermitInv pc' b' := by
  cases hs with
  | outer => cases terminateThreads <;> exact h.move (Nat.le_refl _) rfl rfl
  | leave | through | send => exact h.move (Nat.le_refl _) rfl rfl
  | finish | empty => exact h.move (Nat.zero_le _) rfl rfl
  | turn htest =>
    have htempS := h.tempS_nonneg
    have hle := h.tempS_add_le
    have hpkts := h.pktsInFlight_nonneg
    have hsPkts : (((library τ).sPkts b : Nat) : Int) = b.sock.tempS := by
      simp only [library]
      rw [toI32_of_mem (by omega) (by omega), Int.toNat_of_nonneg htempS]
    exact of_ledger (h.ledger.move rfl) hsPkts.le h.total h.cwnd h.readTempS h.refill
  | dequeue => exact of_ledger h.ledger.dequeue h.owed h.total h.cwnd h.readTempS h.refill
  | record hk => exact h.record hk
  | next hk =>
    obtain ⟨howed, htransit⟩ := settled_of_none (α := α) hk
    exact h.move howed.ge htransit.symm (SenderPc.before_of_none (Nat.le_succ 2) hk).symm

/-- What `ack_receiver` does. Packets that it settles are no longer in flight. -/
theorem receiverStep {m : Option Message} (h : PermitInv pc b) (hsentSeq : b.sock.sentSeq < 2 ^ 53)
    (hs : b.receiverStep m terminateThreads = some b') : PermitInv pc b' := by
  have htotal := h.total
  have htempS := h.tempS_nonneg
  have hle := h.tempS_add_le
  have hinFlight := h.inFlight
  have hnumAcks : b.receiver = .settling →
      b.sock.rcvSeqLast ≤ b.sock.rcvSeq ∧ b.sock.rcvSeq < b.sock.rcvSeqLast + 2 ^ 31 := by
    intro hreceiver
    have := h.ledger.settled_mem hsentSeq hreceiver
    omega
  have hledger := h.ledger.receiverStep hsentSeq (fun hreceiver => (hnumAcks hreceiver).2) hs
  unfold Threads.receiverStep at hs
  split at hs
  case h_1 =>
    cases hs
    exact of_ledger hledger h.owed htotal h.cwnd h.readTempS h.refill
  case h_2 =>
    cases m with
    | none =>
      cases hs
      exact of_ledger hledger h.owed htotal h.cwnd h.readTempS h.refill
    | some m =>
      obtain ⟨⟨s, listed⟩, hreceive, rfl⟩ := Option.map_eq_some_iff.mp hs
      have hr := ALCCSocket.receive_kept hreceive
      refine of_ledger hledger ?_ ?_ ?_ ?_ h.refill
      · rw [hr.tempS]
        exact h.owed
      · rw [outstanding, hr.tempS, hr.pktsInFlight]
        exact htotal
      · rw [hr.cwnd]
        exact h.cwnd
      · rw [hr.tempS]
        exact h.readTempS
  case h_3 hreceiver =>
    cases hs
    obtain ⟨hdiff, hlt⟩ := hnumAcks hreceiver
    refine of_ledger hledger h.owed ?_ h.cwnd h.readTempS h.refill
    rw [outstanding] at htotal ⊢
    rw [(ALCCSocket.settle_eq hdiff hlt).2]
    change b.sock.tempS + _ + _ ≤ _
    omega
  case h_4 => cases hs

/-- The difference that `CC_logic` computes is in range, and the refill is this difference. -/
theorem refill_eq (h : PermitInv pc b) {p t : Int} (hcc : b.cc = .refill p t) (junk : Int) :
    b.sock.RefillInRange p t ∧ b.sock.refill p t junk = 20 - p - t := by
  obtain ⟨hp, ht, hle⟩ := h.refill p t hcc
  have hcwnd := h.cwnd (by rw [hcc]; rintro ⟨⟩)
  have hdiff : ((b.sock.cwnd : Int) - p - t) = 20 - p - t := by rw [hcwnd]; rfl
  have hnat : (toU64 (20 - p - t) : Int) = 20 - p - t := toU64_of_nonneg (by omega) (by omega)
  have hdouble : double (toU64 (20 - p - t)) = toU64 (20 - p - t) := double_natCast (by omega)
  have hmax : max (0 : ℚ) (toU64 (20 - p - t)) = (toU64 (20 - p - t) : ℚ) :=
    max_eq_right (Nat.cast_nonneg _)
  have hlt : (toU64 (20 - p - t) : ℚ) < 2 ^ 63 := by
    exact_mod_cast (show toU64 (20 - p - t) < 2 ^ 63 by omega)
  rw [ALCCSocket.RefillInRange, ALCCSocket.refill, hdiff]
  simp only [hdouble, hmax]
  refine ⟨hlt, ?_⟩
  rw [if_pos hlt, trunc, if_pos (Nat.cast_nonneg _), Int.floor_natCast, hnat]

/-- What `CC_logic` does, when it has not overlooked a packet as it adds the refill. -/
theorem ccStep {junk : Int} (h : PermitInv pc b)
    (hseen : ∀ p t, b.cc = .refill p t → outstanding pc b.sock ≤ p + t)
    (hs : b.ccStep junk terminateThreads = some b') : PermitInv pc b' := by
  have hledger := h.ledger.ccStep hs
  have hcwnd {cc : CCPc} (hcc : b.cc = cc) (hstart : cc ≠ .start) : b.sock.cwnd = 20 :=
    h.cwnd (hcc ▸ hstart)
  rw [Threads.ccStep] at hs
  split at hs
  case isFalse => cases hs
  split at hs
  case h_1 hcc =>
    cases hs
    exact of_ledger hledger h.owed h.total (fun _ => rfl) (by rintro p ⟨⟩) (by rintro p t ⟨⟩)
  case h_2 hcc =>
    cases hs
    refine of_ledger hledger h.owed h.total (fun _ => hcwnd hcc (by rintro ⟨⟩)) ?_ ?_
    · cases terminateThreads <;> rintro p ⟨⟩
    · cases terminateThreads <;> rintro p t ⟨⟩
  case h_3 hcc =>
    cases hs
    refine of_ledger hledger h.owed h.total (fun _ => hcwnd hcc (by rintro ⟨⟩)) ?_
      (by rintro p t ⟨⟩)
    rintro p ⟨⟩
    exact ⟨h.pktsInFlight_nonneg, h.tempS_add_le⟩
  case h_4 p hcc =>
    cases hs
    refine of_ledger hledger h.owed h.total (fun _ => hcwnd hcc (by rintro ⟨⟩)) (by rintro p ⟨⟩) ?_
    rintro p t ⟨⟩
    obtain ⟨hp, hle⟩ := h.readTempS p hcc
    exact ⟨hp, h.tempS_nonneg, by omega⟩
  case h_5 p t hcc =>
    cases hs
    obtain ⟨-, hamount⟩ := h.refill_eq hcc junk
    obtain ⟨-, -, hle⟩ := h.refill p t hcc
    have howed := h.owed
    have hseen := hseen p t hcc
    refine of_ledger hledger ?_ ?_ (fun _ => hcwnd hcc (by rintro ⟨⟩)) (by rintro p ⟨⟩)
      (by rintro p t ⟨⟩)
    · simp only [hamount]
      omega
    · simp only [outstanding, hamount] at hseen ⊢
      omega
  case h_6 => cases hs

end PermitInv

/-- The permits are in their range, and the refill to come converts no number out of range. -/
structure Safe (s : Connection α (Threads τ) τ) : Prop where
  tempS_nonneg : 0 ≤ s.sock.sock.tempS
  tempS_le : s.sock.sock.tempS ≤ 20
  cwnd : s.sock.cc ≠ .start → s.sock.sock.cwnd = 20
  refill : ∀ p t, s.sock.cc = .refill p t → s.sock.sock.RefillInRange p t

/-- When `CC_logic` adds the refill, the numbers `p` and `t` that it has read cover all packets and
permits. Fewer than `2 ^ 53` packets have been sent. -/
def Covered (s : Connection α (Threads τ) τ) (a : Action α Event τ) : Prop :=
  s.sock.sock.sentSeq < 2 ^ 53 ∧
    match a, s.sock.cc with
    | .thread (.cc _), .refill p t => outstanding s.pc s.sock.sock ≤ p + t
    | _, _ => True

instance (s : Connection α (Threads τ) τ) (a : Action α Event τ) : Decidable (Covered s a) := by
  unfold Covered
  split <;> infer_instance

theorem Covered.seen {s : Connection α (Threads τ) τ} {junk p t : Int}
    (h : Covered s (.thread (.cc junk))) (hcc : s.sock.cc = .refill p t) :
    outstanding s.pc s.sock.sock ≤ p + t := by
  have h := h.2
  simp only [hcc] at h
  exact h

theorem PermitInv.safe {s : Connection α (Threads τ) τ} (h : PermitInv s.pc s.sock) : Safe s where
  tempS_nonneg := h.tempS_nonneg
  tempS_le := by
    have := h.tempS_add_le
    have := h.pktsInFlight_nonneg
    omega
  cwnd := h.cwnd
  refill _ _ hcc := (h.refill_eq hcc 0).1

theorem PermitInv.step {s t : Connection α (Threads τ) τ} {a : Action α Event τ}
    (h : PermitInv s.pc s.sock) (hG : Covered s a) (hs : s.step (library τ) a = some t) :
    PermitInv t.pc t.sock := by
  rcases step_moves hs with ⟨now, ret, -, hmove⟩ | ⟨e, rfl, hthread, hpc⟩ | ⟨-, hpc, hsock⟩
  · exact h.sender hmove
  · rw [hpc]
    cases e with
    | receiver m => exact h.receiverStep hG.1 hthread
    | cc junk => exact h.ccStep (fun _ _ hcc => hG.seen hcc) hthread
  · rw [hpc, hsock]
    exact h

/-- **No refill goes astray** as long as `CC_logic` overlooks no packet. -/
theorem always_safe_of_covered {arr : List α} {data : Int → α} {port : UInt16} {cwnd : Nat}
    {acts : List (Action α Event τ)}
    (h : Guarded (step (library τ)) Covered (.init arr data (.new port cwnd)) acts) :
    Always (step (library τ)) Safe (.init arr data (.new port cwnd)) acts :=
  (h.always (I := fun s => PermitInv s.pc s.sock) (fun _ _ _ hI hG hs => hI.step hG hs)
    (PermitInv.new port cwnd)).imp fun _ h => h.safe

/-- A packet is sent and acknowledged, with two refills. -/
theorem safe_one_packet :
    Always (step (library Unit)) Safe (init (List.replicate 4 0) (fun _ => 0) (.new 50000 0))
      ([.alccSend [1] 1, .thread (.receiver none),
        .thread (.receiver (some ⟨CC_PORT, 50000, 1, 0⟩))] ++ List.replicate 4 (.sender () 1) ++
        List.replicate 5 (.thread (.cc 0)) ++ List.replicate 4 (.sender () 0) ++
        List.replicate 5 (.thread (.cc 0))) :=
  always_safe_of_covered (by decide +kernel)

/-- `CC_logic` refills between the two updates for a packet, and overlooks this packet. Its next
refill is 20 less 1 less 20. -/
theorem overlooked_packet_not_safe :
    ¬ Always (step (library Unit)) Safe (init (List.replicate 4 0) (fun _ => 0) (.new 50000 0))
      ([.alccSend [1] 1, .thread (.receiver none),
        .thread (.receiver (some ⟨CC_PORT, 50000, 1, 0⟩))] ++ List.replicate 3 (.sender () 0) ++
        [.sender () 1, .sender () 0, .sender () 0] ++ List.replicate 5 (.thread (.cc 0)) ++
        [.sender () 0] ++ List.replicate 3 (.thread (.cc 0))) :=
  fun h =>
    have hrun := (Option.some_get (by decide +kernel)).symm
    absurd ((h.last hrun).refill 1 20 (by decide +kernel)) (by decide +kernel)

end ALCC.Libalcc
