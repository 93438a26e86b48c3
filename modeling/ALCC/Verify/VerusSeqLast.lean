import ALCC.Verify.VerusServer

/-! The latest packet acknowledged, in the native Verus server. All packets after it are in
`sendingList`, so `createMissingPdu` finds those that an acknowledgement skips. A timeout and a loss
that ends slow start take the largest number in `sendingList` for the latest one. That number is
smaller if `sendingList` has only packets that were skipped before; otherwise `seqLast` never
decreases and every missing packet is found (`advances_iff`). -/

namespace ALCC.VerusServer

open Machine MachineInt Verus

namespace Accounts

variable {a b : Accounts} {pdu : UdpPacket} {k : Int} {n : Nat} {clock : Nat → Timeval}
  {stray : Int}

/-- Between the steps. -/
structure SeqInv (a : Accounts) : Prop where
  pktSeq : a.pktSeq < 2 ^ 31
  le : (a.seqLast : Int) ≤ a.pktSeq
  sent : ∀ n ∈ a.sendingList, (n : Int) ≤ a.pktSeq
  listed : ∀ n, a.seqLast < n → (n : Int) ≤ a.pktSeq → n ∈ a.sendingList
  numbered : a.Numbered a.seqLast
  missing : ∀ k pdu, a.missingsequence_queue.lookup k = some pdu → pdu.seq ∈ a.sendingList
  strays : a.strays = []

/-- The largest number in `sendingList`, if there is one, is not smaller than `seqLast`. -/
def LastListed (a : Accounts) : Prop := ∀ n ∈ a.sendingList.lastKey?, a.seqLast ≤ n

instance (a : Accounts) : Decidable a.LastListed := Option.decidableForallMem _

/-- `seqLast` after a timeout, and after a loss that ends slow start. -/
def last (a : Accounts) : Nat := a.sendingList.lastKey?.getD a.seqLast

theorem le_settle (n : Nat) : a.seqLast ≤ (a.settle n).seqLast := by
  rw [Accounts.settle]
  split
  · rename_i hle
    exact Nat.le_of_succ_le hle
  · exact le_rfl

namespace SeqInv

theorem seqLast_lt (h : SeqInv a) : a.seqLast < 2 ^ 31 := by
  have hpktSeq := h.pktSeq
  have hle := h.le
  omega

theorem release (h : SeqInv a) : SeqInv a.release :=
  ⟨h.pktSeq, h.le, h.sent, h.listed, h.numbered, h.missing, h.strays⟩

theorem send (h : SeqInv a) (hsend : a.pktSeq + 1 < 2 ^ 31) (w : Int) : SeqInv (a.send w) := by
  obtain ⟨n, hn⟩ : ∃ n : Nat, (n : Int) = a.pktSeq + 1 := by
    have hle := h.le
    exact ⟨(a.pktSeq + 1).toNat, Int.toNat_of_nonneg (by omega)⟩
  have hwire : toU64 (toI32 (a.pktSeq + 1)) = n := by
    rw [← hn]
    exact wire_eq (by omega)
  refine ⟨hsend, h.le.trans (Int.le_add_one le_rfl), fun m hm => ?_, fun m hlt hle => ?_,
    h.numbered, fun k pdu hk => ?_, h.strays⟩
  · simp only [Accounts.send, hwire, Finmap.mem_insert] at hm ⊢
    rcases hm with rfl | hm
    · exact hn.le
    · exact (h.sent m hm).trans (Int.le_add_one le_rfl)
  · simp only [Accounts.send, hwire, Finmap.mem_insert] at hlt hle ⊢
    by_cases hm : m = n
    · exact .inl hm
    · exact .inr (h.listed m hlt (by omega))
  · simp only [Accounts.send, Finmap.mem_insert]
    exact .inr (h.missing k pdu hk)

/-- A packet that is neither later than the latest one nor missing leaves `sendingList`. -/
theorem erase (h : SeqInv a) (hn : n ≤ a.seqLast) (hmissing : (n : Int) ∉ a.missingsequence_queue) :
    SeqInv { a with sendingList := a.sendingList.erase n } := by
  refine ⟨h.pktSeq, h.le, fun m hm => h.sent m (Finmap.mem_erase.mp hm).2, fun m hlt hle => ?_,
    h.numbered, fun k pdu hk => ?_, h.strays⟩
  · exact Finmap.mem_erase.mpr ⟨(lt_of_le_of_lt hn hlt).ne', h.listed m hlt hle⟩
  · refine Finmap.mem_erase.mpr ⟨?_, h.missing k pdu hk⟩
    rintro rfl
    rw [(h.numbered k pdu hk).1] at hk
    exact hmissing (Finmap.mem_of_lookup_eq_some hk)

theorem settle (h : SeqInv a) (hn : n ≤ a.seqLast)
    (hmissing : (n : Int) ∉ a.missingsequence_queue) : SeqInv (a.settle n) := by
  rw [settle_of_ge hn]
  exact h.erase hn hmissing

/-- A packet is no longer missing. -/
theorem leave (h : SeqInv a) (k : Int) :
    SeqInv { a with missingsequence_queue := a.missingsequence_queue.erase k } :=
  ⟨h.pktSeq, h.le, h.sent, h.listed, fun l v hl => h.numbered l v (Finmap.lookup_of_erase hl),
    fun l v hl => h.missing l v (Finmap.lookup_of_erase hl), h.strays⟩

theorem drop (h : SeqInv a) (hseq : pdu.seq ≤ a.seqLast) : SeqInv (a.drop pdu) := by
  rw [Accounts.drop, toI32_natCast (lt_of_le_of_lt hseq h.seqLast_lt)]
  exact ((h.leave pdu.seq).erase hseq Finmap.notMem_erase_self).release

theorem seq_lt_of_first? (h : SeqInv a) (hpdu : a.missingsequence_queue.first? = some pdu) :
    pdu.seq < a.seqLast := by
  obtain ⟨k, hk⟩ := Finmap.lookup_of_first? hpdu
  exact (h.numbered k pdu hk).2

/-- `rbegin` is not taken of an empty list when a packet has expired. -/
theorem exists_lastKey? (h : SeqInv a) (hpdu : a.missingsequence_queue.first? = some pdu) :
    ∃ n, a.sendingList.lastKey? = some n := by
  obtain ⟨k, hk⟩ := Finmap.lookup_of_first? hpdu
  cases hlast : a.sendingList.lastKey? with
  | none => exact absurd (h.missing k pdu hk) (Finmap.notMem_of_lastKey? hlast)
  | some n => exact ⟨n, rfl⟩

/-- The packet `n` is acknowledged, and the ones before it are missing. -/
theorem ahead (h : SeqInv a) (hlt : a.seqLast < n) (hle : (n : Int) ≤ a.pktSeq)
    (hb : Created (a.seqLast + 1) (n - (a.seqLast + 1)) a b) : SeqInv (b.release.settle n) := by
  have hsum : a.seqLast + 1 + (n - (a.seqLast + 1)) = n := by omega
  have hnumbered := hsum ▸ hb.numbered
  have hstrays : b.strays = a.strays := hb.strays fun i hi hin => h.listed i hi (by omega)
  have hpktSeq : b.pktSeq = a.pktSeq := by rw [hb.frame]
  have hlast : b.seqLast = a.seqLast := by rw [hb.frame]
  have hsent : b.sendingList = a.sendingList := by rw [hb.frame]
  rw [settle_of_lt (a := b.release) (hlast.trans_lt hlt)]
  refine ⟨?_, ?_, fun m hm => ?_, fun m hnm hm => ?_, hnumbered, fun k pdu hk => ?_, ?_⟩
  · exact hpktSeq.trans_lt h.pktSeq
  · exact hle.trans_eq hpktSeq.symm
  · rw [show b.release.sendingList = a.sendingList from hsent] at hm
    exact (h.sent m (Finmap.mem_erase.mp hm).2).trans_eq hpktSeq.symm
  · rw [show b.release.sendingList = a.sendingList from hsent]
    exact Finmap.mem_erase.mpr
      ⟨hnm.ne', h.listed m (hlt.trans hnm) (le_trans hm hpktSeq.le)⟩
  · rw [show b.release.sendingList = a.sendingList from hsent]
    have hseq : pdu.seq < n := (hnumbered k pdu hk).2
    refine Finmap.mem_erase.mpr ⟨hseq.ne, ?_⟩
    rcases hb.entries k pdu hk with hold | hnew
    · exact h.missing k pdu hold
    · exact h.listed pdu.seq hnew (by omega)
  · exact hstrays.trans h.strays

theorem acknowledge (h : SeqInv a) (hk : 1 ≤ k ∧ k ≤ a.pktSeq) (clock : Nat → Timeval)
    (stray : Int) : ∃ b, a.acknowledge clock stray (toU64 (toI32 k)) = some b ∧ SeqInv b ∧
      a.seqLast ≤ b.seqLast := by
  obtain ⟨n, rfl⟩ := Int.eq_ofNat_of_zero_le (show 0 ≤ k by omega)
  have hn : n < 2 ^ 31 := by
    have hpktSeq := h.pktSeq
    omega
  rw [wire_eq hn]
  rcases lt_trichotomy n a.seqLast with hlt | rfl | hgt
  · rw [Accounts.acknowledge, if_neg (by omega), if_pos hlt, toI32_natCast hn]
    split
    · exact ⟨_, rfl, (h.leave n).release.settle hlt.le Finmap.notMem_erase_self,
        le_settle (a := Accounts.release _) n⟩
    · rename_i hmissing
      exact ⟨_, rfl, h.settle hlt.le hmissing, le_settle n⟩
  · rw [acknowledge_repeated h.seqLast_lt]
    exact ⟨_, rfl, h.release.erase le_rfl h.numbered.notMem, le_rfl⟩
  · obtain ⟨b, hcreated, hb⟩ := acknowledge_ahead clock stray hgt hn h.numbered
    have hlast : b.seqLast = a.seqLast := by rw [hcreated.frame]
    exact ⟨_, hb, h.ahead hgt hk.2 hcreated, hlast.symm.trans_le (le_settle (a := b.release) n)⟩

theorem last_spec (h : SeqInv a) (hlast : a.LastListed) :
    a.seqLast ≤ a.last ∧ (a.last : Int) ≤ a.pktSeq ∧
      ∀ n, a.last < n → (n : Int) ≤ a.pktSeq → False := by
  rw [Accounts.last]
  cases hkey : a.sendingList.lastKey? with
  | none =>
    refine ⟨le_rfl, h.le, fun n hlt hle => ?_⟩
    exact Finmap.notMem_of_lastKey? hkey (h.listed n hlt hle)
  | some m =>
    have hm : a.seqLast ≤ m := hlast m hkey
    refine ⟨hm, h.sent m (Finmap.mem_of_lastKey? hkey), fun n hlt hle => ?_⟩
    have hlisted := h.listed n (lt_of_le_of_lt hm hlt) hle
    exact (Finmap.le_of_lastKey? hkey hlisted).not_gt hlt

/-- All packets are taken for acknowledged. -/
theorem reset (h : SeqInv a) (hlast : a.LastListed) {sendingList : Finmap fun _ : Nat => Int}
    (hsent : ∀ n ∈ sendingList, n ∈ a.sendingList) :
    SeqInv { a with wCrt := 0, seqLast := a.last, sendingList, missingsequence_queue := ∅ } := by
  obtain ⟨-, hle, hnone⟩ := h.last_spec hlast
  refine ⟨h.pktSeq, hle, fun n hn => h.sent n (hsent n hn), fun n hlt hn => ?_, fun k pdu hk => ?_,
    fun k pdu hk => ?_, h.strays⟩
  · exact (hnone n hlt hn).elim
  · cases hk
  · cases hk

end SeqInv

/-- The latest packet has only been dropped below what is listed when it decreases. -/
theorem last_lt (h : ¬ a.LastListed) : a.last < a.seqLast := by
  simp only [LastListed, not_forall] at h
  obtain ⟨n, hn, hlt⟩ := h
  rw [last, show a.sendingList.lastKey? = some n from hn]
  exact not_le.mp hlt

end Accounts

namespace Server

variable {s t : Server} {a : Action} {receivedtime : Timeval} {pdu : UdpPacket}

/-- What is acknowledged was sent, and the session goes on. -/
def InSession (s : Server) : Action → Prop
  | .ack k .. => 1 ≤ k ∧ k ≤ s.pktSeq
  | .timeout => s.seqLast ≠ 0
  | _ => True

/-- The number of the packet that is sent is an `int`. -/
def InRange (s : Server) : Action → Prop
  | .send => s.pktSeq + 1 < 2 ^ 31
  | _ => True

/-- A timeout outside slow start and a loss that ends slow start find the largest number in
`sendingList` not smaller than `seqLast`. -/
def KeepsLast (s : Server) : Action → Prop
  | .expire receivedtime => s.ExitsByLoss receivedtime → s.LastListed
  | .timeout => s.slowStart = false → s.LastListed
  | _ => True

/-- The step ends, `seqLast` does not decrease, and every packet that is created as missing was
found in `sendingList`. -/
def Advances (s : Server) (a : Action) : Prop :=
  ∃ t, s.step a = some t ∧ s.seqLast ≤ t.seqLast ∧ t.strays = []

instance (s : Server) : DecidablePred s.InSession
  | .ack .. => inferInstanceAs (Decidable (_ ∧ _))
  | .timeout => inferInstanceAs (Decidable (_ ≠ _))
  | .send | .expire _ | .control _ => .isTrue trivial

instance (s : Server) : DecidablePred s.InRange
  | .send => inferInstanceAs (Decidable (_ < _))
  | .ack .. | .expire _ | .timeout | .control _ => .isTrue trivial

instance (s : Server) : DecidablePred s.KeepsLast
  | .expire _ | .timeout => inferInstanceAs (Decidable (_ → _))
  | .send | .ack .. | .control _ => .isTrue trivial

theorem lose_of_exits (h : s.ExitsBy pdu) : (s.lose pdu).toAccounts =
    { s.toAccounts with wCrt := 0, seqLast := s.last, missingsequence_queue := ∅ } := by
  have haccounts := decrease_toAccounts (s := s) pdu.w
  rw [lose]
  refine (congrArg Server.toAccounts (if_pos h)).trans ?_
  simp only [haccounts]
  rfl

/-- A loss that ends slow start sets `seqLast` for good. -/
theorem removeExpired_of_exits (hpdu : s.Expires receivedtime pdu) (hexits : s.ExitsBy pdu) :
    (s.removeExpiredPacketsFromSeqQueue receivedtime).seqLast = s.last := by
  obtain ⟨k, hk⟩ := Finmap.lookup_of_first? hpdu.1
  obtain ⟨rounds, hrounds⟩ := Nat.exists_eq_succ_of_ne_zero
    (Finmap.size_pos (Finmap.mem_of_lookup_eq_some hk)).ne'
  rw [removeExpiredPacketsFromSeqQueue, hrounds, expireLoop, hpdu.1]
  simp only [if_pos hpdu.2]
  apply expireLoop_keep (P := fun a => a.seqLast = s.last)
  · exact fun a pdu h _ => h
  · exact congrArg Accounts.seqLast (lose_of_exits hexits)

theorem seqInv_expire (h : s.toAccounts.SeqInv) (ha : s.KeepsLast (.expire receivedtime)) :
    (s.removeExpiredPacketsFromSeqQueue receivedtime).toAccounts.SeqInv ∧
      s.seqLast ≤ (s.removeExpiredPacketsFromSeqQueue receivedtime).seqLast := by
  apply removeExpired_keep (P := fun a => a.SeqInv ∧ s.seqLast ≤ a.seqLast) ⟨h, le_rfl⟩
  · rintro pdu ⟨hpdu, hexpired⟩
    have hseq := h.seq_lt_of_first? hpdu
    by_cases hexits : s.ExitsBy pdu
    · have hlast := ha ⟨pdu, hpdu, hexpired, hexits⟩
      have hle := (h.last_spec hlast).1
      rw [lose_of_exits hexits]
      exact ⟨(h.reset hlast fun _ hn => hn).drop (hseq.le.trans hle), hle⟩
    · rw [lose_toAccounts hexits]
      exact ⟨h.drop hseq.le, le_rfl⟩
  · rintro a pdu ⟨h, hle⟩ hpdu
    exact ⟨h.drop (h.seq_lt_of_first? hpdu).le, hle⟩

theorem seqInv_timeout (h : s.toAccounts.SeqInv) (ha : s.KeepsLast .timeout) :
    s.timeoutHandler.toAccounts.SeqInv ∧ s.seqLast ≤ s.timeoutHandler.seqLast := by
  rw [timeoutHandler]
  split
  · exact ⟨h, le_rfl⟩
  · rename_i hslow
    have hlast := ha (Bool.eq_false_iff.mpr hslow)
    exact ⟨h.reset hlast nofun, (h.last_spec hlast).1⟩

/-- Every step ends in the invariant. -/
theorem seqInv_step (h : s.toAccounts.SeqInv) (hsession : s.InSession a ∧ s.InRange a)
    (ha : s.KeepsLast a) :
    ∃ t, s.step a = some t ∧ t.toAccounts.SeqInv ∧ s.seqLast ≤ t.seqLast := by
  cases a with
  | send => exact ⟨_, rfl, h.send hsession.2 _, le_rfl⟩
  | ack k w seconds millis receivedtime clock stray =>
    obtain ⟨b, hb, hinv, hle⟩ := h.acknowledge hsession.1 clock stray
    have haccounts := s.step_ack k w seconds millis receivedtime clock stray
    obtain ⟨t, ht, rfl⟩ := Option.map_eq_some_iff.mp (haccounts.trans hb)
    exact ⟨t, ht, hinv, hle⟩
  | expire receivedtime => exact ⟨_, rfl, seqInv_expire h ha⟩
  | timeout => exact ⟨_, if_neg hsession.1, seqInv_timeout h ha⟩
  | control window => exact ⟨_, rfl, h, le_rfl⟩

theorem not_advances (hsession : s.InSession a) (ha : ¬ s.KeepsLast a) : ¬ s.Advances a := by
  rintro ⟨t, ht, hle, -⟩
  cases a with
  | expire receivedtime =>
    obtain ⟨⟨pdu, hpdu, hexpired, hexits⟩, hlast⟩ := Classical.not_imp.mp ha
    cases ht
    rw [removeExpired_of_exits ⟨hpdu, hexpired⟩ hexits] at hle
    exact hle.not_gt (Accounts.last_lt hlast)
  | timeout =>
    obtain ⟨hslow, hlast⟩ := Classical.not_imp.mp ha
    cases (if_neg hsession).symm.trans ht
    rw [timeoutHandler, if_neg (Bool.eq_false_iff.mp hslow)] at hle
    exact hle.not_gt (Accounts.last_lt hlast)
  | send | ack _ _ _ _ _ _ _ | control _ => exact ha trivial

theorem seqInv_start : start.toAccounts.SeqInv := by
  refine ⟨by decide, le_rfl, nofun, fun n hlt hle => ?_, nofun, nofun, rfl⟩
  exact absurd (Int.ofNat_lt.mpr hlt) (not_lt.mpr hle)

/-- **The latest packet never goes back.** Within a session of fewer than `2 ^ 31` packets,
`seqLast` never decreases and every missing packet is found in `sendingList`, exactly if the
timeouts and the losses that end slow start find a number in `sendingList` that is not smaller than
`seqLast`. -/
theorem advances_iff {actions : List Action}
    (h : Guarded step (fun s a => s.InSession a ∧ s.InRange a) start actions) :
    Guarded step Advances start actions ↔ Guarded step KeepsLast start actions := by
  apply h.guarded_iff (I := fun s => s.toAccounts.SeqInv)
  · refine fun s a hs hsession => ⟨fun hadv => ?_, fun ha => ?_⟩
    · by_contra ha
      exact not_advances hsession.1 ha hadv
    · obtain ⟨t, ht, hinv, hle⟩ := seqInv_step hs hsession ha
      exact ⟨t, ht, hle, hinv.strays⟩
  · intro s a t hs hsession ha ht
    obtain ⟨u, hu, hinv, -⟩ := seqInv_step hs hsession ha
    cases ht.symm.trans hu
    exact hinv
  · exact seqInv_start

/-- Two timeouts while the third packet is in flight. -/
theorem advances_timeout : Guarded step Advances start
    [.send, .send, .send, ackAt 1 ⟨0, 0⟩, ackAt 2 ⟨0, 0⟩, .timeout, .timeout, .send,
      ackAt 4 ⟨0, 0⟩] :=
  (advances_iff (by decide +kernel)).mpr (by decide +kernel)

/-- Two timeouts while the second packet is missing, and the third one was acknowledged. -/
def secondMissing : List Action :=
  [.send, .send, .send, ackAt 1 ⟨0, 0⟩, ackAt 3 ⟨0, 0⟩, .timeout, .timeout]

/-- The second timeout takes the latest packet back to 2, so that the third one counts as missing
when the fourth one is acknowledged. -/
theorem seqLast_decreases :
    (run step start (secondMissing.take 6)).map (·.seqLast) = some 3 ∧
      (run step start secondMissing).map (·.seqLast) = some 2 ∧
      (run step start (secondMissing ++ [.send, ackAt 4 ⟨0, 0⟩])).map (·.strays) = some [3] := by
  decide +kernel

/-- **No expired packet is left in front.** In every state of such a session in which `seqLast` does
not go back, the loop over the missing packets ends at one that has not expired, or when there is
none, and `rbegin` is not taken of an empty list. -/
theorem expired_removed {actions : List Action}
    (h : Guarded step (fun s a => (s.InSession a ∧ s.InRange a) ∧ s.KeepsLast a) start actions)
    (hrun : run step start actions = some s) (receivedtime : Timeval) (pdu : UdpPacket) :
    ¬ (s.removeExpiredPacketsFromSeqQueue receivedtime).Expires receivedtime pdu ∧
      (s.Expires receivedtime pdu → ∃ n, s.sendingList.lastKey? = some n) := by
  have hinv : s.toAccounts.SeqInv :=
    h.invariant (I := fun s => s.toAccounts.SeqInv) (fun s a t hs ha hstep => by
      obtain ⟨u, hu, hinv, -⟩ := seqInv_step hs ha.1 ha.2
      cases hstep.symm.trans hu
      exact hinv) seqInv_start hrun
  exact ⟨not_expires_removeExpired hinv.numbered hinv.seqLast_lt.le pdu,
    fun hexpires => hinv.exists_lastKey? hexpires.1⟩

/-- The second packet is missing for a second. -/
theorem expired_removed_second : ∃ s pdu,
    run step start [.send, .send, .send, ackAt 1 ⟨0, 0⟩, ackAt 3 ⟨0, 0⟩] = some s ∧
      s.Expires ⟨1, 0⟩ pdu ∧
      ¬ (s.removeExpiredPacketsFromSeqQueue ⟨1, 0⟩).Expires ⟨1, 0⟩ pdu := by
  have h : (run step start [.send, .send, .send, ackAt 1 ⟨0, 0⟩, ackAt 3 ⟨0, 0⟩]).any fun s =>
      s.missingsequence_queue.first?.any fun pdu =>
        MISSING_PKT_EXPIRY ≤ pdu.delay ⟨1, 0⟩ := by
    decide +kernel
  obtain ⟨s, hrun, hs⟩ := (Option.any_eq_true _ _).mp h
  obtain ⟨pdu, hpdu, hexpired⟩ := (Option.any_eq_true _ _).mp hs
  exact ⟨s, pdu, hrun, ⟨hpdu, of_decide_eq_true hexpired⟩,
    (expired_removed (by decide +kernel) hrun ⟨1, 0⟩ pdu).1⟩

end Server

end ALCC.VerusServer
