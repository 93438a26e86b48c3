import ALCC.Model.VerusServer
import ALCC.Theory.Run

/-! The packets in flight of the native Verus server. A packet leaves `wCrt` when it is acknowledged
in order, acknowledged late, or declared lost. A second acknowledgement of the latest packet takes
the branch for a gap, where it leaves `wCrt` once more; without one the count is right in every
state (`balanced_iff`). -/

namespace ALCC.VerusServer

open Machine MachineInt Verus

/-- The number of a packet as it is sent, and as the acknowledgement has it. -/
theorem wire_cases {k : Int} (hk : 1 ≤ k) :
    toU64 (toI32 k) < 2 ^ 31 ∧ (toU64 (toI32 k) : Int) ≤ k ∨ 2 ^ 32 ≤ toU64 (toI32 k) := by
  rw [toU64, toI32]
  omega

theorem wire_eq {i : Nat} (hi : i < 2 ^ 31) : toU64 (toI32 i) = i := by
  rw [toU64, toI32]
  omega

theorem toI32_natCast {i : Nat} (hi : i < 2 ^ 31) : toI32 i = i :=
  toI32_of_mem (by omega) (by omega)

namespace Accounts

variable {a b : Accounts} {pdu : UdpPacket} {seq : Nat} {k : Int} {clock : Nat → Timeval}
  {stray : Int}

/-- A round of `receiver_thread` on the accounts. -/
def acknowledge (clock : Nat → Timeval) (stray : Int) (seq : Nat) (a : Accounts) :
    Option Accounts :=
  if seq = a.seqLast + 1 then
    some (a.release.settle seq)
  else if seq < a.seqLast then
    if toI32 seq ∈ a.missingsequence_queue then
      let a := { a with missingsequence_queue := a.missingsequence_queue.erase (toI32 seq) }
      some (a.release.settle seq)
    else
      some (a.settle seq)
  else
    (a.createMissingPdus clock stray seq).map (·.release.settle seq)

theorem release_of_pos (h : 0 < a.wCrt) : a.release = { a with wCrt := a.wCrt - 1 } := by
  rw [release, if_pos h]

theorem release_of_nonpos (h : a.wCrt ≤ 0) : a.release = a := by
  rw [release, if_neg (not_lt.mpr h)]

theorem settle_of_lt (h : a.seqLast < seq) :
    a.settle seq = { a with seqLast := seq, sendingList := a.sendingList.erase seq } := by
  rw [settle, if_pos (Nat.succ_le_of_lt h)]

theorem settle_of_ge (h : seq ≤ a.seqLast) :
    a.settle seq = { a with sendingList := a.sendingList.erase seq } := by
  rw [settle, if_neg (by omega)]

/-- The entries of `missingsequence_queue` have the packets' numbers, and these are below `bound`.
-/
def Numbered (bound : Nat) (a : Accounts) : Prop :=
  ∀ k pdu, a.missingsequence_queue.lookup k = some pdu → k = pdu.seq ∧ pdu.seq < bound

theorem Numbered.notMem {bound : Nat} (h : a.Numbered bound) :
    (bound : Int) ∉ a.missingsequence_queue := by
  intro hmem
  obtain ⟨pdu, hpdu⟩ := Finmap.mem_iff.mp hmem
  obtain ⟨hk, hlt⟩ := h _ pdu hpdu
  omega

theorem Numbered.mono {m n : Nat} (h : a.Numbered m) (hmn : m ≤ n) : a.Numbered n :=
  fun k pdu hk => ⟨(h k pdu hk).1, lt_of_lt_of_le (h k pdu hk).2 hmn⟩

/-- The missing packets are created from `first` on. -/
structure Created (first n : Nat) (a b : Accounts) : Prop where
  frame : b = { a with missingsequence_queue := b.missingsequence_queue, strays := b.strays }
  size : b.missingsequence_queue.size = a.missingsequence_queue.size + n
  numbered : b.Numbered (first + n)
  entries : ∀ k pdu, b.missingsequence_queue.lookup k = some pdu →
    a.missingsequence_queue.lookup k = some pdu ∨ first ≤ pdu.seq
  strays : (∀ i, first ≤ i → i < first + n → i ∈ a.sendingList) → b.strays = a.strays

theorem Created.refl {first : Nat} (hnum : a.Numbered first) : Created first 0 a a :=
  ⟨rfl, rfl, hnum, fun _ _ hk => .inl hk, fun _ => rfl⟩

theorem created_createMissingPdu {first : Nat} (currentTime : Timeval) (stray : Int)
    (hbound : first < 2 ^ 31) (hnum : a.Numbered first) :
    Created first 1 a (a.createMissingPdu currentTime stray (toI32 first)) := by
  have hwire : toU64 first = first := toI32_natCast hbound ▸ wire_eq hbound
  rw [toI32_natCast hbound]
  have hentries : ∀ k pdu,
      (a.createMissingPdu currentTime stray first).missingsequence_queue.lookup k = some pdu →
        k = first ∧ pdu.seq = first ∨ a.missingsequence_queue.lookup k = some pdu := by
    intro k pdu hpdu
    simp only [createMissingPdu, hwire] at hpdu
    by_cases hk : k = first
    · rw [hk, Finmap.lookup_insert] at hpdu
      cases hpdu
      exact .inl ⟨hk, rfl⟩
    · rw [Finmap.lookup_insert_of_ne _ hk] at hpdu
      exact .inr hpdu
  refine ⟨rfl, Finmap.size_insert hnum.notMem, ?_, ?_, fun hlisted => ?_⟩
  · intro k pdu hpdu
    rcases hentries k pdu hpdu with ⟨hk, hseq⟩ | hold
    · exact ⟨hseq ▸ hk, hseq ▸ Nat.lt_succ_self first⟩
    · exact hnum.mono (Nat.le_succ first) k pdu hold
  · intro k pdu hpdu
    rcases hentries k pdu hpdu with ⟨-, hseq⟩ | hold
    · exact .inr hseq.ge
    · exact .inl hold
  · have hmem : first ∈ a.sendingList := hlisted first le_rfl (Nat.lt_succ_self first)
    simp only [createMissingPdu, hwire, if_pos hmem]

theorem created_foldl {first n : Nat} (hbound : first + n ≤ 2 ^ 31) (hnum : a.Numbered first) :
    Created first n a ((List.range' first n).foldl
      (fun a i => a.createMissingPdu (clock i) stray (toI32 i)) a) := by
  induction n generalizing first a with
  | zero => exact .refl hnum
  | succ n ih =>
    have hone := created_createMissingPdu (clock first) stray (show first < 2 ^ 31 by omega) hnum
    rw [List.range'_succ, List.foldl_cons]
    generalize a.createMissingPdu (clock first) stray (toI32 first) = c at hone
    have hrest := ih (show first + 1 + n ≤ 2 ^ 31 by omega) hone.numbered
    refine ⟨?_, ?_, ?_, fun k pdu hk => ?_, fun hlisted => ?_⟩
    · rw [hrest.frame, hone.frame]
    · rw [hrest.size, hone.size, Nat.add_assoc, Nat.add_comm 1 n]
    · rw [Nat.add_comm n 1, ← Nat.add_assoc]
      exact hrest.numbered
    · rcases hrest.entries k pdu hk with hk | hle
      · exact hone.entries k pdu hk
      · exact .inr (Nat.le_of_succ_le hle)
    · have hsent : c.sendingList = a.sendingList := by rw [hone.frame]
      have hfirst : c.strays = a.strays := hone.strays fun i hi hlt => hlisted i hi (by omega)
      refine (hrest.strays fun i hi hlt => ?_).trans hfirst
      rw [hsent]
      exact hlisted i (by omega) (by omega)

/-- The loop over the missing packets. -/
theorem created_createMissingPdus (clock : Nat → Timeval) (stray : Int)
    (hlast : a.seqLast < 2 ^ 31) (hseq : seq < 2 ^ 31)
    (hnum : a.Numbered a.seqLast) :
    ∃ b, a.createMissingPdus clock stray seq = some b ∧
      Created (a.seqLast + 1) (seq - (a.seqLast + 1)) a b := by
  have hfirst : (a.seqLast + 1) % 2 ^ 32 = a.seqLast + 1 := Nat.mod_eq_of_lt (by omega)
  rw [createMissingPdus, if_pos (show seq < 2 ^ 32 by omega), hfirst]
  exact ⟨_, rfl, created_foldl (by omega) (hnum.mono (Nat.le_succ _))⟩

/-- A packet is acknowledged, and the ones before it are missing. -/
theorem acknowledge_ahead (clock : Nat → Timeval) (stray : Int) (hlt : a.seqLast < seq)
    (hseq : seq < 2 ^ 31) (hnum : a.Numbered a.seqLast) :
    ∃ b, Created (a.seqLast + 1) (seq - (a.seqLast + 1)) a b ∧
      a.acknowledge clock stray seq = some (b.release.settle seq) := by
  by_cases hnext : seq = a.seqLast + 1
  · rw [acknowledge, if_pos hnext, hnext, Nat.sub_self]
    exact ⟨a, .refl (hnum.mono (Nat.le_succ _)), rfl⟩
  · obtain ⟨b, hb, hcreated⟩ := created_createMissingPdus clock stray (hlt.trans hseq) hseq hnum
    rw [acknowledge, if_neg hnext, if_neg hlt.not_gt, hb]
    exact ⟨b, hcreated, rfl⟩

/-- The number of a packet from `2 ^ 31` on is too large for the loop. -/
theorem acknowledge_endless (hlast : a.seqLast < 2 ^ 31) (hseq : 2 ^ 32 ≤ seq) :
    a.acknowledge clock stray seq = none := by
  rw [acknowledge, if_neg (by omega), if_neg (by omega), createMissingPdus,
    if_neg (not_lt.mpr hseq), Option.map_none]

/-- A second acknowledgement of the latest packet. -/
theorem acknowledge_repeated (hlast : a.seqLast < 2 ^ 31) :
    a.acknowledge clock stray a.seqLast =
      some { a.release with sendingList := a.sendingList.erase a.seqLast } := by
  have hfirst : (a.seqLast + 1) % 2 ^ 32 = a.seqLast + 1 := Nat.mod_eq_of_lt (by omega)
  rw [acknowledge, if_neg (Nat.lt_succ_self _).ne, if_neg (lt_irrefl _), createMissingPdus,
    if_pos (show a.seqLast < 2 ^ 32 by omega), hfirst, Nat.sub_eq_zero_of_le (Nat.le_succ _)]
  exact congrArg some (settle_of_ge (a := a.release) le_rfl)

/-- When a missing packet is dropped, fewer are left. They were missing before, unless all were
forgotten. -/
theorem drop_missing {bound : Nat} (hnum : a.Numbered bound) (hbound : bound ≤ 2 ^ 31)
    (hk : a.missingsequence_queue.lookup k = some pdu)
    (hmissing : b.missingsequence_queue = a.missingsequence_queue ∨ b.missingsequence_queue = ∅) :
    (b.drop pdu).Numbered bound ∧
      (b.drop pdu).missingsequence_queue.size < a.missingsequence_queue.size := by
  have hmem := Finmap.mem_of_lookup_eq_some hk
  obtain ⟨rfl, hlt⟩ := hnum k pdu hk
  have hdropped : (b.drop pdu).missingsequence_queue =
      b.missingsequence_queue.erase (pdu.seq : Int) := by
    rw [← toI32_natCast (hlt.trans_le hbound)]
    rfl
  rcases hmissing with hsame | hempty
  · rw [hsame] at hdropped
    refine ⟨fun l v hl => ?_, ?_⟩
    · rw [hdropped] at hl
      exact hnum l v (Finmap.lookup_of_erase hl)
    · rw [hdropped]
      exact Nat.lt_of_succ_le (Finmap.size_erase hmem).le
  · rw [hempty] at hdropped
    refine ⟨fun l v hl => ?_, ?_⟩
    · rw [hdropped] at hl
      cases Finmap.lookup_of_erase hl
    · rw [hdropped, Finmap.size, Finmap.keys_erase]
      exact Finmap.size_pos hmem

/-- Every packet in flight is counted, whether it is later than the latest one acknowledged or
missing. -/
def Balanced (a : Accounts) : Prop :=
  a.wCrt = a.pktSeq - a.seqLast + a.missingsequence_queue.size

instance (a : Accounts) : Decidable a.Balanced := inferInstanceAs (Decidable (_ = _))

/-- Between the steps. -/
structure CountInv (a : Accounts) : Prop where
  balanced : a.Balanced
  le : (a.seqLast : Int) ≤ a.pktSeq
  lt : a.seqLast < 2 ^ 31
  numbered : a.Numbered a.seqLast

namespace CountInv

theorem send (h : CountInv a) (w : Int) : CountInv (a.send w) := by
  have hbalanced := h.balanced
  refine ⟨?_, h.le.trans (Int.le_add_one le_rfl), h.lt, h.numbered⟩
  simp only [Balanced, Accounts.send] at hbalanced ⊢
  omega

/-- A packet leaves `missingsequence_queue`. -/
theorem leave (h : CountInv a) (hk : a.missingsequence_queue.lookup k = some pdu) :
    CountInv { a with missingsequence_queue := a.missingsequence_queue.erase k }.release := by
  have hmem := Finmap.mem_of_lookup_eq_some hk
  have hsize := Finmap.size_erase hmem
  have hbalanced : a.wCrt = a.pktSeq - a.seqLast + a.missingsequence_queue.size := h.balanced
  have hle := h.le
  rw [release_of_pos (by simp only; omega)]
  refine ⟨?_, h.le, h.lt, fun l v hl => h.numbered l v (Finmap.lookup_of_erase hl)⟩
  simp only [Balanced]
  omega

theorem sendingList (h : CountInv a) (sendingList : Finmap fun _ : Nat => Int) :
    CountInv { a with sendingList } := ⟨h.balanced, h.le, h.lt, h.numbered⟩

theorem settle (h : CountInv a) (hle : seq ≤ a.seqLast) : CountInv (a.settle seq) := by
  rw [settle_of_ge hle]
  exact h.sendingList _

theorem drop (h : CountInv a) (hpdu : a.missingsequence_queue.first? = some pdu) :
    CountInv (a.drop pdu) := by
  obtain ⟨k, hk⟩ := Finmap.lookup_of_first? hpdu
  obtain ⟨rfl, hlt⟩ := h.numbered k pdu hk
  rw [Accounts.drop, toI32_natCast (hlt.trans h.lt)]
  exact (h.sendingList (a.sendingList.erase pdu.seq)).leave hk

/-- The packet `seq` is acknowledged, and the ones before it are missing. -/
theorem ahead (h : CountInv a) (hlt : a.seqLast < seq) (hle : (seq : Int) ≤ a.pktSeq)
    (hseq : seq < 2 ^ 31) (hb : Created (a.seqLast + 1) (seq - (a.seqLast + 1)) a b) :
    CountInv (b.release.settle seq) := by
  have hsum : a.seqLast + 1 + (seq - (a.seqLast + 1)) = seq := by omega
  have hsize := hb.size
  have hnumbered := hsum ▸ hb.numbered
  have hbalanced : a.wCrt = a.pktSeq - a.seqLast + a.missingsequence_queue.size := h.balanced
  have hwCrt : b.wCrt = a.wCrt := by rw [hb.frame]
  have hpktSeq : b.pktSeq = a.pktSeq := by rw [hb.frame]
  have hlast : b.seqLast = a.seqLast := by rw [hb.frame]
  rw [release_of_pos (by omega), settle_of_lt (by simp only; omega)]
  refine ⟨?_, ?_, hseq, hnumbered⟩
  · simp only [Balanced]
    omega
  · simp only
    omega

theorem acknowledge (h : CountInv a) (hk : 1 ≤ k ∧ k ≤ a.pktSeq)
    (hrepeat : toU64 (toI32 k) = a.seqLast → a.wCrt ≤ 0)
    (hb : a.acknowledge clock stray (toU64 (toI32 k)) = some b) : CountInv b := by
  have hlast := h.lt
  generalize hwire : toU64 (toI32 k) = seq at hrepeat hb
  have hcases := wire_cases hk.1
  rw [hwire] at hcases
  rcases lt_trichotomy seq a.seqLast with hlt | rfl | hgt
  · rw [Accounts.acknowledge, if_neg (by omega), if_pos hlt] at hb
    split at hb <;> cases hb
    · rename_i hmem
      obtain ⟨pdu, hpdu⟩ := Finmap.mem_iff.mp hmem
      exact (h.leave hpdu).settle hlt.le
    · exact h.settle hlt.le
  · rw [acknowledge_repeated hlast, release_of_nonpos (hrepeat rfl)] at hb
    cases hb
    exact h.sendingList _
  · rcases hcases with ⟨hseq, hle⟩ | hlarge
    · obtain ⟨c, hcreated, hc⟩ := acknowledge_ahead clock stray hgt hseq h.numbered
      cases hb.symm.trans hc
      exact h.ahead hgt (hle.trans hk.2) hseq hcreated
    · rw [acknowledge_endless hlast hlarge] at hb
      cases hb

end CountInv

end Accounts

namespace Server

variable {s t : Server} {a : Action} {receivedtime : Timeval}

theorem exitSlowStart_toAccounts (delay : ℚ) (w : Int) :
    (s.exitSlowStart delay w).toAccounts = s.toAccounts := by
  rw [exitSlowStart]
  split <;> rfl

theorem exitLossPhase_toAccounts (w : Int) : (s.exitLossPhase w).toAccounts = s.toAccounts := by
  rw [exitLossPhase]
  split <;> rfl

theorem decrease_toAccounts (w : Int) : (s.decrease w).toAccounts = s.toAccounts := by
  rw [decrease]
  split <;> rfl

theorem acknowledge_toAccounts (delay : ℚ) (pdu : UdpPacket) (clock : Nat → Timeval)
    (stray : Int) :
    (s.acknowledge delay pdu clock stray).map (fun t => (t.settle pdu.seq).toAccounts) =
      s.toAccounts.acknowledge clock stray pdu.seq := by
  simp only [acknowledge, Accounts.acknowledge]
  split_ifs
  · rfl
  · rfl
  · rfl
  · rw [Option.map_map]
    rfl

/-- The accounts after a round of `receiver_thread` do not depend on the window. -/
theorem receive_toAccounts (pdu : UdpPacket) (clock : Nat → Timeval) (stray : Int) :
    (s.receive pdu receivedtime clock stray).map Server.toAccounts =
      s.toAccounts.acknowledge clock stray pdu.seq := by
  simp only [receive, Option.map_map]
  rw [← exitSlowStart_toAccounts (s := s) (pdu.delay receivedtime) pdu.w,
    ← exitLossPhase_toAccounts pdu.w]
  exact acknowledge_toAccounts _ pdu clock stray

/-- What a step with an acknowledgement does to the accounts depends only on its number. -/
theorem step_ack (s : Server) (k w seconds millis : Int) (receivedtime : Timeval)
    (clock : Nat → Timeval) (stray : Int) :
    (s.step (.ack k w seconds millis receivedtime clock stray)).map Server.toAccounts =
      s.toAccounts.acknowledge clock stray (toU64 (toI32 k)) :=
  receive_toAccounts _ clock stray

/-- What dropping packets keeps, the loop of `removeExpiredPacketsFromSeqQueue` keeps. -/
theorem expireLoop_keep {P : Accounts → Prop}
    (hdrop : ∀ a pdu, P a → a.missingsequence_queue.first? = some pdu → P (a.drop pdu))
    (rounds : Nat) (h : P s.toAccounts) : P (s.expireLoop receivedtime rounds true).toAccounts := by
  induction rounds generalizing s with
  | zero => exact h
  | succ rounds ih =>
    rw [expireLoop]
    split
    · exact h
    · rename_i pdu hpdu
      split
      · exact ih (hdrop _ pdu h hpdu)
      · exact h

/-- The first packet of `missingsequence_queue` has expired. -/
def Expires (s : Server) (receivedtime : Timeval) (pdu : UdpPacket) : Prop :=
  s.missingsequence_queue.first? = some pdu ∧ MISSING_PKT_EXPIRY ≤ pdu.delay receivedtime

theorem removeExpired_keep {P : Accounts → Prop} (h : P s.toAccounts)
    (hfirst : ∀ pdu, s.Expires receivedtime pdu → P ((s.lose pdu).toAccounts.drop pdu))
    (hdrop : ∀ a pdu, P a → a.missingsequence_queue.first? = some pdu → P (a.drop pdu)) :
    P (s.removeExpiredPacketsFromSeqQueue receivedtime).toAccounts := by
  rw [removeExpiredPacketsFromSeqQueue]
  cases s.missingsequence_queue.size with
  | zero => exact h
  | succ rounds =>
    rw [expireLoop]
    split
    · exact h
    · rename_i pdu hpdu
      split
      · rename_i hexpired
        exact expireLoop_keep hdrop rounds (hfirst pdu ⟨hpdu, hexpired⟩)
      · exact h

theorem lose_missing (pdu : UdpPacket) :
    (s.lose pdu).missingsequence_queue = s.missingsequence_queue ∨
      (s.lose pdu).missingsequence_queue = ∅ := by
  rw [lose]
  split
  · exact .inr rfl
  · exact .inl (congrArg Accounts.missingsequence_queue (decrease_toAccounts pdu.w))

/-- As many rounds as there are missing packets are enough for the loop. -/
theorem not_expires_expireLoop {bound rounds : Nat} {timerExpiry : Bool}
    (hnum : s.toAccounts.Numbered bound) (hbound : bound ≤ 2 ^ 31)
    (hrounds : s.missingsequence_queue.size ≤ rounds) (pdu : UdpPacket) :
    ¬ (s.expireLoop receivedtime rounds timerExpiry).Expires receivedtime pdu := by
  induction rounds generalizing s timerExpiry with
  | zero =>
    rintro ⟨hpdu, -⟩
    obtain ⟨k, hk⟩ := Finmap.lookup_of_first? hpdu
    exact (Finmap.size_pos (Finmap.mem_of_lookup_eq_some hk)).not_ge hrounds
  | succ rounds ih =>
    rw [expireLoop]
    split
    · rename_i hnone
      rintro ⟨hpdu, -⟩
      rw [hnone] at hpdu
      cases hpdu
    · rename_i pdu' hpdu'
      split
      · obtain ⟨k, hk⟩ := Finmap.lookup_of_first? hpdu'
        have hmissing : (if timerExpiry then s else s.lose pdu').missingsequence_queue =
            s.missingsequence_queue ∨
            (if timerExpiry then s else s.lose pdu').missingsequence_queue = ∅ := by
          cases timerExpiry with
          | false => exact s.lose_missing pdu'
          | true => exact .inl rfl
        generalize (if timerExpiry then s else s.lose pdu') = t at hmissing
        obtain ⟨hnumbered, hsize⟩ := Accounts.drop_missing hnum hbound hk hmissing
        exact ih hnumbered (Nat.le_of_lt_succ (hsize.trans_le hrounds))
      · rename_i hexpired
        rintro ⟨hpdu, hle⟩
        cases hpdu'.symm.trans hpdu
        exact hexpired hle

/-- `removeExpiredPacketsFromSeqQueue` leaves no expired packet in front. -/
theorem not_expires_removeExpired {bound : Nat} (hnum : s.toAccounts.Numbered bound)
    (hbound : bound ≤ 2 ^ 31) (pdu : UdpPacket) :
    ¬ (s.removeExpiredPacketsFromSeqQueue receivedtime).Expires receivedtime pdu :=
  not_expires_expireLoop hnum hbound le_rfl pdu

/-- After the multiplicative decrease, the loss of a packet ends slow start. -/
def ExitsBy (s : Server) (pdu : UdpPacket) : Prop :=
  (s.decrease pdu.w).slowStart = true ∧ 20 < Binary64.trunc (s.decrease pdu.w).wBar

instance (s : Server) (pdu : UdpPacket) : Decidable (s.ExitsBy pdu) :=
  inferInstanceAs (Decidable (_ ∧ _))

theorem lose_toAccounts {pdu : UdpPacket} (h : ¬ s.ExitsBy pdu) :
    (s.lose pdu).toAccounts = s.toAccounts := by
  rw [lose]
  exact (congrArg Server.toAccounts (if_neg h)).trans (decrease_toAccounts pdu.w)

/-- An expired packet ends slow start. -/
def ExitsByLoss (s : Server) (receivedtime : Timeval) : Prop :=
  ∃ pdu ∈ s.missingsequence_queue.first?,
    MISSING_PKT_EXPIRY ≤ pdu.delay receivedtime ∧ s.ExitsBy pdu

instance (s : Server) (receivedtime : Timeval) : Decidable (s.ExitsByLoss receivedtime) :=
  Option.decidableExistsMem _

/-- Only sent packets are acknowledged, there is no timeout and no loss ends slow start. -/
def InPhase (s : Server) : Action → Prop
  | .ack k .. => 1 ≤ k ∧ k ≤ s.pktSeq
  | .expire receivedtime => ¬ s.ExitsByLoss receivedtime
  | .timeout => False
  | _ => True

/-- The latest packet is not acknowledged again while packets are in flight. -/
def NotRepeated (s : Server) : Action → Prop
  | .ack k .. => toU64 (toI32 k) = s.seqLast → s.wCrt ≤ 0
  | _ => True

instance (s : Server) : DecidablePred s.InPhase
  | .ack .. => inferInstanceAs (Decidable (_ ∧ _))
  | .expire _ => inferInstanceAs (Decidable (¬ _))
  | .timeout => .isFalse id
  | .send | .control _ => .isTrue trivial

instance (s : Server) : DecidablePred s.NotRepeated
  | .ack .. => inferInstanceAs (Decidable (_ → _))
  | .send | .expire _ | .timeout | .control _ => .isTrue trivial

theorem countInv_step (h : s.toAccounts.CountInv) (hphase : s.InPhase a) (ha : s.NotRepeated a)
    (hs : s.step a = some t) : t.toAccounts.CountInv := by
  cases a with
  | send =>
    cases hs
    exact h.send _
  | ack k w seconds millis receivedtime clock stray =>
    have haccounts := s.step_ack k w seconds millis receivedtime clock stray
    rw [hs] at haccounts
    exact h.acknowledge hphase ha haccounts.symm
  | expire receivedtime =>
    cases hs
    apply removeExpired_keep h
    · rintro pdu ⟨hpdu, hexpired⟩
      rw [lose_toAccounts fun hexits => hphase ⟨pdu, hpdu, hexpired, hexits⟩]
      exact h.drop hpdu
    · exact fun a pdu h hpdu => h.drop hpdu
  | timeout => exact hphase.elim
  | control window =>
    cases hs
    exact h

theorem not_balanced_of_repeated (h : s.toAccounts.CountInv) (ha : ¬ s.NotRepeated a) :
    ∃ t, s.step a = some t ∧ ¬ t.toAccounts.Balanced := by
  cases a with
  | ack k w seconds millis receivedtime clock stray =>
    obtain ⟨hseq, hpos⟩ := Classical.not_imp.mp ha
    have haccounts := s.step_ack k w seconds millis receivedtime clock stray
    rw [hseq, Accounts.acknowledge_repeated h.lt, Accounts.release_of_pos (not_le.mp hpos)]
      at haccounts
    obtain ⟨t, ht, haccounts⟩ := Option.map_eq_some_iff.mp haccounts
    refine ⟨t, ht, ?_⟩
    have hbalanced : s.wCrt = s.pktSeq - s.seqLast + s.missingsequence_queue.size := h.balanced
    rw [haccounts, Accounts.Balanced]
    simp only
    omega
  | send | expire _ | timeout | control _ => exact absurd trivial ha

/-- **Every packet leaves the count exactly once.** In a phase without timeouts, the number of
packets in flight is right in every state exactly if the latest packet is not acknowledged again
while packets are in flight. -/
theorem balanced_iff {actions : List Action} (h : Guarded step InPhase start actions) :
    Always step (fun s => s.toAccounts.Balanced) start actions ↔
      Guarded step NotRepeated start actions := by
  apply h.always_iff_guarded (I := fun s => s.toAccounts.CountInv)
  · exact fun s hs => hs.balanced
  · exact fun s a t => countInv_step
  · exact fun s a hs _ => not_balanced_of_repeated hs
  · exact ⟨rfl, le_rfl, by decide, fun k pdu hpdu => by cases hpdu⟩

def ackAt (k : Int) (receivedtime : Timeval) : Action :=
  .ack k 1 0 0 receivedtime (fun _ => receivedtime) 0

/-- The second packet is late, and the fourth one expires. -/
theorem balanced_lateAndLost : Always step (fun s => s.toAccounts.Balanced) start
    [.send, .send, .send, .send, .send, ackAt 1 ⟨0, 0⟩, ackAt 3 ⟨0, 0⟩, ackAt 2 ⟨0, 0⟩,
      ackAt 5 ⟨0, 0⟩, .expire ⟨1, 0⟩] :=
  (balanced_iff (by decide +kernel)).mpr (by decide +kernel)

/-- The first packet is acknowledged twice while the second one is in flight. -/
theorem not_balanced_ack_twice :
    ((run step start [.send, .send, ackAt 1 ⟨0, 0⟩, ackAt 1 ⟨0, 0⟩]).map fun s =>
      decide s.toAccounts.Balanced) = some false := by
  decide +kernel

end Server

end ALCC.VerusServer
