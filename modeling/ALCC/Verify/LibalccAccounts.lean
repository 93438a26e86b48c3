import ALCC.Verify.LibalccAcks
import ALCC.Verify.Outstanding

/-! The packet accounts of `libalcc.cpp`. `pktsInFlight` counts the packets from `rcvSeqLast` up to
`sentSeq`, and `ack_receiver` settles them up to `rcvSeq` provided that the packet `rcvSeq` is
listed (`PacketInv`). -/

namespace ALCC.Libalcc

open AckStream Connection

variable {α τ : Type*} {first : Nat}

def receiver (τ : Type*) : Receiver (Threads τ) Event Unit where
  waits b := b.receiver = .recvmsg
  idle b := b.receiver ≠ .settling
  takes m _ := .receiver (some m)
  silent
    | .receiver (some _) => false
    | _ => true
  outstanding b := b.sock.pktsInFlight

/-- An acknowledgement is credited without a loss, or it is old and ignored. -/
def terms (α τ : Type*) : Terms α (Threads τ) τ Unit where
  inRange _ := true
  started b := b.sock.tcpSeq ≠ 0
  recorded pc b := b.sock.sentSeq - pc.before 3
  Credits _ st a :=
    InOrder st.acked a.bytes ∧ NoneLost ⟨st.sock.sock, st.acked⟩ a ∨
      a.bytes ≤ st.acked ∧ ¬ st.sock.sock.Fresh a.msg.ack_seq.toNat

instance (st : AckStream (Threads τ)) (a : Ack Unit) :
    Decidable ((terms α τ).Credits first st a) :=
  inferInstanceAs (Decidable (_ ∨ _))

/-- The accounts of the packets numbered by `sentSeq`. -/
structure PacketInv (first : Nat) (pc : SenderPc α τ) (b : Threads τ) (n acked : Nat) : Prop where
  dequeued : b.sock.sentSeq = n
  inFlight : b.sock.pktsInFlight = b.sock.sentSeq - pc.before 2 - b.sock.rcvSeqLast
  credited : b.sock.rcvSeq = acked / MTU
  covered : b.sock.rcvSeq + pc.before 3 ≤ b.sock.sentSeq
  listed : ∀ k, b.sock.rcvSeqLast < k → k + pc.before 3 ≤ b.sock.sentSeq → k ∈ b.sock.seqNumbersList
  settled : b.receiver ≠ .settling → b.sock.rcvSeqLast = b.sock.rcvSeq
  settling : b.sock.rcvSeqLast ≤ b.sock.rcvSeq ∧ b.sock.rcvSeq < b.sock.rcvSeqLast + 2 ^ 31
  tcpSeq : b.sock.tcpSeq ≠ 0 → b.sock.tcpSeq = (first + acked) % 2 ^ 32
  started : b.sock.cc_loigc_thread = false → acked = 0 ∧ b.sock.tcpSeq = 0

namespace PacketInv

variable {pc pc' : SenderPc α τ} {b b' : Threads τ} {n acked : Nat} {now : τ}
  {terminateThreads : Bool} {m : Message}

theorem new (port : UInt16) (cwnd : Nat) :
    PacketInv first (.outer : SenderPc α τ) (.new port cwnd) 0 0 where
  dequeued := rfl
  inFlight := rfl
  credited := (Nat.zero_div _).symm
  covered := Nat.le_refl 0
  listed k hlt hle := absurd (show k ≤ 0 from hle) (Nat.not_le.mpr hlt)
  settled _ := rfl
  settling := ⟨Nat.le_refl 0, Nat.lt_add_of_pos_right (Nat.two_pow_pos 31)⟩
  tcpSeq h := absurd rfl h
  started _ := ⟨rfl, rfl⟩

/-- A move to a place with the same accounts. -/
theorem move (h : PacketInv first pc b n acked) (h₂ : pc'.before 2 = pc.before 2)
    (h₃ : pc'.before 3 = pc.before 3) : PacketInv first pc' b n acked where
  dequeued := h.dequeued
  inFlight := h₂ ▸ h.inFlight
  credited := h.credited
  covered := h₃ ▸ h.covered
  listed := h₃ ▸ h.listed
  settled := h.settled
  settling := h.settling
  tcpSeq := h.tcpSeq
  started := h.started

theorem dequeue {pktTime : τ} {left : Nat} {loop : SendLoop α}
    (h : PacketInv first (.round pktTime (left + 1) : SenderPc α τ) b n acked) :
    PacketInv first (.sending pktTime left loop) ((library τ).dequeued b) (n + 1) acked where
  dequeued := congrArg (· + 1) h.dequeued
  inFlight := by
    have := h.inFlight
    simp only [library, Threads.update, SenderPc.before] at *
    omega
  credited := h.credited
  covered := Nat.succ_le_succ h.covered
  listed k hlt hle := h.listed k hlt (Nat.le_of_succ_le_succ hle)
  settled := h.settled
  settling := h.settling
  tcpSeq := h.tcpSeq
  started := h.started

theorem record {pktTime : τ} {left k : Nat} {update : τ → Threads τ → Threads τ}
    (h : PacketInv first (.recording pktTime left k : SenderPc α τ) b n acked)
    (hk : (library τ).sent[k]? = some update) :
    PacketInv first (.recording pktTime left (k + 1) : SenderPc α τ) (update pktTime b) n
      acked := by
  match k, hk with
  | 0, rfl =>
    exact ⟨h.dequeued, h.inFlight, h.credited, h.covered, h.listed, h.settled, h.settling, h.tcpSeq,
      h.started⟩
  | 1, rfl =>
    refine ⟨h.dequeued, ?_, h.credited, h.covered, h.listed, h.settled, h.settling, h.tcpSeq,
      h.started⟩
    have hbefore : (SenderPc.recording pktTime left 1 : SenderPc α τ).before 2 = 1 := rfl
    have hafter : (SenderPc.recording pktTime left 2 : SenderPc α τ).before 2 = 0 := rfl
    have hinFlight := h.inFlight
    simp only [hbefore] at hinFlight
    simp only [Threads.update, hafter]
    omega
  | 2, rfl =>
    have hcovered : b.sock.rcvSeq + 1 ≤ b.sock.sentSeq := h.covered
    refine ⟨h.dequeued, h.inFlight, h.credited, Nat.le_of_succ_le hcovered, ?_, h.settled,
      h.settling, h.tcpSeq, h.started⟩
    intro k hlt hle
    rcases Nat.eq_or_lt_of_le (show k ≤ b.sock.sentSeq from hle) with rfl | hle
    · exact Finmap.mem_insert.mpr (.inl rfl)
    · exact Finmap.mem_insert.mpr (.inr (h.listed k hlt hle))

theorem sender (h : PacketInv first pc b n acked)
    (hs : Moves (library τ) terminateThreads now pc b pc' b') :
    PacketInv first pc' b' (n + pc.opens pc') acked := by
  cases hs with
  | outer => cases terminateThreads <;> exact h.move rfl rfl
  | turn | leave | finish | empty | through | send => exact h.move rfl rfl
  | dequeue => exact h.dequeue
  | record hk => exact h.record hk
  | next hk =>
    exact h.move (SenderPc.before_of_none (Nat.le_succ 2) hk).symm
      (SenderPc.before_of_none (Nat.le_refl 3) hk).symm

/-- The packets up to `rcvSeq` are settled. -/
theorem settle (h : PacketInv first pc b n acked) :
    PacketInv first pc { b with sock := b.sock.settle, receiver := .loop } n acked := by
  obtain ⟨hlast, hpkts⟩ := ALCCSocket.settle_eq h.settling.1 h.settling.2
  refine ⟨h.dequeued, ?_, h.credited, h.covered, ?_, fun _ => hlast, ?_, h.tcpSeq, h.started⟩
  · have hinFlight := h.inFlight
    rw [hpkts, hlast]
    change _ = (b.sock.sentSeq : Int) - _ - _
    omega
  · intro k hlt hle
    rw [hlast] at hlt
    exact Finmap.mem_erase.mpr ⟨hlt.ne', h.listed k (lt_of_le_of_lt h.settling.1 hlt) hle⟩
  · rw [hlast]
    exact ⟨Nat.le_refl _, Nat.lt_add_of_pos_right (Nat.two_pow_pos 31)⟩

/-- The steps of the threads besides the sender that take no message. -/
theorem silent {e : Event} (h : PacketInv first pc b n acked) (he : (receiver τ).silent e = true)
    (hs : (library τ).thread e terminateThreads b = some b') : PacketInv first pc b' n acked := by
  cases e with
  | receiver m =>
    cases m with
    | some m => cases he
    | none =>
      simp only [library, Threads.step, Threads.receiverStep] at hs
      split at hs
      case h_1 hreceiver | h_2 hreceiver =>
        cases hs
        exact ⟨h.dequeued, h.inFlight, h.credited, h.covered, h.listed,
          fun _ => h.settled (by rw [hreceiver]; rintro ⟨⟩), h.settling, h.tcpSeq, h.started⟩
      case h_3 =>
        cases hs
        exact h.settle
      case h_4 => cases hs
  | cc junk =>
    simp only [library, Threads.step, Threads.ccStep] at hs
    split at hs
    · split at hs <;> cases hs <;>
        exact ⟨h.dequeued, h.inFlight, h.credited, h.covered, h.listed, h.settled, h.settling,
          h.tcpSeq, h.started⟩
    · cases hs

theorem segment (h : PacketInv first pc b n acked) (hwaits : (receiver τ).waits b = true)
    (hm : m.src_port = CC_PORT)
    (hfirst : (terms α τ).started b = false → m.rcv_seq.toNat = first)
    (hs : b.receiverStep (some m) terminateThreads = some b') : PacketInv first pc b' n acked := by
  have hrecvmsg : b.receiver = .recvmsg := of_decide_eq_true hwaits
  simp only [Threads.receiverStep, hrecvmsg] at hs
  obtain ⟨⟨s, listed⟩, hreceive, rfl⟩ := Option.map_eq_some_iff.mp hs
  have hsettled := h.settled (by rw [hrecvmsg]; rintro ⟨⟩)
  obtain ⟨rfl, rfl | ⟨htcpSeq, hthread, rfl⟩⟩ := ALCCSocket.receive_segment hm hreceive
  · exact ⟨h.dequeued, h.inFlight, h.credited, h.covered, h.listed, fun _ => hsettled, h.settling,
      h.tcpSeq, h.started⟩
  · obtain ⟨hacked, -⟩ := h.started hthread
    have hrcv := hfirst (by simp [terms, htcpSeq])
    refine ⟨h.dequeued, h.inFlight, h.credited, h.covered, h.listed, fun _ => hsettled, h.settling,
      fun _ => ?_, by rintro ⟨⟩⟩
    have hlt := m.rcv_seq.toNat_lt
    simp only [hacked, ← hrcv]
    omega

/-- A new acknowledgement. If `rcvSeq` moves, the packet `rcvSeq` is listed. -/
theorem credit {s : ALCCSocket τ} {bytes : Nat} (h : PacketInv first pc b n acked)
    (hsettled : b.sock.rcvSeqLast = b.sock.rcvSeq) (horder : InOrder acked bytes)
    (hrecorded : bytes / MTU ≤ b.sock.sentSeq - pc.before 3) (hkept : ALCCSocket.Kept b.sock s)
    (hrcvSeq : s.rcvSeq = bytes / MTU) (htcpSeq : s.tcpSeq = (first + bytes) % 2 ^ 32)
    (hthread : s.cc_loigc_thread ≠ false) :
    PacketInv first pc
      { b with sock := s, receiver := if decide s.Listed = true then .settling else .loop } n
      bytes := by
  have hcredited := h.credited
  have hcovered := h.covered
  have hmono : acked / MTU ≤ bytes / MTU := Nat.div_le_div_right horder.1
  have hbound : bytes / MTU < acked / MTU + 2 ^ 31 := by
    have := horder.2
    rw [MTU]
    omega
  have hlast : s.rcvSeqLast ≤ s.rcvSeq := by
    rw [hkept.rcvSeqLast, hsettled, hcredited, hrcvSeq]
    exact hmono
  refine ⟨?_, ?_, hrcvSeq, ?_, ?_, ?_, ⟨hlast, ?_⟩, fun _ => htcpSeq, fun h => absurd h hthread⟩
  · rw [hkept.sentSeq]
    exact h.dequeued
  · rw [hkept.pktsInFlight, hkept.sentSeq, hkept.rcvSeqLast]
    exact h.inFlight
  · rw [hkept.sentSeq, hrcvSeq]
    omega
  · rw [hkept.rcvSeqLast, hkept.sentSeq, hkept.seqNumbersList]
    exact h.listed
  · intro hloop
    have hnot : ¬ s.Listed := fun hlisted => hloop (if_pos (decide_eq_true hlisted))
    refine Nat.le_antisymm hlast (Nat.le_of_not_lt fun hlt => hnot ?_)
    have hmem : s.rcvSeq ∈ s.seqNumbersList := by
      rw [hkept.seqNumbersList]
      rw [hkept.rcvSeqLast] at hlt
      exact h.listed _ hlt (by rw [hrcvSeq]; omega)
    exact ⟨⟨_, Finmap.mem_keys.mpr hmem, Nat.le_refl _⟩, hmem⟩
  · rw [hkept.rcvSeqLast, hsettled, hcredited, hrcvSeq]
    exact hbound

theorem ack {a : Ack Unit} (h : PacketInv first pc b n acked) (hwaits : (receiver τ).waits b = true)
    (hport : a.msg.src_port ≠ CC_PORT) (hack : a.msg.ack_seq.toNat = (first + a.bytes) % 2 ^ 32)
    (hstarted : (terms α τ).started b = true) (hcredits : (terms α τ).Credits first ⟨b, acked⟩ a)
    (hrecorded : a.bytes / MTU ≤ (terms α τ).recorded pc b)
    (hs : b.receiverStep (some a.msg) terminateThreads = some b') :
    PacketInv first pc b' n (max acked a.bytes) := by
  have hrecvmsg : b.receiver = .recvmsg := of_decide_eq_true hwaits
  have hzero : b.sock.tcpSeq ≠ 0 := of_decide_eq_true hstarted
  have hsettled := h.settled (by rw [hrecvmsg]; rintro ⟨⟩)
  have hthread : b.sock.cc_loigc_thread ≠ false := fun hthread => hzero (h.started hthread).2
  simp only [Threads.receiverStep, hrecvmsg] at hs
  rcases hcredits with ⟨horder, hlost⟩ | ⟨hle, hstale⟩
  · have hinv : AckInv first ⟨b.sock, acked⟩ := ⟨h.credited, h.tcpSeq⟩
    obtain ⟨hfresh, hrcvSeq⟩ := hinv.credit_rcvSeq hzero hport hack horder hlost
    have hkept := ALCCSocket.Kept.credit (s := b.sock) a.msg.ack_seq.toNat
    have hcredit : (b.sock.credit a.msg.ack_seq.toNat).cc_loigc_thread ≠ false := by
      rw [ALCCSocket.credit_cc_loigc_thread]
      exact hthread
    rw [ALCCSocket.receive_fresh hport hfresh, Option.map_some] at hs
    rw [Nat.max_eq_right horder.1, ← Option.some.inj hs]
    exact h.credit hsettled horder hrecorded hkept hrcvSeq hack hcredit
  · rw [ALCCSocket.receive_stale hport hstale, Option.map_some] at hs
    cases hs
    rw [Nat.max_eq_left hle]
    exact ⟨h.dequeued, h.inFlight, h.credited, h.covered, h.listed, fun _ => hsettled, h.settling,
      h.tcpSeq, h.started⟩

theorem outstanding (h : PacketInv first pc b n acked) (hidle : (receiver τ).idle b = true) :
    ∃ counted, counted + (if pc.isSending then 1 else 0) ≤ n ∧ acked / MTU ≤ counted ∧
      b.sock.pktsInFlight = counted - (acked / MTU : Nat) := by
  have hdequeued := h.dequeued
  have hinFlight := h.inFlight
  have hcredited := h.credited
  have hcovered := h.covered
  have hsettled := h.settled (of_decide_eq_true hidle)
  have hsending := pc.isSending_le_before 2
  have hmono : pc.before 2 ≤ pc.before 3 := pc.before_mono (Nat.le_succ 2)
  exact ⟨b.sock.sentSeq - pc.before 2, by omega, by omega, by omega⟩

end PacketInv

def accounts (α τ : Type*) (first : Nat) :
    Accounts α (library τ) (receiver τ) (terms α τ) first where
  MTU_pos := show 0 < MTU by decide
  Inv := PacketInv first
  sender h hs := h.sender hs
  silent h he hs := h.silent he hs
  segment h hwaits hm hfirst hs := h.segment hwaits hm hfirst hs
  ack h hwaits hport hack _ hstarted hcredits hrecorded hs :=
    h.ack hwaits hport hack hstarted hcredits hrecorded hs
  outstanding h hidle := h.outstanding hidle

end ALCC.Libalcc
