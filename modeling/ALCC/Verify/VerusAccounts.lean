import ALCC.Verify.VerusAcks
import ALCC.Verify.Outstanding

/-! The packet accounts of `libalcc_verus.cpp`. `wCrt` counts the packets from `seq` up to `pktSeq`,
as long as `ALCCReceive` never finds it at 0 (`PacketInv`). -/

namespace ALCC.Verus

open AckStream Connection

variable {α γ τ : Type*} {first : Nat}

/-- The rounds that the loop of `ALCCReceive` has left. -/
def ReceiverPc.pending : ReceiverPc τ → Nat
  | .crediting _ left => left
  | _ => 0

def ReceiverPc.waits : ReceiverPc τ → Bool
  | .recvmsg => true
  | _ => false

def ReceiverPc.idle : ReceiverPc τ → Bool
  | .crediting .. => false
  | _ => true

def receiver (γ τ : Type*) : Receiver (Threads γ τ) (Event γ τ) τ where
  waits b := b.receiver.waits
  idle b := b.receiver.idle
  takes m now := .receiver (some m) now
  silent
    | .receiver (some _) _ => false
    | _ => true
  outstanding b := b.sock.wCrt

def terms (α γ τ : Type*) : Terms α (Threads γ τ) τ τ where
  inRange _ := true
  started b := b.sock.startingSeq ≠ 0
  recorded pc b := (b.sock.pktSeq - pc.before 2).toNat
  Credits first st a := InReach first ⟨st.sock.sock, st.acked⟩ a

instance (st : AckStream (Threads γ τ)) (a : Ack τ) :
    Decidable ((terms α γ τ).Credits first st a) :=
  inferInstanceAs (Decidable (InReach first ⟨st.sock.sock, st.acked⟩ a))

/-- The accounts of the packets numbered by `pktSeq`. -/
structure PacketInv (first : Nat) (pc : SenderPc α τ) (b : Threads γ τ) (n acked : Nat) : Prop where
  dequeued : b.sock.pktSeq = n
  wCrt : b.sock.wCrt = b.sock.pktSeq - pc.before 2 - b.sock.seq
  nonneg : 0 ≤ b.sock.seq
  credited : b.sock.seq + b.receiver.pending = (acked / MTU : Nat)
  covered : (acked / MTU : Nat) + pc.before 2 ≤ b.sock.pktSeq
  started : b.sock.startingSeq ≠ 0 → 1 ≤ first ∧ Aligned first b.sock ∧
    first + MTU * (acked / MTU) < 2 ^ 33
  unstarted : b.sock.startingSeq = 0 → acked = 0

namespace PacketInv

variable {C : Controller γ τ} {pc pc' : SenderPc α τ} {b b' : Threads γ τ} {n acked : Nat} {now : τ}
  {terminateThreads : Bool} {m : Message}

theorem new (ctl : γ) : PacketInv first (.outer : SenderPc α τ) (.new ctl) 0 0 where
  dequeued := rfl
  wCrt := rfl
  nonneg := Int.le_refl 0
  credited := rfl
  covered := Int.le_refl 0
  started h := absurd rfl h
  unstarted _ := rfl

/-- A move to a place with the same accounts. -/
theorem move (h : PacketInv first pc b n acked) (h₂ : pc'.before 2 = pc.before 2) :
    PacketInv first pc' b n acked :=
  ⟨h.dequeued, h₂ ▸ h.wCrt, h.nonneg, h.credited, h₂ ▸ h.covered, h.started, h.unstarted⟩

theorem dequeue {pktTime : τ} {left : Nat} {loop : SendLoop α}
    (h : PacketInv first (.round pktTime (left + 1) : SenderPc α τ) b n acked) :
    PacketInv first (.sending pktTime left loop) ((library C).dequeued b) (n + 1) acked := by
  have hdequeued := h.dequeued
  have hwCrt := h.wCrt
  have hcovered := h.covered
  refine ⟨?_, ?_, h.nonneg, h.credited, ?_, h.started, h.unstarted⟩
  all_goals
    simp only [library, Threads.update, SenderPc.before] at *
    omega

theorem record {pktTime : τ} {left k : Nat} {update : τ → Threads γ τ → Threads γ τ}
    (h : PacketInv first (.recording pktTime left k : SenderPc α τ) b n acked)
    (hk : (library C).sent[k]? = some update) :
    PacketInv first (.recording pktTime left (k + 1) : SenderPc α τ) (update pktTime b) n
      acked := by
  match k, hk with
  | 0, rfl | 2, rfl | 3, rfl =>
    exact ⟨h.dequeued, h.wCrt, h.nonneg, h.credited, h.covered, h.started, h.unstarted⟩
  | 1, rfl =>
    have hbefore : (SenderPc.recording pktTime left 1 : SenderPc α τ).before 2 = 1 := rfl
    have hafter : (SenderPc.recording pktTime left 2 : SenderPc α τ).before 2 = 0 := rfl
    have hwCrt := h.wCrt
    have hcovered := h.covered
    rw [hbefore] at hwCrt hcovered
    refine ⟨h.dequeued, ?_, h.nonneg, h.credited, ?_, h.started, h.unstarted⟩
    · simp only [Threads.update, hafter]
      omega
    · simp only [Threads.update, hafter]
      omega

theorem sender (h : PacketInv first pc b n acked)
    (hs : Moves (library C) terminateThreads now pc b pc' b') :
    PacketInv first pc' b' (n + pc.opens pc') acked := by
  cases hs with
  | outer => cases terminateThreads <;> exact h.move rfl
  | turn | leave | finish | empty | through | send => exact h.move rfl
  | dequeue => exact h.dequeue
  | record hk => exact h.record hk
  | next hk => exact h.move (SenderPc.before_of_none (show 2 ≤ 4 by decide) hk).symm

/-- A round of the loop. The packet is counted in `wCrt`, so that it is taken out. -/
theorem creditPacket {receivedtime : τ} {left : Nat} (h : PacketInv first pc b n acked)
    (hreceiver : b.receiver = .crediting receivedtime (left + 1)) :
    PacketInv first pc
      ⟨b.sock.creditPacket C receivedtime, .crediting receivedtime left⟩ n acked := by
  have hwCrt := h.wCrt
  have hnonneg := h.nonneg
  have hcredited := h.credited
  have hcovered := h.covered
  have hpending : b.receiver.pending = left + 1 := by rw [hreceiver]; rfl
  have hzero : b.sock.startingSeq ≠ 0 := by
    intro hzero
    rw [h.unstarted hzero, Nat.zero_div] at hcredited
    omega
  obtain ⟨hpos, haligned, hbound⟩ := h.started hzero
  have hnext : Aligned first (b.sock.creditPacket C receivedtime) := by
    rw [Aligned] at haligned
    rw [Aligned, ALCCSocket.creditPacket_startingSeq, ALCCSocket.creditPacket_seq, haligned,
      mul_add, mul_one, add_assoc]
  refine ⟨?_, ?_, ?_, ?_, ?_, fun _ => ⟨hpos, hnext, hbound⟩, ?_⟩
  · simp only [ALCCSocket.creditPacket_pktSeq]
    exact h.dequeued
  · simp only [ALCCSocket.creditPacket_pktSeq, ALCCSocket.creditPacket_seq]
    rw [ALCCSocket.creditPacket_wCrt (by omega)]
    omega
  · simp only [ALCCSocket.creditPacket_seq]
    omega
  · simp only [ALCCSocket.creditPacket_seq, ReceiverPc.pending]
    omega
  · simp only [ALCCSocket.creditPacket_pktSeq]
    exact hcovered
  · intro (hstart : (b.sock.creditPacket C receivedtime).startingSeq = 0)
    rw [Aligned, hstart, ALCCSocket.creditPacket_seq, MTU] at hnext
    omega

/-- The steps of the threads besides the sender that take no message. -/
theorem silent {e : Event γ τ} (h : PacketInv first pc b n acked)
    (he : (receiver γ τ).silent e = true)
    (hs : (library C).thread e terminateThreads b = some b') : PacketInv first pc b' n acked := by
  cases e with
  | receiver m now =>
    cases m with
    | some m => cases he
    | none =>
      have hcredited := h.credited
      simp only [library, Threads.step, Threads.receiverStep] at hs
      split at hs
      case h_1 hreceiver =>
        cases hs
        rw [hreceiver] at hcredited
        refine ⟨h.dequeued, h.wCrt, h.nonneg, ?_, h.covered, h.started, h.unstarted⟩
        cases terminateThreads <;> exact hcredited
      case h_2 hreceiver | h_3 hreceiver =>
        cases hs
        rw [hreceiver] at hcredited
        exact ⟨h.dequeued, h.wCrt, h.nonneg, hcredited, h.covered, h.started, h.unstarted⟩
      case h_4 hreceiver =>
        cases hs
        exact h.creditPacket hreceiver
      case h_5 => cases hs
  | control ctl tempS =>
    cases hs
    exact ⟨h.dequeued, h.wCrt, h.nonneg, h.credited, h.covered, h.started, h.unstarted⟩

theorem recvmsg_of_waits {r : ReceiverPc τ} (h : r.waits = true) : r = .recvmsg := by
  cases r <;> first | rfl | cases h

theorem pending_of_idle {r : ReceiverPc τ} (h : r.idle = true) : r.pending = 0 := by
  cases r <;> first | rfl | cases h

theorem segment (h : PacketInv first pc b n acked) (hwaits : (receiver γ τ).waits b = true)
    (hm : m.src_port = CC_PORT)
    (hfirst : (terms α γ τ).started b = false → m.rcv_seq.toNat = first)
    (hs : b.receiverStep C (some m) now terminateThreads = some b') :
    PacketInv first pc b' n acked := by
  have hrecvmsg := recvmsg_of_waits hwaits
  have hcredited := h.credited
  rw [hrecvmsg] at hcredited
  simp only [Threads.receiverStep, hrecvmsg, ALCCSocket.receive, hm, and_true, if_true] at hs
  rw [← Option.some.inj hs]
  split
  · rename_i hzero
    have hacked := h.unstarted hzero
    have hrcv := hfirst (by simp [terms, hzero])
    subst hacked
    refine ⟨h.dequeued, h.wCrt, h.nonneg, hcredited, h.covered, fun hne => ?_, fun _ => rfl⟩
    have hseq : b.sock.seq = 0 := by simpa [ReceiverPc.pending] using hcredited
    have hlt := m.rcv_seq.toNat_lt
    simp only [hrcv] at hne hlt
    refine ⟨by omega, ?_, by rw [Nat.zero_div]; omega⟩
    simp only [Aligned, hseq, hrcv, mul_zero, add_zero]
  · exact ⟨h.dequeued, h.wCrt, h.nonneg, hcredited, h.covered, h.started, h.unstarted⟩

theorem ack {a : Ack τ} (h : PacketInv first pc b n acked) (hwaits : (receiver γ τ).waits b = true)
    (hport : a.msg.src_port ≠ CC_PORT) (hack : a.msg.ack_seq.toNat = (first + a.bytes) % 2 ^ 32)
    (horder : AnyOrder acked a.bytes) (hstarted : (terms α γ τ).started b = true)
    (hcredits : InReach first ⟨b.sock, acked⟩ a)
    (hrecorded : a.bytes / MTU ≤ (terms α γ τ).recorded pc b)
    (hs : b.receiverStep C (some a.msg) a.clock terminateThreads = some b') :
    PacketInv first pc b' n (max acked a.bytes) := by
  have hrecvmsg := recvmsg_of_waits hwaits
  have hzero : b.sock.startingSeq ≠ 0 := of_decide_eq_true hstarted
  have hcredited := h.credited
  rw [hrecvmsg] at hcredited
  obtain ⟨hpos, haligned, hbound⟩ := h.started hzero
  have hseq : b.sock.seq = (acked / MTU : Nat) := (add_zero _).symm.trans hcredited
  have hinv : AckInv first ⟨b.sock, acked⟩ := ⟨hseq, haligned, hbound⟩
  obtain ⟨hrounds, hbound'⟩ := hinv.seq_add_rounds C hpos hport hack horder hcredits
  have hcovered := h.covered
  simp only [Threads.receiverStep, hrecvmsg] at hs
  rw [← Option.some.inj hs]
  rw [ALCCSocket.receive_ack hport] at hrounds ⊢
  refine ⟨h.dequeued, h.wCrt, h.nonneg, hrounds, ?_, fun _ => ⟨hpos, haligned, hbound'⟩,
    fun h => absurd h hzero⟩
  simp only [terms] at hrecorded
  change ((max acked a.bytes / MTU : Nat) : Int) + _ ≤ b.sock.pktSeq
  rw [max_div]
  generalize acked / MTU = credited at hcovered ⊢
  generalize a.bytes / MTU = covered at hrecorded ⊢
  omega

theorem outstanding (h : PacketInv first pc b n acked) (hidle : (receiver γ τ).idle b = true) :
    ∃ counted, counted + (if pc.isSending then 1 else 0) ≤ n ∧ acked / MTU ≤ counted ∧
      b.sock.wCrt = counted - (acked / MTU : Nat) := by
  have hpending := pending_of_idle hidle
  have hdequeued := h.dequeued
  have hwCrt := h.wCrt
  have hcredited := h.credited
  have hcovered := h.covered
  have hsending := pc.isSending_le_before 2
  generalize acked / MTU = whole at hcredited hcovered ⊢
  exact ⟨(b.sock.pktSeq - pc.before 2).toNat, by omega, by omega, by omega⟩

end PacketInv

def accounts (C : Controller γ τ) (first : Nat) :
    Accounts α (library C) (receiver γ τ) (terms α γ τ) first where
  MTU_pos := show 0 < MTU by decide
  Inv := PacketInv first
  sender h hs := h.sender hs
  silent h he hs := h.silent he hs
  segment h hwaits hm hfirst hs := h.segment hwaits hm hfirst hs
  ack h hwaits hport hack horder hstarted hcredits hrecorded hs :=
    h.ack hwaits hport hack horder hstarted hcredits hrecorded hs
  outstanding h hidle := h.outstanding hidle

end ALCC.Verus
