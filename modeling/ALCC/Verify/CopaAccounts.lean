import ALCC.Verify.CopaAcks
import ALCC.Verify.Outstanding

/-! The packet accounts of `libalcc_copa.cpp`: the packets from `rcvSeq` up to `seq_num` are
outstanding (`PacketInv`), of which there are fewer than `2 ^ 31`. -/

namespace ALCC.Copa

open AckStream Connection

variable {α γ τ : Type*} {first : Nat}

/-- The rounds that the loop of `ack_receiver` has left. -/
def ReceiverPc.pending : ReceiverPc → Nat
  | .crediting left => left
  | _ => 0

theorem ReceiverPc.pending_crediting (left : Nat) : (ReceiverPc.crediting left).pending = left :=
  rfl

def ReceiverPc.idle : ReceiverPc → Bool
  | .crediting _ => false
  | _ => true

def receiver (γ τ : Type*) : Receiver (Threads γ τ) (Event τ) (Nat → τ) where
  waits b := b.receiver = .recvmsg
  idle b := b.receiver.idle
  takes m now := .receiver (some m) (now 0)
  silent
    | .receiver m _ => m.isNone
  outstanding b := b.sock.seq_num - 1 - b.sock.rcvSeq

/-- `seq_num` is an `int`. -/
def terms (α γ τ : Type*) : Terms α (Threads γ τ) τ (Nat → τ) where
  inRange b := b.sock.seq_num + 1 < 2 ^ 31
  started b := b.sock.tcpSeq ≠ 0
  recorded _ b := b.sock.seq_num - 1
  Credits first st a := InReach first ⟨st.sock.sock, st.acked⟩ a

instance (st : AckStream (Threads γ τ)) (a : Ack (Nat → τ)) :
    Decidable ((terms α γ τ).Credits first st a) :=
  inferInstanceAs (Decidable (InReach first ⟨st.sock.sock, st.acked⟩ a))

/-- The accounts of the packets numbered by `seq_num`. -/
structure PacketInv (first : Nat) (pc : SenderPc α τ) (b : Threads γ τ) (n acked : Nat) : Prop where
  dequeued : b.sock.seq_num + pc.before 5 = n + 1
  credited : b.sock.rcvSeq + b.receiver.pending = acked / MTU
  covered : acked / MTU + 1 ≤ b.sock.seq_num
  started : b.sock.tcpSeq ≠ 0 → 1 ≤ first ∧ Aligned first b.sock
  unstarted : b.sock.tcpSeq = 0 → acked = 0

namespace PacketInv

variable {C : Controller γ τ} {pc pc' : SenderPc α τ} {b b' : Threads γ τ} {n acked : Nat} {now : τ}
  {terminateThreads : Bool} {m : Message}

theorem new (ctl : γ) : PacketInv first (.outer : SenderPc α τ) (.new ctl) 0 0 where
  dequeued := rfl
  credited := (Nat.zero_div _).symm
  covered := Nat.le_refl 1
  started h := absurd rfl h
  unstarted _ := rfl

/-- A move to a place with the same accounts. -/
theorem move (h : PacketInv first pc b n acked) (h₅ : pc'.before 5 = pc.before 5) :
    PacketInv first pc' b n acked :=
  ⟨h₅ ▸ h.dequeued, h.credited, h.covered, h.started, h.unstarted⟩

theorem record {pktTime : τ} {left k : Nat} {update : τ → Threads γ τ → Threads γ τ}
    (h : PacketInv first (.recording pktTime left k : SenderPc α τ) b n acked)
    (hk : (library C).sent[k]? = some update) :
    PacketInv first (.recording pktTime left (k + 1) : SenderPc α τ) (update pktTime b) n
      acked := by
  match k, hk with
  | 0, rfl | 1, rfl | 2, rfl | 3, rfl =>
    exact ⟨h.dequeued, h.credited, h.covered, h.started, h.unstarted⟩
  | 4, rfl => exact ⟨h.dequeued, h.credited, Nat.le_succ_of_le h.covered, h.started, h.unstarted⟩

theorem sender (h : PacketInv first pc b n acked)
    (hs : Moves (library C) terminateThreads now pc b pc' b') :
    PacketInv first pc' b' (n + pc.opens pc') acked := by
  cases hs with
  | outer => cases terminateThreads <;> exact h.move rfl
  | turn => exact ⟨h.dequeued, h.credited, h.covered, h.started, h.unstarted⟩
  | leave | finish | empty | through | send => exact h.move rfl
  | dequeue =>
    exact ⟨congrArg (· + 1) h.dequeued, h.credited, h.covered, h.started, h.unstarted⟩
  | record hk => exact h.record hk
  | next hk => exact h.move (SenderPc.before_of_none (Nat.le_refl 5) hk).symm

/-- A round of the loop. -/
theorem creditPacket {receivedtime : τ} {left : Nat} (h : PacketInv first pc b n acked)
    (hreceiver : b.receiver = .crediting (left + 1)) :
    PacketInv first pc ⟨b.sock.creditPacket C receivedtime, .crediting left⟩ n acked := by
  have hcredited := h.credited
  rw [hreceiver] at hcredited
  have hzero : b.sock.tcpSeq ≠ 0 := by
    intro hzero
    rw [h.unstarted hzero, Nat.zero_div] at hcredited
    cases hcredited
  obtain ⟨hpos, haligned⟩ := h.started hzero
  have hnext : Aligned first (b.sock.creditPacket C receivedtime) := by
    rw [Aligned, ALCCSocket.creditPacket_tcpSeq, ALCCSocket.creditPacket_rcvSeq, Nat.mul_succ,
      ← Nat.add_assoc]
    exact ALCCSocket.nextTcpSeq_eq (Nat.le_add_right_of_le hpos) haligned
  refine ⟨?_, ?_, ?_, fun _ => ⟨hpos, hnext⟩, ?_⟩
  · simp only [ALCCSocket.creditPacket_seq_num]
    exact h.dequeued
  · simp only [ALCCSocket.creditPacket_rcvSeq]
    rw [← hcredited, Nat.add_assoc, Nat.add_comm 1]
    rfl
  · simp only [ALCCSocket.creditPacket_seq_num]
    exact h.covered
  · intro (hstart : (b.sock.creditPacket C receivedtime).tcpSeq = 0)
    rw [Aligned, hstart, seqAt] at hnext
    cases hnext

/-- The steps of the threads besides the sender that take no message. -/
theorem silent {e : Event τ} (h : PacketInv first pc b n acked)
    (he : (receiver γ τ).silent e = true)
    (hs : (library C).thread e terminateThreads b = some b') : PacketInv first pc b' n acked := by
  obtain ⟨m, now⟩ := e
  cases m with
  | some m => cases he
  | none =>
    have hcredited := h.credited
    simp only [library, Threads.step] at hs
    unfold Threads.receiverStep at hs
    split at hs
    case h_1 hreceiver =>
      cases hs
      rw [hreceiver] at hcredited
      refine ⟨h.dequeued, ?_, h.covered, h.started, h.unstarted⟩
      cases terminateThreads <;> exact hcredited
    case h_2 hreceiver | h_3 hreceiver =>
      cases hs
      rw [hreceiver] at hcredited
      exact ⟨h.dequeued, hcredited, h.covered, h.started, h.unstarted⟩
    case h_4 hreceiver =>
      cases hs
      exact h.creditPacket hreceiver
    case h_5 => cases hs

theorem pending_of_idle {r : ReceiverPc} (h : r.idle = true) : r.pending = 0 := by
  cases r <;> first | rfl | cases h

theorem segment (h : PacketInv first pc b n acked) (hwaits : (receiver γ τ).waits b = true)
    (hm : m.src_port = CC_PORT)
    (hfirst : (terms α γ τ).started b = false → m.rcv_seq.toNat = first)
    (hs : b.receiverStep C (some m) now terminateThreads = some b') :
    PacketInv first pc b' n acked := by
  have hrecvmsg : b.receiver = .recvmsg := of_decide_eq_true hwaits
  have hcredited := h.credited
  rw [hrecvmsg] at hcredited
  simp only [Threads.receiverStep, hrecvmsg] at hs
  obtain ⟨⟨s, rounds⟩, hreceive, rfl⟩ := Option.map_eq_some_iff.mp hs
  obtain ⟨rfl, rfl | ⟨hzero, rfl⟩⟩ := ALCCSocket.receive_segment hm hreceive
  · exact ⟨h.dequeued, hcredited, h.covered, h.started, h.unstarted⟩
  · have hacked := h.unstarted hzero
    have hrcv := hfirst (by simp [terms, hzero])
    refine ⟨h.dequeued, hcredited, h.covered, fun hne => ?_, fun _ => hacked⟩
    have hlt := m.rcv_seq.toNat_lt
    have hrcvSeq : b.sock.rcvSeq = 0 := by
      rw [hacked, Nat.zero_div] at hcredited
      exact Nat.eq_zero_of_add_eq_zero_right hcredited
    simp only [hrcv] at hne hlt
    refine ⟨Nat.pos_of_ne_zero hne, ?_⟩
    simp only [Aligned, hrcvSeq, hrcv, seqAt]
    omega

/-- An acknowledgement that leads to the rounds pending at `r`. -/
theorem acknowledged {bytes : Nat} (r : ReceiverPc) (h : PacketInv first pc b n acked)
    (hzero : b.sock.tcpSeq ≠ 0) (hrecorded : bytes / MTU ≤ b.sock.seq_num - 1)
    (hrounds : b.sock.rcvSeq + r.pending = max acked bytes / MTU) :
    PacketInv first pc { b with receiver := r } n (max acked bytes) := by
  refine ⟨h.dequeued, hrounds, ?_, h.started, fun h => absurd h hzero⟩
  have hcovered := h.covered
  rw [max_div]
  simp only
  generalize acked / MTU = credited at hcovered ⊢
  generalize bytes / MTU = covered at hrecorded ⊢
  omega

theorem receiverStep_fresh (hrecvmsg : b.receiver = .recvmsg) (hport : m.src_port ≠ CC_PORT)
    (hfresh : b.sock.Fresh m.ack_seq.toNat) :
    b.receiverStep C (some m) now terminateThreads =
      some { b with receiver := .crediting (b.sock.numAcks m.ack_seq.toNat).toNat } := by
  simp only [Threads.receiverStep, hrecvmsg, ALCCSocket.receive_fresh hport hfresh, Option.map_some]

theorem receiverStep_stale (hrecvmsg : b.receiver = .recvmsg) (hport : m.src_port ≠ CC_PORT)
    (hstale : ¬ b.sock.Fresh m.ack_seq.toNat) :
    b.receiverStep C (some m) now terminateThreads = some { b with receiver := .loop } := by
  simp only [Threads.receiverStep, hrecvmsg, ALCCSocket.receive_stale hport hstale, Option.map_some]

theorem ack {a : Ack (Nat → τ)} (h : PacketInv first pc b n acked)
    (hwaits : (receiver γ τ).waits b = true) (hport : a.msg.src_port ≠ CC_PORT)
    (hack : a.msg.ack_seq.toNat = (first + a.bytes) % 2 ^ 32) (horder : AnyOrder acked a.bytes)
    (hstarted : (terms α γ τ).started b = true) (hcredits : InReach first ⟨b.sock, acked⟩ a)
    (hrecorded : a.bytes / MTU ≤ (terms α γ τ).recorded pc b)
    (hs : b.receiverStep C (some a.msg) now terminateThreads = some b') :
    PacketInv first pc b' n (max acked a.bytes) := by
  have hrecvmsg : b.receiver = .recvmsg := of_decide_eq_true hwaits
  have hzero : b.sock.tcpSeq ≠ 0 := of_decide_eq_true hstarted
  have hcredited : b.sock.rcvSeq = acked / MTU := by
    rw [← h.credited, hrecvmsg]
    exact (Nat.add_zero _).symm
  obtain ⟨hpos, haligned⟩ := h.started hzero
  have hrounds := AckInv.rcvSeq_add_rounds C ⟨hcredited, haligned⟩ hpos hport hack horder hcredits
  by_cases hfresh : b.sock.Fresh a.msg.ack_seq.toNat
  · rw [receiverStep_fresh hrecvmsg hport hfresh] at hs
    rw [if_pos hfresh,
      ← ReceiverPc.pending_crediting (b.sock.numAcks a.msg.ack_seq.toNat).toNat] at hrounds
    rw [← Option.some.inj hs]
    exact h.acknowledged (.crediting _) hzero hrecorded hrounds
  · rw [receiverStep_stale hrecvmsg hport hfresh] at hs
    rw [if_neg hfresh] at hrounds
    rw [← Option.some.inj hs]
    exact h.acknowledged .loop hzero hrecorded hrounds

theorem outstanding (h : PacketInv first pc b n acked) (hidle : (receiver γ τ).idle b = true) :
    ∃ counted, counted + (if pc.isSending then 1 else 0) ≤ n ∧ acked / MTU ≤ counted ∧
      (b.sock.seq_num : Int) - 1 - b.sock.rcvSeq = counted - (acked / MTU : Nat) := by
  have hpending := pending_of_idle hidle
  have hdequeued := h.dequeued
  have hcredited := h.credited
  have hcovered := h.covered
  have hsending := pc.isSending_le_before 5
  generalize acked / MTU = whole at hcredited hcovered ⊢
  exact ⟨b.sock.seq_num - 1, by omega, by omega, by omega⟩

end PacketInv

def accounts (C : Controller γ τ) (first : Nat) :
    Accounts α (library C) (receiver γ τ) (terms α γ τ) first where
  MTU_pos := show 0 < MTU by decide
  Inv := PacketInv first
  sender h hs := h.sender hs
  silent h he hs := h.silent he hs
  segment h hwaits hm hfirst hs := h.segment hwaits hm hfirst hs
  ack h hwaits hport hack horder hstarted hcredits hrecorded hs :=
    h.ack hwaits hport hack horder hstarted hcredits hrecorded hs
  outstanding h hidle := h.outstanding hidle

end ALCC.Copa
