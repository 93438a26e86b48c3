import ALCC.Verify.Connection
import ALCC.Verify.LibalccAcks

/-! The ledger of the packets in flight in `libalcc.cpp`. Whatever messages arrive, `ack_receiver`
settles packets only when the packet `rcvSeq` is listed, hence sent, and it settles exactly those
from `rcvSeqLast` on (`LedgerInv`). `rcvSeq` itself may be anything, and may even run ahead of
`sentSeq`; a message moves it by less than `2 ^ 22`, so that it stays an `unsigned long long`
unless there are more than `2 ^ 42` messages. -/

namespace ALCC.Libalcc

open Binary64 Connection Machine MachineInt

variable {α τ : Type*}

namespace ALCCSocket

variable {s t : ALCCSocket τ} {m : Message} {listed : Bool}

/-- A wrap-around does not decrease `rcvSeq`, as far as doubles can tell. -/
theorem min_le_addWrapped {ack_seq : Nat} (hseq : s.tcpSeq ≤ 2 ^ 32) :
    min s.rcvSeq (2 ^ 53) ≤ s.addWrapped ack_seq := by
  have hquot : 0 ≤ double (((2 ^ 32 - s.tcpSeq + ack_seq : Int) : ℚ) / MTU) := by
    refine double_nonneg (div_nonneg ?_ (Nat.cast_nonneg _))
    exact_mod_cast (show (0 : Int) ≤ 2 ^ 32 - s.tcpSeq + ack_seq by omega)
  have hle := min_le_right s.rcvSeq (2 ^ 53)
  generalize hk : min s.rcvSeq (2 ^ 53) = k at hle ⊢
  have hrcv : (k : ℚ) ≤ double s.rcvSeq :=
    le_double hle (by exact_mod_cast hk ▸ min_le_left s.rcvSeq (2 ^ 53))
  have hsum := le_double hle (le_add_of_le_of_nonneg hrcv hquot)
  have hfloor : (k : Int) ≤ trunc (double (double s.rcvSeq +
      double (((2 ^ 32 - s.tcpSeq + ack_seq : Int) : ℚ) / MTU))) := by
    rw [trunc, if_pos (le_trans (Nat.cast_nonneg k) hsum)]
    exact Int.le_floor.mpr (by exact_mod_cast hsum)
  simp only [addWrapped]
  omega

theorem min_le_credit {ack_seq : Nat} (hseq : s.tcpSeq ≤ 2 ^ 32) :
    min s.rcvSeq (2 ^ 53) ≤ (s.credit ack_seq).rcvSeq := by
  simp only [credit]
  split
  · exact min_le_addWrapped hseq
  · omega

/-- What the first half of `ack_receiver` can do. -/
structure Received (s t : ALCCSocket τ) (listed : Bool) : Prop extends Kept s t where
  rcvSeq : min s.rcvSeq (2 ^ 53) ≤ t.rcvSeq
  tcpSeq : t.tcpSeq ≤ 2 ^ 32
  listed : listed = true → t.rcvSeq ∈ t.seqNumbersList

theorem receive_kept (h : s.receive m = some (t, listed)) : Kept s t := by
  rw [receive] at h
  split at h
  · split at h <;> cases h
    exact ⟨rfl, rfl, rfl, rfl, rfl, rfl⟩
  · split at h
    · cases h
      exact .refl s
    · split at h <;> cases h
      · exact .credit _
      · exact .refl s

theorem receive_cases (hseq : s.tcpSeq ≤ 2 ^ 32) (h : s.receive m = some (t, listed)) :
    Received s t listed := by
  have hself : Received s s false := ⟨.refl s, min_le_left s.rcvSeq _, hseq, fun h => by cases h⟩
  rw [receive] at h
  split at h
  · split at h <;> cases h
    exact ⟨⟨rfl, rfl, rfl, rfl, rfl, rfl⟩, min_le_left s.rcvSeq _, m.rcv_seq.toNat_lt.le,
      fun h => by cases h⟩
  · split at h
    · cases h
      exact hself
    · split at h
      · cases h
        exact ⟨.credit _, min_le_credit hseq, m.ack_seq.toNat_lt.le,
          fun h => (of_decide_eq_true h).2⟩
      · cases h
        exact hself

end ALCCSocket

/-- The packets in flight are those from `rcvSeqLast` up to `sentSeq`, as far as the sender thread
has counted them. -/
structure LedgerInv (pc : SenderPc α τ) (b : Threads τ) : Prop where
  inFlight : b.sock.pktsInFlight = b.sock.sentSeq - pc.before 2 - b.sock.rcvSeqLast
  counted : b.sock.rcvSeqLast + pc.before 2 ≤ b.sock.sentSeq
  listed : ∀ k ∈ b.sock.seqNumbersList, k + pc.before 2 ≤ b.sock.sentSeq
  rcvSeqLast : min b.sock.rcvSeqLast (2 ^ 53) ≤ b.sock.rcvSeq
  tcpSeq : b.sock.tcpSeq ≤ 2 ^ 32
  settling : b.receiver = .settling → b.sock.rcvSeq ∈ b.sock.seqNumbersList

namespace LedgerInv

variable {pc pc' : SenderPc α τ} {b b' : Threads τ} {now : τ} {terminateThreads : Bool}

theorem new (port : UInt16) (cwnd : Nat) : LedgerInv (.outer : SenderPc α τ) (.new port cwnd) where
  inFlight := rfl
  counted := Nat.le_refl 0
  listed k hk := by cases hk
  rcvSeqLast := Nat.min_le_left ..
  tcpSeq := Nat.zero_le _
  settling h := by cases h

/-- A move to a place with the same accounts. -/
theorem move (h : LedgerInv pc b) (hbefore : pc'.before 2 = pc.before 2) : LedgerInv pc' b where
  inFlight := hbefore ▸ h.inFlight
  counted := hbefore ▸ h.counted
  listed := hbefore ▸ h.listed
  rcvSeqLast := h.rcvSeqLast
  tcpSeq := h.tcpSeq
  settling := h.settling

/-- `sentSeq` counts the packet that is dequeued. -/
theorem dequeue {pktTime : τ} {left : Nat} {loop : SendLoop α}
    (h : LedgerInv (.round pktTime (left + 1) : SenderPc α τ) b) :
    LedgerInv (.sending pktTime left loop) ((library τ).dequeued b) where
  inFlight := by
    have := h.inFlight
    simp only [library, Threads.update, SenderPc.before] at *
    omega
  counted := Nat.succ_le_succ h.counted
  listed k hk := Nat.succ_le_succ (h.listed k hk)
  rcvSeqLast := h.rcvSeqLast
  tcpSeq := h.tcpSeq
  settling := h.settling

/-- `tempS -= 1`, `pktsInFlight += 1` and the entry in `seqNumbersList`. -/
theorem record {pktTime : τ} {left k : Nat} {update : τ → Threads τ → Threads τ}
    (h : LedgerInv (.recording pktTime left k : SenderPc α τ) b)
    (hk : (library τ).sent[k]? = some update) :
    LedgerInv (.recording pktTime left (k + 1) : SenderPc α τ) (update pktTime b) := by
  match k, hk with
  | 0, rfl => exact ⟨h.inFlight, h.counted, h.listed, h.rcvSeqLast, h.tcpSeq, h.settling⟩
  | 1, rfl =>
    have hbefore : (SenderPc.recording pktTime left 1 : SenderPc α τ).before 2 = 1 := rfl
    have hafter : (SenderPc.recording pktTime left 2 : SenderPc α τ).before 2 = 0 := rfl
    have hinFlight := h.inFlight
    have hcounted := h.counted
    rw [hbefore] at hinFlight hcounted
    refine ⟨?_, ?_, ?_, h.rcvSeqLast, h.tcpSeq, h.settling⟩
    · simp only [Threads.update, hafter]
      omega
    · simp only [Threads.update, hafter]
      omega
    · intro k hk
      exact le_trans (Nat.le_succ k) (h.listed k hk)
  | 2, rfl =>
    refine ⟨h.inFlight, h.counted, ?_, h.rcvSeqLast, h.tcpSeq, ?_⟩
    · intro k hk
      rcases Finmap.mem_insert.mp hk with rfl | hk
      · exact Nat.le_refl _
      · exact h.listed k hk
    · intro hreceiver
      exact Finmap.mem_insert.mpr (.inr (h.settling hreceiver))

/-- What the sender thread does. -/
theorem sender (h : LedgerInv pc b)
    (hs : Moves (library τ) terminateThreads now pc b pc' b') : LedgerInv pc' b' := by
  cases hs with
  | outer => cases terminateThreads <;> exact h.move rfl
  | turn | leave | through | send | finish | empty => exact h.move rfl
  | dequeue => exact h.dequeue
  | record hk => exact h.record hk
  | next hk => exact h.move (SenderPc.before_of_none (Nat.le_succ 2) hk).symm

/-- The settled packet was sent, and is not behind `rcvSeqLast`. -/
theorem settled_mem (h : LedgerInv pc b) (hsentSeq : b.sock.sentSeq < 2 ^ 53)
    (hreceiver : b.receiver = .settling) :
    b.sock.rcvSeqLast ≤ b.sock.rcvSeq ∧ b.sock.rcvSeq + pc.before 2 ≤ b.sock.sentSeq := by
  have hlisted := h.listed _ (h.settling hreceiver)
  have hrcvSeqLast := h.rcvSeqLast
  have hcounted := h.counted
  omega

/-- `numAcks` is the number of packets between `rcvSeqLast` and a listed `rcvSeq`. -/
theorem settle (h : LedgerInv pc b) (hsentSeq : b.sock.sentSeq < 2 ^ 53)
    (hreceiver : b.receiver = .settling) (hnumAcks : b.sock.rcvSeq < b.sock.rcvSeqLast + 2 ^ 31) :
    LedgerInv pc { b with sock := b.sock.settle, receiver := .loop } := by
  obtain ⟨hle, hlisted⟩ := h.settled_mem hsentSeq hreceiver
  obtain ⟨hlast, hpkts⟩ := ALCCSocket.settle_eq hle hnumAcks
  have hinFlight := h.inFlight
  refine ⟨?_, ?_, ?_, ?_, h.tcpSeq, ?_⟩
  · rw [hpkts, hlast]
    change _ = (b.sock.sentSeq : Int) - _ - _
    omega
  · rw [hlast]
    exact hlisted
  · intro k hk
    exact h.listed k (Finmap.mem_erase.mp hk).2
  · rw [hlast]
    exact Nat.min_le_left ..
  · rintro ⟨⟩

/-- What `ack_receiver` does. -/
theorem receiverStep {m : Option Message} (h : LedgerInv pc b) (hsentSeq : b.sock.sentSeq < 2 ^ 53)
    (hnumAcks : b.receiver = .settling → b.sock.rcvSeq < b.sock.rcvSeqLast + 2 ^ 31)
    (hs : b.receiverStep m terminateThreads = some b') : LedgerInv pc b' := by
  unfold Threads.receiverStep at hs
  split at hs
  case h_1 =>
    cases hs
    exact ⟨h.inFlight, h.counted, h.listed, h.rcvSeqLast, h.tcpSeq,
      by cases terminateThreads <;> rintro ⟨⟩⟩
  case h_2 =>
    cases m with
    | none =>
      cases hs
      exact ⟨h.inFlight, h.counted, h.listed, h.rcvSeqLast, h.tcpSeq, by rintro ⟨⟩⟩
    | some m =>
      obtain ⟨⟨s, listed⟩, hreceive, rfl⟩ := Option.map_eq_some_iff.mp hs
      have hr := ALCCSocket.receive_cases h.tcpSeq hreceive
      refine ⟨?_, ?_, ?_, ?_, hr.tcpSeq, ?_⟩
      · rw [hr.pktsInFlight, hr.sentSeq, hr.rcvSeqLast]
        exact h.inFlight
      · rw [hr.sentSeq, hr.rcvSeqLast]
        exact h.counted
      · rw [hr.sentSeq, hr.seqNumbersList]
        exact h.listed
      · rw [hr.rcvSeqLast]
        exact le_trans (le_min h.rcvSeqLast (Nat.min_le_right ..)) hr.rcvSeq
      · cases listed with
        | false => rintro ⟨⟩
        | true => exact fun _ => hr.listed rfl
  case h_3 hreceiver =>
    cases hs
    exact h.settle hsentSeq hreceiver (hnumAcks hreceiver)
  case h_4 => cases hs

/-- `CC_logic` touches neither the packets nor the list. -/
theorem ccStep {junk : Int} (h : LedgerInv pc b)
    (hs : b.ccStep junk terminateThreads = some b') : LedgerInv pc b' := by
  rw [Threads.ccStep] at hs
  split at hs
  · split at hs <;> cases hs <;>
      exact ⟨h.inFlight, h.counted, h.listed, h.rcvSeqLast, h.tcpSeq, h.settling⟩
  · cases hs

theorem step {s t : Connection α (Threads τ) τ} {a : Action α Event τ} (h : LedgerInv s.pc s.sock)
    (hsentSeq : s.sock.sock.sentSeq < 2 ^ 31) (hs : s.step (library τ) a = some t) :
    LedgerInv t.pc t.sock := by
  rcases step_moves hs with ⟨now, ret, -, hmove⟩ | ⟨e, rfl, hthread, hpc⟩ | ⟨-, hpc, hsock⟩
  · exact h.sender hmove
  · rw [hpc]
    cases e with
    | receiver m =>
      apply h.receiverStep (by omega) _ hthread
      intro hreceiver
      have := (h.settled_mem (by omega) hreceiver).2
      omega
    | cc junk => exact h.ccStep hthread
  · rw [hpc, hsock]
    exact h

end LedgerInv

/-- The threads besides the sender leave `sentSeq` alone. -/
theorem sentSeq_thread {b b' : Threads τ} {e : Event} {terminateThreads : Bool}
    (hs : (library τ).thread e terminateThreads b = some b') :
    b'.sock.sentSeq = b.sock.sentSeq := by
  cases e with
  | receiver m =>
    simp only [library, Threads.step, Threads.receiverStep] at hs
    split at hs
    case h_1 | h_3 =>
      cases hs
      rfl
    case h_2 =>
      cases m with
      | none =>
        cases hs
        rfl
      | some m =>
        obtain ⟨⟨u, listed⟩, hreceive, rfl⟩ := Option.map_eq_some_iff.mp hs
        exact (ALCCSocket.receive_kept hreceive).sentSeq
    case h_4 => cases hs
  | cc junk =>
    simp only [library, Threads.step, Threads.ccStep] at hs
    split at hs
    · split at hs <;> cases hs <;> rfl
    · cases hs

/-- `sentSeq` only grows. -/
theorem sentSeq_le_step {s t : Connection α (Threads τ) τ} {a : Action α Event τ}
    (hs : s.step (library τ) a = some t) : s.sock.sock.sentSeq ≤ t.sock.sock.sentSeq := by
  rcases step_moves hs with ⟨now, ret, -, hmove⟩ | ⟨e, rfl, hthread, -⟩ | ⟨-, -, hsock⟩
  · generalize s.pc = pc, s.sock = b, t.pc = pc', t.sock = b' at hmove
    cases hmove with
    | dequeue => exact Nat.le_succ _
    | @record _ _ _ k _ hk =>
      match k, hk with
      | 0, rfl | 1, rfl | 2, rfl => exact Nat.le_refl _
    | outer | turn | leave | finish | empty | send | through | next => exact Nat.le_refl _
  · exact (sentSeq_thread hthread).ge
  · rw [hsock]

/-- The ledger as the threads may rely on it. -/
structure Balanced (s : Connection α (Threads τ) τ) : Prop where
  pktsInFlight_nonneg : 0 ≤ s.sock.sock.pktsInFlight
  rcvSeqLast_le : s.sock.sock.rcvSeqLast ≤ s.sock.sock.sentSeq
  /-- The sender thread is not between `sentSeq++` and `pktsInFlight += 1`. -/
  pktsInFlight : s.pc.before 2 = 0 →
    s.sock.sock.pktsInFlight = s.sock.sock.sentSeq - s.sock.sock.rcvSeqLast

theorem LedgerInv.balanced {s : Connection α (Threads τ) τ} (h : LedgerInv s.pc s.sock) :
    Balanced s := by
  have hinFlight := h.inFlight
  have hcounted := h.counted
  refine ⟨by omega, by omega, ?_⟩
  intro hbefore
  rw [hbefore] at hinFlight
  omega

/-- **The ledger of the packets in flight is balanced** in every state that a connection reaches,
as long as fewer than `2 ^ 31` packets were sent: for every order of the steps of the threads, and
for every message the kernel can send. -/
theorem balanced_of_run {arr : List α} {data : Int → α} {port : UInt16} {cwnd : Nat}
    {acts : List (Action α Event τ)} {t : Connection α (Threads τ) τ}
    (hrun : run (step (library τ)) (.init arr data (.new port cwnd)) acts = some t)
    (hsent : t.sock.sock.sentSeq < 2 ^ 31) : Balanced t := by
  have hinv : t.sock.sock.sentSeq < 2 ^ 31 → LedgerInv t.pc t.sock := by
    apply invariant (I := fun s => s.sock.sock.sentSeq < 2 ^ 31 → LedgerInv s.pc s.sock) _ _ hrun
    · intro s a t h hs hlt
      have hle := sentSeq_le_step hs
      exact (h (by omega)).step (by omega) hs
    · intro _
      exact LedgerInv.new port cwnd
  exact (hinv hsent).balanced

/-- A packet is sent, and acknowledged before the sender thread has listed it. -/
theorem balanced_early_ack :
    ∃ t, run (step (library Unit)) (init (List.replicate 4 0) (fun _ => 0) (.new 50000 0))
        ([.alccSend [1] 1, .thread (.receiver none),
          .thread (.receiver (some ⟨CC_PORT, 50000, 1, 0⟩)), .thread (.receiver none)] ++
          List.replicate 7 (.sender () 1) ++
          [.thread (.receiver (some ⟨50000, CC_PORT, 0, 1449⟩))]) = some t ∧ Balanced t :=
  have hrun := (Option.some_get (by decide +kernel)).symm
  ⟨_, hrun, balanced_of_run hrun (by decide +kernel)⟩

end ALCC.Libalcc
