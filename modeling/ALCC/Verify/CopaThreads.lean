import ALCC.Verify.CopaAcks
import ALCC.Verify.CopaPacing

/-! The threads of `libalcc_copa.cpp` together: the packets that were taken from the queue and are
not credited fit into the window (`run_within`). -/

namespace ALCC

namespace Connection

variable {α τ : Type*}

/-- The packets that the sender thread is free to take, or has taken, and that do not have the first
`k` updates. -/
def SenderPc.ahead (k : Nat) : SenderPc α τ → Nat
  | .round _ left => left
  | .sending _ left _ => left + 1
  | .recording _ left j => left + if j < k then 1 else 0
  | _ => 0

theorem SenderPc.before_le_ahead (k : Nat) (pc : SenderPc α τ) : pc.before k ≤ pc.ahead k := by
  cases pc with
  | sending t left loop => exact Nat.le_add_left ..
  | recording t left j => exact Nat.le_add_left ..
  | _ => exact Nat.zero_le _

end Connection

namespace Copa

open Binary64 Connection Machine

variable {α γ ω τ : Type*} {W : WindowOps ω} {C : Controller γ τ} {B : Nat} {now : τ}

namespace ALCCSocket

variable {s t : ALCCSocket γ τ}

/-- No packet is credited between the two. -/
structure Same (s t : ALCCSocket γ τ) : Prop where
  seq_num : t.seq_num = s.seq_num
  rcvSeq : t.rcvSeq = s.rcvSeq
  largest_ack : t.largest_ack = s.largest_ack
  senderTimestampList : t.senderTimestampList = s.senderTimestampList
  ctl : t.ctl = s.ctl

theorem receive_same {m : Message} {rounds : Option Nat} (h : s.receive m = some (t, rounds)) :
    Same s t := by
  unfold receive at h
  split at h
  · split at h <;> cases h
    exact ⟨rfl, rfl, rfl, rfl, rfl⟩
  · split at h
    · cases h
      exact ⟨rfl, rfl, rfl, rfl, rfl⟩
    · split at h <;> cases h <;> exact ⟨rfl, rfl, rfl, rfl, rfl⟩

theorem creditPacket_largest_ack (C : Controller γ τ) (now : τ) (s : ALCCSocket γ τ) :
    (s.creditPacket C now).largest_ack = s.largest_ack ∨
      (s.creditPacket C now).largest_ack = max s.largest_ack (s.rcvSeq + 1 : Nat) := by
  unfold creditPacket
  dsimp only
  split
  · exact .inr rfl
  · exact .inl rfl

end ALCCSocket

/-- A step of `ack_receiver` credits a packet, or none. -/
theorem receiverStep_cases {b b' : Threads γ τ} {m : Option Message} {terminateThreads : Bool}
    (hfinish : ∀ c, C.finish c = c) (hs : b.receiverStep C m now terminateThreads = some b') :
    ALCCSocket.Same b.sock b'.sock ∨
      ∃ left, b.receiver = .crediting (left + 1) ∧ b'.sock = b.sock.creditPacket C now := by
  unfold Threads.receiverStep at hs
  split at hs
  case h_1 hreceiver =>
    cases hs
    exact .inl ⟨rfl, rfl, rfl, rfl, rfl⟩
  case h_2 hreceiver =>
    split at hs
    · cases hs
      exact .inl ⟨rfl, rfl, rfl, rfl, rfl⟩
    · obtain ⟨⟨t, rounds⟩, hreceive, rfl⟩ := Option.map_eq_some_iff.mp hs
      have hsame := ALCCSocket.receive_same hreceive
      cases rounds <;> exact .inl hsame
  case h_3 hreceiver =>
    cases hs
    exact .inl ⟨rfl, rfl, rfl, rfl, hfinish _⟩
  case h_4 left hreceiver =>
    cases hs
    exact .inr ⟨left, hreceiver, rfl⟩
  case h_5 => cases hs

/-! ## The window -/

/-- The packets ahead of the largest acknowledgement fit into the window. -/
structure Within (B : Nat) (pc : SenderPc α τ) (s : ALCCSocket γ τ) : Prop where
  window : (s.seq_num : Int) + pc.ahead 5 ≤ s.largest_ack + 1 + B
  credited : s.largest_ack ≤ s.rcvSeq
  largest_ack : -1 ≤ s.largest_ack

namespace Within

variable {pc pc' : SenderPc α τ} {s t : ALCCSocket γ τ} {b b' : Threads γ τ}

theorem new (hB : 1 ≤ B) (ctl : γ) : Within B (.outer : SenderPc α τ) (.new ctl) where
  window := by
    change (1 : Int) + 0 ≤ -1 + 1 + B
    omega
  credited := by
    change (-1 : Int) ≤ 0
    decide
  largest_ack := le_rfl

theorem move (h : Within B pc s) (hahead : pc'.ahead 5 ≤ pc.ahead 5) : Within B pc' s where
  window := by
    have := h.window
    omega
  credited := h.credited
  largest_ack := h.largest_ack

theorem same (h : Within B pc s) (hsame : ALCCSocket.Same s t) : Within B pc t where
  window := by
    rw [hsame.seq_num, hsame.largest_ack]
    exact h.window
  credited := by
    rw [hsame.largest_ack, hsame.rcvSeq]
    exact h.credited
  largest_ack := by
    rw [hsame.largest_ack]
    exact h.largest_ack

theorem creditPacket (h : Within B pc s) : Within B pc (s.creditPacket C now) := by
  have hwindow := h.window
  have hcredited := h.credited
  have hlargest := h.largest_ack
  have hseq := ALCCSocket.creditPacket_seq_num (s := s) (C := C) now
  have hrcv := ALCCSocket.creditPacket_rcvSeq (s := s) (C := C) now
  rcases ALCCSocket.creditPacket_largest_ack C now s with hack | hack
  · exact ⟨by rw [hseq, hack]; exact hwindow, by rw [hrcv, hack]; omega,
      by rw [hack]; exact hlargest⟩
  · exact ⟨by rw [hseq, hack]; omega, by rw [hrcv, hack]; omega, by rw [hack]; omega⟩

theorem record {pktTime : τ} {left k : Nat} {update : τ → Threads γ τ → Threads γ τ}
    (h : Within B (.recording pktTime left k : SenderPc α τ) b.sock)
    (hk : (library C).sent[k]? = some update) :
    Within B (.recording pktTime left (k + 1) : SenderPc α τ) (update pktTime b).sock := by
  have hwindow := h.window
  match k, hk with
  | 0, rfl | 1, rfl | 2, rfl | 3, rfl => exact ⟨h.window, h.credited, h.largest_ack⟩
  | 4, rfl =>
    refine ⟨?_, h.credited, h.largest_ack⟩
    change ((b.sock.seq_num + 1 : Nat) : Int) + (left + 0 : Nat) ≤ b.sock.largest_ack + 1 + B
    change (b.sock.seq_num : Int) + (left + 1 : Nat) ≤ b.sock.largest_ack + 1 + B at hwindow
    omega

end Within

/-- The window is at most `B`, and the numbers of the packets in it are `int`s. -/
def Bounded (W : WindowOps ω) (B : Nat) (s : Connection α (Threads (Pacer ω) ℚ) ℚ)
    (_ : Connection.Action α (Event ℚ) ℚ) : Prop :=
  W.get_the_window s.sock.sock.ctl.window ≤ B ∧ s.sock.sock.rcvSeq + 1 + B < 2 ^ 31

instance (s : Connection α (Threads (Pacer ω) ℚ) ℚ) : DecidablePred (Bounded W B s) := fun _ =>
  inferInstanceAs (Decidable (_ ∧ _))

/-- An open window has room for one more packet. -/
theorem Within.room {pc : SenderPc α ℚ} {s : ALCCSocket (Pacer ω) ℚ} (h : Within B pc s)
    (hB : W.get_the_window s.ctl.window ≤ B) (hsmall : s.rcvSeq + 1 + B < 2 ^ 31)
    (hopen : s.ctl.Open W s.seq_num s.largest_ack) :
    (s.seq_num : Int) + 1 ≤ s.largest_ack + 1 + B := by
  have hcredited := h.credited
  have hlargest := h.largest_ack
  have hle : double ((s.largest_ack + 1 : Int) + W.get_the_window s.ctl.window) ≤
      (s.largest_ack + 1 + B : Int) := by
    refine (double_mono (y := (s.largest_ack + 1 + B : Int)) ?_).trans (double_intCast ?_).le
    · push_cast
      linarith
    · rw [abs_lt]
      omega
  have hlt : (s.seq_num : ℚ) < (s.largest_ack + 1 + B : Int) := hopen.trans_le hle
  have hlt : (s.seq_num : Int) < s.largest_ack + 1 + B := by exact_mod_cast hlt
  omega

theorem Within.sender {pc pc' : SenderPc α ℚ} {b b' : Threads (Pacer ω) ℚ} {now : ℚ} {flag : Bool}
    (h : Within B pc b.sock) (hB : W.get_the_window b.sock.ctl.window ≤ B)
    (hsmall : b.sock.rcvSeq + 1 + B < 2 ^ 31)
    (hs : Moves (library (pacer W)) flag now pc b pc' b') : Within B pc' b'.sock := by
  cases hs with
  | outer => cases flag <;> exact h.move (Nat.le_refl 0)
  | turn htest =>
    have hroom := h.room hB hsmall ((test_eq_true flag).mp htest).1
    exact ⟨hroom, h.credited, h.largest_ack⟩
  | leave => exact h.move (Nat.le_refl 0)
  | finish => exact h.move (Nat.le_refl 0)
  | empty => exact h.move (Nat.zero_le _)
  | dequeue loop => exact h.move (Nat.le_refl _)
  | send loop loop' => exact h.move (Nat.le_refl _)
  | through loop => exact h.move (Nat.le_refl _)
  | record hk => exact h.record hk
  | next hk => exact h.move (Nat.le_add_right ..)

theorem Within.step {s t : Connection α (Threads (Pacer ω) ℚ) ℚ}
    {a : Connection.Action α (Event ℚ) ℚ} (h : Within B s.pc s.sock.sock) (hB : Bounded W B s a)
    (hs : s.step (library (pacer W)) a = some t) : Within B t.pc t.sock.sock := by
  rcases step_moves hs with ⟨now, ret, -, hmoves⟩ | ⟨⟨m, now⟩, -, hthread, hpc⟩ | ⟨-, hpc, hsock⟩
  · exact h.sender hB.1 hB.2 hmoves
  · rw [hpc]
    rcases receiverStep_cases (C := pacer W) (fun _ => rfl) hthread with hsame | ⟨left, -, hcredit⟩
    · exact h.same hsame
    · rw [hcredit]
      exact h.creditPacket
  · rw [hpc, hsock]
    exact h

/-- **The window is respected.** In every state of a run of all threads, the packets taken from the
queue and not credited are at most `B`, if the window never exceeds `B`. -/
theorem run_within {arr : List α} {data : Int → α} {p : Pacer ω}
    {acts : List (Connection.Action α (Event ℚ) ℚ)} {s : Connection α (Threads (Pacer ω) ℚ) ℚ}
    (hB : 1 ≤ B)
    (h : Guarded (step (library (pacer W))) (Bounded W B) (init arr data (.new p)) acts)
    (hrun : run (step (library (pacer W))) (init arr data (.new p)) acts = some s) :
    (s.sock.sock.seq_num : Int) - 1 + s.pc.before 5 ≤ s.sock.sock.rcvSeq + B := by
  have hwithin : Within B s.pc s.sock.sock :=
    h.invariant (I := fun s => Within B s.pc s.sock.sock)
      (fun _ _ _ hs hbounded hstep => hs.step hbounded hstep) (.new hB p) hrun
  have hwindow := hwithin.window
  have hcredited := hwithin.credited
  have hbefore := s.pc.before_le_ahead 5
  omega

/-- A byte is sent at 101 and acknowledged at 120. -/
def oneByte : List (Connection.Action Unit (Event ℚ) ℚ) :=
  .alccSend [()] 1 :: (List.replicate 11 (.sender 101 1) ++
    [.thread (.receiver none 101), .thread (.receiver (some ⟨CC_PORT, 50000, 1, 0⟩) 101),
      .thread (.receiver none 102), .thread (.receiver (some ⟨50000, CC_PORT, 0, 1485⟩) 102),
      .thread (.receiver none 120), .thread (.receiver none 120)])

def beforeByte : Connection Unit (Threads (Pacer Window) ℚ) ℚ :=
  init (List.replicate 8 ()) (fun _ => ()) (.new (.start 0 100))

theorem run_within_byte : ∃ s, run (step (library (pacer Window.ops))) beforeByte oneByte = some s ∧
    s.sock.sock.largest_ack = 1 ∧
    (s.sock.sock.seq_num : Int) - 1 + s.pc.before 5 ≤ s.sock.sock.rcvSeq + 10 := by
  have h : (run (step (library (pacer Window.ops))) beforeByte oneByte).any
      fun s => s.sock.sock.largest_ack = 1 := by
    decide +kernel
  obtain ⟨s, hrun, hack⟩ := (Option.any_eq_true _ _).mp h
  exact ⟨s, hrun, of_decide_eq_true hack, run_within (by decide) (by decide +kernel) hrun⟩

end Copa

end ALCC
