import ALCC.Model.VerusSession
import ALCC.Model.VerusWindow
import ALCC.Verify.VerusAccounts

/-! The packets in flight of `libalcc_verus.cpp` across restarts. A restart sets `wCrt` and `seq` to
0, but acknowledgements of the old session may still be credited. `wCrt` counts the uncredited
packets of the session exactly as long as no packet is credited that the session has not sent
(`counted_iff_owned`). -/

namespace ALCC.Verus

open Machine

variable {γ τ : Type*} {C : Controller γ τ} {first : Nat}

namespace ALCCSocket

variable {s : ALCCSocket γ τ} {receivedtime : τ} {k : Int}

/-- The credited packet leaves the list, if it was there. -/
theorem mem_creditPacket :
    k ∈ (s.creditPacket C receivedtime).seqNumbersList ↔
      k ≠ s.seq + 1 ∧ k ∈ s.seqNumbersList := by
  simp only [creditPacket]
  split
  · exact Finmap.mem_erase
  · rename_i hnone
    refine ⟨fun hk => ⟨?_, hk⟩, And.right⟩
    rintro rfl
    exact hnone ⟨_, Finmap.mem_keys.mpr hk, Int.le_refl _⟩

/-- `sendPacket` is made of the updates of the library. -/
theorem sendPacket_eq (b : Threads γ τ) (pktTime : τ) :
    (library C).sent.foldl (fun b update => update pktTime b) ((library C).dequeued b) =
      b.update (·.sendPacket C pktTime) := rfl

/-- A restart leaves the socket as the constructor does. -/
theorem restartSlowStart_eq_new (ctl : γ) : s.restartSlowStart ctl = .new ctl := rfl

end ALCCSocket

/-- A step of `ALCCReceive` without a message: it credits a packet, or does nothing to the
socket. -/
theorem Threads.receiverStep_none {b b' : Threads γ τ} {now : τ} {terminateThreads : Bool}
    (h : b.receiverStep C none now terminateThreads = some b') :
    (b'.sock = b.sock ∧ b.receiver.pending = 0 ∧ b'.receiver.pending = 0) ∨
      ∃ receivedtime left, b.receiver = .crediting receivedtime (left + 1) ∧
        b' = ⟨b.sock.creditPacket C receivedtime, .crediting receivedtime left⟩ := by
  unfold Threads.receiverStep at h
  split at h
  case h_1 hreceiver =>
    cases h
    refine .inl ⟨rfl, by rw [hreceiver]; rfl, ?_⟩
    cases terminateThreads <;> rfl
  case h_2 hreceiver | h_3 hreceiver =>
    cases h
    exact .inl ⟨rfl, by rw [hreceiver]; rfl, rfl⟩
  case h_4 receivedtime left hreceiver =>
    cases h
    exact .inr ⟨receivedtime, left, hreceiver, rfl⟩
  case h_5 => cases h

/-- A step of `ALCCReceive` that takes a message. -/
theorem Threads.receiverStep_some {b b' : Threads γ τ} {m : Message} {now : τ}
    (hwaits : b.receiver = .recvmsg) (h : b.receiverStep C (some m) now false = some b') :
    b' = ⟨(b.sock.receive m).1, .crediting now (b.sock.receive m).2⟩ := by
  rw [Threads.receiverStep, hwaits] at h
  exact (Option.some.inj h).symm

namespace Session

variable {s t : Session γ τ} {a : Action γ τ}

theorem Waits.recvmsg (h : s.Waits) : s.threads.receiver = .recvmsg := by
  rw [Waits] at h
  split at h
  · assumption
  · exact h.elim

/-- `ALCCReceive` is about to credit a packet. -/
def Credits (s : Session γ τ) : Action γ τ → Prop
  | .receiver .. => 0 < s.threads.receiver.pending
  | _ => False

instance (s : Session γ τ) (a : Action γ τ) : Decidable (s.Credits a) := by
  unfold Credits
  split <;> infer_instance

/-- The credited packet is one of this session. -/
def Owned (s : Session γ τ) (a : Action γ τ) : Prop :=
  s.Credits a → s.threads.sock.seq < s.threads.sock.pktSeq

instance (s : Session γ τ) (a : Action γ τ) : Decidable (s.Owned a) :=
  inferInstanceAs (Decidable (_ → _))

/-- `wCrt` is the number of packets of this session that are not credited. -/
structure Counted (s : Session γ τ) : Prop where
  wCrt : s.threads.sock.wCrt = (s.threads.sock.pktSeq - s.threads.sock.seq).toNat
  nonneg : 0 ≤ s.threads.sock.wCrt
  le : s.threads.sock.wCrt ≤ s.threads.sock.pktSeq

/-- The accounts of a session. -/
structure CountInv (sock : ALCCSocket γ τ) : Prop where
  nonneg : 0 ≤ sock.seq
  le : sock.seq ≤ sock.pktSeq
  wCrt : sock.wCrt = sock.pktSeq - sock.seq
  listed : ∀ k, k ∈ sock.seqNumbersList ↔ sock.seq < k ∧ k ≤ sock.pktSeq

theorem CountInv.new (ctl : γ) : CountInv (.new ctl : ALCCSocket γ τ) where
  nonneg := Int.le_refl 0
  le := Int.le_refl 0
  wCrt := rfl
  listed k := by
    refine iff_of_false (by rintro ⟨⟩) ?_
    rintro ⟨hpos, hle⟩
    exact absurd (show k ≤ 0 from hle) (Int.not_le.mpr hpos)

theorem CountInv.sendPacket {sock : ALCCSocket γ τ} (h : CountInv sock) (pktTime : τ) :
    CountInv (sock.sendPacket C pktTime) where
  nonneg := h.nonneg
  le := Int.le_add_one h.le
  wCrt := by
    have := h.wCrt
    simp only [ALCCSocket.sendPacket]
    omega
  listed k := by
    have := h.le
    simp only [ALCCSocket.sendPacket, Finmap.mem_insert, h.listed]
    omega

/-- A packet of the session is credited. -/
theorem CountInv.creditPacket {sock : ALCCSocket γ τ} (h : CountInv sock)
    (howned : sock.seq < sock.pktSeq) (receivedtime : τ) :
    CountInv (sock.creditPacket C receivedtime) := by
  have hwCrt := h.wCrt
  have hnonneg := h.nonneg
  refine ⟨?_, ?_, ?_, ?_⟩
  · rw [ALCCSocket.creditPacket_seq]
    omega
  · rw [ALCCSocket.creditPacket_seq, ALCCSocket.creditPacket_pktSeq]
    omega
  · rw [ALCCSocket.creditPacket_wCrt (by omega), ALCCSocket.creditPacket_seq,
      ALCCSocket.creditPacket_pktSeq]
    omega
  · intro k
    rw [ALCCSocket.mem_creditPacket, h.listed, ALCCSocket.creditPacket_seq,
      ALCCSocket.creditPacket_pktSeq]
    omega

/-- Without packets in the list, a credit makes `wCrt` negative. -/
theorem CountInv.creditPacket_foreign {sock : ALCCSocket γ τ} (h : CountInv sock)
    (hforeign : ¬ sock.seq < sock.pktSeq) (receivedtime : τ) :
    (sock.creditPacket C receivedtime).wCrt = -1 := by
  have hle := h.le
  have hwCrt := h.wCrt
  have hnone : ¬ ∃ k ∈ sock.seqNumbersList.keys, k ≤ sock.seq + 1 := by
    rintro ⟨k, hk, -⟩
    have := (h.listed k).mp (Finmap.mem_keys.mp hk)
    omega
  simp only [ALCCSocket.creditPacket, if_neg hnone]
  omega

theorem CountInv.counted (h : CountInv s.threads.sock) : Counted s := by
  have hwCrt := h.wCrt
  have hnonneg := h.nonneg
  have hle := h.le
  exact ⟨by omega, by omega, by omega⟩

/-- A message does not touch the accounts. -/
theorem CountInv.receive {sock : ALCCSocket γ τ} (h : CountInv sock) (m : Message) :
    CountInv (sock.receive m).1 := by
  simp only [ALCCSocket.receive]
  split_ifs <;> exact ⟨h.nonneg, h.le, h.wCrt, h.listed⟩

/-- A step that credits no packet keeps the accounts, and so does a credit of a packet of the
session; any other credit makes `wCrt` negative. -/
theorem CountInv.step (h : CountInv s.threads.sock) (hs : s.step C first a = some t) :
    (Owned s a → CountInv t.threads.sock) ∧ (¬ Owned s a → t.threads.sock.wCrt = -1) := by
  have hquiet : ∀ {a}, (Credits s a → False) → CountInv t.threads.sock →
      (Owned s a → CountInv t.threads.sock) ∧ (¬ Owned s a → t.threads.sock.wCrt = -1) :=
    fun hquiet h' => ⟨fun _ => h', fun hforeign => absurd (fun hc => (hquiet hc).elim) hforeign⟩
  cases a with
  | turn now =>
    obtain ⟨-, hs⟩ := Option.ite_none_right_eq_some.mp hs
    rw [← Option.some.inj hs] at hquiet ⊢
    exact hquiet id h
  | send size =>
    simp only [step] at hs
    split at hs
    · obtain ⟨-, hs⟩ := Option.ite_none_right_eq_some.mp hs
      rw [← Option.some.inj hs] at hquiet ⊢
      exact hquiet id (h.sendPacket _)
    · cases hs
  | leave =>
    obtain ⟨-, hs⟩ := Option.ite_none_right_eq_some.mp hs
    rw [← Option.some.inj hs] at hquiet ⊢
    exact hquiet id h
  | receiver now terminateThreads =>
    obtain ⟨threads, hthreads, rfl⟩ := Option.map_eq_some_iff.mp hs
    rcases Threads.receiverStep_none hthreads with ⟨hsock, hpending, -⟩ |
      ⟨receivedtime, left, hreceiver, rfl⟩
    · apply hquiet
      · intro (hcredits : 0 < _)
        omega
      · simp only [hsock]
        exact h
    · have hcredits : Credits s (.receiver now terminateThreads) := by
        simp only [Credits, hreceiver, ReceiverPc.pending]
        exact Nat.succ_pos left
      refine ⟨fun howned => h.creditPacket (howned hcredits) _, fun hforeign => ?_⟩
      exact h.creditPacket_foreign (fun hlt => hforeign fun _ => hlt) _
  | segment m position now =>
    obtain ⟨⟨hwaits, -⟩, hs⟩ := Option.ite_none_right_eq_some.mp hs
    obtain ⟨threads, hthreads, rfl⟩ := Option.map_eq_some_iff.mp hs
    rw [Threads.receiverStep_some hwaits.recvmsg hthreads] at hquiet ⊢
    exact hquiet id (h.receive m)
  | ack a =>
    obtain ⟨⟨hwaits, -⟩, hs⟩ := Option.ite_none_right_eq_some.mp hs
    obtain ⟨threads, hthreads, rfl⟩ := Option.map_eq_some_iff.mp hs
    rw [Threads.receiverStep_some hwaits.recvmsg hthreads] at hquiet ⊢
    exact hquiet id (h.receive a.msg)
  | restart ctl =>
    rw [← Option.some.inj hs] at hquiet ⊢
    exact hquiet id (.new ctl)
  | control ctl tempS =>
    rw [← Option.some.inj hs] at hquiet ⊢
    exact hquiet id ⟨h.nonneg, h.le, h.wCrt, h.listed⟩

/-- **`wCrt` counts the uncredited packets of the session** in every state, exactly if every
credited packet is one of the session: for every order of packets, messages, credits and
restarts. -/
theorem counted_iff_owned (ctl : γ) {acts : List (Action γ τ)}
    (hrun : run (step C first) (.init (.new ctl)) acts = some t) :
    Always (step C first) Counted (.init (.new ctl)) acts ↔
      Guarded (step C first) Owned (.init (.new ctl)) acts := by
  apply always_iff_guarded (I := fun s => CountInv s.threads.sock) (fun _ h => h.counted)
    (fun _ _ _ h hG hs => (h.step hs).1 hG) _ (.new ctl) hrun
  intro s a t h hforeign hs hcounted
  have := hcounted.nonneg
  have := (h.step hs).2 hforeign
  omega

/-- A packet of 1448 bytes is sent and acknowledged. -/
def onePacket : List (Action Window Timeval) :=
  [.turn ⟨0, 0⟩, .send 1448, .leave, .receiver ⟨0, 0⟩ false,
    .segment ⟨CC_PORT, 50000, 1, 0⟩ 0 ⟨0, 0⟩, .receiver ⟨0, 0⟩ false, .receiver ⟨0, 0⟩ false,
    .ack ⟨⟨50000, CC_PORT, 0, 1449⟩, 1448, ⟨0, 20000⟩⟩,
    .receiver ⟨0, 20000⟩ false, .receiver ⟨0, 20000⟩ false]

theorem counted_one_packet :
    Always (step controller 1) Counted (.init (.new .initial)) onePacket :=
  (counted_iff_owned _ (Option.some_get (by decide +kernel)).symm).mpr (by decide +kernel)

/-- Two more packets are sent. The acknowledgement of the first of them comes after a second, which
ends slow start, and `ALCCCurve` restarts. -/
def thenRestart : List (Action Window Timeval) :=
  onePacket ++ [.turn ⟨0, 30000⟩, .send 1448, .send 1448, .leave, .receiver ⟨1, 0⟩ false,
    .ack ⟨⟨50000, CC_PORT, 0, 2897⟩, 2896, ⟨1, 30000⟩⟩, .receiver ⟨1, 30000⟩ false,
    .receiver ⟨1, 30000⟩ false, .restart .initial]

/-- The kernel reports the segment of the third packet, and its acknowledgement. -/
def oldPacket : List (Action Window Timeval) :=
  [.receiver ⟨2, 0⟩ false, .segment ⟨CC_PORT, 50000, 2897, 0⟩ 2896 ⟨2, 0⟩, .receiver ⟨2, 0⟩ false,
    .receiver ⟨2, 0⟩ false, .ack ⟨⟨50000, CC_PORT, 0, 4345⟩, 4344, ⟨2, 0⟩⟩, .receiver ⟨2, 0⟩ false]

/-- After the restart the acknowledgement of an old packet makes `wCrt` negative. -/
theorem old_ack_not_counted :
    ¬ Always (step controller 1) Counted (.init (.new .initial)) (thenRestart ++ oldPacket) :=
  fun h =>
    have hrun := (Option.some_get (by decide +kernel)).symm
    absurd (h.last hrun).nonneg (by decide +kernel)

end Session

end ALCC.Verus
