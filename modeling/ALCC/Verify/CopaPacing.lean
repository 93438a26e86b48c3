import ALCC.Model.CopaPacing
import ALCC.Verify.Lockstep
import ALCC.Verify.Outstanding

/-! The pacing test of `libalcc_copa.cpp`. It does not look at the clock: it compares the end of the
pacing interval with the reading `cur_time`, which the thread takes only after the test was
successful. So a pass of the outer loop sends a packet exactly if the interval was over at that
reading (`prompt_iff_due`), and if it was not, none is sent until the other thread changes something
(`Connection.handed_of_closed`). -/

namespace ALCC

open CircularQueue Machine

namespace Connection

variable {α β ε τ : Type*} {L : Library β ε τ} {s t u : Connection α β τ} {a : Action α ε τ}
  {acts : List (Action α ε τ)} {arr : List α} {data : Int → α} {sock : β} {now : τ}
  {ret : Int}

/-- A pass of the outer loop that is not interrupted gets to a call of `::send`. -/
def SendsNext (L : Library β ε τ) (s : Connection α β τ) (now : τ) : Prop :=
  ∃ t pktTime left loop, run (step L) s (List.replicate 3 (.sender now 0)) = some t ∧
    t.pc = .sending pktTime left loop ∧ loop.z < loop.size

/-- The queue is in order, and the process is there as long as the threads are to run. -/
structure Running (s : Connection α β τ) : Prop where
  queue : s.sending_queue.WF
  app : s.terminateThreads = false → s.app = .sending ∨ s.app = .waiting ∨ s.app = .terminating

theorem Running.init (harr : 1 ≤ arr.length) : Running (.init arr data sock (τ := τ)) where
  queue := .new harr
  app _ := .inl rfl

theorem Running.not_aborted (h : s.Running) (hflag : s.terminateThreads = false) :
    s.app ≠ .aborted := by
  intro happ
  rcases h.app hflag with h | h | h <;> rw [happ] at h <;> cases h

theorem senderStep_kept (h : s.sending_queue.WF) (hs : s.senderStep L now ret = some t) :
    t.sending_queue.WF ∧ t.terminateThreads = s.terminateThreads ∧ t.app = s.app := by
  unfold senderStep at hs
  split at hs
  case h_1 | h_3 =>
    cases hs
    exact ⟨h, rfl, rfl⟩
  case h_2 | h_6 => split at hs <;> cases hs <;> exact ⟨h, rfl, rfl⟩
  case h_4 =>
    rw [dequeue, remove_spec h (by simp), Option.map_some] at hs
    cases hs
    have hskip := h.skip (Nat.min_le_right L.MTU _)
    simp only
    split <;> exact ⟨hskip, rfl, rfl⟩
  case h_5 =>
    split at hs
    · split at hs <;> cases hs
      exact ⟨h, rfl, rfl⟩
    · cases hs
      exact ⟨h, rfl, rfl⟩
  case h_7 => cases hs

theorem Running.step (h : s.Running) (hs : s.step L a = some t) : t.Running := by
  cases a with
  | alccSend buffer buflen =>
    obtain ⟨queue, n, -, hlen, hinsert, rfl⟩ := step_alccSend hs
    exact ⟨h.queue.insert hlen hinsert, h.app⟩
  | alccClose =>
    obtain ⟨-, rfl⟩ := step_alccClose hs
    exact ⟨h.queue, fun _ => .inr (.inl rfl)⟩
  | app =>
    simp only [Connection.step, appStep] at hs
    have happ := h.app
    split at hs <;> rename_i hpc <;> rw [hpc] at happ <;> cases hs
    · split
      · exact h
      · exact ⟨h.queue, fun _ => .inr (.inr rfl)⟩
    · exact ⟨h.queue, fun hflag => by cases hflag⟩
    all_goals exact ⟨h.queue, fun hflag => by rcases happ hflag with h | h | h <;> cases h⟩
  | sender now ret =>
    obtain ⟨hqueue, hflag, happ⟩ := senderStep_kept h.queue (step_sender hs).2
    exact ⟨hqueue, fun h' => happ ▸ h.app (hflag ▸ h')⟩
  | thread e =>
    obtain ⟨sock, -, -, rfl⟩ := step_thread hs
    exact ⟨h.queue, h.app⟩

/-- The sender thread of `t` goes from one test to the other, with the socket of `s`. -/
structure Spins (s t : Connection α β τ) : Prop where
  sock : t.sock = s.sock
  handed : t.handed = s.handed
  pc : t.pc = .outer ∨ t.pc = .inner ∨ t.pc = .returned

theorem Spins.step (h : Spins s t) (htest : ∀ flag, L.test s.sock flag = false)
    (hthread : ∀ e, a ≠ .thread e) (hs : t.step L a = some u) : Spins s u := by
  obtain ⟨hsock, hhanded, hpc⟩ := h
  cases a with
  | alccSend buffer buflen =>
    obtain ⟨queue, n, -, -, -, rfl⟩ := step_alccSend hs
    exact ⟨hsock, hhanded, hpc⟩
  | alccClose =>
    obtain ⟨-, rfl⟩ := step_alccClose hs
    exact ⟨hsock, hhanded, hpc⟩
  | app =>
    obtain ⟨flag, app, rfl⟩ := step_app hs
    exact ⟨hsock, hhanded, hpc⟩
  | sender now ret =>
    obtain ⟨-, hs⟩ := step_sender hs
    rcases hpc with hpc | hpc | hpc <;> simp only [senderStep, hpc] at hs
    · cases hs
      refine ⟨hsock, hhanded, ?_⟩
      simp only
      split
      · exact .inr (.inr rfl)
      · exact .inr (.inl rfl)
    · rw [hsock, htest] at hs
      cases hs
      exact ⟨rfl, hhanded, .inl rfl⟩
    · cases hs
  | thread e => exact absurd rfl (hthread e)

/-- As long as the test of the inner loop does not succeed and the other threads do nothing, no byte
is sent. -/
theorem handed_of_closed (hpc : s.pc = .outer) (htest : ∀ flag, L.test s.sock flag = false)
    (hacts : ∀ a ∈ acts, ∀ e, a ≠ .thread e) (hrun : run (step L) s acts = some t) :
    t.handed = s.handed := by
  have hguarded : Guarded (step L) (fun _ a => ∀ e, a ≠ .thread e) s acts :=
    guarded_of_forall fun _ => hacts
  have hspins : Spins s t := by
    refine hguarded.invariant (fun _ _ _ h hthread hs => ?_) ⟨rfl, rfl, .inl hpc⟩ hrun
    exact h.step htest hthread hs
  exact hspins.handed

theorem Running.outer (h : s.Running) (hpc : s.pc = .outer) (hflag : s.terminateThreads = false) :
    s.step L (.sender now ret) = some { s with pc := .inner } := by
  simp only [Connection.step, if_neg (h.not_aborted hflag), senderStep, hpc, hflag,
    Bool.false_eq_true, if_false]

theorem dequeue_of_length_pos (pktTime : τ) (left : Nat) (h : s.sending_queue.WF) (hMTU : 0 < L.MTU)
    (hqueue : 0 < s.sending_queue.length) :
    ∃ t loop, s.dequeue L pktTime left = some t ∧ t.pc = .sending pktTime left loop ∧
      loop.z < loop.size := by
  rw [h.length_eq] at hqueue
  rw [dequeue, remove_spec h (by simp), Option.map_some]
  have hk : 0 < min L.MTU s.sending_queue.contents.length := by omega
  have hle : min L.MTU s.sending_queue.contents.length ≤ s.sending_queue.contents.length :=
    Nat.min_le_right ..
  generalize min L.MTU s.sending_queue.contents.length = k at hk hle ⊢
  have hsize : (k : Int) ≠ 0 := by omega
  simp only [if_neg hsize, Int.toNat_natCast]
  refine ⟨_, _, rfl, rfl, ?_⟩
  rw [(SendLoop.at_start _ _).lt_iff, List.take_left' (by rw [List.length_take]; omega),
    List.length_take]
  omega

/-- A pass sends a packet exactly if the test of the inner loop succeeds. -/
theorem Running.sendsNext_iff (h : s.Running) (hpc : s.pc = .outer)
    (hflag : s.terminateThreads = false) (hqueue : 0 < s.sending_queue.length) (hMTU : 0 < L.MTU)
    (hsPkts : 0 < L.sPkts s.sock) :
    s.SendsNext L now ↔ L.test s.sock s.terminateThreads = true := by
  have happ := h.not_aborted hflag
  rw [SendsNext, List.replicate_succ]
  simp only [run_cons_of_step (h.outer hpc hflag)]
  constructor
  · rintro ⟨t, t₀, left, loop, hrun, hsending, -⟩
    by_contra htest
    -- the second step leaves the inner loop, and the third one enters it again
    have hinner : { s with pc := .inner }.step L (.sender now 0) = some s := by
      simp only [Connection.step, if_neg happ, senderStep, if_neg htest, ← hpc]
    rw [List.replicate_succ, run_cons_of_step hinner, List.replicate_one,
      run_cons_of_step (h.outer hpc hflag)] at hrun
    cases hrun
    cases hsending
  · intro htest
    have hinner : { s with pc := .inner }.step L (.sender now 0) =
        some { s with sock := L.turn now s.sock, pc := .round now (L.sPkts s.sock) } := by
      simp only [Connection.step, if_neg happ, senderStep, if_pos htest]
    obtain ⟨n, hn⟩ := Nat.exists_eq_succ_of_ne_zero hsPkts.ne'
    obtain ⟨t, loop, hdequeue, hsending, hloop⟩ := dequeue_of_length_pos (L := L)
      (s := { s with sock := L.turn now s.sock, pc := .round now (n + 1) }) now n h.queue hMTU
      hqueue
    refine ⟨t, now, n, loop, ?_, hsending, hloop⟩
    have hround : { s with sock := L.turn now s.sock, pc := .round now (L.sPkts s.sock) }.step L
        (.sender now 0) = some t := by
      rw [hn]
      simp only [Connection.step, if_neg happ, senderStep]
      exact hdequeue
    rw [List.replicate_succ, run_cons_of_step hinner, List.replicate_one, run_cons_of_step hround,
      run]

end Connection

namespace Copa

open Binary64 Connection

variable {α ω : Type*} {W : WindowOps ω} {arr : List α} {data : Int → α} {p : Pacer ω}
  {s t : Connection α (Threads (Pacer ω) ℚ) ℚ}
  {acts later : List (Connection.Action α (Event ℚ) ℚ)}

/-- Once the clock has reached the end of the pacing interval, the next pass of the outer loop sends
a packet. -/
def Prompt (W : WindowOps ω) (s : Connection α (Threads (Pacer ω) ℚ) ℚ) : Prop :=
  ∀ now, s.sock.sock.ctl.cur_time ≤ now → s.sock.sock.ctl.Due W now →
    s.SendsNext (library (pacer W)) now

/-- The condition of the inner loop. -/
theorem test_eq_true {b : Threads (Pacer ω) ℚ} (flag : Bool) :
    (library (pacer W)).test b flag = true ↔
      b.sock.ctl.Open W b.sock.seq_num b.sock.largest_ack ∧
        b.sock.ctl.Due W b.sock.ctl.cur_time := by
  simp only [library, pacer, decide_eq_true_eq]

/-- **The pacing test is about an old reading of the clock.** In every reachable state, with an open
window and bytes in the queue, a pass of the outer loop sends a packet once the pacing interval is
over exactly if it was over at the last reading that the sender thread took in its inner loop. -/
theorem prompt_iff_due (harr : 1 ≤ arr.length)
    (hrun : run (step (library (pacer W))) (init arr data (.new p)) acts = some s)
    (hpc : s.pc = .outer) (hflag : s.terminateThreads = false)
    (hopen : s.sock.sock.ctl.Open W s.sock.sock.seq_num s.sock.sock.largest_ack)
    (hqueue : 0 < s.sending_queue.length) :
    Prompt W s ↔ s.sock.sock.ctl.Due W s.sock.sock.ctl.cur_time := by
  have hrunning : s.Running :=
    invariant (fun _ _ _ h hs => h.step hs) (Running.init harr) hrun
  have hsends (now : ℚ) : s.SendsNext (library (pacer W)) now ↔
      s.sock.sock.ctl.Due W s.sock.sock.ctl.cur_time := by
    rw [hrunning.sendsNext_iff hpc hflag hqueue (Nat.zero_lt_succ 1483) Nat.one_pos, test_eq_true,
      and_iff_right hopen]
  constructor
  · intro hprompt
    -- some reading is late enough
    exact (hsends _).mp (hprompt (max _ _) (le_max_left _ _) (le_max_right _ _))
  · intro hdue now _ _
    exact (hsends now).mpr hdue

theorem prompt_one_write :
    ∃ s, run (step (library (pacer Window.ops)))
      (init (List.replicate 8 ()) (fun _ => ()) (.new (.start 0 100))) [.alccSend [()] 1] = some s ∧
        Prompt Window.ops s :=
  have hrun := (Option.some_get (by decide +kernel)).symm
  ⟨_, hrun, (prompt_iff_due (by decide) hrun rfl rfl (by decide +kernel)
    (by decide +kernel)).mpr (by decide +kernel)⟩

/-- If the pacing interval was not over at that reading, only the other thread can end this. -/
theorem handed_of_stale (hpc : s.pc = .outer)
    (hstale : ¬ s.sock.sock.ctl.Due W s.sock.sock.ctl.cur_time)
    (hlater : ∀ a ∈ later, ∀ e, a ≠ .thread e)
    (hrun : run (step (library (pacer W))) s later = some t) : t.handed = s.handed := by
  refine handed_of_closed hpc (fun flag => ?_) hlater hrun
  rw [Bool.eq_false_iff, ne_eq, test_eq_true]
  exact fun h => hstale h.2

/-- The reading of the clock in a step. -/
def reading : Connection.Action α (Event ℚ) ℚ → Option ℚ
  | .sender now _ => some now
  | .thread (.receiver _ now) => some now
  | .alccSend .. | .alccClose | .app => none

/-- The receiver thread gets a message, and takes `rounds` steps for it. -/
def message (now : ℚ) (m : Message) (rounds : Nat) : List (SockEvent (Event ℚ) ℚ) :=
  .thread (.receiver none now) :: .thread (.receiver (some m) now) ::
    List.replicate rounds (.thread (.receiver none now))

/-- The sender thread fills the window at 100, at 101 and at 102. The packets are acknowledged at
101, at 102 and at 4142. -/
def delaySpike : List (SockEvent (Event ℚ) ℚ) :=
  message 100 ⟨CC_PORT, 50000, 1, 0⟩ 0 ++ List.replicate 9 (.packet 100) ++
    message 101 ⟨50000, CC_PORT, 0, 13357⟩ 10 ++ List.replicate 10 (.packet 101) ++
    message 102 ⟨50000, CC_PORT, 0, 28197⟩ 11 ++ List.replicate 10 (.packet 102) ++
    message 4142 ⟨50000, CC_PORT, 0, 43037⟩ 11

/-- After the delay spike the pacing interval is 101 ms, and the last reading is 100 ms after
`_last_send_time`. -/
theorem run_delaySpike : ∃ b, run (sockStep (library (pacer Window.ops))) (.new (.start 0 100))
    delaySpike = some b ∧ (b.sock.seq_num : Int) = b.sock.largest_ack + 1 ∧
      b.sock.ctl.cur_time ≤ 4142 ∧ b.sock.ctl.Open Window.ops b.sock.seq_num b.sock.largest_ack ∧
      b.sock.ctl.Due Window.ops 4142 ∧ ¬ b.sock.ctl.Due Window.ops b.sock.ctl.cur_time := by
  have h : (run (sockStep (library (pacer Window.ops))) (.new (.start 0 100)) delaySpike).any
      fun b => (b.sock.seq_num : Int) = b.sock.largest_ack + 1 ∧ b.sock.ctl.cur_time ≤ 4142 ∧
        b.sock.ctl.Open Window.ops b.sock.seq_num b.sock.largest_ack ∧
        b.sock.ctl.Due Window.ops 4142 ∧ ¬ b.sock.ctl.Due Window.ops b.sock.ctl.cur_time := by
    decide +kernel
  obtain ⟨b, hrun, hb⟩ := (Option.any_eq_true _ _).mp h
  exact ⟨b, hrun, of_decide_eq_true hb⟩

/-- The steps of the connection for it, and one more write. -/
def delaySpikeActions : List (Connection.Action Unit (Event ℚ) ℚ) :=
  .sender 100 0 :: (delaySpike.flatMap (SockEvent.actions (library (pacer Window.ops)) ()) ++
    [.alccSend (List.replicate MTU ()) MTU, .sender 4142 0])

/-- After the delay spike every packet is acknowledged, and the next one is never sent. -/
theorem delay_spike_not_prompt :
    (delaySpikeActions.filterMap reading).IsChain (· ≤ ·) ∧
      ∃ s, run (step (library (pacer Window.ops)))
          (init (List.replicate 1500 ()) (fun _ => ()) (.new (.start 0 100))) delaySpikeActions =
            some s ∧
        s.pc = .outer ∧ s.terminateThreads = false ∧
        s.sock.sock.ctl.Open Window.ops s.sock.sock.seq_num s.sock.sock.largest_ack ∧
        0 < s.sending_queue.length ∧
        (s.sock.sock.seq_num : Int) = s.sock.sock.largest_ack + 1 ∧
        s.sock.sock.ctl.cur_time ≤ 4142 ∧ s.sock.sock.ctl.Due Window.ops 4142 ∧
        ¬ s.SendsNext (library (pacer Window.ops)) 4142 ∧
        ∀ later t, (∀ a ∈ later, ∀ e, a ≠ .thread e) →
          run (step (library (pacer Window.ops))) s later = some t → t.handed = s.handed := by
  refine ⟨by decide +kernel, ?_⟩
  obtain ⟨b, hrun, hacked, hcur, hopen, hdue, hstale⟩ := run_delaySpike
  have hlen : (List.replicate MTU ()).length = MTU := List.length_replicate
  have hroom : MTU < (List.replicate 1500 ()).length := by
    rw [List.length_replicate]
    decide
  have hinit := Stage.init (L := library (pacer Window.ops)) (b := .new (.start 0 100))
    (fun _ => ()) hroom
  obtain ⟨s₁, h₁, hstage⟩ := hinit.enter 100
  obtain ⟨s₂, h₂, hstage⟩ := hstage.run () (Nat.zero_lt_succ 1483) hrun
  obtain ⟨s₃, h₃, hstage⟩ := hstage.write hlen
  have htest (flag : Bool) : (library (pacer Window.ops)).test b flag = false := by
    rw [Bool.eq_false_iff, ne_eq, test_eq_true]
    exact fun h => hstale h.2
  obtain ⟨s, h₄, hstage⟩ := hstage.leave 4142 (htest false)
  obtain rfl := hstage.sock
  have hqueue : 0 < s.sending_queue.length := by
    rw [hstage.queue.length_eq, hstage.contents, hlen]
    decide
  have hrunning : s.Running := ⟨hstage.queue, fun _ => .inl hstage.app⟩
  have hnot : ¬ s.SendsNext (library (pacer Window.ops)) 4142 := by
    rw [hrunning.sendsNext_iff hstage.pc hstage.flag hqueue (Nat.zero_lt_succ 1483) Nat.one_pos,
      htest]
    exact Bool.false_ne_true
  refine ⟨s, ?_, hstage.pc, hstage.flag, hopen, hqueue, hacked, hcur, hdue, hnot, ?_⟩
  · rw [delaySpikeActions, run_cons_of_step h₁, run_append, h₂, Option.bind_some]
    exact (run_cons_of_step h₃).trans (run_cons_of_step h₄)
  · intro later t hlater hrun
    exact handed_of_stale hstage.pc hstale hlater hrun

end Copa

end ALCC
