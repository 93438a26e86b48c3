import ALCC.Verify.Ctcp

/-! The clock of a flow of `ctcp.hh`. The sender keeps to the intersend times over every stretch of
time (`flow_paced`), and its waits come to an end when the clock is read without delay
(`flow_wakes`). -/

namespace ALCC.Ctcp

open Binary64 Machine

variable {ω : Type*} {W : CCC ω} {p : Params} {B : Nat} {now : ℚ}

namespace Sender

variable {s t : Sender ω}

/-- The report of a packet of a longer train does not make the intersend time longer. -/
def Steady (W : CCC ω) (p : Params) (s : Sender ω) : Prop :=
  p.train_length = 1 ∨
    W.get_intersend_time (W.onPktSent (s.seq_num / p.train_length : Nat)
      (W.set_timestamp s.cur_time s.congctrl)) ≤ W.get_intersend_time s.congctrl

instance : Decidable (s.Steady W p) := inferInstanceAs (Decidable (_ ∨ _))

/-- The packets that are missing in the train. -/
def owed (p : Params) (s : Sender ω) : Nat :=
  if s.seq_num % p.train_length = 0 then 0 else p.train_length - s.seq_num % p.train_length

/-- The time for the packets so far is over, and for those that complete the train. -/
structure Paced (W : CCC ω) (p : Params) (s : Sender ω) : Prop where
  budget : s.last_send_time + s.owed p * W.get_intersend_time s.congctrl ≤ s.cur_time
  polling : s.pc = .polling → s.last_send_time = s.cur_time ∨
    s.cur_time < s.last_send_time + W.get_intersend_time s.congctrl * p.train_length

theorem owed_of_aligned (h : s.seq_num % p.train_length = 0) : s.owed p = 0 := if_pos h

theorem Paced.le (h : s.Paced W p) (haligned : s.seq_num % p.train_length = 0) :
    s.last_send_time ≤ s.cur_time := by
  have hbudget := h.budget
  rw [owed_of_aligned haligned, Nat.cast_zero, zero_mul, add_zero] at hbudget
  exact hbudget

theorem budget_of_le (haligned : t.seq_num % p.train_length = 0)
    (hle : t.last_send_time ≤ t.cur_time) :
    t.last_send_time + t.owed p * W.get_intersend_time t.congctrl ≤ t.cur_time := by
  rw [owed_of_aligned haligned, Nat.cast_zero, zero_mul, add_zero]
  exact hle

theorem Paced.of_le (haligned : t.seq_num % p.train_length = 0)
    (hle : t.last_send_time ≤ t.cur_time) (hpc : t.pc ≠ .polling) : t.Paced W p :=
  ⟨budget_of_le haligned hle, fun h => absurd h hpc⟩

theorem Paced.turn (h : s.Paced W p) (haligned : s.seq_num % p.train_length = 0)
    (hnow : s.cur_time ≤ now) : (s.turn W p now).Paced W p := by
  have hle := h.le haligned
  rw [Sender.turn]
  dsimp only
  split
  · split
    · split
      · exact .of_le haligned le_rfl (by simp)
      · exact .of_le haligned (hle.trans hnow) (by simp)
    · exact .of_le haligned (hle.trans hnow) (by simp)
  · exact .of_le haligned hle (by simp)

theorem Paced.catchUp (h : s.Paced W p) (hready : ¬ s.Ready W p) :
    (s.catchUp W p).Paced W p := by
  have haligned := aligned_of_not_ready hready
  rw [Sender.catchUp]
  split
  · exact ⟨budget_of_le haligned le_rfl, fun _ => .inl rfl⟩
  · rename_i hlate
    rw [not_or, not_le] at hlate
    refine ⟨h.budget, fun _ => .inr ?_⟩
    change s.cur_time < s.last_send_time + W.get_intersend_time s.congctrl * p.train_length
    linarith [hlate.1]

theorem send_last_send_time (s : Sender ω) : (s.send W p).last_send_time =
    s.last_send_time + W.get_intersend_time s.congctrl := by
  rw [send]
  dsimp only
  split <;> rfl

theorem send_congctrl (s : Sender ω) : (s.send W p).congctrl =
    if s.seq_num % p.train_length = 0 then
      W.onPktSent (s.seq_num / p.train_length : Nat) (W.set_timestamp s.cur_time s.congctrl)
    else s.congctrl := by
  rw [send]
  dsimp only
  split <;> rfl

theorem send_gaps (s : Sender ω) :
    (s.send W p).gaps = s.gaps ++ [W.get_intersend_time s.congctrl] := by
  rw [send]
  dsimp only
  split <;> rfl

theorem send_owed (hT : 0 < p.train_length) (s : Sender ω) : (s.send W p).owed p + 1 =
    if s.seq_num % p.train_length = 0 then p.train_length else s.owed p := by
  have hlt := Nat.mod_lt s.seq_num hT
  rw [owed, owed, send_seq_num, succ_mod hT]
  by_cases hlast : s.seq_num % p.train_length + 1 = p.train_length
  · rw [if_pos hlast, if_pos rfl]
    split <;> omega
  · rw [if_neg hlast, if_neg (Nat.succ_ne_zero _)]
    split <;> omega

theorem Paced.send (h : s.Paced W p) (hT : 0 < p.train_length) (hpc : s.pc = .inner)
    (hsteady : s.Steady W p) (hready : s.Ready W p) : (s.send W p).Paced W p := by
  obtain ⟨-, htime, -, -, hpc', -⟩ := send_kept (W := W) (p := p) s
  have howed := send_owed (W := W) hT s
  refine ⟨?_, fun hpolling => by rw [hpc', hpc] at hpolling; cases hpolling⟩
  rw [send_last_send_time, send_congctrl, htime]
  by_cases haligned : s.seq_num % p.train_length = 0
  · rw [if_pos haligned] at howed ⊢
    obtain ⟨-, hdue, -⟩ | hodd := hready
    · rw [Steady] at hsteady
      generalize W.onPktSent _ _ = w at hsteady ⊢
      have hgap : ((s.send W p).owed p : ℚ) * W.get_intersend_time w ≤
          (s.send W p).owed p * W.get_intersend_time s.congctrl := by
        rcases hsteady with hone | hsteady
        · rw [show (s.send W p).owed p = 0 by omega, Nat.cast_zero, zero_mul, zero_mul]
        · exact mul_le_mul_of_nonneg_left hsteady (Nat.cast_nonneg _)
      have hT' : (p.train_length : ℚ) = (s.send W p).owed p + 1 := by exact_mod_cast howed.symm
      rw [hT'] at hdue
      linarith
    · exact absurd haligned hodd
  · rw [if_neg haligned] at howed ⊢
    have hbudget := h.budget
    rw [← howed] at hbudget
    push_cast at hbudget
    linarith

theorem Paced.timedOut (h : s.Paced W p) (haligned : s.seq_num % p.train_length = 0)
    (hnow : s.cur_time ≤ now) : (s.timedOut W now).Paced W p := by
  rw [Sender.timedOut]
  dsimp only
  split <;> exact .of_le haligned ((h.le haligned).trans hnow) (by simp)

theorem Paced.receive (h : s.Paced W p) (haligned : s.seq_num % p.train_length = 0)
    (hnow : s.cur_time ≤ now) : (s.receive W p now).Paced W p := by
  have hle := h.le haligned
  rcases receive_kept W p now s with hkept | hkept
  · refine .of_le (by rw [hkept.seq_num]; exact haligned) ?_ (by rw [hkept.pc]; simp)
    rw [hkept.last_send_time, hkept.cur_time]
    exact hle
  · refine .of_le (by rw [hkept.seq_num]; exact haligned) ?_ (by rw [hkept.pc]; simp)
    rw [hkept.last_send_time, hkept.cur_time]
    exact hle.trans hnow

/-- The intersend times of the packets sent from `s` to `t`, of which `t` has no fewer, are part of
what `_last_send_time` has grown. -/
def Since (s t : Sender ω) : Prop :=
  ∃ gaps, t.gaps = s.gaps ++ gaps ∧ s.last_send_time + gaps.sum ≤ t.last_send_time

theorem Since.of_gaps_eq (hgaps : t.gaps = s.gaps) (hlast : s.last_send_time ≤ t.last_send_time) :
    Since s t :=
  ⟨[], by rw [hgaps, List.append_nil], by rw [List.sum_nil, add_zero]; exact hlast⟩

theorem Since.trans {u : Sender ω} (h : Since s t) (h' : Since t u) : Since s u := by
  obtain ⟨gaps, hgaps, hsum⟩ := h
  obtain ⟨gaps', hgaps', hsum'⟩ := h'
  refine ⟨gaps ++ gaps', by rw [hgaps', hgaps, List.append_assoc], ?_⟩
  rw [List.sum_append]
  linarith

theorem Since.turn (hle : s.last_send_time ≤ s.cur_time) (hnow : s.cur_time ≤ now) :
    Since s (s.turn W p now) := by
  rw [Sender.turn]
  dsimp only
  split
  · split
    · split
      · exact .of_gaps_eq rfl (hle.trans hnow)
      · exact .of_gaps_eq rfl le_rfl
    · exact .of_gaps_eq rfl le_rfl
  · exact .of_gaps_eq rfl le_rfl

theorem Since.send (s : Sender ω) : Since s (s.send W p) :=
  ⟨[W.get_intersend_time s.congctrl], send_gaps s, by
    rw [List.sum_singleton, send_last_send_time]⟩

theorem Since.catchUp (hle : s.last_send_time ≤ s.cur_time) : Since s (s.catchUp W p) := by
  rw [Sender.catchUp]
  split
  · exact .of_gaps_eq rfl hle
  · exact .of_gaps_eq rfl le_rfl

theorem Since.timedOut (s : Sender ω) : Since s (s.timedOut W now) := by
  rw [Sender.timedOut]
  dsimp only
  split <;> exact .of_gaps_eq rfl le_rfl

theorem Since.receive (s : Sender ω) : Since s (s.receive W p now) := by
  rcases receive_kept W p now s with h | h <;> exact .of_gaps_eq h.gaps h.last_send_time.ge

end Sender

namespace Flow

variable {s t u : Flow ω} {a : Action}

open Sender

/-- A step of a sender that does not become slower within a train. -/
def Paces (W : CCC ω) (p : Params) (B : Nat) (s : Flow ω) (a : Action) : Prop :=
  Fits W B s a ∧ s.sender.Steady W p

instance : Decidable (Paces W p B s a) := inferInstanceAs (Decidable (_ ∧ _))

theorem paced_step (hsafe : s.Safe p B) (h : s.sender.Paced W p) (hT : 0 < p.train_length)
    (hpaces : Paces W p B s a)
    (hs : Flow.step W p s a = some t) : t.sender.Paced W p ∧ Since s.sender t.sender := by
  have haligned := hsafe.sender.aligned
  obtain ⟨hfits, hsteady⟩ := hpaces
  cases a with
  | sender now =>
    have hnow := hfits.1 now rfl
    simp only [Flow.step, Flow.senderStep] at hs
    split at hs
    case h_1 hpc =>
      cases hs
      have haligned := haligned (by rw [hpc]; simp)
      exact ⟨h.turn haligned hnow, .turn (h.le haligned) hnow⟩
    case h_2 hpc =>
      split at hs
      · rename_i hready
        cases hs
        exact ⟨h.send hT hpc hsteady hready, .send _⟩
      · rename_i hready
        cases hs
        exact ⟨h.catchUp hready, .catchUp (h.le (aligned_of_not_ready hready))⟩
    case h_3 hpc =>
      cases hs
      have haligned := haligned (by rw [hpc]; simp)
      exact ⟨.of_le haligned ((h.le haligned).trans hnow) (by simp [Sender.poll]),
        .of_gaps_eq rfl le_rfl⟩
    case h_4 => cases hs
    case h_5 hpc =>
      cases hs
      have haligned := haligned (by rw [hpc]; simp)
      exact ⟨.of_le haligned ((h.le haligned).trans hnow) (by simp [Sender.finish]),
        .of_gaps_eq rfl le_rfl⟩
    case h_6 => cases hs
  | receive r now =>
    have hnow := hfits.1 now rfl
    simp only [Flow.step] at hs
    split at hs
    · rename_i hpc
      have haligned := haligned (by rw [hpc]; simp)
      cases r with
      | timeout =>
        obtain ⟨-, hs⟩ := Option.ite_none_right_eq_some.mp hs
        cases hs
        exact ⟨h.timedOut haligned hnow, .timedOut _⟩
      | error =>
        cases hs
        exact ⟨h.receive haligned hnow, .receive _⟩
      | packet index =>
        obtain ⟨buf, -, rfl⟩ := Option.map_eq_some_iff.mp hs
        have hread : ({ s.sender with buf } : Sender ω).Paced W p := ⟨h.budget, h.polling⟩
        exact ⟨hread.receive haligned hnow, .receive { s.sender with buf }⟩
    · cases hs
  | echo index receiver_timestamp =>
    obtain ⟨x, -, rfl⟩ := Option.map_eq_some_iff.mp hs
    exact ⟨h, .of_gaps_eq rfl le_rfl⟩

theorem Starts.paced (h : Starts W p s) : s.sender.Paced W p := by
  obtain ⟨congctrl, buf, t₀, t₁, hsender, -, hle⟩ := h.sender
  rw [hsender]
  exact .of_le (Nat.zero_mod _) hle (by simp [Sender.start])

/-- **The sender keeps the pace.** The intersend times of the packets sent in a stretch of time add
up to no more than it, and one train. -/
theorem flow_paced {as bs : List Action} (hstart : Starts W p s)
    (h : Guarded (step W p) (Paces W p B) s (as ++ bs)) (hrun : run (step W p) s as = some t)
    (hrun' : run (step W p) t bs = some u) (hpc : t.sender.pc = .polling)
    (ht : 0 ≤ W.get_intersend_time t.sender.congctrl)
    (hu : 0 ≤ W.get_intersend_time u.sender.congctrl) :
    ∃ gaps, u.sender.gaps = t.sender.gaps ++ gaps ∧ gaps.sum ≤
      u.sender.cur_time - t.sender.cur_time +
        W.get_intersend_time t.sender.congctrl * p.train_length := by
  have hT := hstart.train_length
  obtain ⟨hsafe, hpaced⟩ := h.left.invariant (I := fun s => s.Safe p B ∧ s.sender.Paced W p)
    (fun _ _ _ hs hpaces hstep =>
      ⟨hs.1.step hT hpaces.1 hstep, (paced_step hs.1 hs.2 hT hpaces hstep).1⟩)
    ⟨hstart.safe, hstart.paced⟩ hrun
  obtain ⟨-, hpaced', gaps, hgaps, hsum⟩ := (h.right hrun).invariant
    (I := fun u => u.Safe p B ∧ u.sender.Paced W p ∧ Since t.sender u.sender)
    (fun _ _ _ hs hpaces hstep =>
      have hnext := paced_step hs.1 hs.2.1 hT hpaces hstep
      ⟨hs.1.step hT hpaces.1 hstep, hnext.1, hs.2.2.trans hnext.2⟩)
    ⟨hsafe, hpaced, .of_gaps_eq rfl le_rfl⟩ hrun'
  refine ⟨gaps, hgaps, ?_⟩
  have hbudget := hpaced'.budget
  have howed := mul_nonneg (Nat.cast_nonneg (α := ℚ) (u.sender.owed p)) hu
  have htrain := mul_nonneg ht (Nat.cast_nonneg (α := ℚ) p.train_length)
  rcases hpaced.polling hpc with hlast | hlast <;> linarith

theorem paces_two_trains : Guarded (step twoPackets oneSecond)
    (fun s a => Paces twoPackets oneSecond 2 s a) fresh (firstTrain ++ secondTrain) := by
  decide +kernel

theorem flow_paced_two_trains : ∃ t u, run (step twoPackets oneSecond) fresh firstTrain = some t ∧
    run (step twoPackets oneSecond) t secondTrain = some u ∧
    ∃ gaps, u.sender.gaps = t.sender.gaps ++ gaps ∧
      gaps.sum ≤ u.sender.cur_time - t.sender.cur_time + 1 * 2 := by
  have h : (run (step twoPackets oneSecond) fresh firstTrain).any
      fun t => t.sender.pc = .polling := by
    decide +kernel
  have h' : (run (step twoPackets oneSecond) fresh (firstTrain ++ secondTrain)).isSome := by
    decide +kernel
  obtain ⟨t, hrun, ht⟩ := (Option.any_eq_true _ _).mp h
  obtain ⟨u, hrun'⟩ := Option.isSome_iff_exists.mp h'
  rw [run_append, hrun, Option.bind_some] at hrun'
  exact ⟨t, u, hrun, hrun', flow_paced starts_fresh paces_two_trains hrun hrun'
    (of_decide_eq_true ht) zero_le_one zero_le_one⟩

/-! ## Progress -/

theorem turn_pc (W : CCC ω) (p : Params) (now : ℚ) (s : Sender ω) :
    (s.turn W p now).pc = .inner ∨ (s.turn W p now).pc = .closing := by
  rw [turn]
  dsimp only
  split
  · split
    · split
      · exact .inl rfl
      · exact .inr rfl
    · exact .inl rfl
  · exact .inr rfl

theorem catchUp_pc (s : Sender ω) : (s.catchUp W p).pc = .polling := by
  rw [catchUp]

theorem receiveStep_pc {timeout : Int} {r : Receipt}
    (hs : s.receiveStep W p timeout now r = some t) : t.sender.pc = .outer := by
  cases r with
  | timeout =>
    obtain ⟨-, hs⟩ := Option.ite_none_right_eq_some.mp hs
    cases hs
    simp only [timedOut]
    split <;> rfl
  | error =>
    cases hs
    rcases receive_kept W p now s.sender with h | h <;> exact h.pc
  | packet index =>
    obtain ⟨buf, -, rfl⟩ := Option.map_eq_some_iff.mp hs
    rcases receive_kept W p now { s.sender with buf } with h | h <;> exact h.pc

/-- The window is open, and the clock is read again within a millisecond for the timeout. -/
def Prompt (W : CCC ω) (s : Flow ω) (a : Action) : Prop :=
  s.sender.pc = .polling → 0 < W.get_the_window s.sender.congctrl ∧
    0 ≤ W.get_intersend_time s.sender.congctrl ∧ ∀ now ∈ a.clock, now < s.sender.cur_time + 1

instance : Decidable (Prompt W s a) := inferInstanceAs (Decidable (_ → _))

/-- `receivedata` does not wait for ever. -/
def Wakes (s : Flow ω) : Prop :=
  ∀ timeout, s.sender.pc = .waiting timeout → 0 ≤ timeout ∧ timeout ≤ 1000

theorem Starts.wakes (h : Starts W p s) : s.Wakes := by
  obtain ⟨congctrl, buf, t₀, t₁, hsender, -⟩ := h.sender
  rintro timeout hpc
  rw [hsender] at hpc
  cases hpc

theorem wakes_poll (h : s.sender.Paced W p) (hpc : s.sender.pc = .polling)
    (hprompt : Prompt W s (.sender now)) :
    Wakes { s with sender := s.sender.poll W p now } := by
  obtain ⟨hopen, hgap, hnow⟩ := hprompt hpc
  have hnow := hnow now rfl
  have htrain := mul_nonneg hgap (Nat.cast_nonneg (α := ℚ) p.train_length)
  rintro timeout hwaiting
  cases hwaiting
  rw [if_pos hopen]
  refine ⟨trunc_nonneg (lt_min (by norm_num) ?_), trunc_le (n := 1000) (min_le_left ..)⟩
  rcases h.polling hpc with hlast | hlast <;> linarith

theorem Wakes.of_pc (h : ∀ timeout, s.sender.pc ≠ .waiting timeout) : s.Wakes :=
  fun timeout hpc => absurd hpc (h timeout)

/-- Only `poll` begins to wait. -/
theorem Wakes.step (hpaced : s.sender.Paced W p) (h : s.Wakes) (hprompt : Prompt W s a)
    (hs : Flow.step W p s a = some t) : t.Wakes := by
  cases a with
  | sender now =>
    simp only [Flow.step, Flow.senderStep] at hs
    split at hs
    case h_1 hpc =>
      cases hs
      refine .of_pc fun timeout => ?_
      rcases turn_pc W p now s.sender with h | h <;> simp [h]
    case h_2 hpc =>
      split at hs <;> cases hs
      · have hpc' := (send_kept (W := W) (p := p) s.sender).2.2.2.2.1
        exact .of_pc fun timeout => by simp [hpc', hpc]
      · exact .of_pc fun timeout => by simp [catchUp_pc]
    case h_3 hpc =>
      cases hs
      exact wakes_poll hpaced hpc hprompt
    case h_4 => cases hs
    case h_5 hpc =>
      cases hs
      rintro timeout ⟨⟩
    case h_6 => cases hs
  | receive r now =>
    simp only [Flow.step] at hs
    split at hs
    · exact .of_pc fun timeout => by simp [receiveStep_pc hs]
    · cases hs
  | echo index receiver_timestamp =>
    obtain ⟨x, -, rfl⟩ := Option.map_eq_some_iff.mp hs
    exact h

/-- **A flow does not get stuck.** Whatever the network does, the sender has a step of its own: its
wait for a packet ends after a second at most. -/
theorem flow_wakes {as : List Action} (hstart : Starts W p s)
    (h : Guarded (step W p) (fun s a => Paces W p B s a ∧ Prompt W s a) s as)
    (hrun : run (step W p) s as = some t) :
    t.Wakes ∧ (t.sender.pc = .closed ∨
      ∀ now, (t.step W p (.sender now)).isSome ∨ (t.step W p (.receive .timeout now)).isSome) := by
  have hT := hstart.train_length
  obtain ⟨-, -, hwakes⟩ := h.invariant
    (I := fun s => s.Safe p B ∧ s.sender.Paced W p ∧ s.Wakes)
    (fun _ _ _ hs hpaces hstep => ⟨hs.1.step hT hpaces.1.1 hstep,
      (paced_step hs.1 hs.2.1 hT hpaces.1 hstep).1, hs.2.2.step hs.2.1 hpaces.2 hstep⟩)
    ⟨hstart.safe, hstart.paced, hstart.wakes⟩ hrun
  refine ⟨hwakes, ?_⟩
  cases hpc : t.sender.pc with
  | waiting timeout =>
    refine .inr fun now => .inr ?_
    simp only [Flow.step, hpc, Flow.receiveStep]
    rw [if_pos (hwakes timeout hpc).1]
    rfl
  | closed => exact .inl rfl
  | inner =>
    refine .inr fun now => .inl ?_
    simp only [Flow.step, Flow.senderStep, hpc]
    split <;> rfl
  | _ =>
    refine .inr fun now => .inl ?_
    simp only [Flow.step, Flow.senderStep, hpc]
    rfl

theorem prompt_two_trains : Guarded (step twoPackets oneSecond)
    (fun s a => Paces twoPackets oneSecond 2 s a ∧ Prompt twoPackets s a) fresh
    (firstTrain ++ secondTrain) := by
  decide +kernel

theorem flow_wakes_two_trains : ∃ t,
    run (step twoPackets oneSecond) fresh (firstTrain ++ secondTrain) = some t ∧ t.Wakes := by
  have h : (run (step twoPackets oneSecond) fresh (firstTrain ++ secondTrain)).isSome := by
    decide +kernel
  obtain ⟨t, hrun⟩ := Option.isSome_iff_exists.mp h
  exact ⟨t, hrun, (flow_wakes starts_fresh prompt_two_trains hrun).1⟩

end Flow

end ALCC.Ctcp
