import ALCC.Model.VerusEpoch
import ALCC.Theory.Run

/-! The permits of `ALCCSend` in `libalcc_verus.cpp`. It takes a snapshot of `tempS` for the rounds
of its `for` loop. The slow-start refills and the epochs only add permits, so there is one for each
round, unless `ALCCReceive` leaves slow start and sets `tempS` to 0 during the loop. -/

namespace ALCC.Verus

open Binary64 Machine MachineInt

theorem trunc_max_nonneg (x : ℚ) : 0 ≤ trunc (max 0 x) := by
  rw [trunc, if_pos (le_max_left 0 x)]
  exact Int.floor_nonneg.mpr (le_max_left 0 x)

/-- What a round of the loop of `ALCCReceive` does, apart from the counters of packets. -/
theorem ALCCSocket.creditPacket_cases {γ τ : Type*} (C : Controller γ τ) (s : ALCCSocket γ τ)
    (receivedtime : τ) :
    (¬ (∃ k ∈ s.seqNumbersList.keys, k ≤ s.seq + 1) ∧
      s.creditPacket C receivedtime = { s with
        seq := s.seq + 1, startingSeq := s.startingSeq + MTU, wCrt := s.wCrt - 1 }) ∨
    (∃ k ∈ s.seqNumbersList.keys, k ≤ s.seq + 1) ∧
      (s.creditPacket C receivedtime).seq = s.seq + 1 ∧
      (s.creditPacket C receivedtime).sendingList = s.sendingList.erase (toI32 (s.seq + 1)) ∧
      ∃ wCrt, ((s.creditPacket C receivedtime).ctl, (s.creditPacket C receivedtime).tempS) =
        C.received s.ctl receivedtime (s.seqNumbersList.lookup (s.seq + 1))
          (s.sendingList.lookup (toI32 (s.seq + 1))) (s.seq + 1) wCrt s.tempS := by
  by_cases hlisted : ∃ k ∈ s.seqNumbersList.keys, k ≤ s.seq + 1
  · refine .inr ⟨hlisted, ?_⟩
    simp only [creditPacket, if_pos hlisted]
    exact ⟨trivial, trivial, _, rfl⟩
  · refine .inl ⟨hlisted, ?_⟩
    simp only [creditPacket, if_neg hlisted]

namespace Control

variable {c d : Control} {delay : ℚ} {seq wCrt tempS : Int}

theorem growSlowStart_tempS (ctl : Window) : tempS ≤ (ctl.growSlowStart wCrt tempS).2 := by
  simp only [Window.growSlowStart]
  split
  · exact le_add_of_nonneg_right (trunc_max_nonneg _)
  · exact le_rfl

theorem exitSlowStart_tempS (c : Control) (delay : ℚ) (w seq tempS : Int) :
    (c.exitSlowStart delay w seq tempS).2 =
    if c.Exits delay seq then 0 else tempS := by
  rw [exitSlowStart]
  split <;> rfl

theorem exitSlowStart_toWindow (c : Control) (delay : ℚ) (w seq tempS : Int) :
    ((c.exitSlowStart delay w seq tempS).1.toWindow, (c.exitSlowStart delay w seq tempS).2) =
      c.toWindow.exitSlowStart delay w seq tempS := by
  rw [exitSlowStart, Window.exitSlowStart]
  by_cases hexits : c.Exits delay seq
  · rw [if_pos hexits]
    exact (if_pos hexits).symm
  · rw [if_neg hexits]
    exact (if_neg hexits).symm

/-- The window and the permits after an acknowledged packet do not depend on the rest. -/
theorem received_toWindow (stray : Timeval) (unset : Int) (receivedtime sendTime : Timeval)
    {w : Int} (hw : toI32 w = w) :
    ((c.received stray unset receivedtime (some sendTime) (some w) seq wCrt tempS).1.toWindow,
      (c.received stray unset receivedtime (some sendTime) (some w) seq wCrt tempS).2) =
      c.toWindow.received receivedtime (some sendTime) (some w) seq wCrt tempS := by
  have hexit := exitSlowStart_toWindow (c.setW (some w)) (Verus.delay receivedtime sendTime) w
    seq tempS
  have hw' : ((c.setW (some w)).w.getD unset) = w := hw
  simp only [received, Option.getD_some, hw', Window.received]
  rw [show c.toWindow = (c.setW (some w)).toWindow from rfl, ← hexit]
  rfl

/-- An acknowledged packet takes permits only at the exit from slow start. -/
theorem received_tempS (stray : Timeval) (unset : Int) (receivedtime : Timeval)
    (sendTime : Option Timeval) (w : Option Int) :
    (if c.Exits (Verus.delay receivedtime (sendTime.getD stray)) seq then 0 else tempS) ≤
      (c.received stray unset receivedtime sendTime w seq wCrt tempS).2 := by
  have hexits : (c.setW w).Exits (Verus.delay receivedtime (sendTime.getD stray)) seq =
    c.Exits (Verus.delay receivedtime (sendTime.getD stray)) seq := rfl
  have hexit := exitSlowStart_tempS (c.setW w) (Verus.delay receivedtime (sendTime.getD stray))
    ((c.setW w).w.getD unset) seq tempS
  simp only [hexits] at hexit
  rw [← hexit]
  exact growSlowStart_tempS _

theorem permitsOf_nonneg {x : ℚ} {S : Int} (h : permitsOf x = some S) : 0 ≤ S := by
  rw [permitsOf] at h
  split at h <;> cases h
  exact trunc_max_nonneg x

theorem calcSi_nonneg {wBar : ℚ} {S : Int} (h : c.calcSi wBar wCrt tempS = some S) : 0 ≤ S := by
  simp only [calcSi] at h
  split_ifs at h <;> exact permitsOf_nonneg h

/-- What an epoch calls `calcDelayCurve` in. -/
def mapping (bufferingDelay : ℚ) (wCrt : Int) (c : Control) : Control :=
  ((c.setMax bufferingDelay).setEst wCrt).1

/-- An epoch maps its set point. Then it restarts, or it sets the window and adds permits. -/
theorem epoch_cases {bufferingDelay : ℚ} {depth : Nat} {outcome : Outcome}
    (h : c.epoch bufferingDelay depth wCrt tempS = some (d, outcome)) :
    ∃ wBarTemp, (c.mapping bufferingDelay wCrt).calcDelayCurve
        (c.mapping bufferingDelay wCrt).dEst depth = some wBarTemp ∧
      (wBarTemp < 0 ∧ d = c.mapping bufferingDelay wCrt ∧ outcome = .restart ∨
        0 ≤ wBarTemp ∧ d = (c.mapping bufferingDelay wCrt).setWindow wBarTemp ∧
          ∃ S, 0 ≤ S ∧ outcome = .permits S) := by
  simp only [epoch] at h
  obtain ⟨wBarTemp, hcurve, h⟩ := Option.bind_eq_some_iff.mp h
  refine ⟨wBarTemp, hcurve, ?_⟩
  split at h
  · next hneg =>
    cases h
    exact .inl ⟨hneg, rfl, rfl⟩
  · next hneg =>
    refine .inr ⟨not_lt.mp hneg, ?_⟩
    split at h
    · cases h
      exact ⟨rfl, 0, le_rfl, rfl⟩
    · obtain ⟨S, hS, hpermits⟩ := Option.map_eq_some_iff.mp h
      cases hpermits
      exact ⟨rfl, S, calcSi_nonneg hS, rfl⟩

/-- An epoch adds permits or restarts. -/
theorem epoch_permits {bufferingDelay : ℚ} {depth : Nat} {S : Int}
    (h : c.epoch bufferingDelay depth wCrt tempS = some (d, .permits S)) : 0 ≤ S := by
  obtain ⟨wBarTemp, -, ⟨-, -, houtcome⟩ | ⟨-, -, S', hS, houtcome⟩⟩ := epoch_cases h
  · cases houtcome
  · cases houtcome
    exact hS

end Control

namespace Epochs

variable {s t : Epochs} {a : Action}

/-- The rounds left in the `for` loop of `ALCCSend`. -/
def left (s : Epochs) : Nat :=
  match s.sender with
  | some (_, left) => left
  | none => 0

/-- The credit leaves slow start. -/
def Exits (s : Epochs) (receivedtime stray : Timeval) : Prop :=
  (∃ k ∈ s.sock.seqNumbersList.keys, k ≤ s.sock.seq + 1) ∧
    s.sock.ctl.Exits
      (delay receivedtime ((s.sock.seqNumbersList.lookup (s.sock.seq + 1)).getD stray))
      (s.sock.seq + 1)

instance (s : Epochs) (receivedtime stray : Timeval) : Decidable (s.Exits receivedtime stray) :=
  inferInstanceAs (Decidable (_ ∧ _))

/-- The step is not a restart. -/
def NoRestart (s : Epochs) : Action → Prop
  | .epoch bufferingDelay depth => s.sock.ctl.slowStart = true ∨
    (s.sock.ctl.epoch bufferingDelay depth s.sock.wCrt s.sock.tempS).all (!·.2.restarts) = true
  | .curve fitted => s.sock.ctl.slowStart = true ∨ (s.sock.ctl.refresh fitted).2 = false
  | .restart => False
  | _ => True

/-- Slow start is not left while rounds of the `for` loop are left. -/
def ExitsIdle (s : Epochs) : Action → Prop
  | .credit receivedtime stray _ => s.Exits receivedtime stray → s.left = 0
  | _ => True

instance (s : Epochs) : DecidablePred s.NoRestart
  | .epoch .. | .curve _ => inferInstanceAs (Decidable (_ ∨ _))
  | .restart => .isFalse id
  | .turn _ | .send | .leave | .credit .. => .isTrue trivial

instance (s : Epochs) : DecidablePred s.ExitsIdle
  | .credit receivedtime stray _ =>
    inferInstanceAs (Decidable (s.Exits receivedtime stray → s.left = 0))
  | .turn _ | .send | .leave | .epoch .. | .curve _ | .restart => .isTrue trivial

theorem step_turn {now : Timeval} (hs : s.step (.turn now) = some t) :
    0 < s.sock.tempS ∧ t = { s with sender := some (now, (toI32 s.sock.tempS).toNat) } := by
  obtain ⟨⟨-, hpos⟩, hs⟩ := Option.ite_none_right_eq_some.mp hs
  exact ⟨hpos, (Option.some.inj hs).symm⟩

theorem step_send (hs : s.step .send = some t) :
    ∃ pktTime left, s.sender = some (pktTime, left + 1) ∧
      t = ⟨s.sock.sendPacket (epochController ⟨0, 0⟩ 0) pktTime, some (pktTime, left)⟩ := by
  simp only [step] at hs
  split at hs
  · next pktTime left hsender => exact ⟨pktTime, left, hsender, (Option.some.inj hs).symm⟩
  · cases hs

theorem step_leave (hs : s.step .leave = some t) : t = { s with sender := none } := by
  obtain ⟨-, hs⟩ := Option.ite_none_right_eq_some.mp hs
  exact (Option.some.inj hs).symm

/-- Outside slow start, an epoch restarts or changes the permits. -/
theorem step_epoch {bufferingDelay : ℚ} {depth : Nat}
    (hs : s.step (.epoch bufferingDelay depth) = some t) :
    t = s ∨ s.sock.ctl.slowStart ≠ true ∧ ∃ c outcome,
      s.sock.ctl.epoch bufferingDelay depth s.sock.wCrt s.sock.tempS = some (c, outcome) ∧
        match outcome with
        | .restart => t = { s with sock := { s.sock with ctl := c } }.restartSlowStart
        | .permits S =>
          t = { s with sock := { s.sock with ctl := c, tempS := s.sock.tempS + S } } := by
  simp only [step] at hs
  split at hs
  · cases hs
    exact .inl rfl
  · rename_i hslow
    obtain ⟨⟨c, outcome⟩, hepoch, hs⟩ := Option.map_eq_some_iff.mp hs
    refine .inr ⟨hslow, c, outcome, hepoch, ?_⟩
    cases outcome with
    | restart => exact hs.symm
    | permits S => exact hs.symm

/-- Outside slow start, the curve is refreshed, and a refresh may restart. -/
theorem step_curve {fitted : Option (ℚ → Option ℚ)} (hs : s.step (.curve fitted) = some t) :
    t = s ∨ s.sock.ctl.slowStart ≠ true ∧
      ((s.sock.ctl.refresh fitted).2 = true ∧
          t = { s with sock := { s.sock with ctl := (s.sock.ctl.refresh fitted).1 }
            }.restartSlowStart ∨
        (s.sock.ctl.refresh fitted).2 = false ∧
          t = { s with sock := { s.sock with ctl := (s.sock.ctl.refresh fitted).1 } }) := by
  simp only [step] at hs
  split at hs
  · cases hs
    exact .inl rfl
  · rename_i hslow
    refine .inr ⟨hslow, ?_⟩
    cases hrestarts : (s.sock.ctl.refresh fitted).2 with
    | true =>
      rw [if_pos hrestarts] at hs
      exact .inl ⟨rfl, (Option.some.inj hs).symm⟩
    | false =>
      rw [if_neg (Bool.eq_false_iff.mp hrestarts)] at hs
      exact .inr ⟨rfl, (Option.some.inj hs).symm⟩

/-- Every round left has its permit. -/
def Covered (s : Epochs) : Prop := (s.left : Int) ≤ s.sock.tempS

theorem Covered.credit {receivedtime stray : Timeval} {unset : Int} (h : Covered s)
    (ha : s.ExitsIdle (.credit receivedtime stray unset)) :
    Covered { s with
      sock := s.sock.creditPacket (epochController stray unset) receivedtime } := by
  have hleft : (s.left : Int) ≤ s.sock.tempS := h
  rcases ALCCSocket.creditPacket_cases (epochController stray unset) s.sock receivedtime with
    ⟨-, hcredit⟩ | ⟨hlisted, -, -, wCrt, hcredit⟩
  · rw [Covered, hcredit]
    exact hleft
  · have hreceived : (if s.sock.ctl.Exits (delay receivedtime
        ((s.sock.seqNumbersList.lookup (s.sock.seq + 1)).getD stray)) (s.sock.seq + 1) then 0
        else s.sock.tempS) ≤
        (s.sock.creditPacket (epochController stray unset) receivedtime).tempS :=
      (Control.received_tempS ..).trans_eq (congrArg Prod.snd hcredit).symm
    refine le_trans ?_ hreceived
    split
    · rename_i hexits
      have hidle : s.left = 0 := ha ⟨hlisted, hexits⟩
      exact (Int.natCast_eq_zero.mpr hidle).le
    · exact hleft

theorem Covered.step (h : Covered s) (ha : s.NoRestart a ∧ s.ExitsIdle a)
    (hs : s.step a = some t) : Covered t := by
  have hleft : (s.left : Int) ≤ s.sock.tempS := h
  cases a with
  | turn now =>
    obtain ⟨hpos, rfl⟩ := step_turn hs
    simp only [Covered, left]
    rw [toI32]
    omega
  | send =>
    obtain ⟨pktTime, left, hsender, rfl⟩ := step_send hs
    simp only [Covered, Epochs.left, hsender, ALCCSocket.sendPacket] at hleft ⊢
    omega
  | leave =>
    obtain rfl := step_leave hs
    simp only [Covered, Epochs.left] at hleft ⊢
    omega
  | credit receivedtime stray unset =>
    cases hs
    exact h.credit ha.2
  | epoch bufferingDelay depth =>
    obtain rfl | ⟨hslow, c, outcome, hepoch, ht⟩ := step_epoch hs
    · exact h
    · cases outcome with
      | restart =>
        have hrestarts := ha.1.resolve_left hslow
        rw [hepoch] at hrestarts
        cases hrestarts
      | permits S =>
        rw [ht]
        exact hleft.trans (le_add_of_nonneg_right (Control.epoch_permits hepoch))
  | curve fitted =>
    obtain rfl | ⟨hslow, ⟨hrestarts, -⟩ | ⟨-, rfl⟩⟩ := step_curve hs
    · exact h
    · cases hrestarts.symm.trans (ha.1.resolve_left hslow)
    · exact h
  | restart => exact absurd ha.1 id

/-- **Every packet is sent on a permit.** In every run without a restart in which slow start is not
left while rounds of the `for` loop are left, `tempS` is never negative. -/
theorem permits_nonneg {actions : List Action}
    (h : Guarded step (fun s a => s.NoRestart a ∧ s.ExitsIdle a) start actions) :
    Always step (fun s => 0 ≤ s.sock.tempS) start actions := by
  have hcovered : Always step Covered start actions :=
    h.always (fun _ _ _ hs ha hstep => hs.step ha hstep) (show (0 : Int) ≤ 1 by decide)
  exact hcovered.imp fun s hs => le_trans (Int.natCast_nonneg s.left) hs

/-- The first packet is sent and acknowledged after 10 ms, which permits two more. -/
def secondRound : List Action :=
  [.turn ⟨0, 0⟩, .send, .leave, .credit ⟨0, 10000⟩ ⟨0, 0⟩ 0, .turn ⟨0, 20000⟩, .send]

theorem permits_nonneg_secondRound :
    Always step (fun s => 0 ≤ s.sock.tempS) start (secondRound ++ [.send]) :=
  permits_nonneg (by decide +kernel)

/-- The acknowledgement of the second packet takes 600 ms, and the third one is sent without a
permit. -/
theorem tempS_neg_of_late_ack : ((run step start
    (secondRound ++ [.credit ⟨0, 620000⟩ ⟨0, 0⟩ 0, .send])).map (·.sock.tempS)) = some (-1) := by
  decide +kernel

end Epochs

end ALCC.Verus
