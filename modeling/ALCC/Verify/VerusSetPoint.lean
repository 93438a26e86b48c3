import ALCC.Verify.VerusPermits

/-! The delay set point `dEst` and the estimate `dMin` of the minimum delay in `libalcc_verus.cpp`.
An epoch and the exit from slow start clamp `dEst` to `dMin`, and acknowledgements only lower
`dMin`. But an epoch that has clamped `dEst` raises `dMin` by 10 ms when fewer than two packets are
outstanding, and then maps `dEst` on the delay curve. So `dEst` is below `dMin` at times, by no more
than one raise, and as long as no epoch raises `dMin` it stays above (`set_point`). -/

namespace ALCC.Verus

open Binary64 Machine

/-- A bound on the set point that holds when it is clamped, and that a lower `dMin` keeps. -/
structure IsBound (P : ℚ → ℚ → Prop) : Prop where
  clamped {dMin dEst : ℚ} : dMin ≤ dEst → P dMin dEst
  lower {dMin dMin' dEst : ℚ} : dMin' ≤ dMin → P dMin dEst → P dMin' dEst

/-- Above `dMin`, or at most one raise below. -/
def NearMin (dMin dEst : ℚ) : Prop := dMin ≤ dEst ∨ IsDouble dEst ∧ dMin ≤ double (dEst + 10)

theorem isBound_le : IsBound (· ≤ ·) := ⟨id, le_trans⟩

theorem isBound_nearMin : IsBound NearMin where
  clamped := .inl
  lower hle h := h.imp hle.trans fun ⟨hdEst, hnear⟩ => ⟨hdEst, hle.trans hnear⟩

theorem NearMin.le {dMin dEst : ℚ} (h : NearMin dMin dEst) (hdMin : IsDouble dMin) :
    dMin ≤ double (dEst + 10) := by
  rcases h with hle | ⟨-, hnear⟩
  · exact hdMin.le_double (by linarith)
  · exact hnear

namespace Control

variable {P : ℚ → ℚ → Prop} {c d : Control} {delay bufferingDelay : ℚ} {seq wCrt tempS : Int}

/-- The epoch clamps `dEst`. -/
def Clamps (bufferingDelay : ℚ) (c : Control) : Prop :=
  (c.setMax bufferingDelay).DelayHigh ∨
    double (1 / 10000) <
      double ((c.setMax bufferingDelay).dMax - (c.setMax bufferingDelay).dMaxLast)

instance (bufferingDelay : ℚ) (c : Control) : Decidable (c.Clamps bufferingDelay) :=
  inferInstanceAs (Decidable (_ ∨ _))

/-- The epoch clamps `dEst`, or clamps it and then raises `dMin`, or adds `DELTA2` to it. -/
theorem mapping_cases (c : Control) (bufferingDelay : ℚ) (wCrt : Int) :
    ((c.mapping bufferingDelay wCrt).dMin = c.dMin ∧
      c.dMin ≤ (c.mapping bufferingDelay wCrt).dEst) ∨
    ((c.mapping bufferingDelay wCrt).dMin = double (c.dMin + 10) ∧
      (c.mapping bufferingDelay wCrt).dEst = c.dMin) ∨
    (¬ c.Clamps bufferingDelay ∧ (c.mapping bufferingDelay wCrt).dMin = c.dMin ∧
      (c.mapping bufferingDelay wCrt).dEst = double (c.dEst + DELTA2)) := by
  simp only [mapping, setEst]
  split_ifs with hhigh hraise hincreased
  · exact .inr (.inl ⟨rfl, hraise.1⟩)
  · exact .inl ⟨rfl, le_max_left _ _⟩
  · exact .inl ⟨rfl, le_max_left _ _⟩
  · exact .inr (.inr ⟨not_or.mpr ⟨hhigh, hincreased⟩, rfl, rfl⟩)

theorem isDouble_mapping (hdMin : IsDouble c.dMin) :
    IsDouble (c.mapping bufferingDelay wCrt).dMin := by
  rcases c.mapping_cases bufferingDelay wCrt with ⟨h, -⟩ | ⟨h, -⟩ | ⟨-, h, -⟩ <;> rw [h]
  · exact hdMin
  · exact isDouble_double _
  · exact hdMin

theorem mapping_nearMin (hdMin : IsDouble c.dMin) (h : NearMin c.dMin c.dEst) :
    NearMin (c.mapping bufferingDelay wCrt).dMin (c.mapping bufferingDelay wCrt).dEst := by
  obtain ⟨hmin, hle⟩ | ⟨hmin, hest⟩ | ⟨-, hmin, hest⟩ := c.mapping_cases bufferingDelay wCrt
  · rw [hmin]
    exact .inl hle
  · rw [hmin, hest]
    exact .inr ⟨hdMin, le_rfl⟩
  · have hstep : c.dEst ≤ c.dEst + DELTA2 := le_add_of_nonneg_right two_pos.le
    rw [hmin, hest]
    rcases h with hle | ⟨hdEst, hnear⟩
    · exact .inl (hdMin.le_double (hle.trans hstep))
    · refine .inr ⟨isDouble_double _, hnear.trans (double_mono ?_)⟩
      exact add_le_add (hdEst.le_double hstep) le_rfl

/-- Without a raise of `dMin`, the epoch leaves `dEst` above if it clamps it or finds it there. -/
theorem mapping_le (hkeeps : (c.mapping bufferingDelay wCrt).dMin = c.dMin)
    (h : c.Clamps bufferingDelay ∨ IsDouble c.dMin ∧ c.dMin ≤ c.dEst) :
    (c.mapping bufferingDelay wCrt).dMin ≤ (c.mapping bufferingDelay wCrt).dEst := by
  rw [hkeeps]
  obtain ⟨-, hle⟩ | ⟨-, hest⟩ | ⟨hclamps, -, hest⟩ := c.mapping_cases bufferingDelay wCrt
  · exact hle
  · exact hest.ge
  · obtain ⟨hdMin, hle⟩ := h.resolve_left hclamps
    rw [hest]
    exact hdMin.le_double (hle.trans (le_add_of_nonneg_right two_pos.le))

/-- What holds between the steps: the bound, outside slow start. -/
structure EstInv (P : ℚ → ℚ → Prop) (c : Control) : Prop where
  dMin : IsDouble c.dMin
  dEst : c.slowStart = true ∨ P c.dMin c.dEst

theorem EstInv.restart (P : ℚ → ℚ → Prop) (c : Control) : EstInv P c.restart where
  dMin := by exact_mod_cast IsDouble.natCast (n := 1000) (by norm_num)
  dEst := .inl rfl

theorem EstInv.refresh (fitted : Option (ℚ → Option ℚ)) (h : EstInv P c) :
    EstInv P (c.refresh fitted).1 := by
  simp only [Control.refresh]
  split
  · split <;> exact ⟨h.dMin, h.dEst⟩
  · exact ⟨h.dMin, h.dEst⟩

/-- The exit from slow start clamps `dEst`. -/
theorem EstInv.exitSlowStart (delay : ℚ) (w seq tempS : Int) (hP : IsBound P) (h : EstInv P c) :
    EstInv P (c.exitSlowStart delay w seq tempS).1 := by
  rw [Control.exitSlowStart]
  split
  · refine ⟨h.dMin, .inr (hP.clamped ?_)⟩
    simp only [calcDelayCurveInv]
    split_ifs <;> exact le_max_right _ _
  · exact h

/-- An acknowledgement lowers `dMin`. -/
theorem EstInv.updateUponReceivingPacket (w : Int) (hP : IsBound P) (h : EstInv P c)
    (hdelay : IsDouble delay) : EstInv P (c.updateUponReceivingPacket delay w) := by
  rw [Control.updateUponReceivingPacket]
  constructor
  · simp only
    split
    · exact hdelay
    · exact h.dMin
  · refine h.dEst.imp id (hP.lower ?_)
    split
    · exact le_of_lt ‹_›
    · exact le_rfl

theorem growSlowStart_slowStart (ctl : Window) :
    (ctl.growSlowStart wCrt tempS).1.slowStart = ctl.slowStart := by
  simp only [Window.growSlowStart]
  split <;> rfl

theorem EstInv.received {stray receivedtime : Timeval} {sendTime : Option Timeval} {unset : Int}
    {w : Option Int} (hP : IsBound P) (h : EstInv P c) :
    EstInv P (c.received stray unset receivedtime sendTime w seq wCrt tempS).1 := by
  have hset : EstInv P (c.setW w) := ⟨h.dMin, h.dEst⟩
  have hdelay : IsDouble (Verus.delay receivedtime (sendTime.getD stray)) := isDouble_double _
  have hexit := hset.exitSlowStart (Verus.delay receivedtime (sendTime.getD stray))
    ((c.setW w).w.getD unset) seq tempS hP
  have hupdate := hexit.updateUponReceivingPacket ((c.setW w).w.getD unset) hP hdelay
  refine ⟨hupdate.dMin, ?_⟩
  simp only [Control.received, growSlowStart_slowStart]
  exact hupdate.dEst

/-- The epoch goes on with what it has mapped. -/
theorem EstInv.epoch {depth : Nat} {outcome : Outcome} (hdMin : IsDouble c.dMin)
    (hmapping : P (c.mapping bufferingDelay wCrt).dMin (c.mapping bufferingDelay wCrt).dEst)
    (hs : c.epoch bufferingDelay depth wCrt tempS = some (d, outcome)) : EstInv P d := by
  have hest : EstInv P (c.mapping bufferingDelay wCrt) := ⟨isDouble_mapping hdMin, .inr hmapping⟩
  obtain ⟨wBarTemp, -, ⟨-, rfl, -⟩ | ⟨-, rfl, -⟩⟩ := epoch_cases hs
  · exact hest
  · exact ⟨hest.dMin, hest.dEst⟩

end Control

namespace Epochs

open Control (EstInv)

variable {P : ℚ → ℚ → Prop} {s t : Epochs} {a : Action}

/-- The bound holds when an epoch maps `dEst` with `calcDelayCurve`. -/
def Maps (P : ℚ → ℚ → Prop) (s : Epochs) : Action → Prop
  | .epoch bufferingDelay _ => s.sock.ctl.slowStart = false →
    P (s.sock.ctl.mapping bufferingDelay s.sock.wCrt).dMin
      (s.sock.ctl.mapping bufferingDelay s.sock.wCrt).dEst
  | _ => True

/-- No epoch raises `dMin`. -/
def KeepsMin (s : Epochs) : Action → Prop
  | .epoch bufferingDelay _ => s.sock.ctl.slowStart = false →
    (s.sock.ctl.mapping bufferingDelay s.sock.wCrt).dMin = s.sock.ctl.dMin
  | _ => True

instance (P : ℚ → ℚ → Prop) [DecidableRel P] (s : Epochs) : DecidablePred (s.Maps P)
  | .epoch .. => inferInstanceAs (Decidable (_ → P _ _))
  | .turn _ | .send | .leave | .credit .. | .curve _ | .restart => .isTrue trivial

instance (s : Epochs) : DecidablePred s.KeepsMin
  | .epoch .. => inferInstanceAs (Decidable (_ → _ = _))
  | .turn _ | .send | .leave | .credit .. | .curve _ | .restart => .isTrue trivial

theorem estInv_step (hP : IsBound P) (h : EstInv P s.sock.ctl) (ha : s.Maps P a)
    (hs : s.step a = some t) : EstInv P t.sock.ctl := by
  cases a with
  | turn now =>
    obtain ⟨-, rfl⟩ := step_turn hs
    exact h
  | send =>
    obtain ⟨pktTime, left, -, rfl⟩ := step_send hs
    exact h
  | leave =>
    obtain rfl := step_leave hs
    exact h
  | credit receivedtime stray unset =>
    cases hs
    obtain ⟨-, hcredit⟩ | ⟨-, -, -, wCrt, hcredit⟩ :=
      ALCCSocket.creditPacket_cases (epochController stray unset) s.sock receivedtime
    · rw [hcredit]
      exact h
    · have hctl := congrArg Prod.fst hcredit
      simp only at hctl
      simp only [hctl]
      exact h.received hP
  | epoch bufferingDelay depth =>
    obtain rfl | ⟨hslow, c, outcome, hepoch, ht⟩ := step_epoch hs
    · exact h
    · cases outcome with
      | restart =>
        rw [ht]
        exact .restart P c
      | permits S =>
        rw [ht]
        exact .epoch h.dMin (ha (Bool.eq_false_iff.mpr hslow)) hepoch
  | curve fitted =>
    obtain rfl | ⟨-, ⟨-, rfl⟩ | ⟨-, rfl⟩⟩ := step_curve hs
    · exact h
    · exact .restart P _
    · exact h.refresh fitted
  | restart =>
    cases hs
    exact .restart P _

theorem estInv_start (P : ℚ → ℚ → Prop) : EstInv P start.sock.ctl := .restart P .new

theorem maps_nearMin (h : EstInv NearMin s.sock.ctl) (a : Action) : s.Maps NearMin a := by
  cases a with
  | epoch bufferingDelay depth =>
    intro hslow
    apply Control.mapping_nearMin h.dMin
    exact h.dEst.resolve_left (Bool.eq_false_iff.mp hslow)
  | turn _ | send | leave | credit _ _ _ | curve _ | restart => trivial

theorem maps_le (h : EstInv (· ≤ ·) s.sock.ctl) (ha : s.KeepsMin a) : s.Maps (· ≤ ·) a := by
  cases a with
  | epoch bufferingDelay depth =>
    intro hslow
    refine Control.mapping_le (ha hslow) (.inr ⟨h.dMin, ?_⟩)
    exact h.dEst.resolve_left (Bool.eq_false_iff.mp hslow)
  | turn _ | send | leave | credit _ _ _ | curve _ | restart => trivial

/-- The bound that every run keeps. -/
theorem estInv_run {actions : List Action} (hrun : run step start actions = some t) :
    EstInv NearMin t.sock.ctl :=
  invariant (I := fun s => EstInv NearMin s.sock.ctl)
    (fun _ a _ h => estInv_step isBound_nearMin h (maps_nearMin h a)) (estInv_start NearMin) hrun

/-- **The set point and the minimum delay.** When an epoch maps `dEst` on the delay curve, `dMin` is
above it by no more than the 10 ms by which an epoch may raise `dMin` behind the clamp. From a state
on that is in slow start or has `dMin <= dEst`, it is not above `dEst`, as long as no epoch raises
it. Nor is it in an epoch that clamps `dEst` and does not raise it. -/
theorem set_point :
    (∀ actions, Guarded step (Maps fun dMin dEst => dMin ≤ double (dEst + 10)) start actions) ∧
    (∀ actions t, run step start actions = some t →
      t.sock.ctl.slowStart = true ∨ t.sock.ctl.dMin ≤ t.sock.ctl.dEst →
      ∀ later, Guarded step KeepsMin t later → Guarded step (Maps (· ≤ ·)) t later) ∧
    ∀ (c : Control) bufferingDelay wCrt, c.Clamps bufferingDelay →
      (c.mapping bufferingDelay wCrt).dMin = c.dMin →
      (c.mapping bufferingDelay wCrt).dMin ≤ (c.mapping bufferingDelay wCrt).dEst := by
  refine ⟨fun actions => ?_, fun actions t hrun hest later hlater => ?_,
    fun c bufferingDelay wCrt hclamps hkeeps => ?_⟩
  · have hall : Guarded step (fun _ _ => True) start actions :=
      guarded_of_forall fun _ _ _ => trivial
    refine hall.guarded (I := fun s => EstInv NearMin s.sock.ctl)
      (fun s a t h _ => estInv_step isBound_nearMin h (maps_nearMin h a)) (fun s a h _ => ?_)
      (estInv_start NearMin)
    have hmaps := maps_nearMin h a
    cases a with
    | epoch bufferingDelay depth =>
      exact fun hslow => (hmaps hslow).le (Control.isDouble_mapping h.dMin)
    | turn _ | send | leave | credit _ _ _ | curve _ | restart => trivial
  · exact hlater.guarded (I := fun s => EstInv (· ≤ ·) s.sock.ctl)
      (fun s a u h ha => estInv_step isBound_le h (maps_le h ha)) (fun s a => maps_le)
      ⟨(estInv_run hrun).dMin, hest⟩
  · exact Control.mapping_le hkeeps (.inl hclamps)

/-- A packet with a delay of 300 ms, and one with 600 ms, which leaves slow start. -/
def slowSecond : List Action :=
  [.turn ⟨0, 0⟩, .send, .leave, .credit ⟨0, 300000⟩ ⟨0, 0⟩ 0, .turn ⟨0, 310000⟩, .send,
    .credit ⟨0, 910000⟩ ⟨0, 0⟩ 0, .epoch 0 1]

/-- The delays were high, and two packets are outstanding. -/
def highDelay : Control := { Control.new with dMin := 10, dEst := 11, dMaxLast := 100 }

theorem set_point_slowSecond :
    (run step start slowSecond).map (fun s => (s.sock.ctl.dMin, s.sock.ctl.dEst)) =
      some (300, 302) ∧
    Guarded step (Maps fun dMin dEst => dMin ≤ double (dEst + 10)) start slowSecond ∧
    Guarded step (Maps (· ≤ ·)) start slowSecond ∧
    (highDelay.mapping 0 2).dMin ≤ (highDelay.mapping 0 2).dEst :=
  ⟨by decide +kernel, set_point.1 _,
    set_point.2.1 [] start rfl (.inl rfl) slowSecond (by decide +kernel),
    set_point.2.2 highDelay 0 2 (by decide +kernel) (by decide +kernel)⟩

/-- The first delay is 10 ms. So the epoch clamps `dEst` to 10, raises `dMin` to 20, and maps
`dEst`. -/
def quickFirst : List Action :=
  secondRound ++ [.credit ⟨0, 620000⟩ ⟨0, 0⟩ 0]

theorem dEst_lt_dMin_quickFirst :
    (run step start quickFirst).map (fun s => (s.sock.ctl.slowStart,
      (s.sock.ctl.mapping 0 s.sock.wCrt).dMin, (s.sock.ctl.mapping 0 s.sock.wCrt).dEst)) =
      some (false, 20, 10) ∧
    (run step start (quickFirst ++ [.epoch 0 1])).isSome = true ∧
    ¬ Guarded step (Maps (· ≤ ·)) start (quickFirst ++ [.epoch 0 1]) := by
  decide +kernel

end Epochs

end ALCC.Verus
