import ALCC.Verify.VerusPermits

/-! The indices of `wList` in `libalcc_verus.cpp`. A window comes from the curve, from slow start,
or from a cut at its exit, and travels through `sendingList` to `ALCCReceive`, which uses it as an
index. All of them are in the range of `wList` exactly if `ALCCReceive` does not use its variable
`w` before it has a value (`inBounds_iff`). -/

namespace ALCC.Verus

open Binary64 Machine MachineInt

/-- The index is in the range of `wList`. -/
def IsIndex (i : Int) : Prop := 0 ≤ i ∧ i < MAX_W_DELAY_CURVE

instance (i : Int) : Decidable (IsIndex i) := inferInstanceAs (Decidable (_ ∧ _))

theorem IsIndex.toI32 {i : Int} (h : IsIndex i) : toI32 i = i := by
  have hlt : i < 40000 := h.2
  exact toI32_of_mem (le_trans (by decide) h.1) (by omega)

theorem isIndex_trunc {x : ℚ} (hx : -1 < x) (hlt : x < MAX_W_DELAY_CURVE) : IsIndex (trunc x) := by
  rw [trunc]
  split
  · rename_i hnonneg
    exact ⟨Int.floor_nonneg.mpr hnonneg, Int.floor_lt.mpr hlt⟩
  · rename_i hneg
    have hceil : ⌈x⌉ = 0 := by
      rw [Int.ceil_eq_iff]
      constructor
      · exact_mod_cast (by linarith : -1 < x)
      · exact_mod_cast (not_le.mp hneg).le
    rw [hceil]
    decide

/-- The window is in the range of `wList`. -/
def IsWindow (w : ℚ) : Prop := 0 ≤ w ∧ w ≤ (MAX_W_DELAY_CURVE - 1 : Int)

theorem IsWindow.lt {w : ℚ} (h : IsWindow w) : w < MAX_W_DELAY_CURVE :=
  lt_of_le_of_lt h.2 (Int.cast_lt.mpr (by decide))

theorem IsWindow.trunc {w : ℚ} (h : IsWindow w) : IsIndex (trunc w) :=
  isIndex_trunc (lt_of_lt_of_le (by norm_num) h.1) h.lt

theorem IsWindow.of_int {n : Int} (hpos : 0 ≤ n) (hn : n ≤ 39999) : IsWindow (n : ℚ) :=
  ⟨Int.cast_nonneg hpos, Int.cast_le.mpr hn⟩

/-- The cut at the exit from slow start. -/
theorem isWindow_cut {w : Int} (h : IsIndex w) :
    IsWindow (double (Window.VERUS_M_DECREASE * double w)) := by
  have hw : w < 40000 := h.2
  have hw0 : (0 : ℚ) ≤ w := Int.cast_nonneg h.1
  have hw1 : w ≤ ((MAX_W_DELAY_CURVE - 1 : Int) : ℚ) := Int.cast_le.mpr (Int.le_of_lt_add_one hw)
  have hfactor0 : 0 ≤ Window.VERUS_M_DECREASE := double_nonneg (by norm_num)
  have hfactor1 : Window.VERUS_M_DECREASE ≤ 1 := by
    exact_mod_cast (IsDouble.natCast (n := 1) (by decide)).double_le (by norm_num)
  have hmax : IsDouble ((MAX_W_DELAY_CURVE - 1 : Int) : ℚ) := .intCast (by decide)
  rw [double_intCast (by rw [abs_lt]; constructor <;> linarith [h.1])]
  constructor
  · exact double_nonneg (mul_nonneg hfactor0 hw0)
  · apply hmax.double_le
    exact (mul_le_of_le_one_left hw0 hfactor1).trans hw1

namespace Control

variable {c d : Control} {seq wCrt tempS : Int}

theorem searchDown_isIndex (c : Control) (w : ℚ) (hw : -1 < w) (hlt : w < MAX_W_DELAY_CURVE) :
    ∀ i ∈ (c.searchDown w).2, IsIndex i := by
  induction w using searchDown.induct c with
  | case1 w h ret used hsearch ih =>
    have hdown := ih (by linarith [h.2]) (by linarith)
    rw [searchDown, if_pos h]
    intro i hi
    rcases List.mem_cons.mp hi with rfl | hi
    · exact isIndex_trunc hw hlt
    · exact hdown i hi
  | case2 w h =>
    rw [searchDown, if_neg h]
    intro i hi
    rw [List.mem_singleton.mp hi]
    exact isIndex_trunc hw hlt

/-- The access behind the end of `wList` is not reached. -/
theorem calcDelayCurveInv_isIndex {w : ℚ} (h : IsWindow w) :
    ∀ i ∈ (c.calcDelayCurveInv w).2, IsIndex i := by
  rw [calcDelayCurveInv]
  split
  · rintro i ⟨⟩
  · rw [if_pos h.lt]
    exact c.searchDown_isIndex w (lt_of_lt_of_le (by norm_num) h.1) h.lt

theorem searchUp_range {delay : ℚ} {w : Nat} (h : c.searchUp delay = some w) :
    1 ≤ w ∧ w ≤ 39998 := by
  obtain ⟨v, hv, rfl⟩ := Option.map_eq_some_iff.mp h
  have hmem := List.mem_range'_1.mp (List.mem_of_find?_eq_some hv)
  have hmax : (MAX_W_DELAY_CURVE - 2).toNat = 39998 := rfl
  rw [hmax] at hmem
  omega

/-- A window that is read off the curve is in its range. -/
theorem calcDelayCurve_range {depth : Nat} {delay wBarTemp : ℚ}
    (h : c.calcDelayCurve delay depth = some wBarTemp) :
    wBarTemp < 0 ∨ IsWindow (max 1 wBarTemp) := by
  induction depth generalizing delay with
  | zero => cases h
  | succ depth ih =>
    rw [calcDelayCurve] at h
    split at h
    · rename_i w hw
      cases h
      obtain ⟨hpos, hle⟩ := searchUp_range hw
      have hw1 : (1 : ℚ) ≤ w := by exact_mod_cast hpos
      rw [max_eq_right hw1]
      exact .inr (.of_int (n := w) (by omega) (by omega))
    · split at h
      · cases h
        exact .inl (by norm_num)
      · exact ih h

/-- The indices used and the local variable `w` of `ALCCReceive`. -/
structure Indexed (c : Control) : Prop where
  used : ∀ i ∈ c.used, IsIndex i
  w : ∀ w ∈ c.w, IsIndex w

/-- The window, and its growth in slow start, which ends with the packet 5000. -/
structure InRange (seq : Int) (c : Control) : Prop extends c.Indexed where
  wBar : IsWindow c.wBar
  growth : c.slowStart = true → ∃ n : Int, c.wBar = n ∧ 1 ≤ n ∧ n ≤ 1 + seq ∧ n ≤ 5001

theorem Indexed.restart (h : c.Indexed) : InRange 0 c.restart where
  used := h.used
  w := h.w
  wBar := .of_int (n := 1) (by decide) (by decide)
  growth _ := ⟨1, rfl, by decide⟩

namespace InRange

theorem setW {w : Option Int} (h : c.InRange seq) (hw : ∀ i ∈ w, IsIndex i) :
    (c.setW w).InRange seq where
  used := h.used
  w := by
    cases w with
    | none => exact h.w
    | some i =>
      rintro _ ⟨⟩
      rw [(hw i rfl).toI32]
      exact hw i rfl
  wBar := h.wBar
  growth := h.growth

theorem exitSlowStart {w : Int} (h : c.InRange seq) (hw : IsIndex w) (delay : ℚ)
    (acked tempS : Int) :
    (c.exitSlowStart delay w acked tempS).1.InRange seq ∧
      ((c.exitSlowStart delay w acked tempS).1.slowStart = true → acked ≤ 5000) := by
  rw [Control.exitSlowStart]
  split
  · refine ⟨⟨⟨?_, h.w⟩, isWindow_cut hw, ?_⟩, ?_⟩
    · intro i hi
      rcases List.mem_append.mp hi with hi | hi
      · exact calcDelayCurveInv_isIndex (isWindow_cut hw) i hi
      · exact h.used i hi
    · rintro ⟨⟩
    · rintro ⟨⟩
  · rename_i hexits
    refine ⟨h, fun hslow => ?_⟩
    by_contra hseq
    exact hexits ⟨hslow, .inr (not_le.mp hseq)⟩

theorem updateUponReceivingPacket {delay : ℚ} {w : Int} (h : c.InRange seq) (hw : IsIndex w) :
    (c.updateUponReceivingPacket delay w).InRange seq where
  used := by
    intro i hi
    rcases List.mem_cons.mp hi with rfl | hi
    · exact hw
    · exact h.used i hi
  w := h.w
  wBar := h.wBar
  growth := h.growth

theorem growSlowStart (h : c.InRange seq) (hle : c.slowStart = true → seq + 1 ≤ 5000) :
    { c with toWindow := (c.toWindow.growSlowStart wCrt tempS).1 }.InRange (seq + 1) := by
  by_cases hslow : c.slowStart = true
  · obtain ⟨n, hn, hpos, hgrown, -⟩ := h.growth hslow
    have hle := hle hslow
    have hwBar : double (c.wBar + 1) = (n + 1 : Int) := by
      rw [hn, ← Int.cast_one, ← Int.cast_add]
      apply double_intCast
      rw [abs_lt]
      omega
    simp only [Window.growSlowStart, if_pos hslow, hwBar]
    refine ⟨⟨h.used, h.w⟩, .of_int (by omega) (by omega), fun _ => ⟨n + 1, rfl, ?_⟩⟩
    omega
  · simp only [Window.growSlowStart, if_neg hslow]
    exact ⟨h.toIndexed, h.wBar, fun h => absurd h hslow⟩

/-- An acknowledged packet with a window. -/
theorem received {stray : Timeval} {unset : Int} {receivedtime : Timeval}
    {sendTime : Option Timeval} {w : Option Int} (h : c.InRange seq) (hw : ∀ i ∈ w, IsIndex i)
    (hset : w.isSome = true ∨ c.w.isSome = true ∨ IsIndex unset) :
    (c.received stray unset receivedtime sendTime w (seq + 1) wCrt tempS).1.InRange (seq + 1) := by
  have hsetW := h.setW hw
  have hindex : IsIndex ((c.setW w).w.getD unset) := by
    cases hval : (c.setW w).w with
    | some i => exact hsetW.w i hval
    | none =>
      obtain ⟨hnone, hnone'⟩ := Option.or_eq_none_iff.mp hval
      rw [Option.map_eq_none_iff] at hnone
      rw [hnone, hnone'] at hset
      exact (hset.resolve_left Bool.false_ne_true).resolve_left Bool.false_ne_true
  obtain ⟨hexit, hslow⟩ := hsetW.exitSlowStart hindex
    (delay receivedtime (sendTime.getD stray)) (seq + 1) tempS
  exact (hexit.updateUponReceivingPacket hindex).growSlowStart hslow

end InRange

/-- Without a window the unset variable is used. -/
theorem unset_mem_received {stray : Timeval} {unset : Int} {receivedtime : Timeval}
    {sendTime : Option Timeval} (h : c.w = none) :
    unset ∈ (c.received stray unset receivedtime sendTime none seq wCrt tempS).1.used := by
  have hunset : (c.setW none).w.getD unset = unset := by
    rw [show (c.setW none).w = c.w from rfl, h, Option.getD_none]
  have hused : (c.received stray unset receivedtime sendTime none seq wCrt tempS).1.used =
    (c.setW none).w.getD unset :: ((c.setW none).exitSlowStart
      (Verus.delay receivedtime (sendTime.getD stray)) ((c.setW none).w.getD unset) seq
        tempS).1.used := rfl
  rw [hused, hunset]
  exact List.mem_cons_self

theorem mapping_frame (c : Control) (bufferingDelay : ℚ) (wCrt : Int) :
    (c.mapping bufferingDelay wCrt).toWindow = c.toWindow ∧
      (c.mapping bufferingDelay wCrt).used = c.used ∧
      (c.mapping bufferingDelay wCrt).w = c.w ∧
      (c.mapping bufferingDelay wCrt).haveSpline = c.haveSpline := by
  simp only [mapping, setEst]
  split_ifs <;> exact ⟨rfl, rfl, rfl, rfl⟩

/-- Outside slow start an epoch sets a window from the curve, or restarts. -/
theorem InRange.epoch {bufferingDelay : ℚ} {depth : Nat} {outcome : Outcome}
    (h : c.InRange seq) (hslow : ¬ c.slowStart = true)
    (hs : c.epoch bufferingDelay depth wCrt tempS = some (d, outcome)) :
    d.InRange seq := by
  obtain ⟨hwindow, hused, hw, -⟩ := c.mapping_frame bufferingDelay wCrt
  have hest : (c.mapping bufferingDelay wCrt).InRange seq := by
    refine ⟨⟨hused ▸ h.used, hw ▸ h.w⟩, ?_, ?_⟩ <;> rw [hwindow]
    · exact h.wBar
    · exact h.growth
  have hslow' : ¬ (c.mapping bufferingDelay wCrt).slowStart = true := by
    rw [hwindow]
    exact hslow
  obtain ⟨wBarTemp, hcurve, ⟨-, rfl, -⟩ | ⟨hpos, rfl, -⟩⟩ := epoch_cases hs
  · exact hest
  · have hwBar := (calcDelayCurve_range hcurve).resolve_left (not_lt.mpr hpos)
    exact ⟨⟨hest.used, hest.w⟩, hwBar, fun h => absurd h hslow'⟩

theorem InRange.refresh (fitted : Option (ℚ → Option ℚ)) (h : c.InRange seq) :
    (c.refresh fitted).1.InRange seq := by
  simp only [Control.refresh]
  split
  · split <;> exact ⟨⟨h.used, h.w⟩, h.wBar, h.growth⟩
  · exact ⟨⟨h.used, h.w⟩, h.wBar, h.growth⟩

end Control

namespace Epochs

variable {s t : Epochs} {a : Action}

/-- All indices that were used and all windows are in the range of `wList`. -/
structure InBounds (s : Epochs) : Prop where
  used : ∀ i ∈ s.sock.ctl.used, IsIndex i
  wBar : IsWindow s.sock.ctl.wBar
  sendingList : ∀ k w, s.sock.sendingList.lookup k = some w → IsIndex w

/-- A packet that is found acknowledged has a window, or an earlier one had, or the value that the
unset variable happens to have is an index. -/
def FindsWindow (s : Epochs) : Action → Prop
  | .credit _ _ unset => (∃ k ∈ s.sock.seqNumbersList.keys, k ≤ s.sock.seq + 1) →
    (s.sock.sendingList.lookup (toI32 (s.sock.seq + 1))).isSome = true ∨
      s.sock.ctl.w.isSome = true ∨ IsIndex unset
  | _ => True

instance (s : Epochs) : DecidablePred s.FindsWindow
  | .credit .. => inferInstanceAs (Decidable (_ → _ ∨ _ ∨ _))
  | .turn _ | .send | .leave | .epoch .. | .curve _ | .restart => .isTrue trivial

/-- Between the steps. -/
structure IndexInv (s : Epochs) : Prop where
  ctl : s.sock.ctl.InRange s.sock.seq
  sendingList : ∀ k w, s.sock.sendingList.lookup k = some w → IsIndex w

namespace IndexInv

theorem inBounds (h : IndexInv s) : InBounds s := ⟨h.ctl.used, h.ctl.wBar, h.sendingList⟩

theorem start : IndexInv start where
  ctl := ⟨⟨nofun, nofun⟩, .of_int (n := 1) (by decide) (by decide), fun _ => ⟨1, rfl, by decide⟩⟩
  sendingList := by
    intro k w h
    cases h

theorem restart (h : s.sock.ctl.Indexed) : IndexInv s.restartSlowStart where
  ctl := h.restart
  sendingList := by
    intro k w h
    cases h

theorem send {C : Controller Control Timeval} {pktTime : Timeval} (h : IndexInv s)
    (hC : C.wBar s.sock.ctl = trunc s.sock.ctl.wBar) {sender : Option (Timeval × Nat)} :
    IndexInv ⟨s.sock.sendPacket C pktTime, sender⟩ where
  ctl := h.ctl
  sendingList := by
    intro k w hw
    simp only [ALCCSocket.sendPacket] at hw
    by_cases hk : k = toI32 (s.sock.pktSeq + 1)
    · rw [hk, Finmap.lookup_insert, hC] at hw
      cases hw
      exact h.ctl.wBar.trunc
    · rw [Finmap.lookup_insert_of_ne _ hk] at hw
      exact h.sendingList k w hw

theorem credit {receivedtime stray : Timeval} {unset : Int} (h : IndexInv s)
    (ha : s.FindsWindow (.credit receivedtime stray unset)) :
    IndexInv { s with sock := s.sock.creditPacket (epochController stray unset) receivedtime } := by
  rcases ALCCSocket.creditPacket_cases (epochController stray unset) s.sock receivedtime with
    ⟨-, hcredit⟩ | ⟨hlisted, hseq, hlist, wCrt, hcredit⟩
  · rw [hcredit]
    refine ⟨⟨h.ctl.toIndexed, h.ctl.wBar, fun hslow => ?_⟩, h.sendingList⟩
    obtain ⟨n, hn, hpos, hgrown, hle⟩ := h.ctl.growth hslow
    exact ⟨n, hn, hpos, hgrown.trans (Int.add_le_add_left (Int.le_add_one le_rfl) 1), hle⟩
  · have hctl := congrArg Prod.fst hcredit
    have hreceived : (epochController stray unset).received = Control.received stray unset := rfl
    simp only [hreceived] at hctl
    constructor
    · simp only [hctl, hseq]
      apply h.ctl.received _ (ha hlisted)
      intro w hw
      exact h.sendingList _ w hw
    · intro k w hw
      simp only [hlist] at hw
      by_cases hk : k = toI32 (s.sock.seq + 1)
      · rw [hk, Finmap.lookup_erase] at hw
        cases hw
      · rw [Finmap.lookup_erase_ne hk] at hw
        exact h.sendingList k w hw

theorem step (h : IndexInv s) (ha : s.FindsWindow a) (hs : s.step a = some t) : IndexInv t := by
  cases a with
  | turn now =>
    obtain ⟨-, rfl⟩ := step_turn hs
    exact ⟨h.ctl, h.sendingList⟩
  | send =>
    obtain ⟨pktTime, left, -, rfl⟩ := step_send hs
    exact h.send rfl
  | leave =>
    obtain rfl := step_leave hs
    exact ⟨h.ctl, h.sendingList⟩
  | credit receivedtime stray unset =>
    cases hs
    exact h.credit ha
  | epoch bufferingDelay depth =>
    obtain rfl | ⟨hslow, c, outcome, hepoch, ht⟩ := step_epoch hs
    · exact h
    · have hctl := h.ctl.epoch hslow hepoch
      cases outcome with
      | restart =>
        rw [ht]
        exact restart hctl.toIndexed
      | permits S =>
        rw [ht]
        exact ⟨hctl, h.sendingList⟩
  | curve fitted =>
    have hctl := h.ctl.refresh fitted
    obtain rfl | ⟨-, ⟨-, rfl⟩ | ⟨-, rfl⟩⟩ := step_curve hs
    · exact h
    · exact restart hctl.toIndexed
    · exact ⟨hctl, h.sendingList⟩
  | restart =>
    cases hs
    exact restart h.ctl.toIndexed

end IndexInv

/-- A step without a window uses an index out of the range. -/
theorem not_inBounds_of_unset (ha : ¬ s.FindsWindow a) (hs : s.step a = some t) :
    ¬ InBounds t := by
  cases a with
  | credit receivedtime stray unset =>
    obtain ⟨hlisted, hunset⟩ := Classical.not_imp.mp ha
    simp only [not_or, Bool.not_eq_true, Option.isSome_eq_false_iff, Option.isNone_iff_eq_none]
      at hunset
    obtain ⟨hlookup, hw, hindex⟩ := hunset
    cases hs
    intro hbounds
    obtain ⟨hnone, -⟩ | ⟨-, -, -, wCrt, hcredit⟩ :=
      ALCCSocket.creditPacket_cases (epochController stray unset) s.sock receivedtime
    · exact hnone hlisted
    · apply hindex
      apply hbounds.used
      have hctl := congrArg Prod.fst hcredit
      simp only [hlookup] at hctl
      simp only [hctl]
      exact Control.unset_mem_received hw
  | turn _ | send | leave | epoch _ _ | curve _ | restart => exact absurd trivial ha

/-- **The indices are in the range.** A run keeps every index that is used on `wList`, and every
window, in the range of `wList` exactly if each packet that is found acknowledged has a window. -/
theorem inBounds_iff {actions : List Action} (hrun : run step start actions = some t) :
    Always step InBounds start actions ↔ Guarded step FindsWindow start actions :=
  always_iff_guarded (fun _ => IndexInv.inBounds) (fun _ _ _ => IndexInv.step)
    (fun _ _ _ _ => not_inBounds_of_unset) .start hrun

theorem inBounds_oneRound : Always step InBounds start
    [.turn ⟨0, 0⟩, .send, .credit ⟨0, 600000⟩ ⟨0, 0⟩ (-1)] :=
  (inBounds_iff (by rfl)).mpr (by decide +kernel)

/-- An acknowledgement before the first packet is sent makes the next one credit a packet that was
not sent, while the first packet is listed. -/
theorem used_of_early_ack : ((run step start
    [.credit ⟨0, 0⟩ ⟨0, 0⟩ (-1), .turn ⟨0, 0⟩, .send, .credit ⟨0, 0⟩ ⟨0, 0⟩ (-1)]).map
      (·.sock.ctl.used)) = some [-1] := by
  decide +kernel

end Epochs

end ALCC.Verus
