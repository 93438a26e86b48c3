import ALCC.Verify.VerusIndices
import Mathlib.Algebra.Order.Archimedean.Basic

/-! The recursion of `calcDelayCurve` without a spline. Its measure is not explicit: the delay goes
down by `DELTA2` until one of the delays in `wList` is above it, and an entry without a delay counts
as `-1`. In exact arithmetic this happens for a first `k`, and the result is the index below the
first such entry (`calcDelayCurve_returns`). -/

namespace ALCC.Verus

open Binary64

namespace Control

variable {c d : Control} {round : ℚ → ℚ} {delay : ℚ} {depth k w : Nat}

/-- `calcDelayCurve` in an arithmetic that rounds `delay - DELTA2` with `round`. -/
def calcDelayCurveBy (round : ℚ → ℚ) (c : Control) (delay : ℚ) : (depth : Nat) → Option ℚ
  | 0 => none
  | depth + 1 =>
    match c.searchUp delay with
    | some w => some w
    | none =>
      if c.haveSpline then some (-1000)
      else c.calcDelayCurveBy round (round (delay - DELTA2)) depth

theorem calcDelayCurveBy_double :
    c.calcDelayCurveBy double delay depth = c.calcDelayCurve delay depth := by
  induction depth generalizing delay with
  | zero => rfl
  | succ depth ih =>
    rw [calcDelayCurveBy, calcDelayCurve]
    cases c.searchUp delay with
    | some w => rfl
    | none => exact congrArg (if c.haveSpline then some (-1000) else ·) ih

/-- `wList[w] > delay` for an index `w` of the loop. -/
def Above (c : Control) (delay : ℚ) (w : Nat) : Prop :=
  2 ≤ w ∧ w < MAX_W_DELAY_CURVE ∧ delay < c.wListAt w

theorem mem_loop : w ∈ List.range' 2 (MAX_W_DELAY_CURVE - 2).toNat ↔
    2 ≤ w ∧ w < MAX_W_DELAY_CURVE := by
  have hmax : (MAX_W_DELAY_CURVE - 2).toNat = 39998 := rfl
  rw [List.mem_range'_1, hmax, MAX_W_DELAY_CURVE]
  omega

theorem searchUp_of_isLeast (hspline : c.haveSpline = false)
    (hw : IsLeast {w | c.Above delay w} w) : c.searchUp delay = some (w - 1) := by
  obtain ⟨⟨hle, hlt, habove⟩, hleast⟩ := hw
  simp only [searchUp, hspline, Bool.false_eq_true, if_false]
  rw [List.find?_range'_eq_some.mpr, Option.map_some]
  refine ⟨decide_eq_true habove, mem_loop.mpr ⟨hle, hlt⟩, fun v hv hvw => ?_⟩
  rw [Bool.not_eq_true', decide_eq_false_iff_not]
  intro hdelay
  have hvlt : (v : Int) < MAX_W_DELAY_CURVE := lt_trans (by exact_mod_cast hvw) hlt
  exact absurd (hleast ⟨hv, hvlt, hdelay⟩) (not_le.mpr hvw)

theorem searchUp_of_forall_not (hspline : c.haveSpline = false) (h : ∀ w, ¬ c.Above delay w) :
    c.searchUp delay = none := by
  simp only [searchUp, hspline, Bool.false_eq_true, if_false]
  rw [Option.map_eq_none_iff, List.find?_eq_none]
  intro w hw
  obtain ⟨hle, hlt⟩ := mem_loop.mp hw
  exact fun hdelay => h w ⟨hle, hlt, of_decide_eq_true hdelay⟩

/-- The delay gets below the entry at the first index of the loop. -/
theorem exists_above (c : Control) (delay : ℚ) :
    ∃ k : Nat, ∃ w, c.Above (delay - DELTA2 * k) w := by
  obtain ⟨k, hk⟩ := exists_nat_gt ((delay - c.wListAt 2) / DELTA2)
  refine ⟨k, 2, le_rfl, by decide, ?_⟩
  have hpos : 0 < DELTA2 := two_pos
  rw [div_lt_iff₀ hpos] at hk
  show delay - DELTA2 * k < c.wListAt 2
  linarith

/-- `k` calls find no entry above their delays, and the next one does. -/
theorem calcDelayCurveBy_of_isLeast (hspline : c.haveSpline = false)
    (hk : IsLeast {k : Nat | ∃ w, c.Above (delay - DELTA2 * k) w} k)
    (hw : IsLeast {w | c.Above (delay - DELTA2 * k) w} w) (hdepth : k < depth) :
    c.calcDelayCurveBy id delay depth = some ((w - 1 : Nat) : ℚ) := by
  induction k generalizing delay depth with
  | zero =>
    obtain ⟨depth, rfl⟩ := Nat.exists_eq_add_one.mpr hdepth
    rw [Nat.cast_zero, mul_zero, sub_zero] at hw
    rw [calcDelayCurveBy, searchUp_of_isLeast hspline hw]
  | succ k ih =>
    obtain ⟨depth, rfl⟩ := Nat.exists_eq_add_one.mpr (Nat.zero_lt_of_lt hdepth)
    have hnone : c.searchUp delay = none := by
      refine searchUp_of_forall_not hspline fun v hv => ?_
      have hzero : k + 1 ≤ 0 := hk.2 ⟨v, by rwa [Nat.cast_zero, mul_zero, sub_zero]⟩
      exact absurd hzero (Nat.not_succ_le_zero k)
    have hnext (j : Nat) : delay - DELTA2 - DELTA2 * j = delay - DELTA2 * (j + 1 : Nat) := by
      push_cast
      ring
    simp only [calcDelayCurveBy, hnone, hspline, Bool.false_eq_true, if_false, id]
    apply ih
    · refine ⟨by simpa only [Set.mem_ofPred_eq, hnext] using hk.1, fun j hj => ?_⟩
      simp only [Set.mem_ofPred_eq, hnext] at hj
      exact Nat.le_of_succ_le_succ (hk.2 hj)
    · simpa only [hnext] using hw
    · exact Nat.lt_of_succ_lt_succ hdepth

/-- Without a spline, no call returns the value for a restart, in whatever arithmetic. -/
theorem calcDelayCurveBy_pos {wBarTemp : ℚ} (hspline : c.haveSpline = false)
    (h : c.calcDelayCurveBy round delay depth = some wBarTemp) : 1 ≤ wBarTemp := by
  induction depth generalizing delay with
  | zero => cases h
  | succ depth ih =>
    rw [calcDelayCurveBy] at h
    split at h
    · next w hw =>
      cases h
      exact_mod_cast (searchUp_range hw).1
    · rw [hspline] at h
      exact ih h

theorem epoch_ne_restart {bufferingDelay : ℚ} {wCrt tempS : Int} (hspline : c.haveSpline = false) :
    c.epoch bufferingDelay depth wCrt tempS ≠ some (d, .restart) := by
  intro hs
  obtain ⟨-, -, -, hkept⟩ := c.mapping_frame bufferingDelay wCrt
  obtain ⟨wBarTemp, hcurve, ⟨hneg, -⟩ | ⟨-, -, S, -, houtcome⟩⟩ := epoch_cases hs
  · rw [← calcDelayCurveBy_double] at hcurve
    have hpos := calcDelayCurveBy_pos (hkept.trans hspline) hcurve
    linarith
  · cases houtcome

end Control

/-- **The delay curve without a spline.** In exact arithmetic `calcDelayCurve` returns: it calls
itself `k` times for the least `k` such that an entry of the loop is above `delay - DELTA2 * k`, and
returns the index before the first such entry. So it never returns the value for a restart, and no
epoch restarts without a spline. -/
theorem calcDelayCurve_returns (c : Control) (hspline : c.haveSpline = false) :
    (∀ delay : ℚ, ∃ k w : Nat,
      IsLeast {k : Nat | ∃ w, c.Above (delay - DELTA2 * k) w} k ∧
      IsLeast {w | c.Above (delay - DELTA2 * k) w} w ∧
      (∀ depth, k < depth → c.calcDelayCurveBy id delay depth = some ((w - 1 : Nat) : ℚ)) ∧
      1 ≤ w - 1 ∧ (w - 1 : Nat) ≤ MAX_W_DELAY_CURVE - 2) ∧
    ∀ bufferingDelay depth wCrt tempS d,
      c.epoch bufferingDelay depth wCrt tempS ≠ some (d, .restart) := by
  classical
  refine ⟨fun delay => ?_, fun _ _ _ _ _ => c.epoch_ne_restart hspline⟩
  have hcalls := c.exists_above delay
  have hk : IsLeast {k : Nat | ∃ w, c.Above (delay - DELTA2 * k) w} (Nat.find hcalls) :=
    ⟨Nat.find_spec hcalls, fun _ hj => Nat.find_min' hcalls hj⟩
  obtain ⟨w, hw⟩ : ∃ w, IsLeast {w | c.Above (delay - DELTA2 * Nat.find hcalls) w} w :=
    ⟨Nat.find hk.1, Nat.find_spec hk.1, fun _ hv => Nat.find_min' hk.1 hv⟩
  refine ⟨Nat.find hcalls, w, hk, hw, fun depth hdepth => ?_, ?_⟩
  · exact Control.calcDelayCurveBy_of_isLeast hspline hk hw hdepth
  · obtain ⟨hle, hlt, -⟩ := hw.1
    rw [MAX_W_DELAY_CURVE] at hlt ⊢
    omega

/-- No entry has a delay yet, so the delay 10 is mapped by the seventh call, to the least window. -/
theorem calcDelayCurve_returns_new : Control.new.haveSpline = false ∧
    ∀ depth, 6 < depth → Control.new.calcDelayCurveBy id 10 depth = some 1 := by
  obtain ⟨k, w, hk, hw, hcalls, -⟩ := (calcDelayCurve_returns .new rfl).1 10
  have hk6 : k = 6 := by
    refine hk.unique ⟨⟨2, le_rfl, by decide, ?_⟩, fun j ⟨v, _, _, hv⟩ => ?_⟩
    · show (10 : ℚ) - 2 * (6 : Nat) < -1
      norm_num
    · have hv : (10 : ℚ) - 2 * j < -1 := hv
      have hj : (10 : ℚ) < 2 * j - 1 := by linarith
      have hj : (10 : Int) < 2 * j - 1 := by exact_mod_cast hj
      omega
  subst hk6
  have habove := hw.1.2.2
  have hw2 : w = 2 := by
    refine hw.unique ⟨⟨le_rfl, by decide, habove⟩, fun v hv => ?_⟩
    exact hv.1
  subst hw2
  exact ⟨rfl, by simpa using hcalls⟩

end ALCC.Verus
