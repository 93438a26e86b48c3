import ALCC.Model.VerusCurve

/-! `ALCCCurve` never raises its divisor `N` again, so a refresh for a small window spoils the later
ones. A refresh fits the spline that a fresh thread would fit exactly if no earlier refresh has
lowered `N` too far (`fit_eq_fresh_iff`). A refresh for a window below 5 leaves `N` at 0, and no
spline is ever fitted again. -/

namespace ALCC.Verus.Curve

open Binary64

theorem quotient_lt_five (max_i : Nat) {N : Nat} (hpos : 0 < N) (hN : N ≤ 15) :
    quotient max_i N < 5 ↔ max_i < 5 * N := by
  have hNq : (0 : ℚ) < N := by exact_mod_cast hpos
  rw [quotient, if_neg hpos.ne', show (5 : WithTop ℚ) = ((5 : ℚ) : WithTop ℚ) from rfl,
    WithTop.coe_lt_coe]
  constructor
  · intro hlt
    by_contra hge
    have hle : ((5 : ℕ) : ℚ) ≤ (max_i : ℚ) / N := by
      rw [le_div_iff₀ hNq]
      exact_mod_cast not_lt.mp hge
    exact absurd hlt (not_lt.mpr (by exact_mod_cast le_double (by decide) hle))
  · intro hlt
    have hle : (max_i : ℚ) / N ≤ 5 - 1 / 15 := by
      have hN' : (N : ℚ) ≤ 15 := by exact_mod_cast hN
      have hmax : (max_i : ℚ) + 1 ≤ 5 * N := by exact_mod_cast hlt
      rw [div_le_iff₀ hNq]
      linarith
    have hdouble : IsDouble (79 / 16) := ⟨79, -4, by decide, by norm_num⟩
    calc double ((max_i : ℚ) / N) ≤ 79 / 16 := hdouble.double_le (hle.trans (by norm_num))
      _ < 5 := by norm_num

/-- The loop stops at the first `N` for which the quotient reaches 5. -/
theorem narrow_fst (max_i : Nat) {N : Nat} (hN : N ≤ 15) :
    (narrow max_i N).1 = min N (max_i / 5) := by
  induction N with
  | zero => rw [narrow, Nat.zero_min]
  | succ N ih =>
    rw [narrow]
    have hlt := quotient_lt_five max_i (Nat.succ_pos N) hN
    split
    · rename_i h
      have hle : max_i / 5 ≤ N := by
        have := hlt.mp h
        omega
      rw [ih (Nat.le_of_succ_le hN), Nat.min_eq_right hle,
        Nat.min_eq_right (Nat.le_succ_of_le hle)]
    · rename_i h
      have hge := mt hlt.mpr h
      exact (Nat.min_eq_left (by omega)).symm

theorem refresh_N (max_i : Nat) {N : Nat} (hN : N ≤ 15) :
    (refresh max_i N).N = min N (max_i / 5) := narrow_fst max_i hN

/-- A spline is fitted unless `N` is 0. -/
theorem refresh_fit {max_i N : Nat} (hmax : max_i < 2 ^ 31) (hN : N ≤ 15) :
    (refresh max_i N).fit = if min N (max_i / 5) = 0 then none
      else some ((max_i / min N (max_i / 5) : Nat) : Int) := by
  simp only [refresh, narrow_fst max_i hN]
  generalize hN' : min N (max_i / 5) = N'
  by_cases hzero : N' = 0
  · rw [if_neg fun h => h.2.ne' hzero, if_pos hzero]
  · have hpos := Nat.pos_of_ne_zero hzero
    have hge : ¬ quotient max_i N' < 5 := by
      rw [quotient_lt_five max_i hpos (by omega)]
      omega
    have hfour : 4 < quotient max_i N' := lt_of_lt_of_le (by decide) (not_lt.mp hge)
    rw [if_pos ⟨hfour, hpos⟩, if_neg hzero, trunc_double_div hpos (by omega)]

/-- `N` after earlier refreshes: the least of 15 and the fifths of their windows. -/
def leastFifth : List Nat → Nat
  | [] => 15
  | max_i :: history => min (leastFifth history) (max_i / 5)

theorem leastFifth_le (history : List Nat) : leastFifth history ≤ 15 := by
  induction history with
  | nil => exact Nat.le_refl _
  | cons max_i history ih => exact le_trans (Nat.min_le_left ..) ih

theorem divisorAfter_eq (history : List Nat) : divisorAfter history = leastFifth history := by
  induction history with
  | nil => rfl
  | cons max_i history ih =>
    rw [divisorAfter, ih, refresh_N max_i (leastFifth_le history), leastFifth]

/-- The earlier refreshes have not lowered `N` below the one for `max_i`, or only so far that
`max_i/N` has the same integer part. -/
def Undisturbed (history : List Nat) (max_i : Nat) : Prop :=
  min 15 (max_i / 5) ≤ leastFifth history ∨
    0 < leastFifth history ∧ max_i / leastFifth history = max_i / min 15 (max_i / 5)

instance (history : List Nat) (max_i : Nat) : Decidable (Undisturbed history max_i) :=
  inferInstanceAs (Decidable (_ ∨ _))

/-- **Earlier refreshes do not matter** for a refresh exactly if they leave it undisturbed: it fits
a spline if and only if a fresh thread does, with the same number of basis functions. -/
theorem fit_eq_fresh_iff (history : List Nat) {max_i : Nat} (hmax : max_i < 2 ^ 31) :
    (refresh max_i (divisorAfter history)).fit = (refresh max_i initialN).fit ↔
      Undisturbed history max_i := by
  rw [divisorAfter_eq, refresh_fit hmax (leastFifth_le history),
    refresh_fit hmax (show initialN ≤ 15 from Nat.le_refl _), initialN, Undisturbed]
  have hle := leastFifth_le history
  generalize leastFifth history = N at hle
  by_cases hkept : min 15 (max_i / 5) ≤ N
  · have heq : min N (max_i / 5) = min 15 (max_i / 5) := by omega
    rw [heq]
    exact iff_of_true rfl (.inl hkept)
  · have hN : min N (max_i / 5) = N := by omega
    have hfresh : min 15 (max_i / 5) ≠ 0 := by omega
    rw [hN, if_neg hfresh]
    by_cases hzero : N = 0
    · rw [if_pos hzero]
      refine iff_of_false (by rintro ⟨⟩) ?_
      rintro (h | h) <;> omega
    · rw [if_neg hzero]
      simp only [Option.some.injEq, Nat.cast_inj]
      refine ⟨fun h => .inr ⟨Nat.pos_of_ne_zero hzero, h⟩, ?_⟩
      rintro (h | h)
      · exact absurd h hkept
      · exact h.2

theorem fit_eq_fresh_after_large :
    (refresh 80 (divisorAfter [90, 75])).fit = (refresh 80 initialN).fit :=
  (fit_eq_fresh_iff [90, 75] (by decide)).mpr (by decide)

/-- A refresh for the window 4 restarts slow start. The next one, for the window 75, fits no spline;
a fresh thread fits one with 5 basis functions. -/
theorem fit_after_restart :
    (refresh 4 initialN).restarts = true ∧ (refresh 75 (divisorAfter [4])).fit = none ∧
      (refresh 75 initialN).fit = some 5 := by
  decide +kernel

end ALCC.Verus.Curve
