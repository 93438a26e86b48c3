import Mathlib.Data.Int.Log
import Mathlib.Data.Rat.Floor
import Mathlib.Tactic.FieldSimp
import Mathlib.Tactic.Linarith
import Mathlib.Tactic.NormNum
import Mathlib.Tactic.Positivity
import Mathlib.Tactic.Ring

/-! The `double` arithmetic on numbers of moderate size: an operation yields the double nearest to
the exact result, ties going to the even one. Overflow, gradual underflow and the special values
do not occur at the sizes the development meets, so a double is a rational number here. No double is
nearer to a number than its rounding (`abs_double_sub_le_abs`), so rounding is monotone and exact on
doubles. Its relative error is at most `2 ^ (-53)` (`abs_double_sub_le`). -/

namespace Binary64

/-- The integer nearest to `x`, the even one of two. -/
def nearestEven (x : ℚ) : ℤ :=
  if Int.fract x < 1 / 2 then
    ⌊x⌋
  else if 1 / 2 < Int.fract x then
    ⌊x⌋ + 1
  else
    ⌊x⌋ + ⌊x⌋ % 2

/-- The distance of neighbouring doubles at `x`. -/
def ulp (x : ℚ) : ℚ := 2 ^ (Int.log 2 |x| - 52)

/-- The double nearest to `x`. -/
def double (x : ℚ) : ℚ := nearestEven (x / ulp x) * ulp x

/-- Conversion of a double to an integer type that holds its integer part. -/
def trunc (x : ℚ) : ℤ := if 0 ≤ x then ⌊x⌋ else ⌈x⌉

@[simp] theorem nearestEven_intCast (n : ℤ) : nearestEven n = n := by
  simp [nearestEven]

theorem abs_nearestEven_sub_le (x : ℚ) : |nearestEven x - x| ≤ 1 / 2 := by
  have hfract := Int.self_sub_floor x
  have h0 := Int.fract_nonneg x
  have h1 := Int.fract_lt_one x
  rw [nearestEven, abs_le]
  split_ifs with hlt hgt
  · constructor <;> linarith
  · push_cast
    constructor <;> linarith
  · have hhalf : Int.fract x = 1 / 2 := le_antisymm (not_lt.mp hgt) (not_lt.mp hlt)
    rcases Int.emod_two_eq_zero_or_one ⌊x⌋ with h | h <;> rw [h] <;> push_cast <;>
      constructor <;> linarith

/-- What is at least as near to `x` as `b` is lies on the side of `b` where `x` is. -/
theorem le_of_nearer {a b x : ℚ} (h : |a - x| ≤ |b - x|) (hb : b ≤ x) : b ≤ a := by
  rw [abs_of_nonpos (sub_nonpos.mpr hb)] at h
  linarith [neg_abs_le (a - x)]

theorem ge_of_nearer {a b x : ℚ} (h : |a - x| ≤ |b - x|) (hb : x ≤ b) : a ≤ b := by
  rw [abs_of_nonneg (sub_nonneg.mpr hb)] at h
  linarith [le_abs_self (a - x)]

/-- No integer is nearer. -/
theorem abs_nearestEven_sub_le_abs (z : ℤ) (x : ℚ) : |nearestEven x - x| ≤ |z - x| := by
  rcases eq_or_ne z (nearestEven x) with rfl | hne
  · exact le_rfl
  have hdist : (1 : ℚ) ≤ |(z : ℚ) - nearestEven x| := by
    exact_mod_cast Int.one_le_abs (sub_ne_zero.mpr hne)
  have hnear := abs_nearestEven_sub_le x
  have hsum := abs_sub_le (z : ℚ) x (nearestEven x)
  rw [abs_sub_comm x] at hsum
  linarith

theorem le_nearestEven {z : ℤ} {x : ℚ} (h : (z : ℚ) ≤ x) : z ≤ nearestEven x := by
  exact_mod_cast le_of_nearer (abs_nearestEven_sub_le_abs z x) h

theorem nearestEven_le {z : ℤ} {x : ℚ} (h : x ≤ z) : nearestEven x ≤ z := by
  exact_mod_cast ge_of_nearer (abs_nearestEven_sub_le_abs z x) h

theorem ulp_pos (x : ℚ) : 0 < ulp x := zpow_pos two_pos _

theorem mul_ulp (x : ℚ) : 2 ^ 52 * ulp x = 2 ^ Int.log 2 |x| := by
  rw [ulp, ← zpow_natCast, ← zpow_add₀ two_ne_zero]
  congr 1
  push_cast
  ring

theorem zpow_log_le {x : ℚ} (hx : x ≠ 0) : (2 : ℚ) ^ Int.log 2 |x| ≤ |x| :=
  Int.zpow_log_le_self one_lt_two (abs_pos.mpr hx)

theorem ulp_le (x : ℚ) (hx : x ≠ 0) : ulp x ≤ |x| * 2 ^ (-52 : ℤ) := by
  rw [ulp, sub_eq_add_neg, zpow_add₀ two_ne_zero]
  exact mul_le_mul_of_nonneg_right (zpow_log_le hx) (by positivity)

/-- Distances in units of the distance of neighbouring doubles. -/
theorem abs_mul_ulp_sub (z x : ℚ) : |z * ulp x - x| = |z - x / ulp x| * ulp x := by
  have hpos := ulp_pos x
  rw [← abs_of_pos hpos, ← abs_mul, abs_of_pos hpos, sub_mul, div_mul_cancel₀ _ hpos.ne']

@[simp] theorem double_zero : double 0 = 0 := by
  have : nearestEven 0 = 0 := by exact_mod_cast nearestEven_intCast 0
  simp [double, this]

/-! ## The doubles -/

/-- A number with a significand of at most 53 bits. -/
def IsDouble (x : ℚ) : Prop := ∃ z e : ℤ, |z| ≤ 2 ^ 53 ∧ x = z * 2 ^ e

theorem IsDouble.intCast {n : ℤ} (h : |n| ≤ 2 ^ 53) : IsDouble n := ⟨n, 0, h, by simp⟩

theorem IsDouble.natCast {n : ℕ} (h : n ≤ 2 ^ 53) : IsDouble n := by
  exact_mod_cast IsDouble.intCast (n := n) (by rw [Nat.abs_cast]; exact_mod_cast h)

theorem isDouble_double (x : ℚ) : IsDouble (double x) := by
  refine ⟨nearestEven (x / ulp x), Int.log 2 |x| - 52, ?_, rfl⟩
  have hscaled : |x / ulp x| ≤ (2 ^ 53 : ℤ) := by
    rw [abs_div, abs_of_pos (ulp_pos x), div_le_iff₀ (ulp_pos x)]
    calc |x| ≤ 2 ^ (Int.log 2 |x| + 1) := (Int.lt_zpow_succ_log_self one_lt_two |x|).le
      _ = 2 * (2 ^ 52 * ulp x) := by rw [mul_ulp, zpow_add_one₀ two_ne_zero, mul_comm]
      _ = (2 ^ 53 : ℤ) * ulp x := by
          push_cast
          ring
  obtain ⟨hlow, hhigh⟩ := abs_le.mp hscaled
  exact abs_le.mpr ⟨le_nearestEven (by exact_mod_cast hlow), nearestEven_le hhigh⟩

/-- Among the multiples of the distance at `x` there is one which is not farther from `x` than a
given double is. -/
theorem IsDouble.exists_multiple {d x : ℚ} (hd : IsDouble d) (hx : x ≠ 0) :
    ∃ m : ℤ, |m * ulp x - x| ≤ |d - x| := by
  obtain ⟨z, e, hz, rfl⟩ := hd
  rcases le_or_gt (Int.log 2 |x| - 52) e with he | he
  · obtain ⟨n, hn⟩ := Int.eq_ofNat_of_zero_le (sub_nonneg.mpr he)
    have hmul : ((z * 2 ^ n : ℤ) : ℚ) * ulp x = z * 2 ^ e := by
      rw [ulp, Int.cast_mul, mul_assoc, Int.cast_pow, Int.cast_ofNat, ← zpow_natCast,
        ← zpow_add₀ two_ne_zero, ← hn, sub_add_cancel]
    exact ⟨z * 2 ^ n, (congrArg (|· - x|) hmul).le⟩
  · -- the double is below the power of two that is nearest to `x` from below
    have hle : |(z : ℚ) * 2 ^ e| ≤ 2 ^ 52 * ulp x :=
      calc |(z : ℚ) * 2 ^ e| = |(z : ℚ)| * 2 ^ e := by
            rw [abs_mul, abs_of_pos (show (0 : ℚ) < 2 ^ e from zpow_pos two_pos e)]
        _ ≤ 2 ^ 53 * 2 ^ (Int.log 2 |x| - 53) :=
            mul_le_mul (by exact_mod_cast hz) (zpow_le_zpow_right₀ one_le_two (by omega))
              (zpow_pos two_pos e).le (by norm_num)
        _ = 2 ^ 52 * ulp x := by
            rw [mul_ulp, ← zpow_natCast, ← zpow_add₀ two_ne_zero]
            congr 1
            push_cast
            ring
    have hulp : 2 ^ 52 * ulp x ≤ |x| := (mul_ulp x).trans_le (zpow_log_le hx)
    obtain ⟨hlow, hhigh⟩ := abs_le.mp hle
    rcases hx.lt_or_gt with hneg | hpos
    · rw [abs_of_neg hneg] at hulp
      refine ⟨-2 ^ 52, ?_⟩
      push_cast
      rw [abs_of_nonneg (by linarith)]
      exact le_trans (by linarith) (le_abs_self _)
    · rw [abs_of_pos hpos] at hulp
      refine ⟨2 ^ 52, ?_⟩
      push_cast
      rw [abs_of_nonpos (by linarith)]
      exact le_trans (by linarith) (neg_le_abs _)

/-- No double is nearer. -/
theorem abs_double_sub_le_abs {d : ℚ} (hd : IsDouble d) (x : ℚ) : |double x - x| ≤ |d - x| := by
  rcases eq_or_ne x 0 with rfl | hx
  · simp
  obtain ⟨m, hm⟩ := hd.exists_multiple hx
  calc |double x - x| = |nearestEven (x / ulp x) - x / ulp x| * ulp x := abs_mul_ulp_sub _ x
    _ ≤ |m - x / ulp x| * ulp x :=
        mul_le_mul_of_nonneg_right (abs_nearestEven_sub_le_abs m _) (ulp_pos x).le
    _ = |m * ulp x - x| := (abs_mul_ulp_sub m x).symm
    _ ≤ |d - x| := hm

/-- Rounding does not go below a double. -/
theorem IsDouble.le_double {d x : ℚ} (hd : IsDouble d) (h : d ≤ x) : d ≤ double x :=
  le_of_nearer (abs_double_sub_le_abs hd x) h

theorem IsDouble.double_le {d x : ℚ} (hd : IsDouble d) (h : x ≤ d) : double x ≤ d :=
  ge_of_nearer (abs_double_sub_le_abs hd x) h

theorem IsDouble.double_eq {d : ℚ} (hd : IsDouble d) : double d = d :=
  le_antisymm (hd.double_le le_rfl) (hd.le_double le_rfl)

theorem double_mono {x y : ℚ} (h : x ≤ y) : double x ≤ double y := by
  by_contra hlt
  have hx := abs_double_sub_le_abs (isDouble_double y) x
  have hy := abs_double_sub_le_abs (isDouble_double x) y
  have hle : y ≤ x := by
    rcases abs_cases (double y - x) with ⟨hyx, -⟩ | ⟨hyx, -⟩ <;>
    rcases abs_cases (double x - y) with ⟨hxy, -⟩ | ⟨hxy, -⟩ <;>
    linarith [le_abs_self (double x - x), neg_le_abs (double y - y)]
  exact hlt (congrArg double (le_antisymm h hle)).le

/-- An integer with at most 53 bits is a double. -/
theorem double_intCast {n : ℤ} (h : |n| < 2 ^ 53) : double n = n :=
  (IsDouble.intCast h.le).double_eq

theorem double_natCast {n : ℕ} (h : n < 2 ^ 53) : double n = n :=
  (IsDouble.natCast h.le).double_eq

theorem double_nonneg {x : ℚ} (h : 0 ≤ x) : 0 ≤ double x := by
  exact_mod_cast (IsDouble.natCast (Nat.zero_le _)).le_double (by exact_mod_cast h)

theorem double_nonpos {x : ℚ} (h : x ≤ 0) : double x ≤ 0 := by
  exact_mod_cast (IsDouble.natCast (Nat.zero_le _)).double_le (by exact_mod_cast h)

/-- Rounding does not go below an integer that is a double. -/
theorem le_double {k : ℕ} {x : ℚ} (hk : k ≤ 2 ^ 53) (h : (k : ℚ) ≤ x) : (k : ℚ) ≤ double x :=
  (IsDouble.natCast hk).le_double h

/-! ## Relative errors -/

theorem abs_double_sub_le (x : ℚ) : |double x - x| ≤ |x| * 2 ^ (-53 : ℤ) := by
  rcases eq_or_ne x 0 with rfl | hx
  · simp
  have hpos := ulp_pos x
  calc |double x - x| = |nearestEven (x / ulp x) - x / ulp x| * ulp x := abs_mul_ulp_sub _ x
    _ ≤ 1 / 2 * ulp x := mul_le_mul_of_nonneg_right (abs_nearestEven_sub_le _) hpos.le
    _ ≤ 1 / 2 * (|x| * 2 ^ (-52 : ℤ)) := mul_le_mul_of_nonneg_left (ulp_le x hx) (by norm_num)
    _ = |x| * 2 ^ (-53 : ℤ) := by
        norm_num
        ring

theorem trunc_nonneg {x : ℚ} (h : -1 < x) : 0 ≤ trunc x := by
  rw [trunc]
  split
  · rename_i h0
    exact Int.floor_nonneg.mpr h0
  · exact Int.le_of_sub_one_lt (Int.lt_ceil.mpr (by push_cast; linarith))

theorem trunc_le {x : ℚ} {n : ℤ} (h : x ≤ n) : trunc x ≤ n := by
  rw [trunc]
  split
  · exact Int.cast_le.mp ((Int.floor_le x).trans h)
  · exact Int.ceil_le.mpr h

theorem trunc_double_nonpos {x : ℚ} (h : x ≤ 0) : trunc (double x) ≤ 0 := by
  rw [trunc]
  split_ifs
  · exact Int.floor_nonpos (double_nonpos h)
  · exact Int.ceil_nonpos.mpr (double_nonpos h)

/-- A number so close to a fraction which is no integer has the same integer part. -/
theorem floor_of_near {v m : ℕ} {y : ℚ} (hm : 0 < m) (hdvd : ¬ m ∣ v)
    (hnear : |y - (v : ℚ) / m| < 1 / m) : ⌊y⌋ = ((v / m : ℕ) : ℤ) := by
  have hmq : (0 : ℚ) < m := by exact_mod_cast hm
  obtain ⟨hlow, hhigh⟩ := abs_lt.mp hnear
  have hv : (v : ℚ) / m = (v / m : ℕ) + ((v % m : ℕ) : ℚ) / m := by
    rw [eq_comm, add_div' _ _ _ hmq.ne', div_left_inj' hmq.ne', mul_comm]
    exact_mod_cast Nat.div_add_mod v m
  have h1 : 1 / (m : ℚ) ≤ ((v % m : ℕ) : ℚ) / m := by
    rw [div_le_div_iff_of_pos_right hmq]
    exact_mod_cast Nat.pos_of_ne_zero fun h => hdvd (Nat.dvd_of_mod_eq_zero h)
  have h2 : ((v % m : ℕ) : ℚ) / m + 1 / m ≤ 1 := by
    rw [← add_div, div_le_one hmq]
    exact_mod_cast Nat.mod_lt v hm
  rw [Int.floor_eq_iff, Int.cast_natCast]
  constructor <;> linarith

/-- The quotient of two integers, computed in doubles, has the integer part of the exact one. -/
theorem trunc_double_div {v m : ℕ} (hm : 0 < m) (hv : v < 2 ^ 53) :
    trunc (double ((v : ℚ) / m)) = ((v / m : ℕ) : ℤ) := by
  have hnonneg : 0 ≤ (v : ℚ) / m := by positivity
  rw [trunc, if_pos (double_nonneg hnonneg)]
  by_cases hdvd : m ∣ v
  · obtain ⟨q, rfl⟩ := hdvd
    have hq : q < 2 ^ 53 := lt_of_le_of_lt (Nat.le_mul_of_pos_left q hm) hv
    have hmq : (m : ℚ) ≠ 0 := by exact_mod_cast hm.ne'
    rw [Nat.cast_mul, mul_div_cancel_left₀ _ hmq, double_natCast hq, Nat.mul_div_cancel_left q hm,
      Int.floor_natCast]
  · refine floor_of_near hm hdvd (lt_of_le_of_lt (abs_double_sub_le _) ?_)
    have hmq : (0 : ℚ) < m := by exact_mod_cast hm
    have hvq : (v : ℚ) < 2 ^ 53 := by exact_mod_cast hv
    rw [abs_of_nonneg hnonneg, div_mul_eq_mul_div, div_lt_div_iff_of_pos_right hmq, zpow_neg,
      ← div_eq_mul_inv, div_lt_one (by positivity)]
    exact hvq

/-- Adding such a quotient to an integer in doubles, as long as the sum stays below `2 ^ 42`. -/
theorem trunc_double_add_div {n d m : ℕ} (hm : 0 < m) (hm' : m ≤ 2000) (hd : d < 2 ^ 32)
    (hsum : n + d / m < 2 ^ 42) :
    trunc (double (double n + double ((d : ℚ) / m))) = ((n + d / m : ℕ) : ℤ) := by
  have hmq : (0 : ℚ) < m := by exact_mod_cast hm
  have hquot : 0 ≤ (d : ℚ) / m := by positivity
  have hn : n < 2 ^ 53 := lt_of_le_of_lt (Nat.le_add_right n (d / m)) (by omega)
  rw [double_natCast hn, trunc,
    if_pos (double_nonneg (add_nonneg n.cast_nonneg (double_nonneg hquot)))]
  by_cases hdvd : m ∣ d
  · -- both operations are exact
    obtain ⟨q, rfl⟩ := hdvd
    rw [Nat.mul_div_cancel_left q hm] at hsum ⊢
    rw [Nat.cast_mul, mul_div_cancel_left₀ _ hmq.ne', double_natCast (by omega), ← Nat.cast_add,
      double_natCast (by omega), Int.floor_natCast]
  · -- the two errors do not reach the next integer
    have hdiv : (n * m + d) / m = n + d / m := by
      rw [Nat.add_comm, Nat.add_mul_div_right _ _ hm, Nat.add_comm]
    have hdivq : ((n * m + d : ℕ) : ℚ) / m = n + d / m := by
      push_cast
      rw [add_div, mul_div_cancel_right₀ _ hmq.ne']
    have hquot_lt : (d : ℚ) / m < 2 ^ 32 := by
      rw [div_lt_iff₀ hmq]
      exact_mod_cast lt_of_lt_of_le hd (Nat.le_mul_of_pos_right _ hm)
    have htotal : (n : ℚ) + d / m < 2 ^ 42 := by
      rw [← hdivq, div_lt_iff₀ hmq]
      exact_mod_cast (Nat.div_lt_iff_lt_mul hm).mp (hdiv.symm ▸ hsum)
    have hstep : 1 / 2000 ≤ 1 / (m : ℚ) :=
      one_div_le_one_div_of_le hmq (by exact_mod_cast hm')
    have hquot_error := abs_double_sub_le ((d : ℚ) / m)
    have hsum_error := abs_double_sub_le ((n : ℚ) + double ((d : ℚ) / m))
    rw [abs_of_nonneg hquot] at hquot_error
    rw [abs_of_nonneg (add_nonneg n.cast_nonneg (double_nonneg hquot))] at hsum_error
    obtain ⟨_, _⟩ := abs_le.mp hquot_error
    obtain ⟨_, _⟩ := abs_le.mp hsum_error
    rw [← hdiv]
    refine floor_of_near hm (fun h => hdvd ((Nat.dvd_add_right (Nat.dvd_mul_left m n)).mp h)) ?_
    rw [hdivq, abs_lt]
    norm_num at *
    constructor <;> linarith

end Binary64
