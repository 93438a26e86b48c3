import ALCC.Verify.SampledFunction
import Mathlib.Data.Nat.Factorial.Basic
import Mathlib.Data.Nat.Sqrt
import Mathlib.Tactic.GCongr
import Mathlib.Tactic.Positivity

/-! What Sprout takes from libraries, by rational approximations: the Poisson distribution without
its tail, a rational function that is close to the distribution function of the normal distribution,
and a square root of six decimal places. They are lawful. -/

namespace ALCC.Sprout.Numerics

/-- A term of the exponential series. -/
def term (rate : ℚ) (n : Nat) : ℚ := rate ^ n / n.factorial

/-- From 40 on there is only a remainder. -/
def poisson (rate : ℚ) (counts : Nat) : ℚ :=
  if counts < 40 then (1 - 1 / 2 ^ 53) * (term rate counts / ((List.range 40).map (term rate)).sum)
  else 1 / 2 ^ 53 * (1 / 2) ^ (counts - 40 + 1)

/-- The part of the normal distribution above `z`. -/
def tail (z : ℚ) : ℚ :=
  1 / (2 * (1 + 0.196854 * z + 0.115194 * z ^ 2 + 0.000344 * z ^ 3 + 0.019527 * z ^ 4) ^ 4)

def normal (stddev x : ℚ) : ℚ :=
  if 0 ≤ x then 1 - tail (x / stddev) else tail (-x / stddev)

def approximate : Numerics where
  pdf := poisson
  cdf := normal
  sqrt x := ((⌊x * 10 ^ 12⌋₊.sqrt + 1 : Nat) : ℚ) / 10 ^ 6

variable {rate stddev : ℚ}

theorem term_pos (h : 0 < rate) (n : Nat) : 0 < term rate n :=
  div_pos (pow_pos h n) (Nat.cast_pos.mpr n.factorial_pos)

theorem sum_term_pos (h : 0 < rate) : 0 < ((List.range 40).map (term rate)).sum := by
  refine (term_pos h 0).trans_le (List.single_le_sum (fun t ht => ?_) _ ?_)
  · obtain ⟨n, -, rfl⟩ := List.mem_map.mp ht
    exact (term_pos h n).le
  · exact List.mem_map_of_mem (List.mem_range.mpr (by decide))

theorem poisson_pos (h : 0 < rate) (counts : Nat) : 0 < poisson rate counts := by
  rw [poisson]
  split
  · exact mul_pos (by norm_num) (div_pos (term_pos h counts) (sum_term_pos h))
  · positivity

theorem sum_poisson_of_ge (h : 0 < rate) (n : Nat) :
    ((List.range (40 + n)).map (poisson rate)).sum = 1 - 1 / 2 ^ 53 * (1 / 2) ^ n := by
  induction n with
  | zero =>
    have hbelow : (List.range 40).map (poisson rate) = (List.range 40).map fun counts =>
        (1 - 1 / 2 ^ 53) * (term rate counts / ((List.range 40).map (term rate)).sum) :=
      List.map_congr_left fun counts hlt => if_pos (List.mem_range.mp hlt)
    have hsum := (sum_term_pos h).ne'
    rw [Nat.add_zero, hbelow, List.sum_map_mul_left, pow_zero, mul_one]
    simp only [div_eq_mul_inv _ (List.sum _)]
    rw [List.sum_map_mul_right, mul_inv_cancel₀ hsum, mul_one]
  | succ n ih =>
    rw [← Nat.add_assoc, List.range_succ, List.map_append, List.sum_append, ih, List.map_singleton,
      List.sum_singleton, poisson, if_neg (by omega), Nat.add_sub_cancel_left, pow_succ]
    ring

theorem sum_poisson_le (h : 0 < rate) (n : Nat) : ((List.range n).map (poisson rate)).sum ≤ 1 := by
  have hall := sum_poisson_of_ge h n
  rw [Nat.add_comm, List.range_add, List.map_append, List.sum_append] at hall
  have hrest : 0 ≤ (((List.range 40).map (n + ·)).map (poisson rate)).sum := by
    apply List.sum_nonneg
    intro p hp
    obtain ⟨counts, -, rfl⟩ := List.mem_map.mp hp
    exact (poisson_pos h counts).le
  have hremainder : (0 : ℚ) ≤ 1 / 2 ^ 53 * (1 / 2) ^ n := by positivity
  linarith

theorem tail_pos {z : ℚ} (h : 0 ≤ z) : 0 < tail z := by
  rw [tail]
  positivity

theorem tail_lt {y z : ℚ} (hy : 0 ≤ y) (hyz : y < z) : tail z < tail y := by
  rw [tail, tail]
  gcongr

theorem tail_le_half {z : ℚ} (h : 0 ≤ z) : tail z ≤ 1 / 2 := by
  rcases h.eq_or_lt with rfl | hlt
  · norm_num [tail]
  · have hzero : tail 0 = 1 / 2 := by norm_num [tail]
    exact hzero ▸ (tail_lt le_rfl hlt).le

theorem normal_strictMono (h : 0 < stddev) : StrictMono (normal stddev) := by
  intro x y hxy
  rw [normal, normal]
  split
  · rename_i hx
    rw [if_pos (hx.trans hxy.le)]
    exact sub_lt_sub_left (tail_lt (div_nonneg hx h.le) (div_lt_div_of_pos_right hxy h)) 1
  · rename_i hx
    have hx : 0 < -x := neg_pos.mpr (not_le.mp hx)
    split
    · rename_i hy
      have hlow : tail (-x / stddev) < tail 0 := tail_lt le_rfl (div_pos hx h)
      have hzero := tail_le_half (le_refl 0)
      have hhigh := tail_le_half (div_nonneg hy h.le)
      linarith
    · rename_i hy
      have hy : 0 < -y := neg_pos.mpr (not_le.mp hy)
      exact tail_lt (div_nonneg hy.le h.le) (div_lt_div_of_pos_right (neg_lt_neg hxy) h)

theorem normal_mem (h : 0 < stddev) (x : ℚ) : 0 ≤ normal stddev x ∧ normal stddev x ≤ 1 := by
  have hbounds : ∀ {z : ℚ}, 0 ≤ z → 0 < tail z ∧ tail z ≤ 1 / 2 := fun hz =>
    ⟨tail_pos hz, tail_le_half hz⟩
  rw [normal]
  split
  · rename_i hx
    obtain ⟨hpos, hhalf⟩ := hbounds (div_nonneg hx h.le)
    exact ⟨by linarith, by linarith⟩
  · rename_i hx
    obtain ⟨hpos, hhalf⟩ := hbounds (div_nonneg (neg_pos.mpr (not_le.mp hx)).le h.le)
    exact ⟨hpos.le, by linarith⟩

theorem approximate_lawful : approximate.Lawful where
  pdf_pos counts h := poisson_pos h counts
  sum_pdf n h := sum_poisson_le h n
  cdf_strictMono h := normal_strictMono h
  cdf_nonneg x h := (normal_mem h x).1
  cdf_le_one x h := (normal_mem h x).2
  sqrt_pos _ := div_pos (Nat.cast_pos.mpr (Nat.succ_pos _)) (by norm_num)

end ALCC.Sprout.Numerics
