import ALCC.Model.SproutProcess
import Mathlib.Algebra.Order.Floor.Ring

/-! The bins of a `SampledFunction`. The middle of a bin and its lower end are in the bin, and the
bins are next to each other, so the values of a distribution function at the middles of bins grow
with the bin. -/

namespace ALCC.Sprout

open Binary64

namespace SampledFunction

/-- The bins are of positive width, and between the ends that stand for infinity. -/
structure Grid (f : SampledFunction) : Prop where
  width : 0 < f.bin_width
  size : 0 < f.size
  low : -BIG ≤ f.offset
  high : f.offset + (f.size - 1 : Nat) * f.bin_width ≤ BIG

variable {f : SampledFunction}

theorem to_bin_eq (f : SampledFunction) (x : ℚ) :
    f.to_bin x = min ⌊(x - f.offset) / f.bin_width⌋.toNat (f.size - 1) := by
  rw [to_bin]
  generalize (x - f.offset) / f.bin_width = q
  rcases le_or_gt 0 q with hq | hq
  · have hpos := Int.floor_nonneg.mpr hq
    rw [trunc, if_pos hq, if_neg (not_lt.mpr hpos)]
    split
    · exact (min_eq_right (by omega)).symm
    · exact (min_eq_left (by omega)).symm
  · have hneg : ⌊q⌋ < 0 := Int.floor_lt.mpr (by exact_mod_cast hq)
    have hceil : ⌈q⌉ ≤ 0 := Int.ceil_le.mpr (by exact_mod_cast hq.le)
    rw [trunc, if_neg (not_le.mpr hq), Int.toNat_of_nonpos hneg.le, Nat.zero_min]
    split
    · rfl
    · split <;> omega

theorem Grid.to_bin_mono (h : f.Grid) {x y : ℚ} (hxy : x ≤ y) : f.to_bin x ≤ f.to_bin y := by
  rw [to_bin_eq, to_bin_eq]
  apply min_le_min_right
  apply Int.toNat_le_toNat
  apply Int.floor_le_floor
  exact div_le_div_of_nonneg_right (sub_le_sub_right hxy _) h.width.le

theorem Grid.to_bin_lt (h : f.Grid) (x : ℚ) : f.to_bin x < f.size := by
  rw [to_bin_eq]
  exact (min_le_right _ _).trans_lt (Nat.sub_lt h.size Nat.one_pos)

theorem Grid.to_bin_of_mem (h : f.Grid) {x : ℚ} {i : Nat} (hi : i < f.size)
    (hlow : i * f.bin_width ≤ x - f.offset) (hhigh : x - f.offset < (i + 1) * f.bin_width) :
    f.to_bin x = i := by
  have hfloor : ⌊(x - f.offset) / f.bin_width⌋ = (i : Int) := by
    rw [Int.floor_eq_iff]
    constructor
    · rw [le_div_iff₀ h.width]
      exact_mod_cast hlow
    · rw [div_lt_iff₀ h.width]
      exact_mod_cast hhigh
  rw [to_bin_eq, hfloor, Int.toNat_natCast]
  exact min_eq_left (Nat.le_sub_one_of_lt hi)

/-- A sample is in its own bin. -/
theorem Grid.to_bin_mid (h : f.Grid) {i : Nat} (hi : i < f.size) :
    f.to_bin (f.from_bin_mid i) = i := by
  have hw := h.width
  apply h.to_bin_of_mem hi
  · rw [from_bin_mid]
    split
    · rename_i h0
      rw [h0, Nat.cast_zero, zero_mul, sub_self]
    · linarith
  · rw [from_bin_mid]
    split
    · rename_i h0
      rw [h0, Nat.cast_zero, sub_self]
      linarith
    · linarith

theorem Grid.to_bin_floor (h : f.Grid) {i : Nat} (hi : i < f.size) :
    f.to_bin (f.from_bin_floor i) = i := by
  rw [from_bin_floor]
  split
  · rename_i h0
    have hneg : (-BIG - f.offset) / f.bin_width ≤ 0 :=
      div_nonpos_of_nonpos_of_nonneg (sub_nonpos.mpr h.low) h.width.le
    have hfloor : ⌊(-BIG - f.offset) / f.bin_width⌋.toNat = 0 :=
      Int.toNat_eq_zero.mpr (by exact_mod_cast (Int.floor_le_floor hneg).trans_eq Int.floor_zero)
    rw [to_bin_eq, hfloor, h0]
    exact Nat.zero_min _
  · apply h.to_bin_of_mem hi
    · linarith
    · linarith [h.width]

theorem Grid.to_bin_ceil (h : f.Grid) {i : Nat} (hi : i < f.size) :
    f.to_bin (f.from_bin_ceil i) = min (i + 1) (f.size - 1) := by
  rw [from_bin_ceil]
  split
  · rename_i hlast
    rw [min_eq_right (hlast.trans (Nat.le_succ i)), to_bin_eq]
    apply min_eq_right
    have hhigh : ((f.size - 1 : Nat) : ℚ) * f.bin_width ≤ BIG - f.offset := by linarith [h.high]
    have hpos : 0 ≤ BIG - f.offset :=
      (mul_nonneg (Nat.cast_nonneg (f.size - 1)) h.width.le).trans hhigh
    rw [Int.le_toNat (Int.floor_nonneg.mpr (div_nonneg hpos h.width.le)), Int.le_floor,
      le_div_iff₀ h.width]
    exact_mod_cast hhigh
  · rename_i hlt
    rw [min_eq_left (by omega)]
    apply h.to_bin_of_mem (by omega)
    · push_cast
      linarith
    · push_cast
      linarith [h.width]

theorem Grid.mid_strictMono (h : f.Grid) : StrictMono f.from_bin_mid := by
  apply strictMono_nat_of_lt_succ
  intro i
  have hw := h.width
  rw [from_bin_mid, from_bin_mid, if_neg (Nat.succ_ne_zero i)]
  split
  · push_cast
    nlinarith [Nat.cast_nonneg (α := ℚ) i]
  · push_cast
    linarith

theorem Grid.sample_floor_mid (h : f.Grid) {i : Nat} (hi : i < f.size) :
    f.sample_floor (f.from_bin_mid i) = f.from_bin_floor i := by
  rw [sample_floor, h.to_bin_mid hi]

theorem Grid.sample_ceil_mid (h : f.Grid) {i : Nat} (hi : i < f.size) :
    f.sample_ceil (f.from_bin_mid i) = f.from_bin_ceil i := by
  rw [sample_ceil, h.to_bin_mid hi]

/-- The bins are next to each other. -/
theorem floor_succ {i : Nat} (hi : i + 1 < f.size) :
    f.from_bin_floor (i + 1) = f.from_bin_ceil i := by
  rw [from_bin_floor, from_bin_ceil, if_neg (Nat.succ_ne_zero i), if_neg (by omega)]
  push_cast
  rfl

theorem Grid.floor_le_ceil (h : f.Grid) {i : Nat} (hi : i < f.size) :
    f.from_bin_floor i ≤ f.from_bin_ceil i := by
  have hw := h.width
  have hlow := h.low
  have hhigh := h.high
  rw [from_bin_floor, from_bin_ceil]
  split
  · split
    · exact neg_le_self (by decide)
    · rename_i h0 _
      rw [h0, Nat.cast_zero, zero_add, one_mul]
      linarith
  · split
    · rename_i hlast
      rw [show i = f.size - 1 by omega]
      linarith
    · linarith

/-- The indices of a range are next to each other, and go to the bin of the upper end at least. -/
theorem Grid.mem_range (h : f.Grid) {min max : ℚ} {i : Nat} :
    i ∈ f.range min max → i < f.size := by
  rw [range, List.mem_range'_1]
  intro hi
  have := h.to_bin_lt (f.sample_ceil max)
  omega

theorem Grid.to_bin_mem_range (h : f.Grid) {min x max : ℚ} (hmin : min ≤ x) (hmax : x ≤ max) :
    f.to_bin x ∈ f.range min max := by
  have hlow : f.to_bin (f.sample_floor min) ≤ f.to_bin x := by
    rw [sample_floor, h.to_bin_floor (h.to_bin_lt min)]
    exact h.to_bin_mono hmin
  have hhigh : f.to_bin x ≤ f.to_bin (f.sample_ceil max) := by
    rw [sample_ceil, h.to_bin_ceil (h.to_bin_lt max)]
    apply le_min
    · exact (h.to_bin_mono hmax).trans (Nat.le_succ _)
    · exact Nat.le_sub_one_of_lt (h.to_bin_lt x)
  rw [range, List.mem_range'_1]
  omega

end SampledFunction

/-- What the distributions of `boost` are known for. -/
structure Numerics.Lawful (N : Numerics) : Prop where
  pdf_pos : ∀ {rate : ℚ} (counts : Nat), 0 < rate → 0 < N.pdf rate counts
  sum_pdf : ∀ {rate : ℚ} (n : Nat), 0 < rate → ((List.range n).map (N.pdf rate)).sum ≤ 1
  cdf_strictMono : ∀ {stddev : ℚ}, 0 < stddev → StrictMono (N.cdf stddev)
  cdf_nonneg : ∀ {stddev : ℚ} (x : ℚ), 0 < stddev → 0 ≤ N.cdf stddev x
  cdf_le_one : ∀ {stddev : ℚ} (x : ℚ), 0 < stddev → N.cdf stddev x ≤ 1
  sqrt_pos : ∀ {x : ℚ}, 0 < x → 0 < N.sqrt x

section

variable {N : Numerics} {rate : ℚ} {counts : Nat}

theorem Numerics.Lawful.pdf_le_one (hN : N.Lawful) (h : 0 < rate) : N.pdf rate counts ≤ 1 := by
  have hsum := hN.sum_pdf (counts + 1) h
  rw [List.range_succ, List.map_append, List.sum_append, List.map_singleton,
    List.sum_singleton] at hsum
  have hrest : 0 ≤ ((List.range counts).map (N.pdf rate)).sum := by
    apply List.sum_nonneg
    intro p hp
    obtain ⟨n, -, rfl⟩ := List.mem_map.mp hp
    exact (hN.pdf_pos n h).le
  linarith

theorem Numerics.Lawful.poissonpdf_nonneg (hN : N.Lawful) (h : 0 ≤ rate) :
    0 ≤ N.poissonpdf rate counts := by
  rw [poissonpdf]
  split
  · split <;> decide
  · rename_i hne
    exact (hN.pdf_pos counts (lt_of_le_of_ne h (Ne.symm hne))).le

theorem Numerics.Lawful.poissonpdf_pos (hN : N.Lawful) (h : 0 < rate) :
    0 < N.poissonpdf rate counts := by
  rw [poissonpdf, if_neg h.ne']
  exact hN.pdf_pos counts h

theorem Numerics.Lawful.poissonpdf_le_one (hN : N.Lawful) (h : 0 ≤ rate) :
    N.poissonpdf rate counts ≤ 1 := by
  rw [poissonpdf]
  split
  · split <;> decide
  · rename_i hne
    exact hN.pdf_le_one (lt_of_le_of_ne h (Ne.symm hne))

end

namespace GaussianCache

/-- The values of the distribution function at the middles of the bins. -/
structure Filled (N : Numerics) (g : GaussianCache) : Prop where
  grid : g.cdf.Grid
  stddev : 0 < g.stddev
  value : ∀ i < g.cdf.size,
    g.cdf.function.getD i 0 = N.cdf g.stddev (g.cdf.from_bin_mid i)

variable {N : Numerics} {g : GaussianCache}

theorem Filled.get_eq (h : g.Filled N) (x : ℚ) :
    g.cdf.get x = N.cdf g.stddev (g.cdf.from_bin_mid (g.cdf.to_bin x)) :=
  h.value _ (h.grid.to_bin_lt x)

theorem Filled.get_lt (hN : N.Lawful) (h : g.Filled N) {x y : ℚ}
    (hxy : g.cdf.to_bin x < g.cdf.to_bin y) : g.cdf.get x < g.cdf.get y := by
  rw [h.get_eq, h.get_eq]
  exact hN.cdf_strictMono h.stddev (h.grid.mid_strictMono hxy)

theorem Filled.get_mono (hN : N.Lawful) (h : g.Filled N) {x y : ℚ} (hxy : x ≤ y) :
    g.cdf.get x ≤ g.cdf.get y := by
  rw [h.get_eq, h.get_eq]
  apply (hN.cdf_strictMono h.stddev).monotone
  exact h.grid.mid_strictMono.monotone (h.grid.to_bin_mono hxy)

theorem Filled.get_nonneg (hN : N.Lawful) (h : g.Filled N) (x : ℚ) : 0 ≤ g.cdf.get x :=
  (hN.cdf_nonneg _ h.stddev).trans_eq (h.get_eq x).symm

theorem Filled.get_le_one (hN : N.Lawful) (h : g.Filled N) (x : ℚ) : g.cdf.get x ≤ 1 :=
  (h.get_eq x).trans_le (hN.cdf_le_one _ h.stddev)

end GaussianCache

end ALCC.Sprout
