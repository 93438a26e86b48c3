import ALCC.Theory.Run
import ALCC.Verify.SproutNumerics

/-! The probabilities of the rates in Sprout stay probabilities: whatever is observed, no assertion
fails, no weight is negative, and their sum is positive and at most one (`run_sound`). -/

namespace ALCC.Sprout

open Binary64

namespace Process

/-- The parameters of a process. -/
structure Rates (maximum_rate : ℚ) (bins : Nat) : Prop where
  pos : 0 < maximum_rate
  le : maximum_rate ≤ BIG / 2
  bins : 0 < bins

/-- The bins of a process, and its cache. -/
structure Shape (N : Numerics) (maximum_rate : ℚ) (bins : Nat) (p : Process) : Prop where
  rates : Rates maximum_rate bins
  offset : p.pmf.offset = 0
  width : p.pmf.bin_width = maximum_rate / bins
  size : p.pmf.size = bins + 1
  cdf_offset : p.gaussian.cdf.offset = -maximum_rate
  cdf_width : p.gaussian.cdf.bin_width = maximum_rate / bins / 64
  cdf_size : p.gaussian.cdf.size = bins * 128 + 1
  cached : p.gaussian.stddev = -1 ∨ p.gaussian.Filled N
  brownian : 0 < p.brownian_motion_rate
  outage : 0 < p.outage_escape_rate

section

variable {N : Numerics} {maximum_rate : ℚ} {bins : Nat} {p : Process} {time : ℚ}

theorem Rates.width_pos (h : Rates maximum_rate bins) : 0 < maximum_rate / bins :=
  div_pos h.pos (Nat.cast_pos.mpr h.bins)

theorem Rates.mul_width (h : Rates maximum_rate bins) :
    bins * (maximum_rate / bins) = maximum_rate :=
  mul_div_cancel₀ _ (Nat.cast_ne_zero.mpr h.bins.ne')

theorem Shape.grid (h : p.Shape N maximum_rate bins) : p.pmf.Grid where
  width := h.width ▸ h.rates.width_pos
  size := h.size ▸ Nat.succ_pos bins
  low := by rw [h.offset]; decide
  high := by
    rw [h.offset, h.size, h.width, Nat.add_sub_cancel, h.rates.mul_width, zero_add]
    exact h.rates.le.trans (by decide +kernel)

theorem Shape.cdf_grid (h : p.Shape N maximum_rate bins) : p.gaussian.cdf.Grid where
  width := h.cdf_width ▸ div_pos h.rates.width_pos (by decide)
  size := h.cdf_size ▸ Nat.succ_pos _
  low := by
    rw [h.cdf_offset]
    exact neg_le_neg (h.rates.le.trans (by decide +kernel))
  high := by
    have hmul := h.rates.mul_width
    have hle := h.rates.le
    have hbig : BIG / 2 ≤ BIG := by decide +kernel
    rw [h.cdf_offset, h.cdf_size, h.cdf_width, Nat.add_sub_cancel]
    push_cast
    linarith

/-- The part of the rate `i` that moves to the rate `j`, but for the outages. -/
def moved (p : Process) (i j : Nat) : ℚ :=
  p.gaussian.cdf.get (p.pmf.from_bin_ceil j - p.pmf.from_bin_mid i) -
    p.gaussian.cdf.get (p.pmf.from_bin_floor j - p.pmf.from_bin_mid i)

theorem Shape.moved_nonneg (hN : N.Lawful) (h : p.Shape N maximum_rate bins)
    (hcache : p.gaussian.Filled N) (i : Nat) {j : Nat} (hj : j < p.pmf.size) : 0 ≤ p.moved i j :=
  sub_nonneg.mpr (hcache.get_mono hN (sub_le_sub_right (h.grid.floor_le_ceil hj) _))

/-- The bins of the cache at the middle and at half a bin of the process below it. -/
theorem Shape.cdf_to_bin (h : p.Shape N maximum_rate bins) :
    p.gaussian.cdf.to_bin 0 = 64 * bins ∧
      p.gaussian.cdf.to_bin (-(maximum_rate / bins / 2)) = 64 * bins - 32 := by
  have hw := h.rates.width_pos
  have hmul := h.rates.mul_width
  have hbins := h.rates.bins
  have hsize := h.cdf_size
  have hcast : ((64 * bins - 32 : Nat) : ℚ) = 64 * bins - 32 := by
    rw [Nat.cast_sub (by omega)]
    push_cast
    rfl
  constructor
  · apply h.cdf_grid.to_bin_of_mem (by omega) <;> rw [h.cdf_offset, h.cdf_width] <;> push_cast <;>
      linarith
  · apply h.cdf_grid.to_bin_of_mem (by omega) <;>
      rw [h.cdf_offset, h.cdf_width, hcast] <;> linarith

theorem Shape.floor_sub_mid_le (h : p.Shape N maximum_rate bins) (i : Nat) :
    p.pmf.from_bin_floor i - p.pmf.from_bin_mid i ≤ -(maximum_rate / bins / 2) := by
  have hw := h.rates.width_pos
  rw [SampledFunction.from_bin_floor, SampledFunction.from_bin_mid, h.offset, h.width]
  split
  · have hle : maximum_rate / bins ≤ maximum_rate :=
      div_le_self h.rates.pos.le (Nat.one_le_cast.mpr h.rates.bins)
    have hbig := h.rates.le
    linarith
  · linarith

theorem Shape.mid_le_ceil (h : p.Shape N maximum_rate bins) {i : Nat} (hi : i < p.pmf.size) :
    p.pmf.from_bin_mid i ≤ p.pmf.from_bin_ceil i := by
  have hw := h.rates.width_pos
  rw [h.size] at hi
  rw [SampledFunction.from_bin_ceil, SampledFunction.from_bin_mid, h.offset, h.width, h.size]
  split
  · rename_i h0
    split
    · decide +kernel
    · rw [h0, Nat.cast_zero]
      linarith
  · split
    · have hle : maximum_rate / bins ≤ maximum_rate :=
        div_le_self h.rates.pos.le (Nat.one_le_cast.mpr h.rates.bins)
      have hbig := h.rates.le
      have hmul := h.rates.mul_width
      rw [show i = bins by omega]
      linarith
    · linarith

/-- Something stays. -/
theorem Shape.moved_self_pos (hN : N.Lawful) (h : p.Shape N maximum_rate bins)
    (hcache : p.gaussian.Filled N) {i : Nat} (hi : i < p.pmf.size) : 0 < p.moved i i := by
  apply sub_pos.mpr
  apply hcache.get_lt hN
  obtain ⟨hzero, hhalf⟩ := h.cdf_to_bin
  have hbins := h.rates.bins
  calc p.gaussian.cdf.to_bin (p.pmf.from_bin_floor i - p.pmf.from_bin_mid i)
      ≤ p.gaussian.cdf.to_bin (-(maximum_rate / bins / 2)) :=
        h.cdf_grid.to_bin_mono (h.floor_sub_mid_le i)
    _ < p.gaussian.cdf.to_bin 0 := by omega
    _ ≤ p.gaussian.cdf.to_bin (p.pmf.from_bin_ceil i - p.pmf.from_bin_mid i) :=
        h.cdf_grid.to_bin_mono (sub_nonneg.mpr (h.mid_le_ceil hi))

theorem sum_telescope (up down : Nat → ℚ) (low n : Nat)
    (h : ∀ j, low ≤ j → j < low + n → down (j + 1) = up j) :
    ((List.range' low (n + 1)).map fun j => up j - down j).sum = up (low + n) - down low := by
  induction n generalizing low with
  | zero => simp
  | succ n ih =>
    have hrest := ih (low + 1) fun j hj hlt => h j (by omega) (by omega)
    rw [List.range'_succ, List.map_cons, List.sum_cons, hrest, h low le_rfl (by omega),
      show low + 1 + n = low + (n + 1) by omega]
    ring

/-- No more moves than there is. -/
theorem Shape.sum_moved_le (hN : N.Lawful) (h : p.Shape N maximum_rate bins)
    (hcache : p.gaussian.Filled N) (i : Nat) (min max : ℚ) :
    ((p.pmf.range min max).map (p.moved i)).sum ≤ 1 := by
  have hhigh := h.grid.to_bin_lt (p.pmf.sample_ceil max)
  rw [SampledFunction.range]
  cases hn : p.pmf.to_bin (p.pmf.sample_ceil max) + 1 - p.pmf.to_bin (p.pmf.sample_floor min) with
  | zero => exact zero_le_one
  | succ n =>
    have hsum := sum_telescope
      (fun j => p.gaussian.cdf.get (p.pmf.from_bin_ceil j - p.pmf.from_bin_mid i))
      (fun j => p.gaussian.cdf.get (p.pmf.from_bin_floor j - p.pmf.from_bin_mid i))
      (p.pmf.to_bin (p.pmf.sample_floor min)) n
      fun j _ hj => by rw [SampledFunction.floor_succ (by omega)]
    exact hsum.trans_le ((sub_le_self _ (hcache.get_nonneg hN _)).trans (hcache.get_le_one hN _))

/-- The rate of the bin `i` is possible. -/
def Positive (p : Process) (i : Nat) : Prop := ∃ v, p.pmf.function[i]? = some v ∧ 0 < v

/-- The weights are those of a distribution, of which something may have been lost. -/
structure Sound (N : Numerics) (maximum_rate : ℚ) (bins : Nat) (p : Process) : Prop
    extends Shape N maximum_rate bins p where
  nonneg : ∀ v ∈ p.pmf.function, 0 ≤ v
  pos : ∃ i, p.Positive i
  le_one : p.pmf.function.sum ≤ 1
  unit : p.normalized = true → p.pmf.function.sum = 1

theorem sum_mapIdx_le {ws : List ℚ} {g : Nat → ℚ → ℚ}
    (h : ∀ i v, ws[i]? = some v → g i v ≤ v) : (ws.mapIdx g).sum ≤ ws.sum := by
  induction ws generalizing g with
  | nil => exact le_rfl
  | cons w ws ih =>
    rw [List.mapIdx_cons, List.sum_cons, List.sum_cons]
    exact add_le_add (h 0 w rfl) (ih fun i v hv => h (i + 1) v hv)

theorem sum_mapIdx_div (ws : List ℚ) (c : ℚ) : (ws.mapIdx fun _ w => w / c).sum = ws.sum / c := by
  induction ws with
  | nil => exact (zero_div c).symm
  | cons w ws ih => rw [List.mapIdx_cons, List.sum_cons, List.sum_cons, ih, add_div]

theorem getElem?_for_each (f : SampledFunction) (g : ℚ → ℚ → Nat → ℚ) (i : Nat) :
    (f.for_each g).function[i]? = f.function[i]?.map fun v => g (f.from_bin_mid i) v i :=
  List.getElem?_mapIdx

theorem size_for_each (f : SampledFunction) (g : ℚ → ℚ → Nat → ℚ) :
    (f.for_each g).size = f.size := List.length_mapIdx

/-- `normalize` makes a distribution of any weights. -/
theorem Shape.normalize (h : p.Shape N maximum_rate bins) (hnonneg : ∀ v ∈ p.pmf.function, 0 ≤ v)
    (hpos : ∃ i, p.Positive i) (hnot : p.normalized = false) :
    p.normalize.Sound N maximum_rate bins ∧ p.normalize.normalized = true ∧
      ∀ i, p.Positive i → p.normalize.Positive i := by
  have hsum : 0 < p.pmf.function.sum := by
    obtain ⟨i, v, hv, hpos⟩ := hpos
    exact hpos.trans_le (List.single_le_sum hnonneg v (List.mem_of_getElem? hv))
  rw [Process.normalize, if_neg (Bool.eq_false_iff.mp hnot)]
  have hpositive : ∀ i, p.Positive i → Positive { p with
      probability_mass_function := p.pmf.for_each fun _ value _ => value / p.pmf.function.sum
      normalized := true } i := by
    rintro i ⟨v, hv, hpos⟩
    refine ⟨v / p.pmf.function.sum, ?_, div_pos hpos hsum⟩
    rw [pmf, getElem?_for_each, hv, Option.map_some]
  have hunit : (p.pmf.for_each fun _ value _ => value / p.pmf.function.sum).function.sum = 1 :=
    (sum_mapIdx_div _ _).trans (div_self hsum.ne')
  refine ⟨⟨{ h with size := (size_for_each _ _).trans h.size }, ?_, hpos.imp hpositive, hunit.le,
    fun _ => hunit⟩, rfl, hpositive⟩
  intro v hv
  obtain ⟨i, hi⟩ := List.getElem?_of_mem hv
  rw [pmf, getElem?_for_each] at hi
  obtain ⟨w, hw, rfl⟩ := Option.map_eq_some_iff.mp hi
  exact div_nonneg (hnonneg w (List.mem_of_getElem? hw)) hsum.le

theorem Sound.normalize (h : p.Sound N maximum_rate bins) :
    p.normalize.Sound N maximum_rate bins ∧ p.normalize.normalized = true ∧
      ∀ i, p.Positive i → p.normalize.Positive i := by
  cases hnormalized : p.normalized with
  | true =>
    rw [Process.normalize, if_pos hnormalized]
    exact ⟨h, hnormalized, fun i hi => hi⟩
  | false => exact h.toShape.normalize h.nonneg h.pos hnormalized

theorem function_new {num_samples : Nat} {maximum_value minimum_value : ℚ}
    (hlt : minimum_value < maximum_value) :
    (SampledFunction.new num_samples maximum_value minimum_value).function =
      .replicate (num_samples + 1) 1 := by
  have hdiv : (maximum_value - minimum_value) /
      ((maximum_value - minimum_value) / num_samples) = num_samples :=
    div_div_cancel₀ (sub_pos.mpr hlt).ne'
  have htrunc : trunc ((num_samples : Nat) : ℚ) = num_samples := by
    rw [trunc, if_pos (Nat.cast_nonneg _), Int.floor_natCast]
  rw [SampledFunction.new, hdiv, htrunc]
  exact congrArg (List.replicate · 1) (Int.toNat_natCast (num_samples + 1))

theorem sound_new {brownian_motion_rate outage_escape_rate : ℚ}
    (h : Rates maximum_rate bins) (hbrownian : 0 < brownian_motion_rate)
    (houtage : 0 < outage_escape_rate) :
    (new maximum_rate brownian_motion_rate outage_escape_rate bins).Sound N maximum_rate bins ∧
      ∀ i ≤ bins,
        (new maximum_rate brownian_motion_rate outage_escape_rate bins).Positive i := by
  have hpmf : (SampledFunction.new bins maximum_rate 0).function = .replicate (bins + 1) 1 :=
    function_new h.pos
  have hcdf : (SampledFunction.new (bins * 128) maximum_rate (-maximum_rate)).function =
      .replicate (bins * 128 + 1) 1 :=
    function_new (neg_lt_self h.pos)
  rw [Process.new]
  generalize hp : ({
    probability_mass_function := .new bins maximum_rate 0
    gaussian := .new maximum_rate (bins * 128)
    brownian_motion_rate
    outage_escape_rate
    normalized := false } : Process) = p
  have hones : p.pmf.function = .replicate (bins + 1) 1 := hp ▸ hpmf
  have hshape : p.Shape N maximum_rate bins := by
    subst hp
    refine ⟨h, rfl, ?_, ?_, rfl, ?_, ?_, .inl rfl, hbrownian, houtage⟩
    · exact congrArg (· / _) (sub_zero maximum_rate)
    · exact (congrArg List.length hpmf).trans List.length_replicate
    · have hcast : ((bins * 128 : Nat) : ℚ) = 64 * (bins * 2) := by
        push_cast
        ring
      change (maximum_rate - -maximum_rate) / ((bins * 128 : Nat) : ℚ) = _
      rw [hcast]
      field_simp
      ring
    · exact (congrArg List.length hcdf).trans List.length_replicate
  have hpositive : ∀ i ≤ bins, p.Positive i := by
    intro i hi
    refine ⟨1, ?_, one_pos⟩
    rw [hones, List.getElem?_replicate, if_pos (Nat.lt_succ_of_le hi)]
  have hnonneg : ∀ v ∈ p.pmf.function, 0 ≤ v := by
    intro v hv
    rw [hones] at hv
    exact (List.eq_of_mem_replicate hv).symm ▸ zero_le_one
  obtain ⟨hsound, -, hkeep⟩ :=
    hshape.normalize hnonneg ⟨0, hpositive 0 (Nat.zero_le _)⟩ (hp ▸ rfl)
  exact ⟨hsound, fun i hi => hkeep i (hpositive i hi)⟩

theorem Shape.mid_nonneg (h : p.Shape N maximum_rate bins) (i : Nat) :
    0 ≤ p.pmf.from_bin_mid i := by
  have hmid := h.grid.mid_strictMono.monotone (Nat.zero_le i)
  rwa [SampledFunction.from_bin_mid, if_pos rfl, h.offset] at hmid

theorem Shape.mid_pos (h : p.Shape N maximum_rate bins) {i : Nat} (hi : 0 < i) :
    0 < p.pmf.from_bin_mid i :=
  (h.mid_nonneg 0).trans_lt (h.grid.mid_strictMono hi)

/-- An observation does not rule out the rates above 0. -/
theorem Sound.observe (hN : N.Lawful) (h : p.Sound N maximum_rate bins) (htime : 0 < time)
    (counts : Nat) {k : Nat} (hk : 0 < k) (hpos : p.Positive k) :
    (p.observe N time counts).Sound N maximum_rate bins ∧
      (p.observe N time counts).Positive k := by
  have hpdf : ∀ i, 0 ≤ N.poissonpdf (p.pmf.from_bin_mid i * time) counts ∧
      N.poissonpdf (p.pmf.from_bin_mid i * time) counts ≤ 1 := fun i =>
    have hmid := mul_nonneg (h.mid_nonneg i) htime.le
    ⟨hN.poissonpdf_nonneg hmid, hN.poissonpdf_le_one hmid⟩
  have hpositive : (p.observe N time counts).Positive k := by
    obtain ⟨v, hv, hpos⟩ := hpos
    refine ⟨v * N.poissonpdf (p.pmf.from_bin_mid k * time) counts, ?_, ?_⟩
    · rw [pmf, Process.observe, getElem?_for_each, hv, Option.map_some]
    · exact mul_pos hpos (hN.poissonpdf_pos (mul_pos (h.mid_pos hk) htime))
  refine ⟨⟨{ h.toShape with size := (size_for_each _ _).trans h.size }, ?_,
    ⟨k, hpositive⟩, ?_, fun hnormalized => by cases hnormalized⟩, hpositive⟩
  · intro v hv
    obtain ⟨i, hi⟩ := List.getElem?_of_mem hv
    rw [pmf, Process.observe, getElem?_for_each] at hi
    obtain ⟨w, hw, rfl⟩ := Option.map_eq_some_iff.mp hi
    exact mul_nonneg (h.nonneg w (List.mem_of_getElem? hw)) (hpdf i).1
  · refine (sum_mapIdx_le fun i v hv => ?_).trans h.le_one
    exact mul_le_of_le_one_right (h.nonneg v (List.mem_of_getElem? hv)) (hpdf i).2

/-- The cache holds the distribution function after `calculate`. -/
theorem Shape.calculate (h : p.Shape N maximum_rate bins) {s_stddev : ℚ} (hs : 0 < s_stddev) :
    (p.gaussian.calculate N s_stddev).Filled N ∧
      (p.gaussian.calculate N s_stddev).cdf.offset = p.gaussian.cdf.offset ∧
      (p.gaussian.calculate N s_stddev).cdf.bin_width = p.gaussian.cdf.bin_width ∧
      (p.gaussian.calculate N s_stddev).cdf.size = p.gaussian.cdf.size := by
  rw [GaussianCache.calculate]
  split
  · rename_i heq
    refine ⟨h.cached.resolve_left fun hinit => ?_, rfl, rfl, rfl⟩
    rw [heq, hinit] at hs
    exact absurd hs (by decide)
  · have hsize : (p.gaussian.cdf.for_each fun x _ _ => N.cdf s_stddev x).size =
        p.gaussian.cdf.size := size_for_each _ _
    have hgrid := h.cdf_grid
    refine ⟨⟨⟨hgrid.width, hsize ▸ hgrid.size, hgrid.low, ?_⟩, hs, fun i hi => ?_⟩, rfl, rfl, hsize⟩
    · rw [hsize]
      exact hgrid.high
    · rw [hsize] at hi
      rw [List.getD_eq_getElem?_getD, getElem?_for_each, List.getElem?_eq_getElem hi,
        Option.map_some, Option.getD_some]
      rfl

theorem Shape.escape (hN : N.Lawful) (h : p.Shape N maximum_rate bins) (htime : 0 < time) :
    0 ≤ p.zero_escape_probability N time ∧ p.zero_escape_probability N time < 1 := by
  have hrate := mul_pos htime h.outage
  exact ⟨sub_nonneg.mpr (hN.poissonpdf_le_one hrate.le), sub_lt_self 1 (hN.poissonpdf_pos hrate)⟩

/-- The factor for the outages. -/
def zfactor (N : Numerics) (p : Process) (time : ℚ) (i j : Nat) : ℚ :=
  if i = 0 then
    if j ≠ 0 then p.zero_escape_probability N time else 1 - p.zero_escape_probability N time
  else 1

theorem Shape.zfactor (hN : N.Lawful) (h : p.Shape N maximum_rate bins) (htime : 0 < time)
    (i j : Nat) : 0 ≤ p.zfactor N time i j ∧ p.zfactor N time i j ≤ 1 ∧
      0 < p.zfactor N time i i := by
  obtain ⟨hnonneg, hlt⟩ := h.escape hN htime
  have hle : p.zfactor N time i j ≤ 1 := by
    rw [Process.zfactor]
    split
    · split <;> linarith
    · exact le_rfl
  have hpos : 0 < p.zfactor N time i i := by
    rw [Process.zfactor]
    split
    · rename_i h0
      rw [if_neg (not_not.mpr h0)]
      exact sub_pos.mpr hlt
    · exact zero_lt_one
  refine ⟨?_, hle, hpos⟩
  rw [Process.zfactor]
  split
  · split <;> linarith
  · exact zero_le_one

theorem Shape.contribution_eq (h : p.Shape N maximum_rate bins) (old_prob : ℚ) (i : Nat) {j : Nat}
    (hj : j < p.pmf.size) :
    p.contribution N time old_prob i j = p.zfactor N time i j * old_prob * p.moved i j := by
  rw [contribution, moved, ← h.grid.sample_ceil_mid hj, ← h.grid.sample_floor_mid hj]
  rfl

/-- A contribution is not negative, and at most what moves. -/
theorem Shape.contribution_le (hN : N.Lawful) (h : p.Shape N maximum_rate bins)
    (hcache : p.gaussian.Filled N) (htime : 0 < time) {old_prob : ℚ} (hold : 0 ≤ old_prob)
    (i : Nat) {j : Nat} (hj : j < p.pmf.size) :
    0 ≤ p.contribution N time old_prob i j ∧
      p.contribution N time old_prob i j ≤ old_prob * p.moved i j := by
  obtain ⟨hnonneg, hle, -⟩ := h.zfactor hN htime i j
  have hmoved := h.moved_nonneg hN hcache i hj
  rw [h.contribution_eq old_prob i hj]
  refine ⟨mul_nonneg (mul_nonneg hnonneg hold) hmoved, ?_⟩
  exact mul_le_mul_of_nonneg_right (mul_le_of_le_one_left hold hle) hmoved

theorem mem_contributions {stddev : ℚ} {c : Nat × ℚ} (hc : c ∈ p.contributions N time stddev) :
    ∃ old_prob i, p.pmf.function[i]? = some old_prob ∧
      c.1 ∈ p.pmf.range (p.pmf.from_bin_mid i - 5 * stddev) (p.pmf.from_bin_mid i + 5 * stddev) ∧
      c.2 = p.contribution N time old_prob i c.1 := by
  obtain ⟨⟨old_prob, i⟩, hw, hc⟩ := List.mem_flatMap.mp hc
  obtain ⟨j, hj, rfl⟩ := List.mem_map.mp hc
  exact ⟨old_prob, i, List.mem_zipIdx_iff_getElem?.mp hw, hj, rfl⟩

/-- All that is added to the new pmf comes from the old one. -/
theorem Shape.sum_contributions_le (hN : N.Lawful) (h : p.Shape N maximum_rate bins)
    (hcache : p.gaussian.Filled N) (htime : 0 < time) (hnonneg : ∀ v ∈ p.pmf.function, 0 ≤ v)
    (stddev : ℚ) : ((p.contributions N time stddev).map Prod.snd).sum ≤ p.pmf.function.sum := by
  rw [contributions, List.map_flatMap, List.flatMap_def, List.sum_flatten, List.map_map]
  conv_rhs => rw [← List.zipIdx_map_fst 0 p.pmf.function]
  apply List.sum_le_sum
  rintro ⟨old_prob, i⟩ hw
  have hold := hnonneg old_prob (List.fst_mem_of_mem_zipIdx hw)
  rw [Function.comp_apply, List.map_map]
  calc _ ≤ ((p.pmf.range (p.pmf.from_bin_mid i - 5 * stddev)
          (p.pmf.from_bin_mid i + 5 * stddev)).map fun j => old_prob * p.moved i j).sum := by
        apply List.sum_le_sum
        intro j hj
        exact (h.contribution_le hN hcache htime hold i (h.grid.mem_range hj)).2
    _ = old_prob * ((p.pmf.range (p.pmf.from_bin_mid i - 5 * stddev)
          (p.pmf.from_bin_mid i + 5 * stddev)).map (p.moved i)).sum := List.sum_map_mul_left ..
    _ ≤ old_prob := mul_le_of_le_one_right hold (h.sum_moved_le hN hcache i _ _)

theorem Shape.contribution_pos (hN : N.Lawful) (h : p.Shape N maximum_rate bins)
    (hcache : p.gaussian.Filled N) (htime : 0 < time) {stddev old_prob : ℚ} {i : Nat}
    (hstddev : 0 < stddev) (hi : p.pmf.function[i]? = some old_prob) (hold : 0 < old_prob) :
    (i, p.contribution N time old_prob i i) ∈ p.contributions N time stddev ∧
      0 < p.contribution N time old_prob i i := by
  have hlt : i < p.pmf.size := (List.getElem?_eq_some_iff.mp hi).1
  constructor
  · refine List.mem_flatMap.mpr ⟨(old_prob, i), List.mem_zipIdx_iff_getElem?.mpr hi, ?_⟩
    refine List.mem_map.mpr ⟨i, ?_, rfl⟩
    have hmem := h.grid.to_bin_mem_range (x := p.pmf.from_bin_mid i)
      (show p.pmf.from_bin_mid i - 5 * stddev ≤ p.pmf.from_bin_mid i by linarith)
      (show p.pmf.from_bin_mid i ≤ p.pmf.from_bin_mid i + 5 * stddev by linarith)
    rwa [h.grid.to_bin_mid hlt] at hmem
  · rw [h.contribution_eq old_prob i hlt]
    exact mul_pos (mul_pos (h.zfactor hN htime i i).2.2 hold) (h.moved_self_pos hN hcache hlt)

/-- **Brownian motion.** No assertion fails, nothing is added to the distribution, and what was
possible is still possible. -/
theorem Sound.evolve (hN : N.Lawful) (h : p.Sound N maximum_rate bins) (htime : 0 < time) :
    ∃ p', p.evolve N time = some p' ∧ p'.Sound N maximum_rate bins ∧
      ∀ i, p.Positive i → p'.Positive i := by
  have hstddev : 0 < p.brownian_motion_rate * N.sqrt time :=
    mul_pos h.brownian (hN.sqrt_pos htime)
  obtain ⟨hcalculate, hoffset, hwidth, hsize⟩ := h.calculate hstddev
  rw [Process.evolve]
  generalize p.brownian_motion_rate * N.sqrt time = stddev at *
  generalize hq : ({ p with
    gaussian := p.gaussian.calculate N stddev, normalized := false } : Process) = q
  have hfilled : q.gaussian.Filled N := hq ▸ hcalculate
  have hpmf : q.pmf = p.pmf := hq ▸ rfl
  have hshape : q.Shape N maximum_rate bins := by
    subst hq
    exact { h.toShape with
      cdf_offset := hoffset.trans h.cdf_offset
      cdf_width := hwidth.trans h.cdf_width
      cdf_size := hsize.trans h.cdf_size
      cached := .inr hcalculate }
  have hnonneg : ∀ v ∈ q.pmf.function, 0 ≤ v := hpmf ▸ h.nonneg
  obtain ⟨hescape, hescape'⟩ := hshape.escape hN htime
  -- a contribution comes from one old rate, and goes to one new rate
  have hcontributions : ∀ c ∈ q.contributions N time stddev,
      c.1 < q.pmf.size ∧ 0 ≤ c.2 ∧ c.2 ≤ 1 := by
    intro c hc
    obtain ⟨old_prob, i, hi, hj, hc⟩ := mem_contributions hc
    have hlt := hshape.grid.mem_range hj
    have hold := hnonneg old_prob (List.mem_of_getElem? hi)
    have hle : old_prob ≤ 1 := (List.single_le_sum hnonneg old_prob (List.mem_of_getElem? hi)).trans
      (hpmf ▸ h.le_one)
    obtain ⟨hc₀, hc₁⟩ := hshape.contribution_le hN hfilled htime hold i hlt
    have hmoved := hshape.moved_nonneg hN hfilled i hlt
    have hmoved' : q.moved i c.1 ≤ 1 :=
      (sub_le_self _ (hfilled.get_nonneg hN _)).trans (hfilled.get_le_one hN _)
    rw [hc]
    exact ⟨hlt, hc₀, hc₁.trans (mul_le_one₀ hle hmoved hmoved')⟩
  rw [if_pos ⟨hescape, hescape'.le, fun c hc => (hcontributions c hc).2⟩]
  generalize hzeros : q.pmf.for_each (fun _ _ _ => 0) = zeros
  have hlength : zeros.function.length = q.pmf.size := hzeros ▸ size_for_each _ _
  have hzero : ∀ v ∈ zeros.function, v = 0 := by
    intro v hv
    obtain ⟨i, hi⟩ := List.getElem?_of_mem hv
    rw [← hzeros, getElem?_for_each] at hi
    obtain ⟨w, -, hw⟩ := Option.map_eq_some_iff.mp hi
    exact hw.symm
  have hplaces : ∀ c ∈ q.contributions N time stddev, c.1 < zeros.function.length :=
    fun c hc => (hcontributions c hc).1.trans_eq hlength.symm
  have hadded : ∀ c ∈ q.contributions N time stddev, 0 ≤ c.2 :=
    fun c hc => (hcontributions c hc).2.1
  have hkeep : ∀ i, p.Positive i → ∃ v,
      (Weights.addAll (q.contributions N time stddev) zeros.function)[i]? = some v ∧ 0 < v := by
    rintro i ⟨old_prob, hi, hold⟩
    rw [← hpmf] at hi
    obtain ⟨hmem, hpos⟩ := hshape.contribution_pos hN hfilled htime hstddev hi hold
    obtain ⟨v, hv, hle⟩ := Weights.le_addAll_of_mem (fun w hw => (hzero w hw).ge) hadded hmem
      (hplaces _ hmem)
    exact ⟨v, hv, hpos.trans_le hle⟩
  refine ⟨_, rfl, ⟨{ hshape with offset := ?_, width := ?_, size := ?_ }, ?_, ?_, ?_, ?_⟩, hkeep⟩
  · exact hzeros ▸ hshape.offset
  · exact hzeros ▸ hshape.width
  · exact (Weights.length_addAll.trans hlength).trans hshape.size
  · exact Weights.addAll_nonneg (fun w hw => (hzero w hw).ge) hadded
  · exact h.pos.imp hkeep
  · refine (Weights.sum_addAll hplaces).trans_le ?_
    rw [List.sum_eq_zero hzero, zero_add]
    exact (hshape.sum_contributions_le hN hfilled htime hnonneg stddev).trans (hpmf ▸ h.le_one)
  · intro hnormalized
    rw [← hq] at hnormalized
    cases hnormalized

end

/-- What a receiver does with its process. -/
inductive Update where
  | evolve (time : ℚ)
  | observe (time : ℚ) (counts : Nat)
  | normalize

def update (N : Numerics) (p : Process) : Update → Option Process
  | .evolve time => p.evolve N time
  | .observe time counts => some (p.observe N time counts)
  | .normalize => some p.normalize

/-- An update is about some time. -/
def Update.Timed : Update → Prop
  | .evolve time | .observe time _ => 0 < time
  | .normalize => True

section

variable {N : Numerics} {maximum_rate brownian_motion_rate outage_escape_rate : ℚ} {bins : Nat}
  {p : Process}

theorem Sound.update (hN : N.Lawful) (h : p.Sound N maximum_rate bins)
    (hpos : ∀ i, 0 < i → i ≤ bins → p.Positive i) {u : Update} (hu : u.Timed) :
    ∃ p', p.update N u = some p' ∧ p'.Sound N maximum_rate bins ∧
      ∀ i, 0 < i → i ≤ bins → p'.Positive i := by
  cases u with
  | evolve time =>
    obtain ⟨p', hp', hsound, hkeep⟩ := h.evolve hN hu
    exact ⟨p', hp', hsound, fun i hi hle => hkeep i (hpos i hi hle)⟩
  | observe time counts =>
    have hone := h.observe hN hu counts one_pos (hpos 1 one_pos h.rates.bins)
    exact ⟨_, rfl, hone.1, fun i hi hle => (h.observe hN hu counts hi (hpos i hi hle)).2⟩
  | normalize =>
    obtain ⟨hsound, -, hkeep⟩ := h.normalize
    exact ⟨_, rfl, hsound, fun i hi hle => hkeep i (hpos i hi hle)⟩

theorem Sound.run (hN : N.Lawful) {updates : List Update} (htimed : ∀ u ∈ updates, u.Timed)
    (h : p.Sound N maximum_rate bins) (hpos : ∀ i, 0 < i → i ≤ bins → p.Positive i) :
    ∃ p', Machine.run (Process.update N) p updates = some p' ∧ p'.Sound N maximum_rate bins ∧
      ∀ i, 0 < i → i ≤ bins → p'.Positive i := by
  induction updates generalizing p with
  | nil => exact ⟨p, rfl, h, hpos⟩
  | cons u updates ih =>
    obtain ⟨hu, htimed⟩ := List.forall_mem_cons.mp htimed
    obtain ⟨p', hp', hsound, hpos'⟩ := h.update hN hpos hu
    rw [Machine.run_cons_of_step hp']
    exact ih htimed hsound hpos'

end

end Process

end ALCC.Sprout
