import ALCC.Model.SproutForecast
import ALCC.Verify.SproutProcess

/-! The forecasts of Sprout. A tick adds what arrives to the counts of before, so the forecast for a
later tick is not less (`lower_quantile_mono`), and no assertion fails on the way. -/

namespace ALCC.Sprout

open Binary64

theorem mapM_eq_map {α β : Type*} {f : α → Option β} {g : α → β} {l : List α}
    (h : ∀ a ∈ l, f a = some (g a)) : l.mapM f = some (l.map g) := by
  induction l with
  | nil => rfl
  | cons a l ih =>
    obtain ⟨ha, hl⟩ := List.forall_mem_cons.mp h
    rw [List.mapM_cons, ha, ih hl, List.map_cons]
    rfl

/-- What each result is like, when there always is one. -/
theorem exists_mapM {α β : Type*} {f : α → Option β} {P : β → Prop} {l : List α}
    (h : ∀ a ∈ l, ∃ b, f a = some b ∧ P b) :
    ∃ bs, l.mapM f = some bs ∧ bs.length = l.length ∧ ∀ b ∈ bs, P b := by
  induction l with
  | nil => exact ⟨[], rfl, rfl, nofun⟩
  | cons a l ih =>
    obtain ⟨⟨b, ha, hb⟩, hl⟩ := List.forall_mem_cons.mp h
    obtain ⟨bs, hbs, hlen, hall⟩ := ih hl
    refine ⟨b :: bs, ?_, congrArg (· + 1) hlen, List.forall_mem_cons.mpr ⟨hb, hall⟩⟩
    rw [List.mapM_cons, ha, hbs]
    rfl

namespace Process

section

variable {N : Numerics} {maximum_rate : ℚ} {bins : Nat} {p : Process} {time : ℚ}

theorem sum_mapIdx_ite (ws : List ℚ) {i : Nat} (hi : i < ws.length) :
    (ws.mapIdx fun index _ => if index = i then (1 : ℚ) else 0).sum = 1 := by
  induction ws generalizing i with
  | nil => cases hi
  | cons w ws ih =>
    rw [List.mapIdx_cons, List.sum_cons]
    cases i with
    | zero =>
      rw [if_pos rfl]
      refine add_eq_left.mpr (List.sum_eq_zero fun v hv => ?_)
      obtain ⟨index, -, rfl⟩ := List.mem_mapIdx.mp hv
      exact if_neg (Nat.succ_ne_zero index)
    | succ i =>
      rw [if_neg (Nat.succ_ne_zero i).symm, zero_add]
      simpa only [Nat.succ_inj] using ih (Nat.lt_of_succ_lt_succ hi)

/-- A rate of the bins can be certain. -/
theorem Sound.set_certain (h : p.Sound N maximum_rate bins) {i : Nat} (hi : i < p.pmf.size) :
    ∃ p', p.set_certain (p.pmf.from_bin_mid i) = some p' ∧ p'.Sound N maximum_rate bins := by
  have hbin := h.grid.to_bin_mid hi
  rw [Process.set_certain]
  simp only [hbin]
  generalize hq : ({ p with
    probability_mass_function := p.pmf.for_each fun _ _ index => if index = i then 1 else 0
    normalized := false } : Process) = q
  have hget : ∀ j, q.pmf.function[j]? =
      p.pmf.function[j]?.map fun _ => if j = i then (1 : ℚ) else 0 := by
    intro j
    rw [← hq]
    exact getElem?_for_each _ _ j
  have hsum : q.pmf.function.sum = 1 := by
    rw [← hq]
    exact sum_mapIdx_ite _ hi
  have hshape : q.Shape N maximum_rate bins := by
    subst hq
    exact { h.toShape with size := (size_for_each _ _).trans h.size }
  have hnonneg : ∀ v ∈ q.pmf.function, 0 ≤ v := by
    intro v hv
    obtain ⟨j, hj⟩ := List.getElem?_of_mem hv
    rw [hget] at hj
    obtain ⟨w, -, rfl⟩ := Option.map_eq_some_iff.mp hj
    split <;> decide
  have hone : q.pmf.function[i]? = some 1 := by
    rw [hget, List.getElem?_eq_getElem hi, Option.map_some, if_pos rfl]
  have hfalse : q.normalized = false := by rw [← hq]
  have hmid : p.pmf.from_bin_mid i = q.normalize.pmf.from_bin_mid i := by
    rw [Process.normalize, if_neg (Bool.eq_false_iff.mp hfalse), ← hq]
    rfl
  obtain ⟨hsound, -, -⟩ := hshape.normalize hnonneg ⟨i, 1, hone, one_pos⟩ hfalse
  have hvalue : q.normalize.pmf.get (p.pmf.from_bin_mid i) = 1 := by
    rw [SampledFunction.get, hmid, hsound.grid.to_bin_mid, List.getD_eq_getElem?_getD,
      Process.normalize, if_neg (Bool.eq_false_iff.mp hfalse), getElem?_for_each, hone, hsum]
    · exact div_one 1
    · rw [hsound.size, ← h.size]
      exact hi
  exact ⟨_, if_pos hvalue, hsound⟩

theorem poissonpdf_sum_le (hN : N.Lawful) {rate : ℚ} (hrate : 0 ≤ rate) (n : Nat) :
    ((List.range n).map (N.poissonpdf rate)).sum ≤ 1 := by
  rcases hrate.eq_or_lt with rfl | hpos
  · have hzero : N.poissonpdf 0 = fun counts => if counts = 0 then 1 else 0 :=
      funext fun counts => if_pos rfl
    rw [hzero]
    cases n with
    | zero => exact zero_le_one
    | succ n =>
      rw [List.range_succ_eq_map, List.map_cons, List.sum_cons, if_pos rfl, List.map_map]
      refine (add_eq_left.mpr (List.sum_eq_zero fun v hv => ?_)).le
      obtain ⟨counts, -, hv⟩ := List.mem_map.mp hv
      rw [← hv, Function.comp_apply, if_neg (Nat.succ_ne_zero counts)]
  · have hpdf : N.poissonpdf rate = N.pdf rate := funext fun counts => if_neg hpos.ne'
    rw [hpdf]
    exact hN.sum_pdf n hpos

theorem sum_mapIdx_add (ws : List ℚ) (g h : Nat → ℚ → ℚ) :
    (ws.mapIdx fun i w => g i w + h i w).sum = (ws.mapIdx g).sum + (ws.mapIdx h).sum := by
  induction ws generalizing g h with
  | nil => exact (add_zero 0).symm
  | cons w ws ih =>
    simp only [List.mapIdx_cons, List.sum_cons, ih fun i => g (i + 1)]
    exact add_add_add_comm ..

/-- The counts are summed up rate by rate. -/
theorem sum_count_probability (p : Process) (time : ℚ) (n : Nat) :
    ((List.range n).map (p.count_probability N time)).sum =
      (p.pmf.function.mapIdx fun index rate_probability => rate_probability *
        ((List.range n).map (N.poissonpdf (p.pmf.from_bin_mid index * time))).sum).sum := by
  induction n with
  | zero =>
    symm
    apply List.sum_eq_zero
    intro v hv
    obtain ⟨i, hi, rfl⟩ := List.mem_mapIdx.mp hv
    exact mul_zero _
  | succ n ih =>
    rw [List.range_succ, List.map_append, List.sum_append, ih, List.map_singleton,
      List.sum_singleton, count_probability, ← sum_mapIdx_add]
    simp only [List.map_append, List.sum_append, List.map_singleton, List.sum_singleton, mul_add]

theorem Sound.count_probability (hN : N.Lawful) (h : p.Sound N maximum_rate bins)
    (htime : 0 < time) (n : Nat) : (∀ counts, 0 ≤ p.count_probability N time counts) ∧
      ((List.range n).map (p.count_probability N time)).sum ≤ 1 := by
  have hmid : ∀ i, 0 ≤ p.pmf.from_bin_mid i * time := fun i =>
    mul_nonneg (h.mid_nonneg i) htime.le
  constructor
  · intro counts
    apply List.sum_nonneg
    intro v hv
    obtain ⟨i, hi, rfl⟩ := List.mem_mapIdx.mp hv
    exact mul_nonneg (h.nonneg _ (List.getElem_mem hi)) (hN.poissonpdf_nonneg (hmid i))
  · rw [sum_count_probability]
    refine (sum_mapIdx_le fun i v hv => ?_).trans h.le_one
    exact mul_le_of_le_one_right (h.nonneg v (List.mem_of_getElem? hv))
      (poissonpdf_sum_le hN (hmid i) n)

end

end Process

/-- For each rate the probabilities of the counts. -/
structure Rows (size len : Nat) (count_probability : List (List ℚ)) : Prop where
  size : count_probability.length = size
  len : ∀ row ∈ count_probability, row.length = len
  nonneg : ∀ row ∈ count_probability, ∀ w ∈ row, 0 ≤ w
  le_one : ∀ row ∈ count_probability, row.sum ≤ 1

section

variable {N : Numerics} {maximum_rate tick_time : ℚ} {bins len tick_upper_limit : Nat}
  {ensemble example_ : Process} {count_probability : List (List ℚ)}

theorem summation_eq (f : SampledFunction) (count_probability : List (List ℚ)) (count : Nat) :
    f.summation count_probability count = Weights.mix f.function count_probability count := rfl

theorem Rows.headD (h : Rows (bins + 1) len count_probability) :
    0 < count_probability.length ∧ (count_probability.headD []).length = len := by
  obtain ⟨row, rows, rfl⟩ := List.exists_cons_of_length_eq_add_one h.size
  exact ⟨Nat.succ_pos _, h.len row List.mem_cons_self⟩

/-- The weights of an ensemble yield the probabilities of its counts. -/
theorem Rows.mix (h : Rows (bins + 1) len count_probability)
    (hensemble : ensemble.Sound N maximum_rate bins) :
    (∀ count, 0 ≤ Weights.mix ensemble.pmf.function count_probability count ∧
      Weights.mix ensemble.pmf.function count_probability count ≤ 1) ∧
    ∀ n, ((List.range n).map (Weights.mix ensemble.pmf.function count_probability)).sum ≤ 1 := by
  have hnonneg := Weights.mix_nonneg hensemble.nonneg h.nonneg
  have hsum : ∀ n,
      ((List.range n).map (Weights.mix ensemble.pmf.function count_probability)).sum ≤ 1 := by
    intro n
    refine (Weights.sum_mix_le hensemble.nonneg (fun row hrow => ?_) ?_).trans hensemble.le_one
    · have hmass := Weights.mass_mono (h.nonneg row hrow) (le_max_left n row.length)
      rw [Weights.mass_of_length_le (le_max_right n row.length)] at hmass
      exact hmass.trans (h.le_one row hrow)
    · exact hensemble.size.trans h.size.symm
  refine ⟨fun count => ⟨hnonneg count, ?_⟩, hsum⟩
  refine (List.single_le_sum (fun v hv => ?_) _ ?_).trans (hsum (count + 1))
  · obtain ⟨count', -, rfl⟩ := List.mem_map.mp hv
    exact hnonneg count'
  · exact List.mem_map_of_mem (List.mem_range.mpr (Nat.lt_succ_self count))

namespace ProcessForecastTick

theorem make_components_spec (h : example_.Sound N maximum_rate bins) :
    ∃ components, make_components example_ = some components ∧ components.length = bins + 1 ∧
      ∀ c ∈ components, c.Sound N maximum_rate bins := by
  rw [← h.size, ← List.length_range (n := example_.pmf.size)]
  apply exists_mapM
  intro index hindex
  rw [List.mem_range] at hindex
  obtain ⟨p, hp, hsound⟩ := h.set_certain hindex
  refine ⟨p, ?_, hsound⟩
  simp only [hp, Option.bind_some]
  exact if_pos (h.grid.to_bin_mid hindex)

theorem distribution_spec (hN : N.Lawful) {component : Process}
    (h : component.Sound N maximum_rate bins) (htime : 0 < tick_time) (upper_limit : Nat) :
    ∃ row, distribution N tick_time upper_limit component = some row ∧
      row.length = upper_limit + 1 ∧ (∀ w ∈ row, 0 ≤ w) ∧ row.sum ≤ 1 := by
  obtain ⟨hnonneg, hsum⟩ := h.count_probability hN htime upper_limit
  rw [distribution]
  generalize hmap : (List.range upper_limit).map (component.count_probability N tick_time) =
    probabilities at hsum ⊢
  have hall : ∀ prob ∈ probabilities, 0 ≤ prob := by
    intro prob hprob
    rw [← hmap] at hprob
    obtain ⟨counts, -, rfl⟩ := List.mem_map.mp hprob
    exact hnonneg counts
  have hone : ∀ prob ∈ probabilities, prob ≤ 1 := fun prob hprob =>
    (List.single_le_sum hall prob hprob).trans hsum
  have hlen : probabilities.length = upper_limit := by
    rw [← hmap, List.length_map, List.length_range]
  have htotal : probabilities.sum < 1 + 1 / 10 ^ 10 := hsum.trans_lt (by norm_num)
  refine ⟨_, if_pos ⟨fun prob hprob => ⟨hall prob hprob, hone prob hprob⟩, htotal⟩, ?_, ?_, ?_⟩
  · rw [List.length_append, hlen, List.length_singleton]
  · intro w hw
    rcases List.mem_append.mp hw with hw | hw
    · exact hall w hw
    · rw [List.mem_singleton.mp hw]
      exact sub_nonneg.mpr hsum
  · rw [List.sum_append, List.sum_singleton, add_sub_cancel]

theorem new_spec (hN : N.Lawful) (h : example_.Sound N maximum_rate bins) (htime : 0 < tick_time)
    (upper_limit : Nat) : ∃ t, new N tick_time example_ upper_limit = some t ∧
      Rows (bins + 1) (upper_limit + 1) t.count_probability := by
  obtain ⟨components, hcomponents, hlength, hsound⟩ := make_components_spec h
  obtain ⟨rows, hrows, hlen, hall⟩ := exists_mapM fun c hc =>
    distribution_spec hN (hsound c hc) htime upper_limit
  refine ⟨⟨rows⟩, ?_, hlen.trans hlength, fun row hrow => (hall row hrow).1,
    fun row hrow => (hall row hrow).2.1, fun row hrow => (hall row hrow).2.2⟩
  rw [new, hcomponents, Option.bind_some, hrows, Option.map_some]

theorem probability_eq {t : ProcessForecastTick} (h : Rows (bins + 1) len t.count_probability)
    (hensemble : ensemble.Sound N maximum_rate bins) (hnormalized : ensemble.normalized = true)
    {count : Nat} (hcount : count < len) : t.probability ensemble count =
      some (Weights.mix ensemble.pmf.function t.count_probability count) := by
  obtain ⟨hpos, hhead⟩ := h.headD
  have hle := ((h.mix hensemble).1 count).2
  rw [probability, summation_eq]
  exact (if_pos ⟨hnormalized, hensemble.size.trans h.size.symm, hpos, hhead.symm ▸ hcount,
    hle.trans (by norm_num)⟩).trans (congrArg some (if_neg (not_lt.mpr hle)))

end ProcessForecastTick

namespace ProcessForecastInterval

/-- The counts of some ticks. -/
structure Ticked (N : Numerics) (maximum_rate : ℚ) (bins tick_upper_limit num_ticks : Nat)
    (c : Component) : Prop where
  process : c.process.Sound N maximum_rate bins
  length : c.distribution.length = num_ticks * (tick_upper_limit - 1) + 1
  nonneg : ∀ w ∈ c.distribution, 0 ≤ w
  le_one : c.distribution.sum ≤ 1

variable {num_ticks : Nat} {c : Component} {tick_forecast : ProcessForecastTick}

/-- What a tick adds to the counts moves their mass to larger ones. -/
theorem Ticked.tick (hN : N.Lawful) (htime : 0 < tick_time) (hlimit : 0 < tick_upper_limit)
    (hforecast : Rows (bins + 1) (tick_upper_limit + 1) tick_forecast.count_probability)
    (h : Ticked N maximum_rate bins tick_upper_limit num_ticks c) :
    ∃ c', tick N tick_time tick_upper_limit tick_forecast c = some c' ∧
      Ticked N maximum_rate bins tick_upper_limit (num_ticks + 1) c' ∧
      ∀ n, Weights.mass n c'.distribution ≤ Weights.mass n c.distribution := by
  obtain ⟨hsound, hnormalized, -⟩ := h.process.normalize
  obtain ⟨it, hevolve, hit, -⟩ := hsound.evolve hN htime
  have hthis : (List.range tick_upper_limit).mapM
      (fun i => tick_forecast.probability c.process.normalize i) = some ((List.range
        tick_upper_limit).map (Weights.mix c.process.normalize.pmf.function
          tick_forecast.count_probability)) :=
    mapM_eq_map fun i hi => ProcessForecastTick.probability_eq hforecast hsound hnormalized
      ((List.mem_range.mp hi).trans (Nat.lt_succ_self _))
  obtain ⟨hmix, hsum⟩ := hforecast.mix hsound
  have hsum := hsum tick_upper_limit
  rw [ProcessForecastInterval.tick]
  simp only [hthis, Option.bind_some, hevolve, Option.map_some]
  generalize hv : (List.range tick_upper_limit).map (Weights.mix c.process.normalize.pmf.function
    tick_forecast.count_probability) = this_tick at hsum ⊢
  have hvs : ∀ v ∈ this_tick, 0 ≤ v := by
    intro v hmem
    rw [← hv] at hmem
    obtain ⟨count, -, rfl⟩ := List.mem_map.mp hmem
    exact (hmix count).1
  have hlen : this_tick.length = tick_upper_limit := by
    rw [← hv, List.length_map, List.length_range]
  have hmass := Weights.mass_convolve_le h.nonneg hvs hsum
  have hlength : (Weights.convolve c.distribution this_tick).length =
      (num_ticks + 1) * (tick_upper_limit - 1) + 1 := by
    rw [Weights.length_convolve, h.length, hlen, Nat.succ_mul]
    omega
  refine ⟨_, rfl, ⟨hit, hlength, Weights.convolve_nonneg h.nonneg hvs, ?_⟩, hmass⟩
  have hall := hmass (max (Weights.convolve c.distribution this_tick).length c.distribution.length)
  rw [Weights.mass_of_length_le (le_max_left ..), Weights.mass_of_length_le (le_max_right ..)]
    at hall
  exact hall.trans h.le_one

/-- The row of a component. -/
def row (N : Numerics) (tick_time : ℚ) (tick_upper_limit : Nat)
    (tick_forecast : ProcessForecastTick) (num_ticks : Nat) (it : Process) : List ℚ :=
  ((ticks N tick_time tick_upper_limit tick_forecast num_ticks ⟨[1], it⟩).map
    Component.distribution).getD []

theorem ticks_spec (hN : N.Lawful) (htime : 0 < tick_time) (hlimit : 0 < tick_upper_limit)
    (hforecast : Rows (bins + 1) (tick_upper_limit + 1) tick_forecast.count_probability)
    {it : Process} (hit : it.Sound N maximum_rate bins) (num_ticks : Nat) :
    ∃ c, ticks N tick_time tick_upper_limit tick_forecast num_ticks ⟨[1], it⟩ = some c ∧
      Ticked N maximum_rate bins tick_upper_limit num_ticks c := by
  induction num_ticks with
  | zero =>
    refine ⟨_, rfl, hit, ?_, ?_, ?_⟩
    · rw [Nat.zero_mul]
      rfl
    · intro w hw
      exact (List.mem_singleton.mp hw).symm ▸ zero_le_one
    · exact (List.sum_singleton ..).le
  | succ num_ticks ih =>
    obtain ⟨c, hc, hticked⟩ := ih
    obtain ⟨c', hc', hticked', -⟩ := hticked.tick hN htime hlimit hforecast
    exact ⟨c', by rw [ticks, hc, Option.bind_some, hc'], hticked'⟩

/-- The rows of a component get longer, and lighter in front. -/
theorem row_spec (hN : N.Lawful) (htime : 0 < tick_time) (hlimit : 0 < tick_upper_limit)
    (hforecast : Rows (bins + 1) (tick_upper_limit + 1) tick_forecast.count_probability)
    {it : Process} (hit : it.Sound N maximum_rate bins) (num_ticks : Nat) :
    (ticks N tick_time tick_upper_limit tick_forecast num_ticks ⟨[1], it⟩).map
        Component.distribution =
      some (row N tick_time tick_upper_limit tick_forecast num_ticks it) ∧
    (row N tick_time tick_upper_limit tick_forecast num_ticks it).length =
      num_ticks * (tick_upper_limit - 1) + 1 ∧
    (∀ w ∈ row N tick_time tick_upper_limit tick_forecast num_ticks it, 0 ≤ w) ∧
    (row N tick_time tick_upper_limit tick_forecast num_ticks it).sum ≤ 1 ∧
    ∀ n, Weights.mass n (row N tick_time tick_upper_limit tick_forecast (num_ticks + 1) it) ≤
      Weights.mass n (row N tick_time tick_upper_limit tick_forecast num_ticks it) := by
  obtain ⟨c, hc, hticked⟩ := ticks_spec hN htime hlimit hforecast hit num_ticks
  obtain ⟨c', hc', -, hmass⟩ := hticked.tick hN htime hlimit hforecast
  have hsucc : ticks N tick_time tick_upper_limit tick_forecast (num_ticks + 1) ⟨[1], it⟩ =
      some c' := by
    rw [ticks, hc, Option.bind_some, hc']
  rw [row, row, hc, hsucc]
  exact ⟨rfl, hticked.length, hticked.nonneg, hticked.le_one, hmass⟩

/-- An interval has the rows of its components. -/
theorem new_spec (hN : N.Lawful) (h : example_.Sound N maximum_rate bins) (htime : 0 < tick_time)
    (hlimit : 0 < tick_upper_limit) :
    ∃ (components : List Process) (tick_forecast : ProcessForecastTick),
      components.length = bins + 1 ∧ (∀ c ∈ components, c.Sound N maximum_rate bins) ∧
      Rows (bins + 1) (tick_upper_limit + 1) tick_forecast.count_probability ∧
      ∀ num_ticks, new N tick_time example_ tick_upper_limit num_ticks =
        some ⟨components.map (row N tick_time tick_upper_limit tick_forecast num_ticks)⟩ := by
  obtain ⟨components, hcomponents, hlength, hsound⟩ :=
    ProcessForecastTick.make_components_spec h
  obtain ⟨tick_forecast, htick, hrows⟩ := ProcessForecastTick.new_spec hN h htime tick_upper_limit
  refine ⟨components, tick_forecast, hlength, hsound, hrows, fun num_ticks => ?_⟩
  have hmap := mapM_eq_map fun it hit =>
    (row_spec hN htime hlimit hrows (hsound it hit) num_ticks).1
  rw [new, hcomponents, Option.bind_some, htick, Option.bind_some, hmap, Option.map_some]

theorem probability_eq {t : ProcessForecastInterval} (h : Rows (bins + 1) len t.count_probability)
    (hensemble : ensemble.Sound N maximum_rate bins) (hnormalized : ensemble.normalized = true)
    {count : Nat} (hcount : count < len) : t.probability ensemble count =
      some (Weights.mix ensemble.pmf.function t.count_probability count) := by
  obtain ⟨hpos, hhead⟩ := h.headD
  have hle := ((h.mix hensemble).1 count).2
  rw [probability, summation_eq]
  exact (if_pos ⟨hnormalized, hensemble.size.trans h.size.symm, hpos, hhead.symm ▸ hcount⟩).trans
    (congrArg some (if_neg (not_lt.mpr hle)))

theorem lower_quantile_eq {t : ProcessForecastInterval} {x : ℚ}
    (h : Rows (bins + 1) len t.count_probability) (hensemble : ensemble.Sound N maximum_rate bins)
    (hnormalized : ensemble.normalized = true) : t.lower_quantile ensemble x =
      some (Weights.quantile x
        ((List.range len).map (Weights.mix ensemble.pmf.function t.count_probability))) := by
  have hmap := mapM_eq_map (l := List.range len) fun count hcount =>
    probability_eq h hensemble hnormalized (List.mem_range.mp hcount)
  rw [lower_quantile, h.headD.2, hmap, Option.map_some]

/-- The forecasts of an ensemble grow with the number of ticks. -/
theorem lower_quantile_spec (hN : N.Lawful) (h : example_.Sound N maximum_rate bins)
    (htime : 0 < tick_time) (hlimit : 0 < tick_upper_limit) : ∃ t : Nat → ProcessForecastInterval,
      (∀ num_ticks, new N tick_time example_ tick_upper_limit num_ticks = some (t num_ticks)) ∧
      ∀ {ensemble : Process}, ensemble.Sound N maximum_rate bins → ensemble.normalized = true →
        ∀ x : ℚ, ∃ counts : Nat → Nat, Monotone counts ∧ ∀ num_ticks,
          (t num_ticks).lower_quantile ensemble x = some (counts num_ticks) ∧
          counts num_ticks ≤ num_ticks * (tick_upper_limit - 1) + 2 := by
  obtain ⟨components, tick_forecast, hlength, hsound, hforecast, hnew⟩ :=
    new_spec hN h htime hlimit
  refine ⟨_, hnew, fun {ensemble} hensemble hnormalized x => ?_⟩
  have hrow := fun it hit => row_spec hN htime hlimit hforecast (hsound it hit)
  have hrows : ∀ num_ticks, Rows (bins + 1) (num_ticks * (tick_upper_limit - 1) + 1)
      (components.map (row N tick_time tick_upper_limit tick_forecast num_ticks)) := by
    intro num_ticks
    refine ⟨(List.length_map _).trans hlength, ?_, ?_, ?_⟩ <;> intro r hr <;>
      obtain ⟨it, hit, rfl⟩ := List.mem_map.mp hr
    · exact (hrow it hit num_ticks).2.1
    · exact (hrow it hit num_ticks).2.2.1
    · exact (hrow it hit num_ticks).2.2.2.1
  refine ⟨_, ?_, fun num_ticks => ⟨lower_quantile_eq (hrows num_ticks) hensemble hnormalized, ?_⟩⟩
  · apply monotone_nat_of_le_succ
    intro num_ticks
    apply Weights.quantile_mono
    · exact List.map_eq_nil_iff.not.mpr (List.range_eq_nil.not.mpr (Nat.succ_ne_zero _))
    · rw [List.length_map, List.length_map, List.length_range, List.length_range, Nat.succ_mul]
      omega
    · intro n
      rw [Weights.mass_mix (fun r hr => ((hrows _).len r hr).le),
        Weights.mass_mix (fun r hr => ((hrows _).len r hr).le), List.zip_map_right,
        List.zip_map_right, List.map_map, List.map_map]
      apply List.sum_le_sum
      intro w hw
      have hmem := List.of_mem_zip hw
      exact mul_le_mul_of_nonneg_left ((hrow w.2 hmem.2 num_ticks).2.2.2.2 n)
        (hensemble.nonneg w.1 hmem.1)
  · refine (Weights.quantile_le_length _ _).trans ?_
    rw [List.length_map, List.length_range]

end ProcessForecastInterval

end

end ALCC.Sprout
