import ALCC.Verify.SproutForecast

/-! The receiver of Sprout. In every call its process is sound, so a forecast has a number for each
tick, and these do not decrease. -/

namespace ALCC.Sprout

/-- The forecast for each of the ticks, for all of which there is an interval. -/
structure DeliveryForecast.Valid (f : DeliveryForecast) : Prop where
  length : f.counts.length = Receiver.NUM_TICKS
  sorted : f.counts.Pairwise (· ≤ ·)
  bound : ∀ count ∈ f.counts, count.toNat ≤ 234

namespace Receiver

variable {N : Numerics} {r : Receiver} {now : UInt64}

/-- Between the calls. -/
structure Ready (N : Numerics) (r : Receiver) : Prop where
  process : r.process.Sound N MAX_ARRIVAL_RATE NUM_BINS
  positive : ∀ i, 0 < i → i ≤ NUM_BINS → r.process.Positive i
  forecastr : ∀ {ensemble : Process}, ensemble.Sound N MAX_ARRIVAL_RATE NUM_BINS →
    ensemble.normalized = true → ∃ counts : Nat → Nat, Monotone counts ∧
      (∀ i, counts (i + 1) ≤ (i + 1) * 29 + 2) ∧
      r.forecastr.mapM (ProcessForecastInterval.lower_quantile ensemble (5 / 100)) =
        some ((List.range NUM_TICKS).map fun i => counts (i + 1))
  cached : r.cached_forecast.time = 0 ∨ r.cached_forecast.Valid

theorem tick_time_pos : 0 < tick_time := by norm_num [tick_time]

theorem rates : Process.Rates MAX_ARRIVAL_RATE NUM_BINS :=
  ⟨by norm_num [MAX_ARRIVAL_RATE], by norm_num [MAX_ARRIVAL_RATE, BIG], by decide⟩

theorem new_ready (hN : N.Lawful) : ∃ r, new N = some r ∧ r.Ready N ∧ r.time = 0 ∧
    r.cached_forecast = ⟨0, 0, []⟩ := by
  obtain ⟨hsound, hpos⟩ := Process.sound_new (N := N) rates
    (by norm_num [BROWNIAN_MOTION_RATE] : 0 < BROWNIAN_MOTION_RATE)
    (by norm_num [OUTAGE_ESCAPE_RATE] : 0 < OUTAGE_ESCAPE_RATE)
  obtain ⟨t, hnew, hquantile⟩ := ProcessForecastInterval.lower_quantile_spec hN hsound
    tick_time_pos (show 0 < MAX_ARRIVALS_PER_TICK by decide)
  rw [new, mapM_eq_map fun i _ => hnew (i + 1), Option.map_some]
  refine ⟨_, rfl, ⟨hsound, fun i _ hi => hpos i hi, fun hensemble hnormalized => ?_, .inl rfl⟩, rfl,
    rfl⟩
  obtain ⟨counts, hmono, hcounts⟩ := hquantile hensemble hnormalized (5 / 100)
  refine ⟨counts, hmono, fun i => (hcounts (i + 1)).2, ?_⟩
  rw [List.mapM_map]
  exact mapM_eq_map fun i _ => (hcounts (i + 1)).1

theorem Ready.tick (hN : N.Lawful) (h : r.Ready N) : ∃ r', r.tick N = some r' ∧ r'.Ready N ∧
    r'.time = r.time + TICK_LENGTH ∧ r'.cached_forecast = r.cached_forecast := by
  obtain ⟨process, hevolve, hsound, hkeep⟩ := h.process.evolve hN tick_time_pos
  have hpos : ∀ i, 0 < i → i ≤ NUM_BINS → process.Positive i := fun i hi hle =>
    hkeep i (h.positive i hi hle)
  have hone := hpos 1 one_pos (by decide)
  rw [Receiver.tick, hevolve, Option.map_some]
  refine ⟨_, rfl, ?_⟩
  split
  · refine ⟨⟨?_, fun i hi hle => ?_, h.forecastr, h.cached⟩, rfl, rfl⟩
    · exact (hsound.observe hN tick_time_pos _ one_pos hone).1
    · exact (hsound.observe hN tick_time_pos _ hi (hpos i hi hle)).2
  · exact ⟨⟨hsound, hpos, h.forecastr, h.cached⟩, rfl, rfl⟩

/-- The loop ends within a tick of `now`. -/
theorem Ready.ticks (hN : N.Lawful) (h : r.Ready N) (hlt : now.toNat + 20 < 2 ^ 64) {rounds : Nat}
    (hle : r.time.toNat ≤ now.toNat) (hrounds : (now.toNat - r.time.toNat) / 20 ≤ rounds) :
    ∃ r', r.ticks N now rounds = some r' ∧ r'.Ready N ∧ r.time.toNat ≤ r'.time.toNat ∧
      r'.time.toNat ≤ now.toNat ∧ now.toNat ≤ r'.time.toNat + 20 ∧
      r'.cached_forecast = r.cached_forecast := by
  induction rounds generalizing r with
  | zero => exact ⟨r, rfl, h, le_rfl, hle, by omega, rfl⟩
  | succ rounds ih =>
    have htime : (r.time + TICK_LENGTH).toNat = r.time.toNat + 20 := by
      rw [UInt64.toNat_add, show TICK_LENGTH.toNat = 20 from rfl]
      omega
    rw [Receiver.ticks]
    split
    · rename_i hbefore
      rw [UInt64.lt_iff_toNat_lt, htime] at hbefore
      obtain ⟨r', htick, hready, htime', hcached⟩ := h.tick hN
      rw [← htime'] at htime
      obtain ⟨r'', hticks, hready', hge, hrest, hnear, hcached'⟩ :=
        ih hready (by omega) (by omega)
      rw [htick]
      exact ⟨r'', hticks, hready', by omega, hrest, hnear, hcached'.trans hcached⟩
    · rename_i hafter
      rw [UInt64.lt_iff_toNat_lt, htime] at hafter
      exact ⟨r, rfl, h, le_rfl, hle, by omega, rfl⟩

theorem Ready.advance_to (hN : N.Lawful) (h : r.Ready N) (hlt : now.toNat + 20 < 2 ^ 64)
    (hle : r.time ≤ now) : ∃ r', r.advance_to N now = some r' ∧ r'.Ready N ∧
      r'.time ≤ now ∧ now.toNat ≤ r'.time.toNat + 20 ∧
      r'.cached_forecast = r.cached_forecast := by
  have hsub : (now - r.time).toNat = now.toNat - r.time.toNat := UInt64.toNat_sub_of_le _ _ hle
  obtain ⟨r', hticks, hready, -, hle', hnear, hcached⟩ :=
    h.ticks hN hlt (UInt64.le_iff_toNat_le.mp hle) (le_refl _)
  refine ⟨r', ?_, hready, UInt64.le_iff_toNat_le.mpr hle', hnear, hcached⟩
  rw [Receiver.advance_to, if_pos hle, hsub, show TICK_LENGTH.toNat = 20 from rfl]
  exact hticks

theorem Ready.warp_to (h : r.Ready N) : (r.warp_to now).Ready N := ⟨h.1, h.2, h.3, h.4⟩

theorem Ready.recv (h : r.Ready N) (time_to_next : UInt16) (len : Nat) :
    (r.recv time_to_next len).Ready N := ⟨h.1, h.2, h.3, h.4⟩

/-- A forecast is valid, and the cached one of the same time or about the queue as it is now. -/
theorem Ready.forecast (h : r.Ready N) (hne : r.time ≠ 0) (recv_queue : RecvQueue) :
    ∃ f recv_queue' r', r.forecast recv_queue = some (f, recv_queue', r') ∧ r'.Ready N ∧
      f.Valid ∧ r'.cached_forecast = f ∧ r'.time = r.time ∧
      (f = r.cached_forecast ∧ recv_queue' = recv_queue ∨
        f.received_or_lost_count = recv_queue.packet_count.1 ∧
          recv_queue' = recv_queue.packet_count.2) := by
  rw [Receiver.forecast]
  split
  · rename_i htime
    exact ⟨_, _, _, rfl, h, h.cached.resolve_left fun h0 => hne (htime.symm.trans h0), rfl, rfl,
      .inl ⟨rfl, rfl⟩⟩
  · obtain ⟨hsound, hnormalized, hkeep⟩ := h.process.normalize
    obtain ⟨counts, hmono, hbound, hcounts⟩ := h.forecastr hsound hnormalized
    simp only [hcounts, Option.map_some]
    have hsmall : ∀ i ∈ List.range NUM_TICKS,
        counts (i + 1) ≤ 234 ∧ (UInt32.ofNat (counts (i + 1))).toNat = counts (i + 1) := by
      intro i hi
      have hi := List.mem_range.mp hi
      have hle := hbound i
      rw [NUM_TICKS] at hi
      refine ⟨by omega, ?_⟩
      rw [UInt32.toNat_ofNat']
      omega
    have hvalid : ∀ count time, DeliveryForecast.Valid
        ⟨count, time, ((List.range NUM_TICKS).map fun i => counts (i + 1)).map .ofNat⟩ := by
      intro count time
      refine ⟨?_, ?_, ?_⟩
      · rw [List.length_map, List.length_map, List.length_range]
      · rw [List.map_map, List.pairwise_map]
        refine List.pairwise_lt_range.imp_of_mem fun hi hj hlt => ?_
        rw [UInt32.le_iff_toNat_le, Function.comp_apply, Function.comp_apply, (hsmall _ hi).2,
          (hsmall _ hj).2]
        exact hmono (Nat.succ_le_succ hlt.le)
      · intro count hcount
        obtain ⟨_, hmem, rfl⟩ := List.mem_map.mp hcount
        obtain ⟨i, hi, rfl⟩ := List.mem_map.mp hmem
        obtain ⟨hle, heq⟩ := hsmall i hi
        exact heq.trans_le hle
    exact ⟨_, _, _, rfl, ⟨hsound, fun i hi hle => hkeep i (h.positive i hi hle), h.forecastr,
      .inr (hvalid _ _)⟩, hvalid _ _, rfl, rfl, .inr ⟨rfl, rfl⟩⟩

end Receiver

end ALCC.Sprout
