import ALCC.Model.SproutConnection
import ALCC.Model.SproutProcess

/-! The forecasts of Sprout: `processforecaster.cc` and `receiver.cc`, in exact arithmetic. A failed
assertion yields `none`. The model that can be read from a file, and written to one, is left out. -/

namespace ALCC.Sprout

namespace SampledFunction

def summation (count_probability : List (List ℚ)) (count : Nat) (f : SampledFunction) : ℚ :=
  ((f.function.zip count_probability).map fun (value, probabilities) =>
    value * probabilities.getD count 0).sum

end SampledFunction

structure ProcessForecastTick where
  count_probability : List (List ℚ)

namespace ProcessForecastTick

/-- The processes of a certain rate, one for each bin. -/
def make_components (example_ : Process) : Option (List Process) :=
  (List.range example_.pmf.size).mapM fun index =>
    let midpoint := example_.pmf.from_bin_mid index
    (example_.set_certain midpoint).bind fun component =>
      if example_.pmf.to_bin midpoint = index then some component else none

/-- The distribution of arrivals of one component. -/
def distribution (N : Numerics) (tick_time : ℚ) (upper_limit : Nat) (component : Process) :
    Option (List ℚ) :=
  let probabilities := (List.range upper_limit).map (component.count_probability N tick_time)
  let total := probabilities.sum
  if (∀ prob ∈ probabilities, 0 ≤ prob ∧ prob ≤ 1) ∧ total < 1 + 1 / 10 ^ 10 then
    some (probabilities ++ [1 - total])
  else
    none

def new (N : Numerics) (tick_time : ℚ) (example_ : Process) (upper_limit : Nat) :
    Option ProcessForecastTick :=
  (make_components example_).bind fun components =>
    (components.mapM (distribution N tick_time upper_limit)).map fun count_probability =>
      ⟨count_probability⟩

def probability (ensemble : Process) (count : Nat) (t : ProcessForecastTick) : Option ℚ :=
  let ret := ensemble.pmf.summation t.count_probability count
  if ensemble.normalized ∧ ensemble.pmf.size = t.count_probability.length ∧
      0 < t.count_probability.length ∧ count < (t.count_probability.headD []).length ∧
      ret ≤ 1 + 1 / 10 ^ 10 then
    some (if 1 < ret then 1 else ret)
  else
    none

end ProcessForecastTick

structure ProcessForecastInterval where
  count_probability : List (List ℚ)

namespace ProcessForecastInterval

/-- A component, and the distribution of its arrivals up to now. -/
structure Component where
  distribution : List ℚ
  process : Process

/-- One round of the loop over the ticks. For each count the loop calls `normalize`, of which the
first call has an effect. -/
def tick (N : Numerics) (tick_time : ℚ) (tick_upper_limit : Nat)
    (tick_forecast : ProcessForecastTick) (c : Component) : Option Component :=
  let it := c.process.normalize
  ((List.range tick_upper_limit).mapM fun i => tick_forecast.probability it i).bind fun this_tick =>
    (it.evolve N tick_time).map fun it => ⟨Weights.convolve c.distribution this_tick, it⟩

/-- The loop over the ticks. -/
def ticks (N : Numerics) (tick_time : ℚ) (tick_upper_limit : Nat)
    (tick_forecast : ProcessForecastTick) : (num_ticks : Nat) → Component → Option Component
  | 0, c => some c
  | num_ticks + 1, c =>
    (ticks N tick_time tick_upper_limit tick_forecast num_ticks c).bind
      (tick N tick_time tick_upper_limit tick_forecast)

def new (N : Numerics) (tick_time : ℚ) (example_ : Process) (tick_upper_limit num_ticks : Nat) :
    Option ProcessForecastInterval :=
  (ProcessForecastTick.make_components example_).bind fun components =>
    (ProcessForecastTick.new N tick_time example_ tick_upper_limit).bind fun tick_forecast =>
      (components.mapM fun it =>
        (ticks N tick_time tick_upper_limit tick_forecast num_ticks ⟨[1], it⟩).map
          Component.distribution).map fun count_probability => ⟨count_probability⟩

def probability (ensemble : Process) (count : Nat) (t : ProcessForecastInterval) : Option ℚ :=
  let ret := ensemble.pmf.summation t.count_probability count
  if ensemble.normalized ∧ ensemble.pmf.size = t.count_probability.length ∧
      0 < t.count_probability.length ∧ count < (t.count_probability.headD []).length then
    some (if 1 < ret then 1 else ret)
  else
    none

/-- The assertions of `probability` hold for all counts or for none, so it does not matter that the
loop stops at the quantile. -/
def lower_quantile (ensemble : Process) (x : ℚ) (t : ProcessForecastInterval) : Option Nat :=
  ((List.range (t.count_probability.headD []).length).mapM fun i => t.probability ensemble i).map
    (Weights.quantile x)

end ProcessForecastInterval

structure DeliveryForecast where
  received_or_lost_count : UInt64
  time : UInt64
  counts : List UInt32
  deriving DecidableEq

/-- The queue of a receiver stands in `Connection`. -/
structure Receiver where
  process : Process
  forecastr : List ProcessForecastInterval
  time : UInt64
  score_time : UInt64
  count_this_tick : ℚ
  cached_forecast : DeliveryForecast

namespace Receiver

def MAX_ARRIVAL_RATE : ℚ := 1000

def BROWNIAN_MOTION_RATE : ℚ := 200

def OUTAGE_ESCAPE_RATE : ℚ := 1

def NUM_BINS : Nat := 256

/-- In milliseconds. -/
def TICK_LENGTH : UInt64 := 20

/-- `.001 * TICK_LENGTH`. -/
def tick_time : ℚ := 1 / 1000 * 20

def MAX_ARRIVALS_PER_TICK : Nat := 30

def NUM_TICKS : Nat := 8

def new (N : Numerics) : Option Receiver :=
  let process : Process :=
    .new MAX_ARRIVAL_RATE BROWNIAN_MOTION_RATE OUTAGE_ESCAPE_RATE NUM_BINS
  ((List.range NUM_TICKS).mapM fun i =>
    ProcessForecastInterval.new N tick_time process MAX_ARRIVALS_PER_TICK (i + 1)).map
      fun forecastr =>
        { process
          forecastr
          time := 0
          score_time := -1
          count_this_tick := 0
          cached_forecast := ⟨0, 0, []⟩ }

def warp_to (time : UInt64) (r : Receiver) : Receiver := { r with time, score_time := time }

/-- `discrete_observe`. -/
def discrete (count_this_tick : ℚ) : Nat :=
  if 0 < count_this_tick ∧ count_this_tick < 1 then 1
  else (Binary64.trunc (count_this_tick + 1 / 2)).toNat

/-- A round of the loop of `advance_to`. -/
def tick (N : Numerics) (r : Receiver) : Option Receiver :=
  (r.process.evolve N tick_time).map fun process =>
    if r.score_time ≤ r.time ∨ 0 < r.count_this_tick then
      { r with
        process := process.observe N tick_time (discrete r.count_this_tick)
        count_this_tick := 0
        time := r.time + TICK_LENGTH }
    else
      { r with process, time := r.time + TICK_LENGTH }

/-- The loop of `advance_to`, for some rounds. -/
def ticks (N : Numerics) (time : UInt64) : (rounds : Nat) → Receiver → Option Receiver
  | 0, r => some r
  | rounds + 1, r =>
    if r.time + TICK_LENGTH < time then (r.tick N).bind fun r => ticks N time rounds r else some r

/-- A round of the loop takes 20 ms. -/
def advance_to (N : Numerics) (time : UInt64) (r : Receiver) : Option Receiver :=
  if r.time ≤ time then r.ticks N time ((time - r.time).toNat / TICK_LENGTH.toNat) else none

/-- `recv`, but for its queue. -/
def recv (time_to_next : UInt16) (len : Nat) (r : Receiver) : Receiver :=
  { r with
    count_this_tick := r.count_this_tick + len / 1400
    score_time := max (r.time + time_to_next.toUInt64) r.score_time }

/-- The new forecast is cached. -/
def forecast (recv_queue : RecvQueue) (r : Receiver) :
    Option (DeliveryForecast × RecvQueue × Receiver) :=
  if r.cached_forecast.time = r.time then
    some (r.cached_forecast, recv_queue, r)
  else
    let process := r.process.normalize
    let (received_or_lost_count, recv_queue) := recv_queue.packet_count
    (r.forecastr.mapM (ProcessForecastInterval.lower_quantile process (5 / 100))).map fun counts =>
      let cached_forecast := ⟨received_or_lost_count, r.time, counts.map .ofNat⟩
      (cached_forecast, recv_queue, { r with process, cached_forecast })

end Receiver

end ALCC.Sprout
