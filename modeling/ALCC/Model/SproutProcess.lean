import ALCC.Theory.Binary64
import ALCC.Theory.Weights

/-! The model of the link in Sprout, `process.cc` with `sampledfunction.cc`, in exact arithmetic:
`double` is `ℚ`. The distributions of `boost` and the square root are parameters. A failed
assertion yields `none`. -/

namespace ALCC.Sprout

open Binary64

/-- What is taken from libraries. -/
structure Numerics where
  /-- `pdf (poisson (rate), counts)`. -/
  pdf : (rate : ℚ) → (counts : Nat) → ℚ
  /-- `cdf (normal (0, stddev), x)`. -/
  cdf : (stddev : ℚ) → (x : ℚ) → ℚ
  sqrt : ℚ → ℚ

def Numerics.poissonpdf (N : Numerics) (rate : ℚ) (counts : Nat) : ℚ :=
  if rate = 0 then (if counts = 0 then 1 else 0) else N.pdf rate counts

def BIG : ℚ := 1000000

structure SampledFunction where
  offset : ℚ
  bin_width : ℚ
  function : List ℚ

namespace SampledFunction

def new (num_samples : Nat) (maximum_value minimum_value : ℚ) : SampledFunction :=
  let bin_width := (maximum_value - minimum_value) / num_samples
  { offset := minimum_value
    bin_width
    function := .replicate (trunc ((maximum_value - minimum_value) / bin_width) + 1).toNat 1 }

variable (f : SampledFunction)

def size : Nat := f.function.length

def to_bin (x : ℚ) : Nat :=
  let ret := trunc ((x - f.offset) / f.bin_width)
  if ret < 0 then 0 else if f.size ≤ ret then f.size - 1 else ret.toNat

def from_bin_floor (bin : Nat) : ℚ := if bin = 0 then -BIG else bin * f.bin_width + f.offset

def from_bin_ceil (bin : Nat) : ℚ :=
  if f.size - 1 ≤ bin then BIG else (bin + 1) * f.bin_width + f.offset

def from_bin_mid (bin : Nat) : ℚ :=
  if bin = 0 then f.offset else (bin + 1 / 2) * f.bin_width + f.offset

/-- `operator[]`. -/
def get (x : ℚ) : ℚ := f.function.getD (f.to_bin x) 0

def sample_floor (x : ℚ) : ℚ := f.from_bin_floor (f.to_bin x)

def sample_ceil (x : ℚ) : ℚ := f.from_bin_ceil (f.to_bin x)

/-- `for_each`, where `g` yields the new value. -/
def for_each (g : (midpoint : ℚ) → (value : ℚ) → (index : Nat) → ℚ) : SampledFunction :=
  { f with function := f.function.mapIdx fun index value => g (f.from_bin_mid index) value index }

/-- The indices that `for_range` goes through. -/
def range (min max : ℚ) : List Nat :=
  let low := f.to_bin (f.sample_floor min)
  List.range' low (f.to_bin (f.sample_ceil max) + 1 - low)

end SampledFunction

/-- `Process::GaussianCache`. -/
structure GaussianCache where
  cdf : SampledFunction
  stddev : ℚ

namespace GaussianCache

def new (maximum_rate : ℚ) (bins : Nat) : GaussianCache :=
  ⟨.new bins maximum_rate (-maximum_rate), -1⟩

def calculate (N : Numerics) (s_stddev : ℚ) (g : GaussianCache) : GaussianCache :=
  if s_stddev = g.stddev then g
  else ⟨g.cdf.for_each fun x _ _ => N.cdf s_stddev x, s_stddev⟩

end GaussianCache

structure Process where
  probability_mass_function : SampledFunction
  gaussian : GaussianCache
  brownian_motion_rate : ℚ
  outage_escape_rate : ℚ
  normalized : Bool

namespace Process

variable (N : Numerics) (p : Process)

abbrev pmf : SampledFunction := p.probability_mass_function

/-- Make the pmf sum to unity. -/
def normalize : Process :=
  if p.normalized then p
  else
    let sum := p.pmf.function.sum
    { p with
      probability_mass_function := p.pmf.for_each fun _ value _ => value / sum
      normalized := true }

def new (maximum_rate brownian_motion_rate outage_escape_rate : ℚ) (bins : Nat) : Process :=
  normalize
    { probability_mass_function := .new bins maximum_rate 0
      gaussian := .new maximum_rate (bins * 128)
      brownian_motion_rate
      outage_escape_rate
      normalized := false }

/-- Update from a new observation. -/
def observe (time : ℚ) (counts : Nat) : Process :=
  { p with
    probability_mass_function :=
      p.pmf.for_each fun midpoint value _ => value * N.poissonpdf (midpoint * time) counts
    normalized := false }

def zero_escape_probability (time : ℚ) : ℚ := 1 - N.poissonpdf (time * p.outage_escape_rate) 0

/-- The `contribution` of the rate `old_index` to the rate `new_index`. -/
def contribution (time : ℚ) (old_prob : ℚ) (old_index new_index : Nat) : ℚ :=
  let old_rate := p.pmf.from_bin_mid old_index
  let new_rate := p.pmf.from_bin_mid new_index
  let zfactor :=
    if old_index = 0 then
      if new_index ≠ 0 then p.zero_escape_probability N time
      else 1 - p.zero_escape_probability N time
    else 1
  zfactor * old_prob * (p.gaussian.cdf.get (p.pmf.sample_ceil new_rate - old_rate) -
    p.gaussian.cdf.get (p.pmf.sample_floor new_rate - old_rate))

/-- What the two loops of `evolve` add to the new pmf, and where. -/
def contributions (time stddev : ℚ) : List (Nat × ℚ) :=
  p.pmf.function.zipIdx.flatMap fun (old_prob, old_index) =>
    let old_rate := p.pmf.from_bin_mid old_index
    (p.pmf.range (old_rate - 5 * stddev) (old_rate + 5 * stddev)).map fun new_index =>
      (new_index, p.contribution N time old_prob old_index new_index)

/-- Apply brownian motion. -/
def evolve (time : ℚ) : Option Process :=
  let stddev := p.brownian_motion_rate * N.sqrt time
  let p := { p with gaussian := p.gaussian.calculate N stddev, normalized := false }
  let contributions := p.contributions N time stddev
  if 0 ≤ p.zero_escape_probability N time ∧ p.zero_escape_probability N time ≤ 1 ∧
      ∀ c ∈ contributions, 0 ≤ c.2 ∧ c.2 ≤ 1 then
    let new_pmf := p.pmf.for_each fun _ _ _ => 0
    some { p with
      probability_mass_function :=
        { new_pmf with function := Weights.addAll contributions new_pmf.function } }
  else
    none

/-- Set the rate to a known quantity. -/
def set_certain (rate : ℚ) : Option Process :=
  let index_to_hit := p.pmf.to_bin rate
  let p := normalize
    { p with
      probability_mass_function :=
        p.pmf.for_each fun _ _ index => if index = index_to_hit then 1 else 0
      normalized := false }
  if p.pmf.get rate = 1 then some p else none

/-- Count probabilities assuming no evolution. -/
def count_probability (time : ℚ) (counts : Nat) : ℚ :=
  (p.pmf.function.mapIdx fun index rate_probability =>
    rate_probability * N.poissonpdf (p.pmf.from_bin_mid index * time) counts).sum

end Process

end ALCC.Sprout
