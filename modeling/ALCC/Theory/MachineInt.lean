import Mathlib.Algebra.Group.Int.Defs
import Mathlib.Algebra.Group.Nat.Defs
import Mathlib.Data.Int.Basic

/-! The C++ integer conversions on a 64-bit machine: a value is reduced modulo the width of the
target type, into its unsigned or its two's complement range. -/

namespace MachineInt

/-- Conversion to `unsigned long` and `unsigned long long`. -/
def toU64 (x : Int) : Nat := (x % 2 ^ 64).toNat

/-- Conversion to `int64_t` and `long long`. -/
def toI64 (x : Int) : Int := (x + 2 ^ 63) % 2 ^ 64 - 2 ^ 63

/-- Conversion to `int`. -/
def toI32 (x : Int) : Int := (x + 2 ^ 31) % 2 ^ 32 - 2 ^ 31

theorem toU64_of_nonneg {x : Int} (h : 0 ≤ x) (hx : x < 2 ^ 64) : (toU64 x : Int) = x := by
  rw [toU64]
  omega

theorem toI32_of_mem {x : Int} (h : -2 ^ 31 ≤ x) (hx : x < 2 ^ 31) : toI32 x = x := by
  rw [toI32]
  omega

/-- The quotient of a difference that does not wrap around. -/
theorem toI32_toU64_sub_div {a b d m : Nat} (h : a = b + d) (hd : d < 2 ^ 32) (hm : 2 ≤ m) :
    toI32 ((toU64 (a - b) / m : Nat) : Int) = (d / m : Nat) := by
  have hsub : toU64 (a - b) = d := by
    have := toU64_of_nonneg (x := (a - b : Int)) (by omega) (by omega)
    omega
  have hquot : d / m < 2 ^ 31 := by
    have : d / m ≤ d / 2 := Nat.div_le_div_left hm (by decide)
    omega
  rw [hsub]
  generalize d / m = quot at hquot ⊢
  exact toI32_of_mem (by omega) (by omega)

end MachineInt
