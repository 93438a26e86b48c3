import ALCC.Theory.Binary64
import Mathlib.Order.WithBot

/-! A refresh of the delay curve in `ALCCCurve` of `libalcc_verus.cpp`:

    while (max_i/N < 5) {
      N--;
      if (N < 1)
        restartSlowStart();
    }
    if (max_i/N > 4 && N > 0)
      spline1dfitpenalized(xi, yi, max_i/N, 2.0, info, splineTemp, rep);

The divisor `N` is a `double` and a local variable of the thread. It starts at 15, and only takes
the values 15, 14, …, 0. -/

namespace ALCC.Verus.Curve

open Binary64

/-- `max_i/N`. A division of a positive number by 0 yields the infinity. -/
def quotient (max_i N : Nat) : WithTop ℚ := if N = 0 then ⊤ else double ((max_i : ℚ) / N)

/-- The loop. It calls `restartSlowStart` when it brings `N` down to 0. -/
def narrow (max_i : Nat) : Nat → Nat × Bool
  | 0 => (0, false)
  | N + 1 =>
    if quotient max_i (N + 1) < 5 then
      let (N', restarts) := narrow max_i N
      (N', decide (N < 1) || restarts)
    else
      (N + 1, false)

/-- What a refresh does: the new `N`, whether the loop calls `restartSlowStart`, and the number of
basis functions if a spline is fitted. -/
structure Refresh where
  N : Nat
  restarts : Bool
  fit : Option Int
  deriving DecidableEq

/-- A refresh for the largest recorded window `max_i`. The number of basis functions is an integer
argument of `spline1dfitpenalized`. -/
def refresh (max_i N : Nat) : Refresh :=
  let (N, restarts) := narrow max_i N
  { N
    restarts
    fit := if 4 < quotient max_i N ∧ 0 < N then some (trunc (double ((max_i : ℚ) / N))) else none }

/-- `N` when the thread starts. -/
def initialN : Nat := 15

/-- `N` after the refreshes of `history`, the latest first. -/
def divisorAfter : List Nat → Nat
  | [] => initialN
  | max_i :: history => (refresh max_i (divisorAfter history)).N

end ALCC.Verus.Curve
