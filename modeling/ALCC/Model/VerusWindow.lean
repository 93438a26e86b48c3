import ALCC.Model.Verus
import Mathlib.Order.Lattice.Nat

/-! What `ALCCReceive` of `libalcc_verus.cpp` does to the window and to the permits upon an
acknowledged packet: the exit from slow start, `updateUponReceivingPacket` and the growth of slow
start. Of `updateUponReceivingPacket` only the delay curve is kept; `dTBar`, `dMin`, `dEst` and
`delaysEpochList` are read by `ALCCVerus` alone, and added with its epochs. -/

namespace ALCC.Verus

open Binary64

structure Timeval where
  tv_sec : Int
  tv_usec : Int
  deriving DecidableEq

/-- The delay of a packet, in milliseconds. -/
def delay (receivedtime sendTime : Timeval) : ℚ :=
  double (double (double (receivedtime.tv_sec - sendTime.tv_sec : Int) * 1000) +
    double (double (receivedtime.tv_usec - sendTime.tv_usec : Int) / 1000))

def ewma (vals delay alpha : ℚ) : ℚ :=
  if vals < 0 then delay else double (double (vals * alpha) + double (double (1 - alpha) * delay))

def MAX_W_DELAY_CURVE : Int := 40000

/-- The entries of `wList` without a delay, which have the value `-1`, are left out. -/
structure Window where
  slowStart : Bool
  wBar : ℚ
  wList : Finmap fun _ : Int => ℚ

namespace Window

def SS_EXIT_THRESHOLD : ℚ := 500

def VERUS_M_DECREASE : ℚ := double (7 / 10)

/-- The constructor, and `restartSlowStart`. -/
def initial : Window where
  slowStart := true
  wBar := 1
  wList := ∅

/-- The largest recorded window. -/
def max_i (ctl : Window) : Nat :=
  max 1 ((ctl.wList.keys.filter fun i =>
    1 ≤ i ∧ i < MAX_W_DELAY_CURVE ∧ 0 ≤ (ctl.wList.lookup i).getD (-1)).sup Int.toNat)

/-- `wList[w] = ewma (wList[w], delay, 0.875)`. -/
def updateUponReceivingPacket (delay : ℚ) (w : Int) (ctl : Window) : Window :=
  { ctl with wList := ctl.wList.insert w (ewma ((ctl.wList.lookup w).getD (-1)) delay (7 / 8)) }

/-- The exit from slow start, with the new value of `tempS`. -/
def exitSlowStart (delay : ℚ) (w seq tempS : Int) (ctl : Window) : Window × Int :=
  if ctl.slowStart ∧ (SS_EXIT_THRESHOLD < delay ∨ 5000 < seq) then
    ({ ctl with wBar := double (VERUS_M_DECREASE * double w), slowStart := false }, 0)
  else
    (ctl, tempS)

/-- The growth of slow start: `tempS += fmax(0, wBar-wCrt-tempS)`. -/
def growSlowStart (wCrt tempS : Int) (ctl : Window) : Window × Int :=
  if ctl.slowStart then
    let wBar := double (ctl.wBar + 1)
    let refill := max 0 (double (double (wBar - double wCrt) - double tempS))
    ({ ctl with wBar }, tempS + trunc refill)
  else
    (ctl, tempS)

/-- What happens upon an acknowledged packet. Without an entry in `sendingList` the variable `w`
keeps an old value, which is 0 here, and without one in `seqNumbersList` the behaviour is
undefined. -/
def received (ctl : Window) (receivedtime : Timeval) (sendTime : Option Timeval) (w : Option Int)
    (seq wCrt tempS : Int) : Window × Int :=
  match sendTime with
  | some sendTime =>
    let delay := delay receivedtime sendTime
    let w := w.getD 0
    let (ctl, tempS) := ctl.exitSlowStart delay w seq tempS
    (ctl.updateUponReceivingPacket delay w).growSlowStart wCrt tempS
  | none => (ctl, tempS)

end Window

def controller : Controller Window Timeval where
  wBar ctl := trunc ctl.wBar
  received := Window.received

end ALCC.Verus
