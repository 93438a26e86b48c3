import ALCC.Model.VerusCurve
import ALCC.Model.VerusSession
import ALCC.Model.VerusWindow

/-! The windows of `libalcc_verus.cpp`: `ALCCVerus` reads one off the delay curve in every epoch,
`ALCCCurve` fits a spline to the curve, and `ALCCReceive` takes a cut of the last one when it leaves
slow start. Together with the `for` loop of `ALCCSend` they are the steps of `Epochs`. A credit of
`ALCCReceive`, an epoch, a refresh of the curve and a restart are one step each. -/

namespace ALCC.Verus

open Binary64 MachineInt

def DELTA1 : ℚ := 1

def DELTA2 : ℚ := 2

def VERUS_R : ℚ := 6

/-- `EPOCH/1000.0`. -/
def EPOCH_MS : ℚ := 5

/-- The members that the windows are computed from, and local variables of the threads: `w` of
`ALCCReceive`, which has no value until it is assigned, and `N` of `ALCCCurve`. `used` are the
indices at which `updateUponReceivingPacket` and `calcDelayCurveInv` have used `wList`; the other
accesses are in loops over a part of it. A `spline` that throws yields `none`. -/
structure Control extends Window where
  haveSpline : Bool
  spline : ℚ → Option ℚ
  dTBar : ℚ
  dMin : ℚ
  dEst : ℚ
  dMax : ℚ
  dMaxLast : ℚ
  delaysEpochList : List ℚ
  w : Option Int
  N : Nat
  used : List Int

namespace Control

/-- The constructor, and the start of the threads. -/
def new : Control where
  toWindow := .initial
  haveSpline := false
  spline _ := none
  dTBar := 0
  dMin := 1000
  dEst := 0
  dMax := 0
  dMaxLast := -10
  delaysEpochList := []
  w := none
  N := Curve.initialN
  used := []

/-- `restartSlowStart`. -/
def restart (c : Control) : Control :=
  { c with
    toWindow := .initial
    haveSpline := false
    dTBar := 0
    dMin := 1000
    dEst := 0
    dMax := 0
    dMaxLast := -10
    delaysEpochList := [] }

/-- `wList[i]`. -/
def wListAt (c : Control) (i : Int) : ℚ := (c.wList.lookup i).getD (-1)

/-- The loop of `calcDelayCurveInv`, with the indices it reads. Its subtraction is exact where `w`
is at least 1, and otherwise the last one. -/
def searchDown (c : Control) (w : ℚ) : ℚ × List Int :=
  if c.wListAt (trunc w) < 0 ∧ 0 < w then
    let (ret, used) := c.searchDown (w - 1)
    (ret, trunc w :: used)
  else
    (c.wListAt (trunc w), [trunc w])
termination_by ⌈w⌉.toNat
decreasing_by
  rename_i h
  have hpos : 0 < ⌈w⌉ := Int.ceil_pos.mpr h.2
  rw [Int.ceil_sub_one]
  omega

/-- `calcDelayCurveInv`, with the indices it reads. If the spline throws, the result comes from an
unset variable, which is 0 here. -/
def calcDelayCurveInv (c : Control) (w : ℚ) : ℚ × List Int :=
  if c.haveSpline then
    (max ((c.spline w).getD 0) c.dMin, [])
  else if w < MAX_W_DELAY_CURVE then
    let (ret, used) := c.searchDown w
    (max ret c.dMin, used)
  else
    (max (c.wListAt MAX_W_DELAY_CURVE) c.dMin, [MAX_W_DELAY_CURVE])

/-- The loops of `calcDelayCurve`: the `w` before the first one with a delay above `delay`. -/
def searchUp (c : Control) (delay : ℚ) : Option Nat :=
  ((List.range' 2 (MAX_W_DELAY_CURVE - 2).toNat).find? fun w : Nat =>
    if c.haveSpline then (c.spline w).any fun ret => decide (delay < ret)
    else decide (delay < c.wListAt w)).map (· - 1)

/-- `calcDelayCurve`, if it does not call itself more than `depth` times. -/
def calcDelayCurve (c : Control) (delay : ℚ) : (depth : Nat) → Option ℚ
  | 0 => none
  | depth + 1 =>
    match c.searchUp delay with
    | some w => some w
    | none =>
      if c.haveSpline then some (-1000) else c.calcDelayCurve (double (delay - DELTA2)) depth

/-- `(int) fmax(0, x)`; `none` when it leaves the range of `int`, where the behaviour is
undefined. -/
def permitsOf (x : ℚ) : Option Int :=
  if toI32 (trunc (max 0 x)) = trunc (max 0 x) then some (trunc (max 0 x)) else none

/-- `calcSi`; `none` when an `int` would leave its range. -/
def calcSi (wBar : ℚ) (wCrt tempS : Int) (c : Control) : Option Int :=
  let n := ⌈double (c.dTBar / EPOCH_MS)⌉
  let product := toI32 wCrt * (2 - n)
  if toI32 n ≠ n then
    none
  else if 1 < n then
    if toI32 product = product then permitsOf (double (wBar + product.tdiv (n - 1))) else none
  else
    permitsOf (double (double (wBar - toI32 wCrt) - double tempS))

/-- What an epoch does. -/
inductive Outcome where
  /-- The delay cannot be mapped on the curve. -/
  | restart
  /-- The permits to add. -/
  | permits (S : Int)

def Outcome.restarts : Outcome → Bool
  | .restart => true
  | .permits _ => false

/-- `dMaxLast/dMin > VERUS_R`. -/
def DelayHigh (c : Control) : Prop :=
  if c.dMin = 0 then 0 < c.dMaxLast else VERUS_R < double (c.dMaxLast / c.dMin)

instance (c : Control) : Decidable c.DelayHigh := by
  unfold DelayHigh
  infer_instance

/-- The new `dMax`, where `bufferingDelay` is the time since the last acknowledgement. -/
def setMax (bufferingDelay : ℚ) (c : Control) : Control :=
  let dMax :=
    match c.delaysEpochList with
    | [] => max c.dMaxLast bufferingDelay
    | delay :: delays => delays.foldl max delay
  { c with
    dMax
    delaysEpochList := []
    dMaxLast := if c.dMaxLast = -10 then dMax else c.dMaxLast }

/-- The new `dEst`, and `dMinStop`. -/
def setEst (wCrt : Int) (c : Control) : Control × Bool :=
  if c.DelayHigh then
    let dEst := max c.dMin (double (c.dEst - DELTA2))
    if dEst = c.dMin ∧ toI32 wCrt < 2 then
      ({ c with dEst, dMin := double (c.dMin + 10) }, false)
    else
      ({ c with dEst }, decide (dEst = c.dMin))
  else if double (1 / 10000) < double (c.dMax - c.dMaxLast) then
    ({ c with dEst := max c.dMin (double (c.dEst - DELTA1)) }, false)
  else
    ({ c with dEst := double (c.dEst + DELTA2) }, false)

/-- The new `wBar` and `dMaxLast`. -/
def setWindow (wBarTemp : ℚ) (c : Control) : Control :=
  { c with wBar := max 1 wBarTemp, dMaxLast := ewma c.dMaxLast c.dMax (double (1 / 5)) }

/-- An epoch of `ALCCVerus`. -/
def epoch (bufferingDelay : ℚ) (depth : Nat) (wCrt tempS : Int) (c : Control) :
    Option (Control × Outcome) :=
  let (c, dMinStop) := (c.setMax bufferingDelay).setEst wCrt
  (c.calcDelayCurve c.dEst depth).bind fun wBarTemp =>
    if wBarTemp < 0 then
      some (c, .restart)
    else if dMinStop then
      some (c.setWindow wBarTemp, .permits 0)
    else
      ((c.setWindow wBarTemp).calcSi (max 1 wBarTemp) wCrt tempS).map fun S =>
        (c.setWindow wBarTemp, .permits S)

/-- A refresh in `ALCCCurve`, and whether it restarts. A fit that throws yields `none`. -/
def refresh (fitted : Option (ℚ → Option ℚ)) (c : Control) : Control × Bool :=
  let refresh := Curve.refresh c.max_i c.N
  let c := { c with N := refresh.N }
  if refresh.fit.isSome then
    match fitted with
    | some spline => ({ c with spline, haveSpline := true }, refresh.restarts)
    | none => (c, true)
  else
    (c, refresh.restarts)

/-- `updateUponReceivingPacket`, but for `wCrt`. -/
def updateUponReceivingPacket (delay : ℚ) (w : Int) (c : Control) : Control :=
  { c with
    toWindow := c.toWindow.updateUponReceivingPacket delay w
    delaysEpochList := c.delaysEpochList ++ [delay]
    dTBar := ewma c.dTBar delay (7 / 8)
    dMin := if delay < c.dMin then delay else c.dMin
    used := w :: c.used }

/-- The test for the exit from slow start. -/
def Exits (delay : ℚ) (seq : Int) (c : Control) : Prop :=
  c.slowStart = true ∧ (Window.SS_EXIT_THRESHOLD < delay ∨ 5000 < seq)

instance (delay : ℚ) (seq : Int) (c : Control) : Decidable (c.Exits delay seq) :=
  inferInstanceAs (Decidable (_ ∧ _))

/-- The exit from slow start, with the new value of `tempS`. -/
def exitSlowStart (delay : ℚ) (w seq tempS : Int) (c : Control) : Control × Int :=
  if c.Exits delay seq then
    let wBar := double (Window.VERUS_M_DECREASE * double w)
    let (dEst, used) := { c with wBar }.calcDelayCurveInv wBar
    ({ c with wBar, dEst, slowStart := false, used := used ++ c.used }, 0)
  else
    (c, tempS)

/-- The assignment to `w`, if the packet is in `sendingList`. -/
def setW (w : Option Int) (c : Control) : Control := { c with w := (w.map toI32).or c.w }

/-- What happens upon an acknowledged packet, where `stray` is what the end of `seqNumbersList`
yields, and `unset` the value of `w` before it is assigned. -/
def received (stray : Timeval) (unset : Int) (c : Control) (receivedtime : Timeval)
    (sendTime : Option Timeval) (w : Option Int) (seq wCrt tempS : Int) : Control × Int :=
  let delay := delay receivedtime (sendTime.getD stray)
  let c := c.setW w
  let w := c.w.getD unset
  let (c, tempS) := c.exitSlowStart delay w seq tempS
  let c := c.updateUponReceivingPacket delay w
  let (window, tempS) := c.toWindow.growSlowStart wCrt tempS
  ({ c with toWindow := window }, tempS)

end Control

def epochController (stray : Timeval) (unset : Int) : Controller Control Timeval where
  wBar c := trunc c.wBar
  received := Control.received stray unset

/-- `sender` is the `for` loop that `ALCCSend` is in, with `pktTime` and the rounds left. -/
structure Epochs where
  sock : ALCCSocket Control Timeval
  sender : Option (Timeval × Nat)

namespace Epochs

inductive Action where
  /-- `sPkts = tempS`, and `gettimeofday` shows `now`. -/
  | turn (now : Timeval)
  | send
  /-- The `for` loop is left, since it is through or the queue is empty. -/
  | leave
  /-- A round of the loop of `ALCCReceive`. -/
  | credit (receivedtime stray : Timeval) (unset : Int)
  | epoch (bufferingDelay : ℚ) (depth : Nat)
  | curve (fitted : Option (ℚ → Option ℚ))
  | restart

/-- The constructor. -/
def start : Epochs := ⟨.new .new, none⟩

def restartSlowStart (s : Epochs) : Epochs :=
  { s with sock := s.sock.restartSlowStart s.sock.ctl.restart }

def step (s : Epochs) : Action → Option Epochs
  | .turn now =>
    if s.sender.isNone ∧ 0 < s.sock.tempS then
      some { s with sender := some (now, (toI32 s.sock.tempS).toNat) }
    else
      none
  | .send =>
    match s.sender with
    | some (pktTime, left + 1) =>
      some ⟨s.sock.sendPacket (epochController ⟨0, 0⟩ 0) pktTime, some (pktTime, left)⟩
    | _ => none
  | .leave => if s.sender.isSome then some { s with sender := none } else none
  | .credit receivedtime stray unset =>
    some { s with sock := s.sock.creditPacket (epochController stray unset) receivedtime }
  | .epoch bufferingDelay depth =>
    if s.sock.ctl.slowStart then
      some s
    else
      (s.sock.ctl.epoch bufferingDelay depth s.sock.wCrt s.sock.tempS).map fun
        | (ctl, .restart) => { s with sock := { s.sock with ctl } }.restartSlowStart
        | (ctl, .permits S) => { s with sock := { s.sock with ctl, tempS := s.sock.tempS + S } }
  | .curve fitted =>
    if s.sock.ctl.slowStart then
      some s
    else
      let (ctl, restarts) := s.sock.ctl.refresh fitted
      let s := { s with sock := { s.sock with ctl } }
      some (if restarts then s.restartSlowStart else s)
  | .restart => some s.restartSlowStart

end Epochs

end ALCC.Verus
