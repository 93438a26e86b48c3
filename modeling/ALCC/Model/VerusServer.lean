import ALCC.Model.VerusWindow
import ALCC.Theory.OrderedMap

/-! The server of the native Verus in `verus_server.cpp`: the packets that `sending_thread` sends,
the acknowledgements that `receiver_thread` takes, the missing packets that `main` finds expired,
and `TimeoutHandler`, within one session of `ssId`. Of the delay curve there is what these four
read. `main` and `delayProfile_thread` may change it at any time, and with it `wBar`. -/

namespace ALCC.VerusServer

open Binary64 MachineInt Verus

def MISSING_PKT_EXPIRY : ℚ := 150

/-- A `udp_packet_t` of the session. -/
structure UdpPacket where
  seq : Nat
  w : Int
  seconds : Int
  millis : Int

/-- The packets in flight. `strays` are the packets that `createMissingPdu` has not found in
`sendingList`. -/
structure Accounts where
  pktSeq : Int
  seqLast : Nat
  wCrt : Int
  sendingList : Finmap fun _ : Nat => Int
  missingsequence_queue : Finmap fun _ : Int => UdpPacket
  strays : List Nat

/-- The window and the delay curve. The entries of `wList` without a delay are left out. -/
structure Window where
  wBar : ℚ
  dEst : ℚ
  dMin : ℚ
  wList : Finmap fun _ : Int => ℚ
  haveSpline : Bool
  spline : ℚ → Option ℚ

structure Server extends Accounts, Window where
  slowStart : Bool
  lossPhase : Bool

/-- The delay of a packet, in milliseconds. -/
def UdpPacket.delay (receivedtime : Timeval) (pdu : UdpPacket) : ℚ :=
  Verus.delay receivedtime ⟨pdu.seconds, pdu.millis⟩

namespace Window

def wListAt (c : Window) (i : Int) : ℚ := (c.wList.lookup i).getD (-1)

/-- `calcDelayCurveInv`. If the spline throws, the result is an unset variable, which is 0 here. -/
def calcDelayCurveInv (w : ℚ) (c : Window) : ℚ :=
  if c.haveSpline then (c.spline w).getD 0
  else if w < MAX_W_DELAY_CURVE then c.wListAt (trunc w)
  else c.wListAt MAX_W_DELAY_CURVE

/-- `updateUponReceivingPacket`, but for `wCrt`. -/
def updateUponReceivingPacket (delay : ℚ) (w : Int) (lossPhase : Bool) (c : Window) : Window :=
  let c := { c with dMin := if delay < c.dMin then delay else c.dMin }
  if lossPhase then
    let c := { c with wBar := double (c.wBar + double (1 / c.wBar)) }
    if c.haveSpline then { c with dEst := min c.dEst (c.calcDelayCurveInv c.wBar) } else c
  else
    { c with wList := c.wList.insert w (ewma (c.wListAt w) delay (7 / 8)) }

end Window

namespace Accounts

/-- `if (wCrt > 0) wCrt--`. -/
def release (a : Accounts) : Accounts :=
  { a with wCrt := if 0 < a.wCrt then a.wCrt - 1 else a.wCrt }

/-- A packet with the window `w` is sent. Its number is an `int` in between. -/
def send (w : Int) (a : Accounts) : Accounts :=
  { a with
    pktSeq := a.pktSeq + 1
    sendingList := a.sendingList.insert (toU64 (toI32 (a.pktSeq + 1))) w
    wCrt := a.wCrt + 1 }

/-- `createMissingPdu`, where `stray` is what the end of `sendingList` yields. -/
def createMissingPdu (currentTime : Timeval) (stray : Int) (i : Int) (a : Accounts) : Accounts :=
  let seq := toU64 i
  let pdu : UdpPacket :=
    ⟨seq, (a.sendingList.lookup seq).getD stray, currentTime.tv_sec, currentTime.tv_usec⟩
  { a with
    missingsequence_queue := a.missingsequence_queue.insert i pdu
    strays := if seq ∈ a.sendingList then a.strays else seq :: a.strays }

/-- The loop of `receiver_thread` over the packets before `seq`. Its variable is an `unsigned int`,
so it does not end if `seq` is larger than any. -/
def createMissingPdus (clock : Nat → Timeval) (stray : Int) (seq : Nat) (a : Accounts) :
    Option Accounts :=
  let first := (a.seqLast + 1) % 2 ^ 32
  if seq < 2 ^ 32 then
    some <| (List.range' first (seq - first)).foldl
      (fun a i => a.createMissingPdu (clock i) stray (toI32 i)) a
  else
    none

/-- The end of `receiver_thread`. -/
def settle (seq : Nat) (a : Accounts) : Accounts :=
  { a with
    seqLast := if a.seqLast + 1 ≤ seq then seq else a.seqLast
    sendingList := a.sendingList.erase seq }

/-- An expired packet leaves. -/
def drop (pdu : UdpPacket) (a : Accounts) : Accounts :=
  { a with
    missingsequence_queue := a.missingsequence_queue.erase (toI32 pdu.seq)
    sendingList := a.sendingList.erase pdu.seq }.release

end Accounts

namespace Server

/-- The start of the program. -/
def start : Server where
  pktSeq := 0
  seqLast := 0
  wCrt := 0
  sendingList := ∅
  missingsequence_queue := ∅
  strays := []
  wBar := 1
  dEst := 0
  dMin := 1000
  wList := ∅
  haveSpline := false
  spline _ := none
  slowStart := true
  lossPhase := false

/-- A packet that `sendto` takes. -/
def send (s : Server) : Server := { s with toAccounts := s.toAccounts.send (toI32 (trunc s.wBar)) }

/-- `updateUponReceivingPacket`. -/
def updateUponReceivingPacket (delay : ℚ) (w : Int) (s : Server) : Server :=
  { s with
    toAccounts := s.toAccounts.release
    toWindow := s.toWindow.updateUponReceivingPacket delay (toI32 w) s.lossPhase }

/-- The exit from slow start in `receiver_thread`. -/
def exitSlowStart (delay : ℚ) (w : Int) (s : Server) : Server :=
  if s.slowStart ∧ Verus.Window.SS_EXIT_THRESHOLD < delay then
    let wBar := double (Verus.Window.VERUS_M_DECREASE * double w)
    { s with
      wBar
      dEst := { s.toWindow with wBar }.calcDelayCurveInv wBar
      lossPhase := true
      slowStart := false }
  else
    s

/-- The exit from the loss phase. -/
def exitLossPhase (w : Int) (s : Server) : Server :=
  if s.lossPhase ∧ double w ≤ s.wBar then { s with lossPhase := false } else s

/-- The three branches of `receiver_thread`. -/
def acknowledge (delay : ℚ) (pdu : UdpPacket) (clock : Nat → Timeval) (stray : Int) (s : Server) :
    Option Server :=
  if pdu.seq = s.seqLast + 1 then
    some (s.updateUponReceivingPacket delay pdu.w)
  else if pdu.seq < s.seqLast then
    if toI32 pdu.seq ∈ s.missingsequence_queue then
      let s := { s with
        missingsequence_queue := s.missingsequence_queue.erase (toI32 pdu.seq) }
      some (s.updateUponReceivingPacket delay pdu.w)
    else
      some s
  else
    (s.toAccounts.createMissingPdus clock stray pdu.seq).map fun accounts =>
      { s with toAccounts := accounts }.updateUponReceivingPacket delay pdu.w

/-- The end of `receiver_thread`. -/
def settle (seq : Nat) (s : Server) : Server :=
  { s with
    toAccounts := s.toAccounts.settle seq
    wBar := if s.slowStart then double (s.wBar + 1) else s.wBar }

/-- A round of `receiver_thread`. -/
def receive (pdu : UdpPacket) (receivedtime : Timeval) (clock : Nat → Timeval) (stray : Int)
    (s : Server) : Option Server :=
  let delay := pdu.delay receivedtime
  let s := (s.exitSlowStart delay pdu.w).exitLossPhase pdu.w
  (s.acknowledge delay pdu clock stray).map (·.settle pdu.seq)

/-- The multiplicative decrease, once in a loss phase. -/
def decrease (w : Int) (s : Server) : Server :=
  if s.lossPhase then
    s
  else
    let wBar := max 1 (min s.wBar (double (Verus.Window.VERUS_M_DECREASE * double w)))
    let dEst :=
      if s.slowStart then s.wListAt (trunc wBar)
      else { s.toWindow with wBar }.calcDelayCurveInv wBar
    { s with lossPhase := true, wBar, dEst }

/-- What the first expired packet leads to, with the exit from slow start. -/
def lose (pdu : UdpPacket) (s : Server) : Server :=
  let s := s.decrease pdu.w
  if s.slowStart ∧ 20 < trunc s.wBar then
    { s with
      slowStart := false
      wCrt := 0
      seqLast := s.sendingList.lastKey?.getD s.seqLast
      missingsequence_queue := ∅ }
  else
    s

/-- The loop of `removeExpiredPacketsFromSeqQueue`, for some rounds. -/
def expireLoop (receivedtime : Timeval) : (rounds : Nat) → (timerExpiry : Bool) → Server → Server
  | 0, _, s => s
  | rounds + 1, timerExpiry, s =>
    match s.missingsequence_queue.first? with
    | none => s
    | some pdu =>
      if MISSING_PKT_EXPIRY ≤ pdu.delay receivedtime then
        let s := if timerExpiry then s else s.lose pdu
        expireLoop receivedtime rounds true { s with toAccounts := s.toAccounts.drop pdu }
      else
        s

/-- `removeExpiredPacketsFromSeqQueue`. A round takes at least one packet. -/
def removeExpiredPacketsFromSeqQueue (receivedtime : Timeval) (s : Server) : Server :=
  s.expireLoop receivedtime s.missingsequence_queue.size false

/-- `TimeoutHandler`, but for the restart. -/
def timeoutHandler (s : Server) : Server :=
  if s.slowStart then
    { s with slowStart := false }
  else
    { s with
      lossPhase := true
      wCrt := 0
      dEst := s.dMin
      seqLast := s.sendingList.lastKey?.getD s.seqLast
      sendingList := ∅
      missingsequence_queue := ∅ }

inductive Action where
  | send
  /-- The acknowledgement of the `k`-th packet, with the contents that the client has sent back. -/
  | ack (k : Int) (w seconds millis : Int) (receivedtime : Timeval) (clock : Nat → Timeval)
    (stray : Int)
  | expire (receivedtime : Timeval)
  | timeout
  | control (window : Window)

def step (s : Server) : Action → Option Server
  | .send => some s.send
  | .ack k w seconds millis receivedtime clock stray =>
    s.receive ⟨toU64 (toI32 k), w, seconds, millis⟩ receivedtime clock stray
  | .expire receivedtime => some (s.removeExpiredPacketsFromSeqQueue receivedtime)
  -- a restart begins another session
  | .timeout => if s.seqLast = 0 then none else some s.timeoutHandler
  | .control window => some { s with toWindow := window }

end Server

end ALCC.VerusServer
