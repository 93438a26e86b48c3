import ALCC.Model.VerusCurve
import ALCC.Model.VerusSession
import ALCC.Model.VerusWindow

/-! The four threads of an `ALCCSocket` of `libalcc_verus.cpp` and the mutex `restartLock`.
`ALCCSend` holds it around its inner loop, and `restartSlowStart`, which `ALCCVerus` and `ALCCCurve`
call, around its body. `ALCCReceive` never locks it, but unlocks it after each listed packet. An
unlock frees the mutex whoever calls it. The other mutexes only make threads wait, and are left
out. -/

namespace ALCC.Verus

open Connection

/-- Where `ALCCSend` stands: at the test of `terminateThreads`, before `pthread_mutex_lock`, in the
inner loop, or before `pthread_mutex_unlock`. -/
inductive SendPhase where
  | test
  | locking
  | inside
  | unlocking
  deriving DecidableEq

/-- Where a thread stands in `restartSlowStart`. -/
inductive RestartPc where
  | locking
  | body
  | unlocking
  deriving DecidableEq

/-- Where `ALCCVerus` stands: at the start of its loop, in an epoch, or in `restartSlowStart`. -/
inductive VerusPc where
  | loop
  | epoch
  | restarting (pc : RestartPc)
  | returned
  deriving DecidableEq

/-- Where `ALCCCurve` stands: at the start of its loop, before `spline1dfitpenalized`, or in
`restartSlowStart`. -/
inductive CurvePc where
  | loop
  | fitting
  | restarting (pc : RestartPc)
  | returned
  deriving DecidableEq

/-- A connection with `ALCCVerus`, `ALCCCurve` and `restartLock`. `N` is the local variable of
`ALCCCurve`, and `unlocks` tells that `ALCCReceive` is before its `pthread_mutex_unlock`. -/
structure Locked (α : Type*) where
  conn : Connection α (Threads Window Timeval) Timeval
  restartLock : Bool
  send : SendPhase
  unlocks : Bool
  verus : VerusPc
  curve : CurvePc
  N : Nat

namespace Locked

variable {α : Type*}

inductive Action (α : Type*) where
  | alccSend (buffer : List α) (buflen : Nat)
  | alccClose
  /-- The next step within `alcc_close`. -/
  | app
  /-- A step of `ALCCSend`. -/
  | send (now : Timeval) (ret : Int)
  /-- A step of `ALCCReceive`. -/
  | receive (m : Option Message) (now : Timeval)
  /-- A step of `ALCCVerus`. An epoch ends with a new window and new permits, or with a restart if
  `calcDelayCurve` fails. -/
  | verus (epoch : Option (Window × Int))
  /-- A step of `ALCCCurve`. `spline1dfitpenalized` may throw. -/
  | curve (throws : Bool)

def init (cqueueArr : List α) (data : Int → α) (ctl : Window) : Locked α where
  conn := .init cqueueArr data (.new ctl)
  restartLock := false
  send := .test
  unlocks := false
  verus := .loop
  curve := .loop
  N := Curve.initialN

variable (s : Locked α)

def slowStart : Bool := s.conn.sock.sock.ctl.slowStart

/-- A step of the connection. -/
def connStep (a : Connection.Action α (Event Window Timeval) Timeval) : Option (Locked α) :=
  (s.conn.step (library controller) a).map fun conn => { s with conn }

/-- Whether the sender thread is at the test of `terminateThreads` or has returned. -/
def isOuter : Bool :=
  match s.conn.pc with
  | .outer | .returned => true
  | _ => false

def sendStep (now : Timeval) (ret : Int) : Option (Locked α) :=
  match s.send with
  | .test => (s.connStep (.sender now ret)).map fun t =>
    { t with send := if t.isOuter then .test else .locking }
  | .locking => if s.restartLock then none else some { s with restartLock := true, send := .inside }
  | .inside => (s.connStep (.sender now ret)).map fun t =>
    { t with send := if t.isOuter then .unlocking else .inside }
  | .unlocking => some { s with restartLock := false, send := .test }

/-- `ALCCReceive` is about to credit a packet while packets up to it are listed. -/
def creditsListed : Bool :=
  match s.conn.sock.receiver with
  | .crediting _ (_ + 1) =>
    decide (∃ k ∈ s.conn.sock.sock.seqNumbersList.keys, k ≤ s.conn.sock.sock.seq + 1)
  | _ => false

def receiveStep (m : Option Message) (now : Timeval) : Option (Locked α) :=
  if s.unlocks then
    some { s with restartLock := false, unlocks := false }
  else
    (s.connStep (.thread (.receiver m now))).map fun t => { t with unlocks := s.creditsListed }

/-- A step in `restartSlowStart`, and where it leads to if not out of it. -/
def restartStep : RestartPc → Option (Locked α × Option RestartPc)
  | .locking => if s.restartLock then none else some ({ s with restartLock := true }, some .body)
  | .body =>
    some ({ s with conn := { s.conn with
      sock := s.conn.sock.update (·.restartSlowStart .initial) } }, some .unlocking)
  | .unlocking => some ({ s with restartLock := false }, none)

def verusStep (epoch : Option (Window × Int)) : Option (Locked α) :=
  match s.verus with
  | .loop =>
    some { s with
      verus :=
        if s.conn.terminateThreads then .returned else if s.slowStart then .loop else .epoch }
  | .epoch =>
    match epoch with
    | some (ctl, tempS) =>
      (s.connStep (.thread (.control ctl tempS))).map fun t => { t with verus := .loop }
    | none => some { s with verus := .restarting .locking }
  | .restarting pc => (s.restartStep pc).map fun (t, pc) =>
    { t with verus := match pc with | some pc => .restarting pc | none => .loop }
  | .returned => none

def curveStep (throws : Bool) : Option (Locked α) :=
  match s.curve with
  | .loop =>
    if s.conn.terminateThreads then
      some { s with curve := .returned }
    else if s.slowStart then
      some s
    else
      let refresh := Curve.refresh s.conn.sock.sock.ctl.max_i s.N
      some { s with
        N := refresh.N
        curve := if refresh.restarts then .restarting .locking
          else if refresh.fit.isSome then .fitting else .loop }
  | .fitting => some { s with curve := if throws then .restarting .locking else .loop }
  | .restarting pc => (s.restartStep pc).map fun (t, pc) =>
    { t with curve := match pc with | some pc => .restarting pc | none => .loop }
  | .returned => none

def step : Action α → Option (Locked α)
  | .alccSend buffer buflen => s.connStep (.alccSend buffer buflen)
  | .alccClose => s.connStep .alccClose
  | .app => s.connStep .app
  | .send now ret => s.sendStep now ret
  | .receive m now => s.receiveStep m now
  | .verus epoch => s.verusStep epoch
  | .curve throws => s.curveStep throws

end Locked

end ALCC.Verus
