import ALCC.Model.Copa
import ALCC.Model.Libalcc

/-! A process that uses one of the libraries: the application with its calls of `alcc_accept`,
`alcc_send` and `alcc_close`, one after the other, and the threads of all connections. `alcc_send`
and `alcc_close` look the descriptor up in `alccSocketList`; their pointer stays unset if there is
no entry:

    ALCCSocket *alcc;
    if (alccSocketList.find(sockfd) != alccSocketList.end())
      alcc = alccSocketList.find(sockfd)->second;

An unset pointer points anywhere: to another `ALCCSocket`, or to no object, which ends the
process. -/

namespace ALCC

open Connection

/-- An `ALCCSocket` with its threads. `deleted` tells that its destructor has begun. -/
structure Cell (α β τ : Type*) where
  conn : Connection α β τ
  deleted : Bool

/-- An address is an index of `heap`. `accepts` has the descriptors that `alcc_accept` returned and
the `ALCCSocket`s it created for them, the latest first, and `closing` is the `ALCCSocket` that
`alcc_close` works on. -/
structure Process (α β τ : Type*) where
  heap : List (Cell α β τ)
  alccSocketList : Finmap fun _ : Int => Nat
  accepts : List (Int × Nat)
  closing : Option Nat
  ended : Bool

namespace Process

variable {α β ε τ : Type*}

inductive Action (α β ε τ : Type*) where
  /-- `::accept` yields `new_sockfd`. `sock` is what the constructor of `ALCCSocket` leaves. -/
  | alccAccept (new_sockfd : Int) (cqueueArr : List α) (data : Int → α) (sock : β)
  /-- `unset` is the value of the unset pointer. -/
  | alccSend (sockfd : Int) (buffer : List α) (buflen : Nat) (unset : Nat)
  | alccClose (sockfd : Int) (unset : Nat)
  /-- The next step within `alcc_close`. -/
  | app
  /-- A step of the sender thread of the `ALCCSocket` at `address`. -/
  | sender (address : Nat) (now : τ) (ret : Int)
  /-- A step of another thread of the `ALCCSocket` at `address`. -/
  | thread (address : Nat) (e : ε)

def init : Process α β τ where
  heap := []
  alccSocketList := ∅
  accepts := []
  closing := none
  ended := false

/-- The pointer `alcc` after the look-up. -/
def alcc (s : Process α β τ) (sockfd : Int) (unset : Nat) : Nat :=
  (s.alccSocketList.lookup sockfd).getD unset

/-- A step of a connection. -/
def connStep (L : Library β ε τ) (s : Process α β τ) (address : Nat)
    (a : Connection.Action α ε τ) : Option (Process α β τ) :=
  match s.heap[address]? with
  | some cell =>
    (cell.conn.step L a).map fun conn => { s with heap := s.heap.set address { cell with conn } }
  | none => some { s with ended := true }

/-- A step within `alcc_close` on the `ALCCSocket` at `address`. `delete` begins with the
destructor, which ends the process at the first member of type `std::thread`. -/
def closeStep (L : Library β ε τ) (s : Process α β τ) (address : Nat) (cell : Cell α β τ) :
    Option (Process α β τ) :=
  if cell.conn.app = .deleting ∧ L.deletes = true ∧ cell.deleted = false then
    some { s with heap := s.heap.set address { cell with deleted := true } }
  else
    (cell.conn.appStep L).map fun conn =>
      { s with
        heap := s.heap.set address { cell with conn }
        closing := if conn.app = .closed then none else some address
        ended := decide (conn.app = .aborted) }

/-- The cell that `alcc_close` works on. -/
def closingCell (s : Process α β τ) : Option (Nat × Cell α β τ) :=
  s.closing.bind fun address => (s.heap[address]?).map (address, ·)

def step (L : Library β ε τ) (s : Process α β τ) (a : Action α β ε τ) : Option (Process α β τ) :=
  if s.ended then
    none
  else
    match a with
    | .alccAccept new_sockfd cqueueArr data sock =>
      if s.closing.isSome then
        none
      else
        some { s with
          heap := s.heap ++ [⟨.init cqueueArr data sock, false⟩]
          alccSocketList := s.alccSocketList.insert new_sockfd s.heap.length
          accepts := (new_sockfd, s.heap.length) :: s.accepts }
    | .alccSend sockfd buffer buflen unset =>
      if s.closing.isSome then
        none
      else
        s.connStep L (s.alcc sockfd unset) (.alccSend buffer buflen)
    | .alccClose sockfd unset =>
      if s.closing.isSome then
        none
      else
        (s.connStep L (s.alcc sockfd unset) .alccClose).map fun t =>
          { t with closing := some (s.alcc sockfd unset) }
    | .app => s.closingCell.bind fun (address, cell) => s.closeStep L address cell
    | .sender address now ret =>
      if address < s.heap.length then s.connStep L address (.sender now ret) else none
    | .thread address e =>
      if address < s.heap.length then s.connStep L address (.thread e) else none

end Process

/-- Where `CC_logic` of `libalcc_copa.cpp` stands. No other thread reads its variables. -/
inductive Copa.CCPc where
  | start
  | loop
  | refill
  | returned
  deriving DecidableEq

def Copa.ccStep {γ τ : Type*} (b : Threads γ τ) (terminateThreads : Bool) (cc : CCPc) :
    Option CCPc :=
  if b.sock.cc_loigc_thread then
    match cc with
    | .start => some .loop
    | .loop => some (if terminateThreads then .returned else .refill)
    | .refill => some .loop
    | .returned => none
  else
    none

/-- `libalcc_copa.cpp` with `CC_logic`, whose steps are the events `none`. -/
def Copa.libraryCC {γ τ : Type*} (C : Controller γ τ) :
    Library (Threads γ τ × CCPc) (Option (Event τ)) τ where
  MTU := MTU
  test b := (library C).test b.1
  turn now := Prod.map ((library C).turn now) id
  sPkts b := (library C).sPkts b.1
  breakInner := (library C).breakInner
  dequeued := Prod.map (library C).dequeued id
  sent := (library C).sent.map fun update now => Prod.map (update now) id
  thread
    | some e, terminateThreads, (b, cc) => ((library C).thread e terminateThreads b).map (·, cc)
    | none, terminateThreads, (b, cc) => (ccStep b terminateThreads cc).map (b, ·)
  deletes := (library C).deletes

end ALCC
