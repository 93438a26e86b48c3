import ALCC.Model.CircularQueue
import ALCC.Model.SendLoop

/-! One connection of a library: the application that calls `alcc_send` and at last `alcc_close`,
the sender thread, and the other threads of the `ALCCSocket`. The sender threads of the three
libraries have one shape:

    while (!terminateThreads) {
      while (test) {
        gettimeofday(&pktTime, NULL);
        for (int i = 0; i < sPkts; i++) {
          size = sending_queue->remove(data, MTU);
          if (size == 0)
            break;
          ...                                          // the loop of `SendLoop`
          ...                                          // bookkeeping
        }
      }
    }

A test of `terminateThreads`, the dequeue of a chunk, a call of `::send` and each update of the
`ALCCSocket` that another thread can see are steps of their own. `alcc_send` is one step, and so are
a test of the queue length, and the test of the inner `while` with the read of `sPkts`. `ALCCSend`
of Verus also holds `restartLock` around its inner loop, which takes interleavings away; it is left
out here. -/

namespace ALCC

/-- What the libraries put into the common shape. `β` is the state of an `ALCCSocket`, the local
variables of its threads included, `ε` the steps of the threads besides the sender and `τ` the
clock readings. -/
structure Library (β ε τ : Type*) where
  MTU : Nat
  /-- The condition of the inner `while`; its last argument is `terminateThreads`. -/
  test : β → Bool → Bool
  /-- The start of a turn of the inner `while`. -/
  turn : τ → β → β
  /-- The number `sPkts` of rounds of the `for` loop. -/
  sPkts : β → Nat
  /-- The `break` at an empty queue leaves the inner `while`. -/
  breakInner : Bool
  /-- The update between the dequeue and the calls of `::send`. -/
  dequeued : β → β
  /-- The updates after the calls of `::send`. -/
  sent : List (τ → β → β)
  /-- A step of another thread, which may see `terminateThreads`. -/
  thread : ε → Bool → β → Option β
  /-- `alcc_close` deletes the `ALCCSocket` before it closes the descriptor. -/
  deletes : Bool

namespace Connection

/-- Where the sender thread stands. Within the `for` loop it knows `pktTime` and how many rounds
are left. -/
inductive SenderPc (α τ : Type*) where
  | outer
  | inner
  | round (pktTime : τ) (left : Nat)
  | sending (pktTime : τ) (left : Nat) (loop : SendLoop α)
  | recording (pktTime : τ) (left k : Nat)
  | returned

/-- Where the application stands. -/
inductive AppPc where
  /-- It has not called `alcc_close`. -/
  | sending
  /-- `while (length() > 0) usleep(1)`. -/
  | waiting
  /-- Before `terminateThreads = true`. -/
  | terminating
  /-- Before `delete alcc`. -/
  | deleting
  /-- Before `close(sockfd)`. -/
  | closing
  | closed
  /-- The process is gone. -/
  | aborted
  deriving DecidableEq

inductive Action (α ε τ : Type*) where
  | alccSend (buffer : List α) (buflen : Nat)
  | alccClose
  /-- The next step within `alcc_close`. -/
  | app
  /-- The next step of the sender thread. `now` is the time a clock would show it, and `ret` what
  a call of `::send` would return. -/
  | sender (now : τ) (ret : Int)
  | thread (e : ε)

end Connection

open Connection

/-- `data` is the memory around the buffer of the sender thread, `accepted` the bytes that
`alcc_send` took, and `handed` those that `::send` took. -/
structure Connection (α β τ : Type*) where
  sending_queue : CircularQueue α
  terminateThreads : Bool
  sock : β
  data : Int → α
  pc : SenderPc α τ
  app : AppPc
  accepted : List α
  handed : List α

namespace Connection

variable {α β ε τ : Type*}

def init (cqueueArr : List α) (data : Int → α) (sock : β) : Connection α β τ where
  sending_queue := .new cqueueArr
  terminateThreads := false
  sock
  data
  pc := .outer
  app := .sending
  accepted := []
  handed := []

/-- `remove(data, MTU)` and what follows up to the first call of `::send`. -/
def dequeue (L : Library β ε τ) (s : Connection α β τ) (pktTime : τ) (left : Nat) :
    Option (Connection α β τ) :=
  (s.sending_queue.remove ((List.range L.MTU).map fun i : Nat => s.data i) L.MTU).map
    fun (sending_queue, data, size) =>
      if size = 0 then
        { s with sending_queue, pc := if L.breakInner then .outer else .inner }
      else
        let loop := SendLoop.start s.data (data.take size.toNat)
        { s with
          sending_queue
          data := loop.data
          sock := L.dequeued s.sock
          pc := .sending pktTime left loop }

/-- A step of the sender thread. -/
def senderStep (L : Library β ε τ) (s : Connection α β τ) (now : τ) (ret : Int) :
    Option (Connection α β τ) :=
  match s.pc with
  | .outer => some { s with pc := if s.terminateThreads then .returned else .inner }
  | .inner =>
    if L.test s.sock s.terminateThreads then
      some { s with sock := L.turn now s.sock, pc := .round now (L.sPkts s.sock) }
    else
      some { s with pc := .outer }
  | .round _ 0 => some { s with pc := .inner }
  | .round pktTime (left + 1) => s.dequeue L pktTime left
  | .sending pktTime left loop =>
    if loop.z < loop.size then
      if loop.MayReturn ret then
        some { s with
          pc := .sending pktTime left (loop.advance ret)
          handed := s.handed ++ loop.taken ret }
      else
        none
    else
      some { s with pc := .recording pktTime left 0 }
  | .recording pktTime left k =>
    match L.sent[k]? with
    | some update =>
      some { s with sock := update pktTime s.sock, pc := .recording pktTime left (k + 1) }
    | none => some { s with pc := .round pktTime left }
  | .returned => none

/-- A step of `alcc_close`. Deleting an `ALCCSocket` destroys the `std::thread` members of threads
that nobody joins, and this ends the process. -/
def appStep (L : Library β ε τ) (s : Connection α β τ) : Option (Connection α β τ) :=
  match s.app with
  | .sending => none
  | .waiting => some (if s.sending_queue.length > 0 then s else { s with app := .terminating })
  | .terminating => some { s with terminateThreads := true, app := .deleting }
  | .deleting => some { s with app := if L.deletes then .aborted else .closing }
  | .closing => some { s with app := .closed }
  | .closed => none
  | .aborted => none

def step (L : Library β ε τ) (s : Connection α β τ) : Action α ε τ → Option (Connection α β τ)
  | .alccSend buffer buflen =>
    if s.app = .sending ∧ buflen ≤ buffer.length then
      (s.sending_queue.insert buffer buflen).map fun (sending_queue, ret) =>
        { s with sending_queue, accepted := s.accepted ++ buffer.take ret.toNat }
    else
      none
  | .alccClose => if s.app = .sending then some { s with app := .waiting } else none
  | .app => s.appStep L
  | .sender now ret => if s.app = .aborted then none else s.senderStep L now ret
  | .thread e =>
    if s.app = .aborted then
      none
    else
      (L.thread e s.terminateThreads s.sock).map fun sock => { s with sock }

end Connection

end ALCC
