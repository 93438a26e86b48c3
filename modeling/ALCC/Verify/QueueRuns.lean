import ALCC.Verify.CircularQueue
import ALCC.Theory.Run

/-! Sequences of `insert` and `remove` calls on one queue. A call comes with buffers that are
long enough for its length. The queue is a FIFO of the accepted bytes all along a run exactly as
long as no call inserts `MAX` bytes or more into the empty queue (`always_fifo_iff`): the clamp
of the empty case is `MAX`, where the sibling cases leave one cell free. -/

namespace ALCC

open CircularQueue Machine

variable {α : Type*}

inductive QueueCall (α : Type*) where
  | insert (item : List α) (len : Nat) (h : len ≤ item.length)
  | remove (chunk : List α) (len : Nat) (h : len ≤ chunk.length)

/-- A queue with the bytes its inserts reported as accepted and its removes returned. -/
structure History (α : Type*) where
  queue : CircularQueue α
  accepted : List α
  removed : List α

namespace History

/-- The empty queue, over an array of unspecified bytes. -/
def init (cqueueArr : List α) : History α := ⟨.new cqueueArr, [], []⟩

def step (s : History α) : QueueCall α → Option (History α)
  | .insert item len _ => do
    let (queue, ret) ← s.queue.insert item len
    return { s with queue, accepted := s.accepted ++ item.take ret.toNat }
  | .remove chunk len _ => do
    let (queue, chunk, ret) ← s.queue.remove chunk len
    return { s with queue, removed := s.removed ++ chunk.take ret.toNat }

/-- The queue is the FIFO of the accepted bytes. -/
structure Fifo (s : History α) : Prop where
  bytes : s.removed ++ s.queue.contents = s.accepted
  length : s.queue.length = s.accepted.length - s.removed.length
  remove : ∀ (chunk : List α) (len : Nat), len ≤ chunk.length →
    ∃ queue chunk', s.queue.remove chunk len =
      some (queue, chunk', ((min len s.queue.contents.length : Nat) : Int))

/-- An insert meets a non-empty queue, or asks for less than `MAX` bytes. -/
def Fits (s : History α) : QueueCall α → Prop
  | .insert _ len _ => s.queue.front ≠ s.queue.rear ∨ len < s.queue.MAX
  | .remove .. => True

variable {s t : History α} {item chunk : List α} {len : Nat}

/-- The queue is in order and its account, as one of the bounded FIFO it implements, is even. -/
structure Inv (s : History α) : Prop where
  wf : s.queue.WF
  account : wf.fifo.Account s.accepted s.removed

theorem Inv.init {arr : List α} (h : 1 ≤ arr.length) : (History.init arr).Inv :=
  ⟨.new h, rfl⟩

theorem Inv.fifo (h : s.Inv) : s.Fifo where
  bytes := h.account
  length := by
    have := h.account.length
    rw [h.wf.length_eq, ← this]
    simp only [WF.fifo]
    omega
  remove chunk len hlen := by
    exact ⟨_, _, remove_spec h.wf hlen⟩

theorem step_insert (h : s.queue.WF) (hitem : len ≤ item.length)
    (hlen : s.queue.front ≠ s.queue.rear ∨ len < s.queue.MAX) :
    ∃ q', s.step (.insert item len hitem) =
        some { s with queue := q', accepted := s.accepted ++ item.take (min len s.queue.free) } ∧
      q'.WF ∧ q'.contents = s.queue.contents ++ item.take (min len s.queue.free) := by
  obtain ⟨q', hq, hwf, -, hcont⟩ := insert_spec h hitem hlen
  refine ⟨q', ?_, hwf, hcont⟩
  simp only [step, hq, Option.bind_eq_bind, Option.bind_some, Option.pure_def, Int.toNat_natCast]

theorem step_remove (h : s.queue.WF) (hchunk : len ≤ chunk.length) :
    s.step (.remove chunk len hchunk) = some { s with
      queue := s.queue.skip (min len s.queue.contents.length)
      removed := s.removed ++ s.queue.contents.take (min len s.queue.contents.length) } := by
  simp only [step, remove_spec h hchunk, Option.bind_eq_bind, Option.bind_some, Option.pure_def,
    Int.toNat_natCast]
  rw [List.take_left' (by rw [List.length_take]; omega)]

theorem step_overfull (h : s.queue.WF) (hitem : len ≤ item.length)
    (hempty : s.queue.front = s.queue.rear) (hlen : s.queue.MAX ≤ len) :
    ∃ q', s.step (.insert item len hitem) =
        some { s with queue := q', accepted := s.accepted ++ item.take s.queue.MAX } ∧
      q'.WF ∧ q'.contents = [] := by
  obtain ⟨q', hq, hwf, hcont⟩ := insert_overfull h hempty hlen hitem
  refine ⟨q', ?_, hwf, hcont⟩
  simp only [step, hq, Option.bind_eq_bind, Option.bind_some, Option.pure_def, Int.toNat_natCast]

/-- No call leaves an array, whatever its length. -/
theorem step_total (h : s.queue.WF) (c : QueueCall α) : ∃ t, s.step c = some t ∧ t.queue.WF := by
  cases c with
  | insert item len hitem =>
    obtain ⟨q', ret, hq, hwf⟩ := insert_total h hitem
    simp only [step, hq, Option.bind_eq_bind, Option.bind_some, Option.pure_def]
    exact ⟨_, rfl, hwf⟩
  | remove chunk len hchunk =>
    exact ⟨_, step_remove h hchunk, h.skip (by omega)⟩

theorem Inv.step {c : QueueCall α} (h : s.Inv) (hfit : s.Fits c) (hs : s.step c = some t) :
    t.Inv := by
  cases c with
  | insert item len hitem =>
    obtain ⟨q', hq, hwf, hcont⟩ := step_insert h.wf hitem hfit
    cases hq.symm.trans hs
    refine ⟨hwf, ?_⟩
    have hpush : s.removed ++ (s.queue.contents ++ (item.take len).take s.queue.free) =
      s.accepted ++ (item.take len).take s.queue.free := h.account.push (item.take len)
    rw [List.take_take, Nat.min_comm] at hpush
    rw [BoundedFifo.Account, WF.bytes_fifo, hcont]
    exact hpush
  | remove chunk len hchunk =>
    cases (step_remove h.wf hchunk).symm.trans hs
    refine ⟨h.wf.skip (by omega), ?_⟩
    have hpop := h.account.pop (min len s.queue.contents.length)
    rw [BoundedFifo.Account, WF.bytes_fifo, contents_skip h.wf (by omega)]
    exact hpop

/-- The bytes of an overfull insert are reported as accepted, and gone. -/
theorem not_fifo_of_overfull {c : QueueCall α} (h : s.Inv) (hfit : ¬ s.Fits c)
    (hs : s.step c = some t) : ¬ t.Fifo := by
  cases c with
  | remove chunk len hchunk => exact absurd trivial hfit
  | insert item len hitem =>
    simp only [Fits, not_or, not_not, Nat.not_lt] at hfit
    obtain ⟨q', hq, -, hcont⟩ := step_overfull h.wf hitem hfit.1 hfit.2
    cases hq.symm.trans hs
    intro hfifo
    have hlen := congrArg List.length hfifo.bytes
    have haccount := h.account.length
    have hnil := h.wf.contents_eq_nil.mpr hfit.1
    have hlt := h.wf.front_lt
    simp only [hcont, List.append_nil, List.length_append, List.length_take, WF.fifo, hnil,
      List.length_nil] at hlen haccount
    omega

end History

/-- For every capacity and every sequence of calls, no call leaves an array; and the queue is a
FIFO of the accepted bytes after every call exactly if no call inserts `MAX` bytes or more into
the empty queue. -/
theorem always_fifo_iff (cqueueArr : List α) (hMAX : 1 ≤ cqueueArr.length)
    (calls : List (QueueCall α)) :
    (∃ s, run History.step (.init cqueueArr) calls = some s) ∧
      (Always History.step History.Fifo (.init cqueueArr) calls ↔
        Guarded History.step History.Fits (.init cqueueArr) calls) := by
  have hwf : (History.init cqueueArr).queue.WF := .new hMAX
  obtain ⟨s, hs, -⟩ := run_total (I := fun s : History α => s.queue.WF)
    (fun _ c h => History.step_total h c) hwf calls
  refine ⟨⟨s, hs⟩, ?_⟩
  exact always_iff_guarded (fun _ h => h.fifo) (fun _ _ _ h => h.step)
    (fun _ _ _ h => History.not_fifo_of_overfull h) (.init hMAX) hs

theorem always_fifo_two_cells : Always History.step History.Fifo (.init [0, 0])
      [.insert [7, 8] 1 (by decide), .remove [0, 0, 0] 3 (by decide)] := by
  refine ((always_fifo_iff [0, 0] (by decide) _).2).mpr ?_
  refine ⟨.inr (by decide), fun t _ => ⟨trivial, fun _ _ => trivial⟩⟩

/-- Four bytes inserted into an empty queue of capacity 4 are accepted, and the queue is empty. -/
theorem insert_MAX_not_fifo :
    ∃ s, run History.step (.init [0, 0, 0, 0]) [.insert [1, 2, 3, 4] 4 (by decide)] = some s ∧
      s.accepted = [1, 2, 3, 4] ∧ s.queue.length = 0 ∧ s.removed = [] ∧ ¬ s.Fifo :=
  ⟨_, rfl, rfl, rfl, rfl, fun h => absurd h.length (by decide)⟩

end ALCC
