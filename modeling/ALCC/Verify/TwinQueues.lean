import ALCC.Model.CircularBuffer
import ALCC.Verify.CircularQueue
import ALCC.Theory.Run

/-! The two versions of the sending queue side by side. They agree as long as no call inserts `MAX`
bytes or more into the empty queue, of which `Circular_Queue` loses all and `circular_buffer` takes
`MAX - 1`, and none removes more bytes than are stored, of which `circular_buffer` always reports as
many as asked for. -/

namespace ALCC

open Machine Ring

variable {α : Type*} {nul : α}

namespace CircularBuffer

variable {b : CircularBuffer α} {items chunk : List α} {x : α} {i k : Nat}

/-- The stored bytes, oldest first. -/
def contents (b : CircularBuffer α) : List α := window b.buf b.tail (distance b.size b.tail b.head)

structure WF (b : CircularBuffer α) : Prop where
  size : b.buf.length = b.size
  head_lt : b.head < b.size
  tail_lt : b.tail < b.size
  filled : b.filled = b.contents.length

theorem WF.new {buf : List α} (h : 1 ≤ buf.length) : (CircularBuffer.new buf).WF :=
  ⟨rfl, h, h, rfl⟩

def free (b : CircularBuffer α) : Nat := b.size - 1 - b.contents.length

theorem WF.length_contents (h : b.WF) : b.contents.length = distance b.size b.tail b.head := by
  have := distance_lt h.tail_lt h.head_lt
  exact length_window h.size (by omega) _

theorem WF.full_iff (h : b.WF) : b.full = true ↔ b.free = 0 := by
  have := h.head_lt
  have := h.tail_lt
  rw [free, h.length_contents, full, beq_iff_eq, wrap_eq_mod (by omega)]
  simp only [wrap, distance]
  split <;> split <;> omega

theorem WF.empty_iff (h : b.WF) : b.empty = true ↔ b.contents = [] := by
  have := h.tail_lt
  rw [← List.length_eq_zero_iff, h.length_contents, empty, beq_iff_eq, distance]
  split <;> omega

theorem WF.put (h : b.WF) (hfree : b.free ≠ 0) (x : α) :
    (b.put x).WF ∧ (b.put x).size = b.size ∧ (b.put x).contents = b.contents ++ [x] := by
  have hroom : distance b.size b.tail b.head + 1 < b.size := by
    rw [free, h.length_contents] at hfree
    omega
  have hlength := h.length_contents
  have hnot := mt h.full_iff.mp hfree
  obtain ⟨hsize, hhead, htail, hfilled⟩ := h
  have hnext : (b.head + 1) % b.size = wrap b.size (b.head + 1) := wrap_eq_mod (by omega)
  rw [full, beq_iff_eq, hnext] at hnot
  have hput : b.put x = { b with
      buf := b.buf.set b.head x
      head := wrap b.size (b.head + 1)
      filled := b.filled + 1 } := by
    rw [CircularBuffer.put, hnext]
    simp only [if_neg hnot]
  have hcontents : (b.put x).contents = b.contents ++ [x] := by
    rw [hput]
    simp only [contents, distance_wrap_rear htail hhead hroom]
    refine window_append hsize htail (by omega) (show 1 ≤ [x].length from le_rfl)
      (by rw [List.length_set, hsize]) (fun i hi => ?_) fun i hi => ?_
    · rw [List.getElem?_set_ne]
      simp only [wrap, distance] at hi hroom ⊢
      split at hi <;> split <;> omega
    · obtain rfl := Nat.lt_one_iff.mp hi
      rw [wrap_add_distance htail hhead (by omega), wrap, if_pos (by omega), Nat.add_zero,
        List.getElem?_set_self (by omega)]
      rfl
  refine ⟨⟨?_, ?_, ?_, ?_⟩, ?_, hcontents⟩
  · rw [hput, List.length_set, hsize]
  · rw [hput]
    exact wrap_lt (by omega)
  · rw [hput]
    exact htail
  · rw [hcontents, hput, List.length_append, hfilled]
    rfl
  · rw [hput]

theorem WF.get (nul : α) (h : b.WF) (hne : b.contents ≠ []) :
    (b.get nul).1.WF ∧ (b.get nul).1.size = b.size ∧
      b.contents = (b.get nul).2 :: (b.get nul).1.contents := by
  have hpos := List.length_pos_of_ne_nil hne
  rw [h.length_contents] at hpos
  have hlength := h.length_contents
  have hnot := mt h.empty_iff.mp hne
  obtain ⟨hsize, hhead, htail, hfilled⟩ := h
  have hlt := distance_lt htail hhead
  have hget : b.get nul = ({ b with
      tail := wrap b.size (b.tail + 1)
      filled := b.filled - 1 }, b.buf.getD b.tail nul) := by
    rw [CircularBuffer.get, if_neg hnot, wrap_eq_mod (by omega)]
  have hcontents : (b.get nul).1.contents = b.contents.drop 1 := by
    rw [hget]
    simp only [contents, distance_wrap_front htail hhead hpos]
    rw [drop_window hsize htail (by omega) hpos]
  have hfirst : b.contents[0]? = some (b.get nul).2 := by
    rw [contents, window_cell hsize htail (by omega) hpos, wrap, if_pos (by omega), Nat.add_zero,
      hget, List.getD_eq_getElem?_getD, List.getElem?_eq_getElem (by omega), Option.getD_some]
  refine ⟨⟨?_, ?_, ?_, ?_⟩, ?_, ?_⟩
  · rw [hget]
    exact hsize
  · rw [hget]
    exact hhead
  · rw [hget]
    exact wrap_lt (by omega)
  · rw [hcontents, hget, List.length_drop, hfilled]
    simp only
    omega
  · rw [hget]
  · rw [hcontents]
    obtain ⟨y, rest, hcons⟩ := List.exists_cons_of_ne_nil hne
    rw [hcons] at hfirst ⊢
    cases hfirst
    rfl

/-- `insert` puts as many bytes as there is room for. -/
theorem insertLoop_spec (items : List α) (h : b.WF) :
    (b.insertLoop items).1.WF ∧ (b.insertLoop items).1.size = b.size ∧
      (b.insertLoop items).2 = min items.length b.free ∧
      (b.insertLoop items).1.contents = b.contents ++ items.take b.free := by
  induction items generalizing b with
  | nil => exact ⟨h, rfl, (Nat.zero_min _).symm, by rw [List.take_nil, List.append_nil]; rfl⟩
  | cons x items ih =>
    rw [insertLoop]
    split
    · rename_i hfull
      have hfree := h.full_iff.mp hfull
      exact ⟨h, rfl, by rw [hfree, Nat.min_zero], by rw [hfree, List.take_zero, List.append_nil]⟩
    · rename_i hfull
      have hfree := mt h.full_iff.mpr hfull
      obtain ⟨hput, hsize, hcontents⟩ := h.put hfree x
      obtain ⟨hwf, hsize', hret, hcontents'⟩ := ih hput
      have hfree' : b.free = (b.put x).free + 1 := by
        simp only [free] at hfree ⊢
        rw [hsize, hcontents, List.length_append, List.length_singleton]
        omega
      refine ⟨hwf, hsize'.trans hsize, ?_, ?_⟩
      · simp only [hret, List.length_cons, hfree']
        omega
      · simp only [hcontents', hcontents, hfree', List.take_succ_cons, List.append_assoc,
          List.singleton_append]

/-- `remove` of stored bytes only. -/
theorem removeLoop_spec (nul : α) (h : b.WF) (hk : k ≤ b.contents.length)
    (hchunk : i + k ≤ chunk.length) :
    (b.removeLoop nul chunk i k).1.WF ∧ (b.removeLoop nul chunk i k).1.size = b.size ∧
      (b.removeLoop nul chunk i k).1.contents = b.contents.drop k ∧
      (b.removeLoop nul chunk i k).2 =
        chunk.take i ++ b.contents.take k ++ chunk.drop (i + k) := by
  induction k generalizing b chunk i with
  | zero => exact ⟨h, rfl, rfl, by simp [removeLoop]⟩
  | succ k ih =>
    have hne : b.contents ≠ [] := List.ne_nil_of_length_pos (by omega)
    obtain ⟨hget, hsize, hcontents⟩ := h.get nul hne
    rw [removeLoop, if_neg (mt h.empty_iff.mp hne)]
    have hlength := congrArg List.length hcontents
    rw [List.length_cons] at hlength
    obtain ⟨hwf, hsize', hdrop, hout⟩ := ih hget (by omega)
      (show i + 1 + k ≤ (chunk.set i (b.get nul).2).length by rw [List.length_set]; omega)
    refine ⟨hwf, hsize'.trans hsize, ?_, ?_⟩
    · rw [hdrop, hcontents, List.drop_succ_cons]
    · have htake : (chunk.set i (b.get nul).2).take (i + 1) = chunk.take i ++ [(b.get nul).2] := by
        rw [List.take_add_one, List.take_set_of_le le_rfl, List.getElem?_set_self (by omega)]
        rfl
      rw [hout, hcontents, List.take_succ_cons, htake, List.drop_set_of_lt (by omega),
        Nat.add_right_comm, ← Nat.add_assoc, List.append_assoc _ [_], List.singleton_append]

end CircularBuffer

/-- A call of both versions. The buffers are long enough for either; `circular_buffer` ends the
chunk with a zero. -/
inductive TwinCall (α : Type*) where
  | insert (item : List α) (len : Nat) (h : len ≤ item.length)
  | remove (chunk : List α) (len : Nat) (h : len < chunk.length)

/-- The two versions, with what the last call returned and the bytes that it removed. -/
structure Twin (α : Type*) where
  buffer : CircularBuffer α
  queue : CircularQueue α
  bufferRet : Int
  queueRet : Int
  bufferOut : List α
  queueOut : List α

namespace Twin

/-- The empty queues, over arrays of unspecified bytes. -/
def init (buf cqueueArr : List α) : Twin α := ⟨.new buf, .new cqueueArr, 0, 0, [], []⟩

def step (nul : α) (s : Twin α) : TwinCall α → Option (Twin α)
  | .insert item len _ => do
    let (buffer, bufferRet) := s.buffer.insert item len
    let (queue, queueRet) ← s.queue.insert item len
    return ⟨buffer, queue, bufferRet, queueRet, [], []⟩
  | .remove chunk len _ => do
    let (buffer, bufferChunk, bufferRet) := s.buffer.remove nul chunk len
    let (queue, queueChunk, queueRet) ← s.queue.remove chunk len
    return ⟨buffer, queue, bufferRet, queueRet, bufferChunk.take bufferRet,
      queueChunk.take queueRet.toNat⟩

/-- The last call had the same result in both versions, and the fill counter is right. -/
structure Agree (s : Twin α) : Prop where
  ret : s.bufferRet = s.queueRet
  out : s.bufferOut = s.queueOut
  length : s.buffer.length = s.buffer.contents.length

/-- An insert meets a non-empty queue or asks for less than `MAX` bytes, and a remove asks for
stored bytes only. -/
def Fits (s : Twin α) : TwinCall α → Prop
  | .insert _ len _ => s.queue.front ≠ s.queue.rear ∨ len < s.queue.MAX
  | .remove _ len _ => len ≤ s.queue.length

instance (s : Twin α) : DecidablePred s.Fits
  | .insert .. => inferInstanceAs (Decidable (_ ∨ _))
  | .remove .. => inferInstanceAs (Decidable (_ ≤ _))

variable {s t : Twin α} {item chunk : List α} {len : Nat} {c : TwinCall α}

/-- The two versions store the same bytes. -/
structure Inv (s : Twin α) : Prop extends Agree s where
  buffer : s.buffer.WF
  queue : s.queue.WF
  size : s.buffer.size = s.queue.MAX
  contents : s.buffer.contents = s.queue.contents

theorem Inv.init {buf cqueueArr : List α} (h : 1 ≤ buf.length)
    (hlength : buf.length = cqueueArr.length) : (Twin.init buf cqueueArr).Inv :=
  ⟨⟨rfl, rfl, rfl⟩, .new h, .new (hlength ▸ h), hlength, rfl⟩

theorem Inv.free (h : s.Inv) : s.buffer.free = s.queue.free := by
  rw [CircularBuffer.free, h.size, h.contents, CircularQueue.free]

theorem Inv.step (h : s.Inv) (hfit : s.Fits c) (hs : s.step nul c = some t) : t.Inv := by
  cases c with
  | insert item len hitem =>
    obtain ⟨queue, hqueue, hwf, hMAX, hcontents⟩ := CircularQueue.insert_spec h.queue hitem hfit
    obtain ⟨hbuffer, hsize, hret, hbcontents⟩ :=
      CircularBuffer.insertLoop_spec (item.take len) h.buffer
    have hlength : (item.take len).length = len := List.length_take_of_le hitem
    simp only [Twin.step, hqueue, CircularBuffer.insert, Option.bind_eq_bind, Option.bind_some,
      Option.pure_def, Option.some.injEq] at hs
    subst hs
    refine ⟨⟨?_, rfl, hbuffer.filled⟩, hbuffer, hwf, ?_, ?_⟩
    · simp only [hret, hlength, h.free]
    · simp only [hsize, hMAX, h.size]
    · simp only [hbcontents, hcontents, h.free, h.contents, List.take_take, Nat.min_comm]
  | remove chunk len hchunk =>
    have hstored : len ≤ s.queue.contents.length := by
      have := h.queue.length_eq
      simp only [Fits] at hfit
      omega
    have hqueue := CircularQueue.remove_spec h.queue hchunk.le
    rw [Nat.min_eq_left hstored] at hqueue
    obtain ⟨hbuffer, hsize, hbcontents, hout⟩ := CircularBuffer.removeLoop_spec nul
      h.buffer (h.contents ▸ hstored) (show 0 + len ≤ chunk.length by omega)
    have htake : (s.queue.contents.take len).length = len := List.length_take_of_le hstored
    simp only [Twin.step, hqueue, CircularBuffer.remove, Option.bind_eq_bind, Option.bind_some,
      Option.pure_def, Option.some.injEq] at hs
    subst hs
    refine ⟨⟨rfl, ?_, hbuffer.filled⟩, hbuffer, h.queue.skip hstored, ?_, ?_⟩
    · simp only [Int.toNat_natCast, List.take_set_of_le le_rfl, hout, List.take_zero,
        List.nil_append, h.contents]
      rw [List.take_left' htake, List.take_left' htake]
    · exact hsize.trans h.size
    · rw [hbcontents, h.contents, CircularQueue.contents_skip h.queue hstored]

/-- A call outside the condition has different results. -/
theorem not_agree (h : s.Inv) (hfit : ¬ s.Fits c) (hs : s.step nul c = some t) : ¬ t.Agree := by
  intro hagree
  have hret := hagree.ret
  cases c with
  | insert item len hitem =>
    simp only [Fits, not_or, not_not, Nat.not_lt] at hfit
    obtain ⟨queue, hqueue, -, -⟩ := CircularQueue.insert_overfull h.queue hfit.1 hfit.2 hitem
    obtain ⟨-, -, hbret, -⟩ := CircularBuffer.insertLoop_spec (item.take len) h.buffer
    simp only [Twin.step, hqueue, CircularBuffer.insert, Option.bind_eq_bind, Option.bind_some,
      Option.pure_def, Option.some.injEq] at hs
    subst hs
    have hfree : s.buffer.free < s.queue.MAX := by
      have := h.queue.front_lt
      rw [h.free, CircularQueue.free]
      omega
    simp only [hbret] at hret
    omega
  | remove chunk len hchunk =>
    have hstored : s.queue.contents.length < len := by
      have := h.queue.length_eq
      simp only [Fits] at hfit
      omega
    simp only [Twin.step, CircularQueue.remove_spec h.queue hchunk.le, CircularBuffer.remove,
      Option.bind_eq_bind, Option.bind_some, Option.pure_def, Option.some.injEq] at hs
    subst hs
    simp only at hret
    omega

/-- No call leaves an array, whatever its length. -/
theorem step_total (h : s.queue.WF) (c : TwinCall α) :
    ∃ t, s.step nul c = some t ∧ t.queue.WF := by
  cases c with
  | insert item len hitem =>
    obtain ⟨queue, ret, hqueue, hwf⟩ := CircularQueue.insert_total h hitem
    simp only [Twin.step, hqueue, Option.bind_eq_bind, Option.bind_some, Option.pure_def]
    exact ⟨_, rfl, hwf⟩
  | remove chunk len hchunk =>
    simp only [Twin.step, CircularQueue.remove_spec h hchunk.le, Option.bind_eq_bind,
      Option.bind_some, Option.pure_def]
    exact ⟨_, rfl, h.skip (Nat.min_le_right ..)⟩

end Twin

/-- **The two sending queues agree.** For every capacity and every sequence of calls on the two
empty queues, no call leaves an array; and the two versions have the same results after every call
exactly if no call inserts `MAX` bytes or more into the empty queue or removes more bytes than are
stored. -/
theorem always_agree_iff (nul : α) (N : Nat) (buf cqueueArr : List α) (hbuf : buf.length = N + 1)
    (hcqueueArr : cqueueArr.length = N + 1) (calls : List (TwinCall α)) :
    (∃ s, run (Twin.step nul) (.init buf cqueueArr) calls = some s) ∧
      (Always (Twin.step nul) Twin.Agree (.init buf cqueueArr) calls ↔
        Guarded (Twin.step nul) Twin.Fits (.init buf cqueueArr) calls) := by
  have hwf : (Twin.init buf cqueueArr).queue.WF := .new (by omega)
  obtain ⟨s, hs, -⟩ := run_total (I := fun s : Twin α => s.queue.WF)
    (fun _ c h => Twin.step_total h c) hwf calls
  refine ⟨⟨s, hs⟩, ?_⟩
  exact always_iff_guarded (fun _ h => h.toAgree) (fun _ _ _ h => h.step)
    (fun _ _ _ h => Twin.not_agree h) (.init (by omega) (by omega)) hs

/-- The bytes wrap around the end of the arrays. -/
theorem always_agree_wrapped :
    Always (Twin.step 0) Twin.Agree (.init [0, 0, 0] [0, 0, 0])
      [.insert [5, 6] 2 (by decide), .remove [0, 0] 1 (by decide), .insert [7, 8] 2 (by decide),
        .remove [0, 0, 0] 2 (by decide)] :=
  (always_agree_iff 0 2 [0, 0, 0] [0, 0, 0] rfl rfl _).2.mpr (by decide +kernel)

/-- A remove from the empty queues: `circular_buffer` reports a byte. -/
theorem remove_empty_not_agree :
    ¬ Always (Twin.step 0) Twin.Agree (.init [0, 0] [0, 0]) [.remove [0, 0] 1 (by decide)] :=
  fun h => absurd (h.2 _ rfl).ret (by decide)

end ALCC
