import ALCC.Model.CircularQueue
import ALCC.Theory.Ring
import ALCC.Theory.Fifo

/-! Specification of the operations of `CircularQueue` by the bytes it stores. The stored bytes
are the window of the array from `front` to `rear`; since `front = rear` means empty, a queue of
`MAX` bytes holds at most `MAX - 1`. Each operation is the one of a bounded FIFO queue of that
capacity, except `insert` of `MAX` bytes or more into an empty queue (`insert_overfull`). -/

namespace ALCC.CircularQueue

open Memory Ring

variable {α : Type*} {q q' : CircularQueue α} {item chunk : List α} {len k : Nat}

/-- The states the queue operations work on. -/
structure WF (q : CircularQueue α) : Prop where
  size : q.cqueueArr.length = q.MAX
  front_lt : q.front < q.MAX
  rear_lt : q.rear < q.MAX

/-- The stored bytes, oldest first. -/
def contents (q : CircularQueue α) : List α :=
  window q.cqueueArr q.front (distance q.MAX q.front q.rear)

theorem WF.new {arr : List α} (h : 1 ≤ arr.length) : (CircularQueue.new arr).WF :=
  ⟨rfl, h, h⟩

namespace WF

theorem length_contents (h : q.WF) : q.contents.length = distance q.MAX q.front q.rear := by
  have := distance_lt h.front_lt h.rear_lt
  exact length_window h.size (by omega) _

theorem length_contents_lt (h : q.WF) : q.contents.length < q.MAX := by
  rw [h.length_contents]
  exact distance_lt h.front_lt h.rear_lt

theorem length_eq (h : q.WF) : q.length = q.contents.length := by
  have := h.front_lt
  rw [h.length_contents, CircularQueue.length, distance]
  split <;> omega

/-- The FIFO queue that a well-formed ring buffer implements. -/
def fifo (h : q.WF) : BoundedFifo α (q.MAX - 1) where
  bytes := q.contents
  bound := Nat.le_sub_one_of_lt h.length_contents_lt

@[simp] theorem bytes_fifo (h : q.WF) : h.fifo.bytes = q.contents := rfl

theorem contents_eq_nil (h : q.WF) : q.contents = [] ↔ q.front = q.rear := by
  have := h.front_lt
  rw [← List.length_eq_zero_iff, h.length_contents, distance]
  split <;> omega

end WF

/-- Free space of the queue, the capacity less the stored bytes. -/
def free (q : CircularQueue α) : Nat := q.MAX - 1 - q.contents.length

theorem WF.free_eq (h : q.WF) : q.free = q.MAX - 1 - distance q.MAX q.front q.rear := by
  rw [free, h.length_contents]

theorem clamp_of_lt (h : q.WF) (hlen : q.front ≠ q.rear ∨ len < q.MAX) :
    q.clamp len = min len q.free := by
  have := h.front_lt
  have := h.rear_lt
  rw [clamp, h.free_eq, distance]
  split
  · split <;> omega
  · split <;> split <;> omega

theorem clamp_overfull (hempty : q.front = q.rear) (hlen : q.MAX ≤ len) :
    q.clamp len = q.MAX := by
  rw [clamp, if_pos hempty]
  omega

/-- A copy into free space appends the copied bytes, whichever branch makes it. -/
theorem copyIn_spec (h : q.WF) (hk : k ≤ q.free) (hitem : k ≤ item.length) :
    ∃ q', q.copyIn item k = some q' ∧ q'.WF ∧ q'.MAX = q.MAX ∧ q'.front = q.front ∧
      q'.contents = q.contents ++ item.take k := by
  have hroom : distance q.MAX q.front q.rear + k < q.MAX := by
    have := h.length_contents_lt
    rw [free, h.length_contents] at *
    omega
  obtain ⟨hsize, hf, hr⟩ := h
  -- It is left to check which cells the copies write and which they keep.
  suffices hcopy : ∃ arr, q.copyIn item k =
        some { q with cqueueArr := arr, rear := wrap q.MAX (q.rear + k) } ∧
      arr.length = q.MAX ∧
      (∀ i < distance q.MAX q.front q.rear,
        arr[wrap q.MAX (q.front + i)]? = q.cqueueArr[wrap q.MAX (q.front + i)]?) ∧
      ∀ i < k, arr[wrap q.MAX (q.rear + i)]? = item[i]? by
    obtain ⟨arr, hcopy, hlen, hold, hnew⟩ := hcopy
    refine ⟨_, hcopy, ⟨hlen, hf, wrap_lt (by omega)⟩, rfl, rfl, ?_⟩
    simp only [contents, distance_wrap_rear hf hr hroom]
    refine window_append hsize hf (by omega) hitem hlen hold fun i hi => ?_
    rw [wrap_add_distance hf hr (by omega)]
    exact hnew i hi
  rw [copyIn]
  split
  · rename_i hstraight
    have hend : q.rear + k ≤ q.MAX := by
      rw [distance] at hroom
      split at hroom <;> omega
    refine ⟨blit q.cqueueArr q.rear item 0 k, ?_, ?_, fun i hi => ?_, fun i hi => ?_⟩
    · rw [memcpy_eq q.rear 0 k (by rfl) (by rfl) (by rfl) (by omega) (by omega)]
      simp only [Option.bind_eq_bind, Option.bind_some, Option.pure_def,
        toNat_mod_eq (Int.natCast_add q.rear k).symm (by omega : q.rear + k < 2 * q.MAX)]
    · rw [length_blit (by omega) (by omega), hsize]
    · apply blit_outside (by omega) (by omega)
      simp only [wrap, distance] at hi hroom ⊢
      split at hi <;> split <;> split at hroom <;> omega
    · rw [wrap, if_pos (by omega), blit_inside (by omega) (by omega) (by omega) (by omega)]
      congr 1
      omega
  · rename_i hwrap
    have hlong : q.MAX ≤ q.rear + k := by omega
    have hle : q.front ≤ q.rear := by omega
    rw [distance, if_pos hle] at hroom ⊢
    have hlen : (blit q.cqueueArr q.rear item 0 (q.MAX - q.rear)).length = q.cqueueArr.length :=
      length_blit (by omega) (by omega)
    refine ⟨blit (blit q.cqueueArr q.rear item 0 (q.MAX - q.rear)) 0 item (q.MAX - q.rear)
      (q.rear + k - q.MAX), ?_, ?_, fun i hi => ?_, fun i hi => ?_⟩
    · rw [memcpy_eq q.rear 0 (q.MAX - q.rear) (by rfl) (by rfl) (by omega) (by omega) (by omega)]
      simp only [Option.bind_eq_bind, Option.bind_some, Option.pure_def]
      rw [memcpy_eq 0 (q.MAX - q.rear) (q.rear + k - q.MAX) (by rfl) (by omega) (by omega)
        (by omega) (by omega)]
      simp only [Option.bind_some, Option.some.injEq]
      congr 1
      rw [wrap, if_neg (by omega)]
      omega
    · rw [length_blit (by omega) (by omega), hlen, hsize]
    · rw [wrap, if_pos (by omega), blit_outside (by omega) (by omega) (by omega),
        blit_outside (by omega) (by omega) (by omega)]
    · rw [wrap]
      split
      · rw [blit_outside (by omega) (by omega) (by omega),
          blit_inside (by omega) (by omega) (by omega) (by omega)]
        congr 1
        omega
      · rw [blit_inside (by omega) (by omega) (by omega) (by omega)]
        congr 1
        omega

theorem insert_spec (h : q.WF) (hitem : len ≤ item.length)
    (hlen : q.front ≠ q.rear ∨ len < q.MAX) :
    ∃ q', q.insert item len = some (q', ((min len q.free : Nat) : Int)) ∧ q'.WF ∧
      q'.MAX = q.MAX ∧ q'.contents = q.contents ++ item.take (min len q.free) := by
  have hclamp : q.clamp len = ((min len q.free : Nat) : Int) := by
    rw [clamp_of_lt h hlen]
  rw [insert, hclamp]
  by_cases h0 : min len q.free = 0
  · exact ⟨q, by simp [h0], h, rfl, by simp [h0]⟩
  · obtain ⟨q', hcopy, hwf, hmax, -, hcont⟩ :=
      copyIn_spec h (Nat.min_le_right len q.free) (by omega : min len q.free ≤ item.length)
    refine ⟨q', ?_, hwf, hmax, hcont⟩
    simp only [hcopy, Option.map_some]
    rw [if_neg (by omega)]

/-- An `insert` of `MAX` bytes or more into an empty queue reports `MAX` accepted bytes, fills
the array once around and leaves `front = rear`: the queue is empty again. -/
theorem insert_overfull (h : q.WF) (hempty : q.front = q.rear) (hlen : q.MAX ≤ len)
    (hitem : len ≤ item.length) :
    ∃ q', q.insert item len = some (q', (q.MAX : Int)) ∧ q'.WF ∧ q'.contents = [] := by
  obtain ⟨hsize, hf, hr⟩ := h
  have hlen' : (blit q.cqueueArr q.rear item 0 (q.MAX - q.rear)).length = q.cqueueArr.length :=
    length_blit (by omega) (by omega)
  simp only [insert, clamp_overfull hempty hlen]
  rw [if_neg (by omega), copyIn, if_neg (by omega),
    memcpy_eq q.rear 0 (q.MAX - q.rear) (by rfl) (by rfl) (by omega) (by omega) (by omega)]
  simp only [Option.bind_eq_bind, Option.bind_some]
  rw [memcpy_eq 0 (q.MAX - q.rear) q.rear (by rfl) (by omega) (by omega) (by omega) (by omega)]
  refine ⟨_, rfl, ⟨?_, hf, ?_⟩, ?_⟩
  · rw [length_blit (by omega) (by omega), hlen', hsize]
  · simp only
    omega
  · rw [contents, distance, if_pos (by simp only; omega)]
    simp only [hempty]
    rw [show ((q.MAX : Int) - (q.MAX - q.rear)).toNat - q.rear = 0 by omega, window_zero]

/-- `insert` does not leave the array, whatever its length. -/
theorem insert_total (h : q.WF) (hitem : len ≤ item.length) :
    ∃ q' ret, q.insert item len = some (q', ret) ∧ q'.WF := by
  by_cases hlen : q.front ≠ q.rear ∨ len < q.MAX
  · obtain ⟨q', hq, hwf, -⟩ := insert_spec h hitem hlen
    exact ⟨q', _, hq, hwf⟩
  · rw [not_or, not_not, not_lt] at hlen
    obtain ⟨q', hq, hwf, -⟩ := insert_overfull h hlen.1 hlen.2 hitem
    exact ⟨q', _, hq, hwf⟩

theorem WF.insert {q' : CircularQueue α} {ret : Int} (h : q.WF) (hitem : len ≤ item.length)
    (hq : q.insert item len = some (q', ret)) : q'.WF := by
  obtain ⟨q₁, ret₁, hq₁, hwf⟩ := insert_total h hitem
  cases hq.symm.trans hq₁
  exact hwf

/-- The queue without its `k` oldest bytes. -/
def skip (q : CircularQueue α) (k : Nat) : CircularQueue α :=
  { q with front := wrap q.MAX (q.front + k) }

theorem WF.skip (h : q.WF) (hk : k ≤ q.contents.length) : (q.skip k).WF := by
  have := h.front_lt
  have := h.length_contents_lt
  exact ⟨h.size, wrap_lt (by omega), h.rear_lt⟩

theorem contents_skip (h : q.WF) (hk : k ≤ q.contents.length) :
    (q.skip k).contents = q.contents.drop k := by
  have := distance_lt h.front_lt h.rear_lt
  rw [h.length_contents] at hk
  simp only [contents, CircularQueue.skip]
  rw [distance_wrap_front h.front_lt h.rear_lt hk, ← drop_window h.size h.front_lt (by omega) hk]

/-- `remove` hands out the oldest bytes, whichever branch copies them. -/
theorem remove_spec (h : q.WF) (hchunk : len ≤ chunk.length) :
    q.remove chunk len =
      some (q.skip (min len q.contents.length),
        q.contents.take (min len q.contents.length) ++ chunk.drop (min len q.contents.length),
        ((min len q.contents.length : Nat) : Int)) := by
  have hlt := h.length_contents_lt
  by_cases hne : q.front = q.rear
  · have hnil := h.contents_eq_nil.mpr hne
    have hskip : q.skip 0 = q := by
      simp [CircularQueue.skip, wrap, h.front_lt]
    simp [remove, hne, hnil, hskip]
  have hstored := h.length_contents
  generalize hk : min len q.contents.length = k
  obtain ⟨hsize, hf, hr⟩ := h
  suffices hcopy : ∃ buf, q.remove chunk len = some (q.skip k, buf, (k : Int)) ∧
      (∀ i < k, buf[i]? = q.cqueueArr[wrap q.MAX (q.front + i)]?) ∧
      ∀ i, k ≤ i → buf[i]? = chunk[i]? by
    obtain ⟨buf, hcopy, hnew, hold⟩ := hcopy
    rw [hcopy, eq_window_append_drop hsize hf (by omega) hnew hold, contents,
      take_window (by omega)]
  have hclamp : (if q.front < q.rear then min (len : Int) (q.rear - q.front)
      else min (len : Int) (q.MAX - q.front + q.rear)) = k := by
    rw [distance] at hstored
    split <;> split at hstored <;> omega
  simp only [remove, if_neg hne, hclamp]
  split
  · rename_i hstraight
    have hend : q.front + k ≤ q.MAX := by
      rw [distance] at hstored
      split at hstored <;> omega
    refine ⟨blit chunk 0 q.cqueueArr q.front k, ?_, fun i hi => ?_, fun i hi => ?_⟩
    · rw [memcpy_eq 0 q.front k (by rfl) (by rfl) (by rfl) (by omega) (by omega)]
      simp only [Option.bind_eq_bind, Option.bind_some, Option.pure_def, CircularQueue.skip,
        toNat_mod_eq (Int.natCast_add q.front k).symm (by omega : q.front + k < 2 * q.MAX)]
    · rw [wrap, if_pos (by omega), blit_inside (by omega) (by omega) (by omega) (by omega)]
      congr 1
    · rw [blit_outside (by omega) (by omega) (by omega)]
  · rename_i hwrap
    have hlong : q.MAX < q.front + k := by omega
    have hlen' : (blit chunk 0 q.cqueueArr q.front (q.MAX - q.front)).length = chunk.length :=
      length_blit (by omega) (by omega)
    refine ⟨blit (blit chunk 0 q.cqueueArr q.front (q.MAX - q.front)) (q.MAX - q.front)
      q.cqueueArr 0 (q.front + k - q.MAX), ?_, fun i hi => ?_, fun i hi => ?_⟩
    · rw [memcpy_eq 0 q.front (q.MAX - q.front) (by rfl) (by rfl) (by omega) (by omega)
        (by omega)]
      simp only [Option.bind_eq_bind, Option.bind_some, Option.pure_def]
      rw [memcpy_eq (q.MAX - q.front) 0 (q.front + k - q.MAX) (by omega) (by rfl) (by omega)
        (by omega) (by omega)]
      simp only [Option.bind_some, Option.some.injEq, Prod.mk.injEq, and_true]
      rw [CircularQueue.skip, wrap, if_neg (by omega)]
      congr 1
      omega
    · rw [wrap]
      split
      · rw [blit_outside (by omega) (by omega) (by omega),
          blit_inside (by omega) (by omega) (by omega) (by omega)]
        congr 1
      · rw [blit_inside (by omega) (by omega) (by omega) (by omega)]
        congr 1
        omega
    · rw [blit_outside (by omega) (by omega) (by omega),
        blit_outside (by omega) (by omega) (by omega)]

end ALCC.CircularQueue
