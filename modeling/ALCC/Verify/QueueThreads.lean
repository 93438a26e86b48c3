import ALCC.Model.QueueThreads
import ALCC.Verify.CircularQueue
import ALCC.Theory.Run

/-! The race between the clamp of `insert` and `remove`. Once the test `front == rear` has
failed, the consumer may drain the queue or take `front` around the end of the array; the last
clamp then subtracts a `rear` that is no longer below `front`, and the length is negative. This
is the only way to go wrong: a run in which the last clamp reads `front` above `rear` copies
inside the free space, every time (`QueueThreads.always_safe_iff`). -/

namespace ALCC.QueueThreads

open CircularQueue Machine

variable {α : Type*} {s t : QueueThreads α}

/-- Without a consumer in between, the tests and reads of the producer compute `clamp`. -/
theorem clamp_uninterrupted {item : List α} {len : Int} (hpc : s.pc = .testEmpty item len) :
    ∃ n, run step s (List.replicate n .insert) =
      some { s with pc := .copy item (s.queue.clamp len) } := by
  by_cases heq : s.queue.front = s.queue.rear
  · exact ⟨1, by simp [run, step, insertStep, hpc, clamp, heq]⟩
  · refine ⟨3, ?_⟩
    by_cases hlt : s.queue.front < s.queue.rear <;>
      simp [run, step, insertStep, hpc, clamp, heq, hlt]

/-- Without a consumer in between, the steps of the producer amount to `CircularQueue.insert`. -/
theorem insert_uninterrupted {item : List α} {len ret : Int} {q : CircularQueue α}
    (hpc : s.pc = .testEmpty item len) (hq : s.queue.insert item len = some (q, ret)) :
    ∃ n, run step s (List.replicate n .insert) = some
      { s with queue := q, pc := .idle, accepted := s.accepted ++ item.take ret.toNat } := by
  obtain ⟨n, hn⟩ := clamp_uninterrupted hpc
  refine ⟨n + 1, ?_⟩
  rw [List.replicate_succ', run_concat hn]
  simp only [CircularQueue.insert] at hq
  simp only [step, insertStep]
  split at hq
  · rename_i h0
    cases hq
    simp [h0]
  · rename_i h0
    obtain ⟨q', hq', hret⟩ := Option.map_eq_some_iff.mp hq
    cases hret
    simp [h0, hq']

/-- No copy has left the array, the stored bytes are the accepted ones not yet removed, and a
clamped length is non-negative and within the free space. -/
structure Safe (s : QueueThreads α) : Prop where
  no_fault : s.pc ≠ .fault
  wf : s.queue.WF
  fifo : s.removed ++ s.queue.contents = s.accepted
  clamped : ∀ item len, s.pc = .copy item len → 0 ≤ len ∧ len ≤ s.queue.free

/-- The last clamp finds `front` above `rear`. -/
def Apart (s : QueueThreads α) (a : Action α) : Prop :=
  match a, s.pc with
  | .insert, .clampBetween _ _ => s.queue.rear < s.queue.front
  | _, _ => True

instance (s : QueueThreads α) (a : Action α) : Decidable (s.Apart a) := by
  unfold Apart
  split <;> infer_instance

/-- What the tests made so far say about the queue, whatever the consumer does meanwhile. -/
def PcFacts (q : CircularQueue α) : InsertPc α → Prop
  | .idle => True
  | .testEmpty item len | .testOrder item len | .clampBetween item len =>
    0 ≤ len ∧ len < q.MAX ∧ len ≤ item.length
  | .clampAround item len => 0 ≤ len ∧ len < q.MAX ∧ len ≤ item.length ∧ q.front ≤ q.rear
  | .copy item len => 0 ≤ len ∧ len ≤ q.free ∧ len ≤ item.length
  | .fault => False

structure Inv (s : QueueThreads α) : Prop where
  wf : s.queue.WF
  fifo : s.removed ++ s.queue.contents = s.accepted
  facts : PcFacts s.queue s.pc

theorem Inv.init {arr : List α} (h : 1 ≤ arr.length) : (QueueThreads.init arr).Inv :=
  ⟨.new h, rfl, trivial⟩

theorem Inv.safe (h : s.Inv) : s.Safe where
  no_fault hpc := by simpa [hpc, PcFacts] using h.facts
  wf := h.wf
  fifo := h.fifo
  clamped item len hpc := by
    have hfacts := h.facts
    rw [hpc] at hfacts
    exact ⟨hfacts.1, hfacts.2.1⟩

/-- A removal of `k` bytes leaves what the producer knows true: an ordered `front` stays at or
below `rear`, and the free space grows. -/
theorem PcFacts.skip {q : CircularQueue α} {pc : InsertPc α} {k : Nat} (hq : q.WF)
    (hk : k ≤ q.contents.length) (h : PcFacts q pc) : PcFacts (q.skip k) pc := by
  cases pc with
  | idle | testEmpty | testOrder | clampBetween | fault => exact h
  | clampAround item len =>
    obtain ⟨h0, hlt, hitem, hle⟩ := h
    have hr := hq.rear_lt
    rw [hq.length_contents, Ring.distance, if_pos hle] at hk
    refine ⟨h0, hlt, hitem, ?_⟩
    simp only [CircularQueue.skip, Ring.wrap]
    split <;> omega
  | copy item len =>
    obtain ⟨h0, hfree, hitem⟩ := h
    refine ⟨h0, ?_, hitem⟩
    rw [free] at hfree ⊢
    rw [contents_skip hq hk, List.length_drop]
    simp only [CircularQueue.skip]
    omega

theorem Inv.remove {chunk : List α} {len : Nat} (h : s.Inv)
    (hs : s.step (.remove chunk len) = some t) : t.Inv := by
  have hk : min len s.queue.contents.length ≤ s.queue.contents.length := by omega
  rw [step] at hs
  split at hs
  · cases hs
  · split at hs
    · rw [remove_spec h.wf ‹_›] at hs
      simp only [Option.some.injEq, Int.toNat_natCast] at hs
      rw [List.take_left' (by rw [List.length_take]; omega)] at hs
      subst hs
      refine ⟨h.wf.skip hk, ?_, h.facts.skip h.wf hk⟩
      simp only [contents_skip h.wf hk, List.append_assoc, List.take_append_drop]
      exact h.fifo
    · cases hs

theorem Inv.insert (h : s.Inv) (hapart : s.Apart .insert) (hs : s.insertStep = some t) :
    t.Inv := by
  obtain ⟨hwf, hfifo, hfacts⟩ := h
  have hf := hwf.front_lt
  have hr := hwf.rear_lt
  have hfree := hwf.free_eq
  rw [Ring.distance] at hfree
  cases hpc : s.pc with
  | idle | fault => simp [insertStep, hpc] at hs
  | testEmpty item len =>
    rw [hpc] at hfacts
    obtain ⟨h0, hlt, hitem⟩ := hfacts
    simp only [insertStep, hpc] at hs
    split at hs <;> cases hs
    · rw [if_pos (by omega)] at hfree
      have hclamp : 0 ≤ min len s.queue.MAX ∧ min len s.queue.MAX ≤ s.queue.free ∧
        min len s.queue.MAX ≤ item.length := by omega
      exact ⟨hwf, hfifo, hclamp⟩
    · exact ⟨hwf, hfifo, h0, hlt, hitem⟩
  | testOrder item len =>
    rw [hpc] at hfacts
    obtain ⟨h0, hlt, hitem⟩ := hfacts
    simp only [insertStep, hpc] at hs
    split at hs <;> cases hs
    · exact ⟨hwf, hfifo, h0, hlt, hitem, Nat.le_of_lt ‹_›⟩
    · exact ⟨hwf, hfifo, h0, hlt, hitem⟩
  | clampAround item len =>
    rw [hpc] at hfacts
    obtain ⟨h0, hlt, hitem, hle⟩ := hfacts
    simp only [insertStep, hpc, Option.some.injEq] at hs
    rw [if_pos hle] at hfree
    generalize hn : min len (s.queue.MAX - s.queue.rear + s.queue.front - 1) = n at hs
    have hclamp : 0 ≤ n ∧ n ≤ s.queue.free ∧ n ≤ item.length := by omega
    subst hs
    exact ⟨hwf, hfifo, hclamp⟩
  | clampBetween item len =>
    have hgap : s.queue.rear < s.queue.front := by simpa only [Apart, hpc] using hapart
    rw [hpc] at hfacts
    obtain ⟨h0, hlt, hitem⟩ := hfacts
    simp only [insertStep, hpc, Option.some.injEq] at hs
    rw [if_neg (by omega)] at hfree
    generalize hn : min len ((s.queue.front : Int) - s.queue.rear - 1) = n at hs
    have hclamp : 0 ≤ n ∧ n ≤ s.queue.free ∧ n ≤ item.length := by omega
    subst hs
    exact ⟨hwf, hfifo, hclamp⟩
  | copy item len =>
    rw [hpc] at hfacts
    obtain ⟨h0, hle, hitem⟩ := hfacts
    simp only [insertStep, hpc] at hs
    split at hs
    · cases hs
      exact ⟨hwf, hfifo, trivial⟩
    · obtain ⟨n, rfl⟩ := Int.eq_ofNat_of_zero_le h0
      obtain ⟨q', hcopy, hwf', -, -, hcont⟩ :=
        copyIn_spec hwf (by omega : n ≤ s.queue.free) (by omega : n ≤ item.length)
      rw [hcopy] at hs
      cases hs
      refine ⟨hwf', ?_, trivial⟩
      simp only [hcont, ← List.append_assoc, hfifo, Int.toNat_natCast]

theorem Inv.step {a : Action α} (h : s.Inv) (hapart : s.Apart a) (hs : s.step a = some t) :
    t.Inv := by
  cases a with
  | call item len =>
    rw [QueueThreads.step] at hs
    split at hs
    · split at hs <;> cases hs
      exact ⟨h.wf, h.fifo, by omega, by simp only; omega, by omega⟩
    · cases hs
  | insert => exact h.insert hapart hs
  | remove chunk len => exact h.remove hs

/-- A clamp with `front` at or below `rear` yields a negative length. -/
theorem not_safe_of_not_apart {a : Action α} (hapart : ¬ s.Apart a) (hs : s.step a = some t) :
    ¬ t.Safe := by
  unfold Apart at hapart
  split at hapart
  · rename_i hpc
    simp only [QueueThreads.step, insertStep, hpc, Option.some.injEq] at hs
    subst hs
    intro hsafe
    have := (hsafe.clamped _ _ rfl).1
    omega
  · exact absurd trivial hapart

/-- For every capacity and every run of the two threads, the run is safe throughout exactly if
each time `insert` reaches its last clamp it reads a `front` above `rear` there. -/
theorem always_safe_iff (cqueueArr : List α) (hMAX : 2 ≤ cqueueArr.length)
    (acts : List (Action α)) (hrun : run step (init cqueueArr) acts = some s) :
    Always step Safe (init cqueueArr) acts ↔ Guarded step Apart (init cqueueArr) acts :=
  always_iff_guarded (fun _ => Inv.safe) (fun _ _ _ => Inv.step)
    (fun _ _ _ _ => not_safe_of_not_apart) (Inv.init (by omega)) hrun

theorem always_safe_iff_four : Always step Safe (init [0, 0, 0, 0])
    [.call [1, 2] 2, .insert, .insert, .call [3] 1, .insert, .remove [9] 1, .insert, .insert] := by
  refine (always_safe_iff [0, 0, 0, 0] (by decide) _ rfl).mpr ?_
  decide

/-- The consumer drains the queue between the tests `front == rear` and `front < rear`. The
clamp subtracts to `-1`, and the copy is one of `-1` bytes. -/
theorem drained_insert_not_safe :
    ∃ s t, run step (init [0, 0, 0, 0]) [.call [1, 2] 2, .insert, .insert, .call [3] 1, .insert,
        .remove [9, 9] 2, .insert, .insert] = some s ∧
      s.pc = .copy [3] (-1) ∧ ¬ s.Safe ∧ s.step .insert = some t ∧ t.pc = .fault :=
  ⟨_, _, rfl, rfl, fun h => absurd (h.clamped _ _ rfl).1 (by decide), rfl, rfl⟩

end ALCC.QueueThreads
