import ALCC.Model.SendLoop
import ALCC.Theory.Run

/-! The loop adds the result of `::send` to its offset without looking at it, so a failed call
moves the offset back by one. As long as no call fails, TCP gets the dequeued chunks and nothing
else. Each failure adds a byte to what TCP takes for the chunk (`ChunkSender.lag_run`), so after
it no run can both finish its chunk and be right (`ChunkSender.tcp_prefix_iff`). -/

namespace ALCC

open Machine

variable {α : Type*}

namespace SendLoop

variable {l : SendLoop α} {chunk : List α} {z n : Nat} {ret : Int}

/-- The loop is sending `chunk` and stands at offset `z`. -/
structure At (l : SendLoop α) (chunk : List α) (z : Nat) : Prop where
  size : l.size = chunk.length
  offset : l.z = z
  le : z ≤ chunk.length
  data : ∀ i : Nat, i < chunk.length → chunk[i]? = some (l.data i)

theorem at_start (heap : Int → α) (chunk : List α) : (start heap chunk).At chunk 0 where
  size := rfl
  offset := rfl
  le := Nat.zero_le _
  data i hi := by
    have h0 : (0 : Int) ≤ i := by omega
    simp only [start, h0, if_true, Int.toNat_natCast, List.getD_eq_getElem?_getD]
    rw [List.getElem?_eq_getElem hi, Option.getD_some]

theorem length_offered (l : SendLoop α) : l.offered.length = (l.size - l.z).toNat := by
  rw [offered, List.length_map, List.length_range]

theorem length_taken (h : l.MayReturn ret) : (l.taken ret).length = ret.toNat := by
  rw [taken, List.length_map, List.length_take, length_offered]
  rcases h with rfl | h
  · rfl
  · omega

namespace At

theorem mem_offered (h : l.At chunk z) {a : Int} (ha : a ∈ l.offered) : 0 ≤ a ∧ a < l.size := by
  obtain ⟨i, hi, rfl⟩ := List.mem_map.mp ha
  have := h.offset
  have := h.size
  rw [List.mem_range] at hi
  omega

/-- A successful call takes the next bytes of the chunk. -/
theorem taken_eq (h : l.At chunk z) (hn : z + n ≤ chunk.length) :
    l.taken n = (chunk.drop z).take n := by
  have hoffset := h.offset
  have hsize := h.size
  apply List.ext_getElem?
  intro i
  rw [taken, offered, List.getElem?_map, Int.toNat_natCast]
  by_cases hi : i < n
  · rw [List.getElem?_take_of_lt hi, List.getElem?_take_of_lt hi, List.getElem?_map,
      List.getElem?_range (by omega), List.getElem?_drop, h.data (z + i) (by omega), hoffset]
    simp
  · rw [List.getElem?_eq_none (by rw [List.length_take]; omega),
      List.getElem?_eq_none (by rw [List.length_take]; omega)]
    rfl

theorem advance (h : l.At chunk z) (hn : z + n ≤ chunk.length) :
    (l.advance n).At chunk (z + n) where
  size := h.size
  offset := by
    have := h.offset
    simp only [SendLoop.advance]
    omega
  le := hn
  data := h.data

theorem lt_iff (h : l.At chunk z) : l.z < l.size ↔ z < chunk.length := by
  rw [h.offset, h.size]
  omega

end At

end SendLoop

namespace ChunkSender

variable {s t : ChunkSender α} {a : Action α} {acts : List (Action α)}

/-- The offset is within the chunk, so are the bytes offered to `::send`, and TCP took a prefix
of the dequeued bytes. -/
structure Safe (s : ChunkSender α) : Prop where
  offset : 0 ≤ s.loop.z ∧ s.loop.z ≤ s.loop.size
  offered : ∀ a ∈ s.loop.offered, 0 ≤ a ∧ a < s.loop.size
  tcp : s.tcp <+: s.dequeued

/-- A call of `::send` that returns `-1`. -/
def Action.failed : Action α → Bool
  | .dequeue _ => false
  | .send ret => ret == -1

/-- All chunks but the last went to TCP in full, the last one up to the offset. -/
def Inv (s : ChunkSender α) : Prop :=
  ∃ sent chunk z, s.loop.At chunk z ∧ s.dequeued = sent ++ chunk ∧ s.tcp = sent ++ chunk.take z

theorem Inv.init (heap : Int → α) : (ChunkSender.init heap).Inv :=
  ⟨[], [], 0, SendLoop.at_start heap [], rfl, rfl⟩

theorem Inv.safe (h : s.Inv) : s.Safe := by
  obtain ⟨sent, chunk, z, hloop, hdeq, htcp⟩ := h
  have hoffset := hloop.offset
  have hsize := hloop.size
  have hle := hloop.le
  refine ⟨by omega, fun a => hloop.mem_offered, ?_⟩
  rw [htcp, hdeq, List.prefix_append_right_inj]
  exact List.take_prefix z chunk

theorem Inv.step (h : s.Inv) (hok : a.failed = false) (hs : s.step a = some t) : t.Inv := by
  obtain ⟨sent, chunk, z, hloop, hdeq, htcp⟩ := h
  cases a with
  | dequeue chunk' =>
    simp only [ChunkSender.step, hloop.lt_iff] at hs
    split at hs
    · cases hs
    · rename_i hidle
      cases hs
      have hz : z = chunk.length := by
        have := hloop.le
        omega
      refine ⟨sent ++ chunk, chunk', 0, SendLoop.at_start _ chunk', by rw [hdeq], ?_⟩
      simp only [htcp, hz, List.take_length, List.take_zero, List.append_nil]
  | send ret =>
    simp only [ChunkSender.step] at hs
    split at hs
    · rename_i hcall
      cases hs
      obtain ⟨-, rfl | ⟨hpos, hret⟩⟩ := hcall
      · simp [Action.failed] at hok
      · obtain ⟨n, rfl⟩ := Int.eq_ofNat_of_zero_le (show 0 ≤ ret by omega)
        have hn : z + n ≤ chunk.length := by
          have := hloop.offset
          have := hloop.size
          omega
        refine ⟨sent, chunk, z + n, hloop.advance hn, hdeq, ?_⟩
        simp only [htcp, hloop.taken_eq hn, List.append_assoc, List.take_add]
    · cases hs

/-- The bytes TCP took and those still to be offered, less the dequeued ones. -/
def lag (s : ChunkSender α) : Int :=
  s.tcp.length + (s.loop.size - s.loop.z) - s.dequeued.length

theorem lag_step (hle : s.loop.z ≤ s.loop.size) (hs : s.step a = some t) :
    t.loop.z ≤ t.loop.size ∧ t.lag = s.lag + a.failed.toNat := by
  cases a with
  | dequeue chunk =>
    simp only [step] at hs
    split at hs
    · cases hs
    · cases hs
      simp only [SendLoop.start, lag, List.length_append, Action.failed, Bool.toNat_false]
      omega
  | send ret =>
    simp only [step] at hs
    split at hs
    · rename_i hcall
      cases hs
      have hlen := SendLoop.length_taken hcall.2
      obtain ⟨-, rfl | hret⟩ := hcall
      · simp only [SendLoop.advance, lag, List.length_append, hlen, Action.failed, beq_self_eq_true,
          Bool.toNat_true]
        omega
      · have hne : (ret == -1) = false := by rw [beq_eq_false_iff_ne]; omega
        simp only [SendLoop.advance, lag, List.length_append, hlen, Action.failed, hne,
          Bool.toNat_false]
        omega
    · cases hs

/-- Every failure makes TCP take one byte more than was dequeued. -/
theorem lag_run (hle : s.loop.z ≤ s.loop.size) (hrun : run step s acts = some t) :
    t.loop.z ≤ t.loop.size ∧ t.lag = s.lag + acts.countP Action.failed := by
  induction acts generalizing s with
  | nil =>
    cases hrun
    exact ⟨hle, by simp⟩
  | cons a acts ih =>
    obtain ⟨u, hu, hrun⟩ := run_cons.mp hrun
    obtain ⟨hle', hlag⟩ := lag_step hle hu
    obtain ⟨hle'', hlag'⟩ := ih hle' hrun
    refine ⟨hle'', ?_⟩
    rw [hlag', hlag, List.countP_cons]
    cases a.failed
    · simp
    · simp
      omega

/-- For every sequence of chunks and of results of `::send`: if no call fails, the run is safe in
every state; and a run that has finished its last chunk is safe in every state only if no call
failed. -/
theorem tcp_prefix_iff (heap : Int → α) (acts : List (Action α))
    (hrun : run step (init heap) acts = some s) :
    ((∀ a ∈ acts, a.failed = false) → Always step Safe (init heap) acts) ∧
      (¬ s.loop.z < s.loop.size → Always step Safe (init heap) acts →
        ∀ a ∈ acts, a.failed = false) := by
  constructor
  · intro hok
    have hguard : Guarded step (fun _ a => a.failed = false) (init heap) acts :=
      guarded_of_forall fun _ a ha => hok a ha
    exact (hguard.always (fun _ _ _ => Inv.step) (Inv.init heap)).imp fun _ => Inv.safe
  · intro hidle hsafe
    have hlag := (lag_run (s := init heap) (Int.le_refl 0) hrun).2
    have hlen := (hsafe.last hrun).tcp.length_le
    have hzero : acts.countP Action.failed = 0 := by
      simp only [lag, init, SendLoop.start, List.length_nil] at hlag
      omega
    intro a ha
    have := List.countP_eq_zero.mp hzero a ha
    simpa using this

theorem tcp_prefix_three_bytes : Always step Safe (init fun _ => 0)
    [.dequeue [1, 2, 3], .send 1, .send 2, .dequeue [4], .send 1] :=
  (tcp_prefix_iff (fun _ => 0) _ rfl).1 (by decide)

/-- The first call fails, and the byte before the buffer is offered next. A later call fails, and
the byte before the offset goes out twice. -/
theorem failed_send_not_safe :
    (∃ s, run step (init fun _ => 0) [.dequeue [1, 2, 3], .send (-1)] = some s ∧
      s.loop.z = -1 ∧ -1 ∈ s.loop.offered ∧ ¬ s.Safe) ∧
    ∃ s, run step (init fun _ => 0) [.dequeue [1, 2, 3], .send 1, .send (-1), .send 3] = some s ∧
      s.dequeued = [1, 2, 3] ∧ s.tcp = [1, 1, 2, 3] ∧ ¬ s.Safe :=
  ⟨⟨_, rfl, rfl, by decide, fun h => absurd h.offset.1 (by decide)⟩,
    ⟨_, rfl, rfl, rfl, fun h => absurd h.tcp.length_le (by decide)⟩⟩

end ChunkSender

end ALCC
