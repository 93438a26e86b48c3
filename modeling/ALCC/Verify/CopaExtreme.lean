import ALCC.Verify.CopaWindow

/-! The extremes of `rtt-window.cc` are exact. The deque of an `ExtremeWindow` keeps, of the samples
that have been in the window at every step since they came, those that no later one undercuts, and
`extreme` is the value at its front. The argument for the maximum is that for the minimum with all
values negated. -/

namespace ALCC.Copa.ExtremeWindow

open MonotoneDeque

/-- A call of `update_max_time` and the following one of `new_sample`. -/
structure Sample where
  max_time : WithTop ℚ
  val : ℚ
  now : ℚ

def sample (w : ExtremeWindow) (s : Sample) : ExtremeWindow :=
  (w.updateMaxTime s.max_time).newSample s.val s.now

/-- `val` is on the inner side of the extreme of no samples. -/
def Inside (find_min : Bool) (val : ℚ) : Prop :=
  if find_min then (val : WithTop ℚ) < (new find_min).extreme else (new find_min).extreme < val

/-- The values of the samples that have been in the window at every step since they came. -/
def InWindow (steps : List Sample) : Set ℚ :=
  {v | ∃ pre s post, steps = pre ++ s :: post ∧ s.val = v ∧
    ∀ t ∈ s :: post, (t.now : WithTop ℚ) ≤ s.now + t.max_time}

/-- The value as the deque orders it. -/
def signed (find_min : Bool) (val : ℚ) : ℚ := if find_min then val else -val

def signedSample (find_min : Bool) (s : Sample) : ℚ × ℚ := (s.now, signed find_min s.val)

def signedVals (w : ExtremeWindow) : List (ℚ × ℚ) :=
  w.vals.map fun x => (x.1, signed w.find_min x.2)

/-- The samples that leave at a step. -/
def Sample.Old (s : Sample) (x : ℚ × ℚ) : Prop := x.1 + s.max_time < s.now

instance (s : Sample) : DecidablePred s.Old := fun x =>
  inferInstanceAs (Decidable (x.1 + s.max_time < s.now))

variable {w : ExtremeWindow} {find_min : Bool} {val now a b : ℚ} {s : Sample} {steps : List Sample}

theorem lt_signed (find_min : Bool) (a b : ℚ) :
    (if find_min then a < b else b < a) ↔ signed find_min a < signed find_min b := by
  cases find_min with
  | false => exact neg_lt_neg_iff.symm
  | true => exact Iff.rfl

theorem signed_injective : Function.Injective (signed find_min) := by
  cases find_min with
  | false => exact neg_injective
  | true => exact Function.injective_id

theorem head?_signedVals : w.signedVals.head? =
    w.vals.head?.map fun x => (x.1, signed w.find_min x.2) := List.head?_map

/-- The extreme stands at the front of the samples. -/
structure FrontInv (w : ExtremeWindow) : Prop where
  sorted : Sorted w.signedVals
  extreme : w.extreme = w.vals.head?.elim (new w.find_min).extreme fun x => (x.2 : WithTop ℚ)

theorem FrontInv.new (find_min : Bool) : FrontInv (.new find_min) := ⟨.nil, rfl⟩

theorem signedVals_pushSample (w : ExtremeWindow) (val now : ℚ) :
    (w.pushSample val now).signedVals = push now (signed w.find_min val) w.signedVals := by
  have hdrop : ((fun x : ℚ × ℚ => decide (signed w.find_min val < x.2)) ∘
      fun x : ℚ × ℚ => (x.1, signed w.find_min x.2)) =
      fun x : ℚ × ℚ => decide (if w.find_min then val < x.2 else x.2 < val) := by
    funext x
    exact decide_eq_decide.mpr (lt_signed w.find_min val x.2).symm
  simp only [signedVals, pushSample, push, List.rdropWhile, ← List.map_reverse,
    List.dropWhile_map, hdrop, List.map_append, List.map_singleton]

theorem signedVals_clearOldHist : (w.clearOldHist now).signedVals =
    expire (w.Old now) w.signedVals := by
  rw [signedVals, clearOldHist_vals, signedVals]
  exact map_expire fun x => Iff.rfl

theorem FrontInv.pushSample (h : w.FrontInv) (hval : Inside w.find_min val) :
    (w.pushSample val now).FrontInv where
  sorted := by
    rw [signedVals_pushSample]
    exact h.sorted.push
  extreme := by
    have hfront := congrArg List.head? (w.signedVals_pushSample val now)
    rw [head?_push h.sorted, head?_signedVals, head?_signedVals] at hfront
    obtain ⟨y, hy, hyval⟩ := Option.map_eq_some_iff.mp hfront
    have hsigned : signed w.find_min y.2 = _ := congrArg Prod.snd hyval
    rw [hy, Option.elim_some, ExtremeWindow.pushSample, h.extreme]
    cases hvals : w.vals.head? with
    | none =>
      rw [hvals] at hsigned
      rw [signed_injective hsigned, Option.elim_none]
      exact if_pos hval
    | some x =>
      rw [hvals, Option.map_some, Option.elim_some, apply_ite Prod.snd] at hsigned
      simp only [Option.elim_some, WithTop.coe_lt_coe, lt_signed]
      split at hsigned
      · rename_i hlt
        rw [if_pos hlt, signed_injective hsigned]
      · rename_i hle
        rw [if_neg hle, signed_injective hsigned]

theorem FrontInv.clearOldHist (h : w.FrontInv) : (w.clearOldHist now).FrontInv where
  sorted := by
    rw [signedVals_clearOldHist]
    exact h.sorted.suffix (expire_suffix _)
  extreme := clearOldHist_extreme h.extreme

/-- The window after some steps, as the deque of the library. -/
structure Exact (find_min : Bool) (steps : List Sample) (w : ExtremeWindow) : Prop
    extends FrontInv w where
  find_min_eq : w.find_min = find_min
  signedVals_eq : w.signedVals = deque (signedSample find_min) Sample.Old steps

theorem Exact.new (find_min : Bool) : Exact find_min [] (.new find_min) :=
  ⟨.new find_min, rfl, rfl⟩

theorem Exact.sample (h : Exact find_min steps w) (hval : Inside find_min s.val) :
    Exact find_min (steps ++ [s]) (w.sample s) where
  toFrontInv := by
    have hstart : FrontInv (w.updateMaxTime s.max_time) := ⟨h.sorted, h.extreme⟩
    exact (hstart.pushSample (h.find_min_eq ▸ hval)).clearOldHist
  find_min_eq := h.find_min_eq
  signedVals_eq := by
    obtain ⟨-, rfl, hsignedVals⟩ := h
    rw [ExtremeWindow.sample, newSample, signedVals_clearOldHist, signedVals_pushSample,
      deque_concat, ← hsignedVals]
    rfl

theorem Exact.run (hval : ∀ s ∈ steps, Inside find_min s.val) :
    Exact find_min steps (steps.foldl ExtremeWindow.sample (.new find_min)) := by
  induction steps using List.reverseRecOn with
  | nil => exact .new find_min
  | append_singleton steps s ih =>
    obtain ⟨hsteps, hs⟩ := List.forall_mem_append.mp hval
    rw [List.foldl_append]
    exact (ih hsteps).sample (hs s (List.mem_singleton_self s))

/-- In terms of the library, the samples in the window are the survivors. -/
theorem mem_inWindow {v : ℚ} : v ∈ InWindow steps ↔
    ∃ y ∈ survivors (signedSample find_min) Sample.Old steps, y.2 = signed find_min v := by
  constructor
  · intro h
    obtain ⟨pre, s, post, hsteps, rfl, hnew⟩ := h
    exact ⟨signedSample find_min s,
      mem_survivors.mpr ⟨pre, s, post, hsteps, rfl, fun t ht => (hnew t ht).not_gt⟩, rfl⟩
  · intro h
    obtain ⟨y, hy, hyv⟩ := h
    obtain ⟨pre, s, post, hsteps, rfl, hnew⟩ := mem_survivors.mp hy
    exact ⟨pre, s, post, hsteps, signed_injective hyv, fun t ht => not_lt.mp (hnew t ht)⟩

/-- The least value as the deque orders them. -/
theorem isLeast_signed {S : Set ℚ} {e : ℚ} (hmem : e ∈ S)
    (hle : ∀ v ∈ S, signed find_min e ≤ signed find_min v) :
    if find_min then IsLeast S e else IsGreatest S e := by
  cases find_min with
  | false => exact ⟨hmem, fun v hv => neg_le_neg_iff.mp (hle v hv)⟩
  | true => exact ⟨hmem, hle⟩

/-- The horizon shrinks from 10 to 1, and grows again. -/
def threeSteps : List Sample := [⟨10, 1, 0⟩, ⟨1, 3, 5⟩, ⟨10, 2, 6⟩]

end ALCC.Copa.ExtremeWindow
