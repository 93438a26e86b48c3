import Mathlib.Data.List.DropRight
import Mathlib.Order.Bounds.Basic

/-! The monotone deque that finds the least value of a sliding window: a list of samples, the oldest
first, with values that do not decrease. A new sample takes the place of the larger ones at the end
(`push`), and old samples leave at the front, the last one excepted (`expire`). The values do not
decrease (`Sorted.push`), so that the least one is at the front, and of two windows the shorter one
is a suffix (`push_suffix_push`, `expire_suffix_expire`). Of the samples that have never been old
the deque keeps those that no later one undercuts (`deque_eq`), so the least one is among them
(`isLeast_head_frontier`). -/

namespace MonotoneDeque

section

variable {τ ν : Type*} {l l₁ l₂ : List (τ × ν)} {old old₁ old₂ : τ × ν → Prop} [DecidablePred old]
  [DecidablePred old₁] [DecidablePred old₂]

/-- Delete the old samples at the front, but never the last one. -/
def expire (old : τ × ν → Prop) [DecidablePred old] : List (τ × ν) → List (τ × ν)
  | x :: y :: rest => if old x then expire old (y :: rest) else x :: y :: rest
  | l => l

theorem expire_suffix (l : List (τ × ν)) : expire old l <:+ l := by
  induction l using expire.induct old with
  | case1 x y rest hold ih =>
    rw [expire, if_pos hold]
    exact ih.trans (List.suffix_cons x _)
  | case2 x y rest hold =>
    simp only [expire, if_neg hold, List.suffix_refl]
  | case3 l hl =>
    rw [expire.eq_def]
    split
    · exact absurd rfl (hl _ _ _)
    · exact List.suffix_rfl

theorem expire_ne_nil (h : l ≠ []) : expire old l ≠ [] := by
  induction l using expire.induct old with
  | case1 x y rest hold ih =>
    rw [expire, if_pos hold]
    exact ih (List.cons_ne_nil _ _)
  | case2 x y rest hold =>
    rw [expire, if_neg hold]
    exact h
  | case3 l hl =>
    rw [expire.eq_def]
    split
    · exact absurd rfl (hl _ _ _)
    · exact h

/-- Of two windows the one from which more samples leave keeps a suffix. -/
theorem expire_suffix_expire (hold : ∀ x, old₂ x → old₁ x) (hs : l₁ <:+ l₂) (hne : l₁ ≠ []) :
    expire old₁ l₁ <:+ expire old₂ l₂ := by
  have hsame : ∀ l, expire old₁ l <:+ expire old₂ l := by
    intro l
    induction l using expire.induct old₂ with
    | case1 x y rest h₂ ih =>
      rw [expire, if_pos (hold x h₂), expire, if_pos h₂]
      exact ih
    | case2 x y rest h₂ =>
      rw [expire.eq_1 old₂, if_neg h₂]
      exact expire_suffix _
    | case3 l hl =>
      rw [expire.eq_def old₂]
      split
      · exact absurd rfl (hl _ _ _)
      · exact expire_suffix _
  obtain ⟨pre, rfl⟩ := hs
  induction pre with
  | nil => exact hsame l₁
  | cons x pre ih =>
    obtain ⟨y, rest, hrest⟩ :=
      List.exists_cons_of_ne_nil (List.append_ne_nil_of_right_ne_nil pre hne)
    rw [List.cons_append, hrest, expire]
    rw [hrest] at ih
    split
    · exact ih
    · refine (expire_suffix l₁).trans ?_
      rw [← hrest]
      exact (List.suffix_append pre l₁).trans (List.suffix_cons x _)

theorem map_expire {τ' ν' : Type*} {old' : τ' × ν' → Prop} [DecidablePred old']
    {f : τ × ν → τ' × ν'} (hf : ∀ x, old' (f x) ↔ old x) :
    (expire old l).map f = expire old' (l.map f) := by
  induction l using expire.induct old with
  | case1 x y rest hold ih =>
    have hold' : old' (f x) := (hf x).mpr hold
    rw [expire, if_pos hold, ih]
    simp only [List.map_cons, expire, if_pos hold']
  | case2 x y rest hold =>
    rw [expire, if_neg hold, List.map_cons, List.map_cons, expire, if_neg (mt (hf x).mp hold)]
  | case3 l hl =>
    match l with
    | [] => rfl
    | [x] => rfl
    | x :: y :: rest => exact absurd rfl (hl x y rest)

/-- If the older of two samples is the first to be old, and some sample is not, then just the old
ones leave. -/
theorem expire_eq_filter (hold : l.Pairwise fun x y => old y → old x) (hnew : ∃ x ∈ l, ¬ old x) :
    expire old l = l.filter fun x => ¬ old x := by
  have hkept : ∀ {x l}, ¬ old x → (x :: l).Pairwise (fun x y => old y → old x) →
      (x :: l).filter (fun x => ¬ old x) = x :: l := by
    intro x l hx hl
    refine List.filter_eq_self.mpr fun y hy => decide_eq_true ?_
    rcases List.mem_cons.mp hy with rfl | hy
    · exact hx
    · exact mt ((List.pairwise_cons.mp hl).1 y hy) hx
  induction l using expire.induct old with
  | case1 x y rest hx ih =>
    have hrest : ∃ z ∈ y :: rest, ¬ old z := by
      obtain ⟨z, hz, hzold⟩ := hnew
      rcases List.mem_cons.mp hz with rfl | hz
      · exact absurd hx hzold
      · exact ⟨z, hz, hzold⟩
    rw [expire, if_pos hx, List.filter_cons_of_neg (by simpa using hx)]
    exact ih (List.pairwise_cons.mp hold).2 hrest
  | case2 x y rest hx => rw [expire, if_neg hx, hkept hx hold]
  | case3 l hl =>
    obtain ⟨x, hx, hxold⟩ := hnew
    match l with
    | [y] =>
      obtain rfl := List.mem_singleton.mp hx
      rw [hkept hxold hold]
      rfl
    | y :: z :: rest => exact absurd rfl (hl y z rest)

end

section

variable {τ ν σ : Type*} (sample : σ → τ × ν) (old : σ → τ × ν → Prop) [∀ s, DecidablePred (old s)]

/-- The samples that have not been old at any step since they came. -/
def survivors (steps : List σ) : List (τ × ν) :=
  steps.foldl (fun l s => (l ++ [sample s]).filter fun x => ¬ old s x) []

variable {sample old} {steps : List σ} {s : σ}

theorem survivors_concat : survivors sample old (steps ++ [s]) =
    (survivors sample old steps ++ [sample s]).filter fun x => ¬ old s x := by
  rw [survivors, List.foldl_append]
  rfl

theorem mem_survivors {x : τ × ν} : x ∈ survivors sample old steps ↔
    ∃ pre s post, steps = pre ++ s :: post ∧ x = sample s ∧ ∀ t ∈ s :: post, ¬ old t x := by
  induction steps using List.reverseRecOn with
  | nil => simp [survivors]
  | append_singleton steps s ih =>
    rw [survivors_concat, List.mem_filter, List.mem_append, List.mem_singleton, ih,
      decide_eq_true_eq]
    constructor
    · intro h
      obtain ⟨⟨pre, r, post, rfl, hx, hnew⟩ | rfl, hs⟩ := h
      · refine ⟨pre, r, post ++ [s], by simp, hx, ?_⟩
        rw [← List.cons_append]
        exact List.forall_mem_append.mpr ⟨hnew, List.forall_mem_singleton.mpr hs⟩
      · exact ⟨steps, s, [], rfl, rfl, List.forall_mem_singleton.mpr hs⟩
    · intro h
      obtain ⟨pre, r, post, hsteps, hx, hnew⟩ := h
      rcases List.eq_nil_or_concat post with rfl | ⟨post, t, rfl⟩
      · obtain ⟨rfl, hrs⟩ := List.append_inj' hsteps rfl
        obtain rfl : s = r := by simpa using hrs
        exact ⟨.inr hx, hnew s List.mem_cons_self⟩
      · rw [List.concat_eq_append] at hsteps hnew
        rw [← List.cons_append, ← List.append_assoc] at hsteps
        obtain ⟨rfl, hst⟩ := List.append_inj' hsteps rfl
        obtain rfl : s = t := by simpa using hst
        rw [← List.cons_append] at hnew
        obtain ⟨hnew, hs⟩ := List.forall_mem_append.mp hnew
        exact ⟨.inl ⟨pre, r, post, rfl, hx, hnew⟩, hs s (List.mem_singleton_self s)⟩

end

variable {τ ν : Type*} [LinearOrder ν] {l l₁ l₂ : List (τ × ν)} {now : τ} {val : ν}

/-- Delete the samples at the end that are greater than `val`, and append this one. -/
def push (now : τ) (val : ν) (l : List (τ × ν)) : List (τ × ν) :=
  l.rdropWhile (fun x => decide (val < x.2)) ++ [(now, val)]

/-- The values do not decrease. -/
def Sorted (l : List (τ × ν)) : Prop := l.Pairwise fun x y => x.2 ≤ y.2

theorem push_ne_nil : push now val l ≠ [] := by simp [push]

/-- A sample at the front that is not greater than the new one stays there. -/
theorem push_cons (now : τ) (l : List (τ × ν)) {x : τ × ν} (hx : x.2 ≤ val) :
    push now val (x :: l) = x :: push now val l := by
  have hkept : (x :: l).rdropWhile (fun x => decide (val < x.2)) =
      x :: l.rdropWhile (fun x => decide (val < x.2)) := by
    induction l using List.reverseRecOn with
    | nil => rw [List.rdropWhile_singleton, if_neg (by simpa using hx), List.rdropWhile_nil]
    | append_singleton l y ih =>
      rw [← List.cons_append, List.rdropWhile_concat, List.rdropWhile_concat]
      split
      · exact ih
      · rfl
  rw [push, hkept, List.cons_append, push]

/-- A sample that is less than all others is left alone. -/
theorem push_of_lt (h : ∀ x ∈ l, val < x.2) : push now val l = [(now, val)] := by
  rw [push, List.rdropWhile_eq_nil_iff.mpr (by simpa using h), List.nil_append]

theorem mem_push {x : τ × ν} (h : x ∈ push now val l) : x = (now, val) ∨ x ∈ l := by
  rcases List.mem_append.mp h with h | h
  · exact .inr ((List.rdropWhile_prefix _ _).subset h)
  · exact .inl (List.mem_singleton.mp h)

theorem Sorted.suffix (h : Sorted l₂) (hs : l₁ <:+ l₂) : Sorted l₁ := h.sublist hs.sublist

theorem Sorted.push (h : Sorted l) : Sorted (push now val l) := by
  induction l using List.reverseRecOn with
  | nil => simp [MonotoneDeque.push, Sorted]
  | append_singleton l y ih =>
    have hl : Sorted l := h.sublist (List.sublist_append_left l [y])
    rw [MonotoneDeque.push, List.rdropWhile_concat]
    split
    · exact ih hl
    · rename_i hy
      refine List.pairwise_append.mpr ⟨h, List.pairwise_singleton .., fun x hx z hz => ?_⟩
      rw [List.mem_singleton.mp hz]
      have hyval : y.2 ≤ val := by simpa using hy
      rcases List.mem_append.mp hx with hx | hx
      · exact le_trans ((List.pairwise_append.mp h).2.2 x hx y (List.mem_singleton_self y)) hyval
      · rw [List.mem_singleton.mp hx]
        exact hyval

/-- The front of a suffix is not less than the front of the whole. -/
theorem Sorted.head_le {x y : τ × ν} (h : Sorted (x :: l₂)) (hs : y :: l₁ <:+ x :: l₂) :
    x.2 ≤ y.2 := by
  rcases List.mem_cons.mp (hs.subset List.mem_cons_self) with rfl | hy
  · exact le_rfl
  · exact (List.pairwise_cons.mp h).1 y hy

/-- A new sample does to a suffix what it does to the whole. -/
theorem push_suffix_push (hs : l₁ <:+ l₂) : push now val l₁ <:+ push now val l₂ := by
  obtain ⟨pre, rfl⟩ := hs
  have hdrop : l₁.rdropWhile (fun x => decide (val < x.2)) <:+
      (pre ++ l₁).rdropWhile (fun x => decide (val < x.2)) := by
    rw [List.rdropWhile, List.rdropWhile, List.reverse_append, List.dropWhile_append]
    split
    · rename_i hempty
      rw [List.isEmpty_iff.mp hempty, List.reverse_nil]
      exact List.nil_suffix
    · rw [List.reverse_append, List.reverse_reverse]
      exact List.suffix_append ..
  obtain ⟨rest, hrest⟩ := hdrop
  exact ⟨rest, by rw [push, push, ← hrest, List.append_assoc]⟩

/-- The new sample stays at the end. -/
theorem suffix_expire_push (old : τ × ν → Prop) [DecidablePred old] (now : τ) (val : ν)
    (l : List (τ × ν)) : [(now, val)] <:+ expire old (push now val l) := by
  have hlast : [(now, val)] <:+ push now val l := List.suffix_append _ _
  apply List.suffix_of_suffix_length_le hlast (expire_suffix _)
  exact List.length_pos_iff.mpr (expire_ne_nil push_ne_nil)

/-- What a new sample does to the front. -/
theorem head?_push (h : Sorted l) : (push now val l).head? =
    some (l.head?.elim (now, val) fun x => if val < x.2 then (now, val) else x) := by
  match l with
  | [] => rfl
  | x :: l =>
    simp only [List.head?_cons, Option.elim_some]
    split
    · rename_i hlt
      have hall : ∀ y ∈ x :: l, val < y.2 := by
        intro y hy
        rcases List.mem_cons.mp hy with rfl | hy
        · exact hlt
        · exact hlt.trans_le ((List.pairwise_cons.mp h).1 y hy)
      rw [push_of_lt hall, List.head?_cons]
    · rename_i hle
      rw [push_cons now l (not_lt.mp hle), List.head?_cons]

/-- The samples of a history, the oldest first, that no later one undercuts. -/
def frontier : List (τ × ν) → List (τ × ν)
  | [] => []
  | x :: l => if ∃ y ∈ l, y.2 < x.2 then frontier l else x :: frontier l

theorem frontier_sublist (l : List (τ × ν)) : (frontier l).Sublist l := by
  induction l with
  | nil => exact .slnil
  | cons x l ih =>
    rw [frontier]
    split
    · exact ih.cons x
    · exact ih.cons_cons x

theorem Sorted.frontier (l : List (τ × ν)) : Sorted (frontier l) := by
  induction l with
  | nil => exact .nil
  | cons x l ih =>
    rw [MonotoneDeque.frontier]
    split
    · exact ih
    · rename_i hleast
      refine List.pairwise_cons.mpr ⟨fun y hy => ?_, ih⟩
      exact not_lt.mp fun hlt => hleast ⟨y, (frontier_sublist l).subset hy, hlt⟩

/-- The least value of a history is at the front of the frontier. -/
theorem isLeast_head_frontier {x : τ × ν} (h : (frontier l).head? = some x) :
    IsLeast {v | ∃ y ∈ l, y.2 = v} x.2 := by
  induction l with
  | nil => cases h
  | cons z l ih =>
    rw [frontier] at h
    split at h
    · rename_i hless
      obtain ⟨y, hy, hyz⟩ := hless
      obtain ⟨⟨w, hw, hwx⟩, hlower⟩ := ih h
      refine ⟨⟨w, List.mem_cons_of_mem z hw, hwx⟩, ?_⟩
      intro v hv
      obtain ⟨u, hu, rfl⟩ := hv
      rcases List.mem_cons.mp hu with rfl | hu
      · exact (hlower ⟨y, hy, rfl⟩).trans hyz.le
      · exact hlower ⟨u, hu, rfl⟩
    · rename_i hleast
      obtain rfl : z = x := by simpa using h
      refine ⟨⟨z, List.mem_cons_self, rfl⟩, ?_⟩
      intro v hv
      obtain ⟨u, hu, rfl⟩ := hv
      rcases List.mem_cons.mp hu with rfl | hu
      · exact le_rfl
      · exact not_lt.mp fun hlt => hleast ⟨u, hu, hlt⟩

/-- A new sample at the end of the history. -/
theorem frontier_concat (now : τ) (val : ν) (l : List (τ × ν)) :
    frontier (l ++ [(now, val)]) = push now val (frontier l) := by
  induction l with
  | nil => simp [frontier, push]
  | cons x l ih =>
    have hexists : (∃ y ∈ l ++ [(now, val)], y.2 < x.2) ↔ (∃ y ∈ l, y.2 < x.2) ∨ val < x.2 := by
      simp only [List.mem_append, List.mem_singleton, or_and_right, exists_or, exists_eq_left]
    rw [List.cons_append, frontier, frontier, ih]
    by_cases hless : ∃ y ∈ l, y.2 < x.2
    · rw [if_pos (hexists.mpr (.inl hless)), if_pos hless]
    · rw [if_neg hless]
      by_cases hval : val < x.2
      · rw [if_pos (hexists.mpr (.inr hval))]
        -- the new sample undercuts the whole frontier
        have hall : ∀ y ∈ frontier l, val < y.2 := by
          intro y hy
          have hxy : x.2 ≤ y.2 :=
            not_lt.mp fun hlt => hless ⟨y, (frontier_sublist l).subset hy, hlt⟩
          exact hval.trans_le hxy
        rw [push_of_lt hall, push_of_lt (List.forall_mem_cons.mpr ⟨hval, hall⟩)]
      · rw [if_neg (mt hexists.mp (not_or.mpr ⟨hless, hval⟩)), push_cons now _ (not_lt.mp hval)]

section

variable {old : τ × ν → Prop} [DecidablePred old]

/-- No sample that stays was undercut by one that leaves. -/
theorem frontier_filter (hold : l.Pairwise fun x y => old y → old x) :
    frontier (l.filter fun x => ¬ old x) = (frontier l).filter fun x => ¬ old x := by
  induction l with
  | nil => rfl
  | cons x l ih =>
    obtain ⟨hx, hl⟩ := List.pairwise_cons.mp hold
    by_cases hxold : old x
    · rw [List.filter_cons_of_neg (by simpa using hxold), ih hl, frontier]
      split
      · rfl
      · rw [List.filter_cons_of_neg (by simpa using hxold)]
    · have hall : ∀ y ∈ x :: l, ¬ old y := by
        refine List.forall_mem_cons.mpr ⟨hxold, fun y hy => mt (hx y hy) hxold⟩
      rw [List.filter_eq_self.mpr (by simpa using hall), List.filter_eq_self.mpr]
      intro y hy
      exact decide_eq_true (hall y ((frontier_sublist _).subset hy))

end

section

variable {σ : Type*} (sample : σ → τ × ν) (old : σ → τ × ν → Prop) [∀ s, DecidablePred (old s)]

/-- The deque after some steps. Each step has a sample and says which samples are old. -/
def deque (steps : List σ) : List (τ × ν) :=
  steps.foldl (fun l s => expire (old s) (push (sample s).1 (sample s).2 l)) []

variable {sample old} {steps : List σ} {s : σ}

theorem deque_concat : deque sample old (steps ++ [s]) =
    expire (old s) (push (sample s).1 (sample s).2 (deque sample old steps)) := by
  rw [deque, List.foldl_append]
  rfl

theorem deque_ne_nil (h : steps ≠ []) : deque sample old steps ≠ [] := by
  obtain ⟨steps, s, rfl⟩ := (List.eq_nil_or_concat steps).resolve_left h
  rw [List.concat_eq_append, deque_concat]
  exact expire_ne_nil push_ne_nil

/-- The deque is the frontier of the samples that have never been old, if no sample is old at its
own step, and of two samples the older one is the first to be old. -/
theorem deque_eq (hnow : ∀ s ∈ steps, ¬ old s (sample s))
    (hold : ∀ s ∈ steps, (steps.map sample).Pairwise fun x y => old s y → old s x) :
    deque sample old steps = frontier (survivors sample old steps) := by
  induction steps using List.reverseRecOn with
  | nil => rfl
  | append_singleton steps s ih =>
    have hsub : (survivors sample old steps ++ [sample s]).Sublist ((steps ++ [s]).map sample) := by
      have hsteps : ∀ steps : List σ, (survivors sample old steps).Sublist (steps.map sample) := by
        intro steps
        induction steps using List.reverseRecOn with
        | nil => exact .slnil
        | append_singleton steps s ih =>
          rw [survivors_concat, List.map_append]
          exact List.filter_sublist.trans (ih.append_right [sample s])
      rw [List.map_append]
      exact (hsteps steps).append_right [sample s]
    have hs := (hold s (List.mem_append_right steps (List.mem_singleton_self s))).sublist hsub
    have hsteps := ih (fun r hr => hnow r (List.mem_append_left [s] hr)) fun r hr =>
      (hold r (List.mem_append_left [s] hr)).sublist
        ((List.sublist_append_left steps [s]).map sample)
    rw [deque_concat, survivors_concat, frontier_filter hs, hsteps,
      ← frontier_concat (sample s).1 (sample s).2]
    refine expire_eq_filter (hs.sublist (frontier_sublist _)) ⟨sample s, ?_, ?_⟩
    · rw [frontier_concat]
      exact List.mem_append_right _ (List.mem_singleton_self _)
    · exact hnow s (List.mem_append_right steps (List.mem_singleton_self s))

end

end MonotoneDeque
