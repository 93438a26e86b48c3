import Mathlib.Algebra.BigOperators.Group.List.Basic
import Mathlib.Algebra.Order.BigOperators.Group.List
import Mathlib.Algebra.Order.Ring.Defs
import Mathlib.Algebra.BigOperators.Ring.List
import Mathlib.Data.List.ModifyLast

/-! Lists of weights, such as the probabilities of the numbers 0, 1, and so on. The mass of the
first `n` of them bounds what a list yields: a convolution with weights that sum to at most one
moves mass away from the front (`mass_convolve_le`), so its quantiles are larger
(`quantile_mono`). -/

namespace Weights

section Add

variable {K : Type*} [AddCommMonoid K] {ws : List K} {added : List (Nat × K)} {n k : Nat}

/-- Each weight is added at its place. -/
def addAll (added : List (Nat × K)) (ws : List K) : List K :=
  added.foldl (fun ws a => ws.modify a.1 (· + a.2)) ws

/-- The sum of the first `n` weights. -/
def mass (n : Nat) (ws : List K) : K := (ws.take n).sum

theorem mass_of_length_le (h : ws.length ≤ n) : mass n ws = ws.sum := by
  rw [mass, List.take_of_length_le h]

theorem mass_cons (w : K) (ws : List K) (n : Nat) : mass (n + 1) (w :: ws) = w + mass n ws := by
  rw [mass, List.take_succ_cons, List.sum_cons, mass]

theorem mass_modify (h : k < ws.length) (v : K) :
    mass n (ws.modify k (· + v)) = mass n ws + if k < n then v else 0 := by
  induction ws generalizing n k with
  | nil => cases h
  | cons w ws ih =>
    cases n with
    | zero => simp [mass]
    | succ n =>
      cases k with
      | zero => simp [mass, add_right_comm]
      | succ k =>
        have hrest := ih (n := n) (Nat.lt_of_succ_lt_succ h)
        rw [mass, mass] at hrest
        simp [mass, hrest, add_assoc]

theorem length_addAll : (addAll added ws).length = ws.length := by
  induction added generalizing ws with
  | nil => rfl
  | cons a added ih =>
    rw [addAll, List.foldl_cons]
    exact ih.trans (List.length_modify ..)

/-- What is added below `n` makes the difference. -/
theorem mass_addAll (h : ∀ a ∈ added, a.1 < ws.length) :
    mass n (addAll added ws) =
      mass n ws + (added.map fun a => if a.1 < n then a.2 else 0).sum := by
  induction added generalizing ws with
  | nil => exact (add_zero _).symm
  | cons a added ih =>
    have hadded := List.forall_mem_cons.mp h
    have hrest : ∀ b ∈ added, b.1 < (ws.modify a.1 (· + a.2)).length := by
      rw [List.length_modify]
      exact hadded.2
    rw [addAll, List.foldl_cons, ← addAll, ih hrest, mass_modify hadded.1, List.map_cons,
      List.sum_cons, add_assoc]

theorem sum_addAll (h : ∀ a ∈ added, a.1 < ws.length) :
    (addAll added ws).sum = ws.sum + (added.map Prod.snd).sum := by
  have hmass := mass_addAll (n := ws.length) h
  rw [mass_of_length_le length_addAll.le, mass_of_length_le le_rfl] at hmass
  rw [hmass]
  congr 2
  exact List.map_congr_left fun a ha => if_pos (h a ha)

theorem sum_zipIdx (ws : List K) (first bound : Nat) :
    ((ws.zipIdx first).map fun w => if w.2 < bound then w.1 else 0).sum =
      mass (bound - first) ws := by
  induction ws generalizing first with
  | nil => simp [mass]
  | cons w ws ih =>
    rw [List.zipIdx_cons, List.map_cons, List.sum_cons, ih, mass, mass, Nat.sub_add_eq]
    by_cases hlt : first < bound
    · obtain ⟨d, rfl⟩ := Nat.exists_eq_add_of_lt hlt
      rw [if_pos hlt, show first + d + 1 - first = d + 1 by omega, List.take_succ_cons,
        List.sum_cons, Nat.add_sub_cancel]
    · rw [if_neg hlt, Nat.sub_eq_zero_of_le (not_lt.mp hlt), zero_add]
      rfl

end Add

section Convolve

variable {K : Type*} [Semiring K] {ws vs : List K}

/-- The weights of the sums of two numbers. -/
def convolve (ws vs : List K) : List K :=
  addAll (ws.zipIdx.flatMap fun w => vs.zipIdx.map fun v => (w.2 + v.2, w.1 * v.1))
    (.replicate (ws.length + vs.length - 1) 0)

theorem length_convolve : (convolve ws vs).length = ws.length + vs.length - 1 := by
  rw [convolve, length_addAll, List.length_replicate]

theorem mass_convolve (ws vs : List K) (n : Nat) : mass n (convolve ws vs) =
    (ws.zipIdx.map fun w =>
      (vs.zipIdx.map fun v => if w.2 + v.2 < n then w.1 * v.1 else 0).sum).sum := by
  have hplaces : ∀ a ∈ ws.zipIdx.flatMap fun w => vs.zipIdx.map fun v => (w.2 + v.2, w.1 * v.1),
      a.1 < (List.replicate (ws.length + vs.length - 1) (0 : K)).length := by
    intro a ha
    obtain ⟨w, hw, ha⟩ := List.mem_flatMap.mp ha
    obtain ⟨v, hv, rfl⟩ := List.mem_map.mp ha
    have hw' := List.snd_lt_of_mem_zipIdx hw
    have hv' := List.snd_lt_of_mem_zipIdx hv
    rw [List.length_replicate]
    omega
  rw [convolve, mass_addAll hplaces]
  have hzero : mass n (List.replicate (ws.length + vs.length - 1) (0 : K)) = 0 := by
    rw [mass, List.take_replicate, List.sum_replicate, nsmul_zero]
  rw [hzero, zero_add, List.map_flatMap, List.flatMap_def, List.sum_flatten, List.map_map]
  simp only [List.map_map, Function.comp_def]

end Convolve

section Ordered

variable {K : Type*} [Semiring K] [PartialOrder K] [IsOrderedRing K] {ws vs : List K}
  {added : List (Nat × K)} {n k : Nat}

theorem modify_nonneg (hws : ∀ w ∈ ws, 0 ≤ w) {v : K} (hv : 0 ≤ v) :
    ∀ w ∈ ws.modify k (· + v), 0 ≤ w := by
  intro w hw
  obtain ⟨i, hi, rfl⟩ := List.getElem_of_mem hw
  have hi' := hi.trans_eq (List.length_modify ..)
  rw [List.getElem_modify]
  split
  · exact add_nonneg (hws _ (List.getElem_mem hi')) hv
  · exact hws _ (List.getElem_mem hi')

theorem addAll_nonneg (hws : ∀ w ∈ ws, 0 ≤ w) (hadded : ∀ a ∈ added, 0 ≤ a.2) :
    ∀ w ∈ addAll added ws, 0 ≤ w := by
  induction added generalizing ws with
  | nil => exact hws
  | cons a added ih =>
    have hpos := List.forall_mem_cons.mp hadded
    exact ih (modify_nonneg hws hpos.1) hpos.2

/-- Nothing gets lighter. -/
theorem le_addAll (hadded : ∀ a ∈ added, 0 ≤ a.2) {w : K} (hw : ws[k]? = some w) :
    ∃ v, (addAll added ws)[k]? = some v ∧ w ≤ v := by
  induction added generalizing ws w with
  | nil => exact ⟨w, hw, le_rfl⟩
  | cons a added ih =>
    have hpos := List.forall_mem_cons.mp hadded
    by_cases hk : a.1 = k
    · have hmodify : (ws.modify a.1 (· + a.2))[k]? = some (w + a.2) := by
        simp [hk, hw]
      obtain ⟨v, hv, hle⟩ := ih hpos.2 hmodify
      exact ⟨v, hv, (le_add_of_nonneg_right hpos.1).trans hle⟩
    · apply ih hpos.2
      simp [hk, hw]

/-- A weight that is added is there. -/
theorem le_addAll_of_mem (hws : ∀ w ∈ ws, 0 ≤ w) (hadded : ∀ a ∈ added, 0 ≤ a.2) {a : Nat × K}
    (ha : a ∈ added) (hlt : a.1 < ws.length) :
    ∃ v, (addAll added ws)[a.1]? = some v ∧ a.2 ≤ v := by
  induction added generalizing ws with
  | nil => cases ha
  | cons b added ih =>
    have hpos := List.forall_mem_cons.mp hadded
    rcases List.mem_cons.mp ha with rfl | ha
    · have hmodify : (ws.modify a.1 (· + a.2))[a.1]? = some (ws[a.1] + a.2) := by
        simp [hlt]
      obtain ⟨v, hv, hle⟩ := le_addAll hpos.2 hmodify
      exact ⟨v, hv, (le_add_of_nonneg_left (hws _ (List.getElem_mem hlt))).trans hle⟩
    · exact ih (modify_nonneg hws hpos.1) hpos.2 ha (hlt.trans_eq (List.length_modify ..).symm)

theorem mass_mono (h : ∀ w ∈ ws, 0 ≤ w) (hnk : n ≤ k) : mass n ws ≤ mass k ws := by
  have hsplit : mass k ws = mass n ws + ((ws.take k).drop n).sum := by
    rw [mass, mass, ← List.sum_append, ← min_eq_left hnk, ← List.take_take,
      min_eq_left hnk, List.take_append_drop]
  rw [hsplit]
  apply le_add_of_nonneg_right
  exact List.sum_nonneg fun w hw => h w (List.mem_of_mem_take (List.mem_of_mem_drop hw))

theorem convolve_nonneg (hws : ∀ w ∈ ws, 0 ≤ w) (hvs : ∀ v ∈ vs, 0 ≤ v) :
    ∀ u ∈ convolve ws vs, 0 ≤ u := by
  apply addAll_nonneg
  · intro w hw
    exact (List.eq_of_mem_replicate hw).ge
  · intro a ha
    obtain ⟨w, hw, ha⟩ := List.mem_flatMap.mp ha
    obtain ⟨v, hv, rfl⟩ := List.mem_map.mp ha
    exact mul_nonneg (hws _ (List.fst_mem_of_mem_zipIdx hw)) (hvs _ (List.fst_mem_of_mem_zipIdx hv))

/-- Weights that sum to at most one move mass away from the front. -/
theorem mass_convolve_le (hws : ∀ w ∈ ws, 0 ≤ w) (hvs : ∀ v ∈ vs, 0 ≤ v) (hsum : vs.sum ≤ 1)
    (n : Nat) : mass n (convolve ws vs) ≤ mass n ws := by
  rw [mass_convolve, ← Nat.sub_zero n, ← sum_zipIdx ws 0 n, Nat.sub_zero]
  apply List.sum_le_sum
  intro w hw
  have hpos := hws _ (List.fst_mem_of_mem_zipIdx hw)
  by_cases hlt : w.2 < n
  · rw [if_pos hlt]
    calc (vs.zipIdx.map fun v => if w.2 + v.2 < n then w.1 * v.1 else 0).sum
        ≤ (vs.zipIdx.map fun v => w.1 * v.1).sum := by
          apply List.sum_le_sum
          intro v hv
          split
          · exact le_rfl
          · exact mul_nonneg hpos (hvs _ (List.fst_mem_of_mem_zipIdx hv))
      _ = w.1 * vs.sum := by rw [List.sum_map_mul_left, List.zipIdx_map_fst]
      _ ≤ w.1 := mul_le_of_le_one_right hpos hsum
  · rw [if_neg hlt]
    apply le_of_eq
    apply List.sum_eq_zero
    intro u hu
    obtain ⟨v, hv, rfl⟩ := List.mem_map.mp hu
    exact if_neg (by omega)

end Ordered

section Mix

variable {K : Type*} [Semiring K] {ws row : List K} {rows : List (List K)} {i n size : Nat}

/-- The weight of `i` when the weights are those of a row, and the row is chosen by `ws`. -/
def mix (ws : List K) (rows : List (List K)) (i : Nat) : K :=
  ((ws.zip rows).map fun w => w.1 * w.2.getD i 0).sum

theorem mass_succ (n : Nat) (row : List K) : mass (n + 1) row = mass n row + row.getD n 0 := by
  rw [mass, mass, List.take_add_one, List.sum_append, List.getD_eq_getElem?_getD]
  cases row[n]? with
  | none => rw [Option.toList_none, List.sum_nil, Option.getD_none]
  | some w => rw [Option.toList_some, List.sum_singleton, Option.getD_some]

theorem mass_range (f : Nat → K) (h : n ≤ size) :
    mass n ((List.range size).map f) = ((List.range n).map f).sum := by
  rw [mass, ← List.map_take, List.take_range, min_eq_left h]

theorem sum_range_mix (ws : List K) (rows : List (List K)) (n : Nat) :
    ((List.range n).map (mix ws rows)).sum = ((ws.zip rows).map fun w => w.1 * mass n w.2).sum := by
  induction n with
  | zero =>
    symm
    apply List.sum_eq_zero
    intro w hw
    obtain ⟨u, -, rfl⟩ := List.mem_map.mp hw
    exact mul_zero u.1
  | succ n ih =>
    rw [List.range_succ, List.map_append, List.sum_append, ih, List.map_singleton,
      List.sum_singleton, mix, ← List.sum_map_add]
    simp only [mass_succ, mul_add]

/-- The mass of the first `n` numbers is that of the rows. -/
theorem mass_mix (h : ∀ row ∈ rows, row.length ≤ size) (n : Nat) :
    mass n ((List.range size).map (mix ws rows)) =
      ((ws.zip rows).map fun w => w.1 * mass n w.2).sum := by
  rcases le_total n size with hn | hn
  · rw [mass_range _ hn, sum_range_mix]
  · rw [mass_of_length_le (by rwa [List.length_map, List.length_range]), sum_range_mix]
    congr 1
    apply List.map_congr_left
    intro w hw
    have hlen := h w.2 (List.of_mem_zip hw).2
    rw [mass_of_length_le hlen, mass_of_length_le (hlen.trans hn)]

end Mix

section MixOrdered

variable {K : Type*} [Semiring K] [PartialOrder K] [IsOrderedRing K] {ws : List K}
  {rows : List (List K)} {i n : Nat}

theorem mix_nonneg (hws : ∀ w ∈ ws, 0 ≤ w) (hrows : ∀ row ∈ rows, ∀ w ∈ row, 0 ≤ w) (i : Nat) :
    0 ≤ mix ws rows i := by
  apply List.sum_nonneg
  intro w hw
  obtain ⟨u, hu, rfl⟩ := List.mem_map.mp hw
  apply mul_nonneg (hws _ (List.of_mem_zip hu).1)
  rw [List.getD_eq_getElem?_getD]
  cases hi : u.2[i]? with
  | none => exact le_rfl
  | some w => exact hrows u.2 (List.of_mem_zip hu).2 w (List.mem_of_getElem? hi)

/-- If the rows have at most the mass 1, so has what they are mixed to. -/
theorem sum_mix_le (hws : ∀ w ∈ ws, 0 ≤ w) (hrows : ∀ row ∈ rows, mass n row ≤ 1)
    (hlen : ws.length = rows.length) :
    ((List.range n).map (mix ws rows)).sum ≤ ws.sum := by
  rw [sum_range_mix]
  calc ((ws.zip rows).map fun w => w.1 * mass n w.2).sum
      ≤ ((ws.zip rows).map Prod.fst).sum := by
        apply List.sum_le_sum
        intro w hw
        exact mul_le_of_le_one_right (hws _ (List.of_mem_zip hw).1) (hrows _ (List.of_mem_zip hw).2)
    _ = ws.sum := by rw [List.map_fst_zip hlen.le]

end MixOrdered

section Quantile

variable {K : Type*} [AddCommMonoid K] [LinearOrder K] {ws vs : List K} {x sum : K} {i : Nat}

/-- The least `i` for which the first `i + 1` weights and `sum` reach `x`. -/
def reach (x : K) : (ws : List K) → (sum : K) → Option Nat
  | [], _ => none
  | w :: ws, sum => if x ≤ sum + w then some 0 else (reach x ws (sum + w)).map (· + 1)

theorem lt_of_reach_none (h : reach x ws sum = none) (hi : i < ws.length) :
    sum + mass (i + 1) ws < x := by
  induction ws generalizing sum i with
  | nil => cases hi
  | cons w ws ih =>
    rw [reach] at h
    split at h
    · cases h
    rename_i hlt
    rw [mass_cons, ← add_assoc]
    cases i with
    | zero => simpa [mass] using hlt
    | succ i => exact ih (Option.map_eq_none_iff.mp h) (Nat.lt_of_succ_lt_succ hi)

theorem reach_spec (h : reach x ws sum = some i) :
    i < ws.length ∧ x ≤ sum + mass (i + 1) ws ∧ ∀ k < i, sum + mass (k + 1) ws < x := by
  induction ws generalizing sum i with
  | nil => cases h
  | cons w ws ih =>
    rw [reach] at h
    split at h
    · rename_i hle
      cases h
      refine ⟨Nat.succ_pos _, ?_, fun k hk => absurd hk (Nat.not_lt_zero k)⟩
      rwa [mass_cons, mass, List.take_zero, List.sum_nil, add_zero]
    · rename_i hlt
      obtain ⟨j, hj, rfl⟩ := Option.map_eq_some_iff.mp h
      obtain ⟨hlen, hle, hbelow⟩ := ih hj
      refine ⟨Nat.succ_lt_succ hlen, ?_, fun k hk => ?_⟩
      · rwa [mass_cons, ← add_assoc]
      · rw [mass_cons, ← add_assoc]
        cases k with
        | zero => simpa [mass] using hlt
        | succ k => exact hbelow k (Nat.lt_of_succ_lt_succ hk)

/-- The quantile, and a number behind the list when the weights do not reach `x`. -/
def quantile (x : K) (ws : List K) : Nat := (reach x ws 0).getD (ws.length + 1)

theorem quantile_le (h : i < ws.length) (hx : x ≤ mass (i + 1) ws) : quantile x ws ≤ i := by
  rw [quantile]
  cases hreach : reach x ws 0 with
  | none =>
    have hlt := lt_of_reach_none hreach h
    rw [zero_add] at hlt
    exact absurd hx (not_le.mpr hlt)
  | some j =>
    rw [Option.getD_some]
    by_contra hij
    have hlt := (reach_spec hreach).2.2 i (not_le.mp hij)
    rw [zero_add] at hlt
    exact absurd hx (not_le.mpr hlt)

theorem quantile_le_length (x : K) (ws : List K) : quantile x ws ≤ ws.length + 1 := by
  rw [quantile]
  cases hreach : reach x ws 0 with
  | none => exact le_rfl
  | some i => exact ((reach_spec hreach).1.trans (Nat.lt_succ_self _)).le

/-- With less mass in front the quantile is larger. -/
theorem quantile_mono (hne : ws ≠ []) (hlen : ws.length ≤ vs.length)
    (hmass : ∀ n, mass n vs ≤ mass n ws) : quantile x ws ≤ quantile x vs := by
  cases hreach : reach x vs 0 with
  | none =>
    rw [quantile, quantile, hreach]
    exact (quantile_le_length x ws).trans (Nat.succ_le_succ hlen)
  | some i =>
    obtain ⟨-, hx, -⟩ := reach_spec hreach
    rw [zero_add] at hx
    have hx' := hx.trans (hmass (i + 1))
    have hpos := List.length_pos_iff.mpr hne
    rw [show quantile x vs = i by rw [quantile, hreach, Option.getD_some]]
    rcases lt_or_ge i ws.length with hi | hi
    · exact quantile_le hi hx'
    · rw [mass_of_length_le (hi.trans (Nat.le_succ i))] at hx'
      have hlast : x ≤ mass (ws.length - 1 + 1) ws := by
        rwa [Nat.sub_add_cancel hpos, mass_of_length_le le_rfl]
      exact (quantile_le (Nat.sub_lt hpos Nat.one_pos) hlast).trans
        ((Nat.sub_le _ _).trans hi)

end Quantile

end Weights
