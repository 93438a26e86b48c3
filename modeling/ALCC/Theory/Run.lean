import Mathlib.Data.List.Infix

/-! Runs of a machine given by a partial step function. A step that is not enabled yields
`none`, so a list of actions determines at most one run. A condition on steps is a relation
`G` between the state before the step and the action. The two rules at the end are the ones the
development uses: an invariant kept by every step that meets `G` holds in all states of a run
whose steps meet `G` (`Guarded.always`), and `G` is exact for a property which the first step
outside `G` destroys (`Guarded.always_iff_guarded`). -/

namespace Machine

variable {σ α : Type*} (step : σ → α → Option σ)

/-- The state reached from `s` by the actions in order, if every one of them is enabled. -/
def run : σ → List α → Option σ
  | s, [] => some s
  | s, a :: as => (step s a).bind fun t => run t as

/-- `P` holds in every state the run from `s` goes through, its first and last included. -/
def Always (P : σ → Prop) : σ → List α → Prop
  | s, [] => P s
  | s, a :: as => P s ∧ ∀ t, step s a = some t → Always P t as

/-- Every step of the run from `s` meets the condition `G`. -/
def Guarded (G : σ → α → Prop) : σ → List α → Prop
  | _, [] => True
  | s, a :: as => G s a ∧ ∀ t, step s a = some t → Guarded G t as

variable {step} {s t u : σ} {a : α} {as bs : List α} {P I : σ → Prop} {G : σ → α → Prop}

theorem run_cons : run step s (a :: as) = some t ↔
    ∃ u, step s a = some u ∧ run step u as = some t := by
  simp [run, Option.bind_eq_some_iff]

theorem run_cons_of_step (h : step s a = some u) : run step s (a :: as) = run step u as := by
  simp [run, h]

theorem run_append : run step s (as ++ bs) = (run step s as).bind (run step · bs) := by
  induction as generalizing s with
  | nil => rfl
  | cons a as ih =>
    cases h : step s a with
    | none => simp [run, h]
    | some u => simp only [List.cons_append, run_cons_of_step h, ih]

theorem run_concat (h : run step s as = some t) : run step s (as ++ [a]) = step t a := by
  rw [run_append, h]
  cases h' : step t a <;> simp [run, h']

theorem Always.head (h : Always step P s as) : P s := by
  cases as with
  | nil => exact h
  | cons a as => exact h.1

theorem Always.last (h : Always step P s as) (hrun : run step s as = some t) : P t := by
  induction as generalizing s with
  | nil =>
    cases hrun
    exact h
  | cons a as ih =>
    obtain ⟨u, hu, hrun⟩ := run_cons.mp hrun
    exact ih (h.2 u hu) hrun

theorem Always.imp {Q : σ → Prop} (hPQ : ∀ s, P s → Q s) (h : Always step P s as) :
    Always step Q s as := by
  induction as generalizing s with
  | nil => exact hPQ _ h
  | cons a as ih => exact ⟨hPQ _ h.1, fun t ht => ih (h.2 t ht)⟩

theorem guarded_cons_of_step (h : step s a = some u) :
    Guarded step G s (a :: as) ↔ G s a ∧ Guarded step G u as := by
  simp [Guarded, h]

theorem Guarded.left (h : Guarded step G s (as ++ bs)) : Guarded step G s as := by
  induction as generalizing s with
  | nil => trivial
  | cons a as ih => exact ⟨h.1, fun t ht => ih (h.2 t ht)⟩

theorem Guarded.right (h : Guarded step G s (as ++ bs)) (hrun : run step s as = some t) :
    Guarded step G t bs := by
  induction as generalizing s with
  | nil =>
    cases hrun
    exact h
  | cons a as ih =>
    obtain ⟨u, hu, hrun⟩ := run_cons.mp hrun
    exact ih (h.2 u hu) hrun

theorem Guarded.append (h : Guarded step G s as)
    (h' : ∀ t, run step s as = some t → Guarded step G t bs) : Guarded step G s (as ++ bs) := by
  induction as generalizing s with
  | nil => exact h' s rfl
  | cons a as ih =>
    refine ⟨h.1, fun u hu => ih (h.2 u hu) fun t ht => h' t ?_⟩
    rw [run_cons_of_step hu]
    exact ht

theorem Guarded.and {H : σ → α → Prop} (h : Guarded step G s as) (h' : Guarded step H s as) :
    Guarded step (fun s a => G s a ∧ H s a) s as := by
  induction as generalizing s with
  | nil => trivial
  | cons a as ih => exact ⟨⟨h.1, h'.1⟩, fun t ht => ih (h.2 t ht) (h'.2 t ht)⟩

instance Guarded.decidable [∀ s a, Decidable (G s a)] :
    ∀ (s : σ) (as : List α), Decidable (Guarded step G s as)
  | _, [] => .isTrue trivial
  | s, a :: as =>
    match h : step s a with
    | none => decidable_of_iff (G s a) (by simp [Guarded, h])
    | some u =>
      have := Guarded.decidable u as
      decidable_of_iff (G s a ∧ Guarded step G u as) (guarded_cons_of_step h).symm

theorem guarded_of_forall (h : ∀ s, ∀ a ∈ as, G s a) : Guarded step G s as := by
  induction as generalizing s with
  | nil => trivial
  | cons a as ih =>
    exact ⟨h s a List.mem_cons_self, fun _ _ => ih fun s b hb => h s b (List.mem_cons_of_mem _ hb)⟩

/-- **The invariant rule.** What every step meeting `G` keeps holds all along a run whose steps
meet `G`. -/
theorem Guarded.always (keep : ∀ s a t, I s → G s a → step s a = some t → I t) (hI : I s)
    (h : Guarded step G s as) : Always step I s as := by
  induction as generalizing s with
  | nil => exact hI
  | cons a as ih => exact ⟨hI, fun t ht => ih (keep s a t hI h.1 ht) (h.2 t ht)⟩

/-- The invariant rule at the last state of the run. -/
theorem Guarded.invariant (keep : ∀ s a t, I s → G s a → step s a = some t → I t) (hI : I s)
    (h : Guarded step G s as) (hrun : run step s as = some t) : I t :=
  (h.always keep hI).last hrun

/-- What holds of every step meeting `G` from a state of the invariant holds of every step of a run
whose steps meet `G`. -/
theorem Guarded.guarded {H : σ → α → Prop}
    (keep : ∀ s a t, I s → G s a → step s a = some t → I t) (hGH : ∀ s a, I s → G s a → H s a)
    (hI : I s) (h : Guarded step G s as) : Guarded step H s as := by
  induction as generalizing s with
  | nil => trivial
  | cons a as ih => exact ⟨hGH s a hI h.1, fun t ht => ih (keep s a t hI h.1 ht) (h.2 t ht)⟩

/-- Among the runs whose steps meet `C`, the steps have a property exactly if they meet `G`, when
this is so of every step from a state of the invariant. -/
theorem Guarded.guarded_iff {C H : σ → α → Prop} (h : Guarded step C s as)
    (exact_ : ∀ s a, I s → C s a → (H s a ↔ G s a))
    (keep : ∀ s a t, I s → C s a → G s a → step s a = some t → I t) (hI : I s) :
    Guarded step H s as ↔ Guarded step G s as := by
  induction as generalizing s with
  | nil => exact Iff.rfl
  | cons a as ih =>
    refine (and_congr_left' (exact_ s a hI h.1)).trans (and_congr_right fun hG => ?_)
    exact forall₂_congr fun t ht => ih (h.2 t ht) (keep s a t hI h.1 hG ht)

/-- The invariant rule for a property that every step keeps. -/
theorem invariant (keep : ∀ s a t, I s → step s a = some t → I t) (hI : I s)
    (hrun : run step s as = some t) : I t :=
  Guarded.invariant (G := fun _ _ => True) (fun s a t h _ => keep s a t h) hI
    (guarded_of_forall fun _ _ _ => trivial) hrun

/-- A run does not get stuck when every action that meets `G` is enabled in the states of an
invariant. -/
theorem Guarded.total (enabled : ∀ s a, I s → G s a → ∃ t, step s a = some t ∧ I t) (hI : I s)
    (h : Guarded step G s as) : ∃ t, run step s as = some t ∧ I t := by
  induction as generalizing s with
  | nil => exact ⟨s, rfl, hI⟩
  | cons a as ih =>
    obtain ⟨u, hu, hIu⟩ := enabled s a hI h.1
    rw [run_cons_of_step hu]
    exact ih hIu (h.2 u hu)

/-- Runs do not get stuck when every action is enabled in the states of an invariant. -/
theorem run_total (enabled : ∀ s a, I s → ∃ t, step s a = some t ∧ I t) (hI : I s)
    (as : List α) : ∃ t, run step s as = some t ∧ I t :=
  Guarded.total (G := fun _ _ => True) (fun s a h _ => enabled s a h) hI
    (guarded_of_forall fun _ _ _ => trivial)

/-- A property of the states is one of the first state and of the steps. -/
theorem always_iff : Always step P s as ↔
    P s ∧ Guarded step (fun s a => ∀ t, step s a = some t → P t) s as := by
  induction as generalizing s with
  | nil => exact (and_iff_left trivial).symm
  | cons a as ih => simp only [Always, Guarded, ih, imp_and, forall_and]

/-- The steps of a run that does not get stuck are enabled. -/
theorem guarded_of_run (hrun : run step s as = some u) :
    Guarded step (fun s a => ∃ t, step s a = some t) s as := by
  induction as generalizing s with
  | nil => trivial
  | cons a as ih =>
    obtain ⟨t, ht, hrun⟩ := run_cons.mp hrun
    exact (guarded_cons_of_step ht).mpr ⟨⟨t, ht⟩, ih hrun⟩

/-- **The exactness rule**, among the runs whose steps meet `C`. Let the invariant `I` give `P`, let
the steps meeting `G` keep `I`, and let every other step from a state of `I` end in a state where
`P` fails. Then `P` holds all along a run exactly when all steps of the run meet `G`. -/
theorem Guarded.always_iff_guarded {C : σ → α → Prop} (h : Guarded step C s as)
    (hP : ∀ s, I s → P s) (keep : ∀ s a t, I s → C s a → G s a → step s a = some t → I t)
    (break_ : ∀ s a, I s → C s a → ¬ G s a → ∃ t, step s a = some t ∧ ¬ P t) (hI : I s) :
    Always step P s as ↔ Guarded step G s as := by
  rw [always_iff, and_iff_right (hP s hI)]
  refine h.guarded_iff (fun s a hI hC => ⟨fun hall => ?_, fun hG t ht => ?_⟩) keep hI
  · by_contra hG
    obtain ⟨t, ht, hnot⟩ := break_ s a hI hC hG
    exact hnot (hall t ht)
  · exact hP t (keep s a t hI hC hG ht)

/-- The exactness rule for a run that does not get stuck. -/
theorem always_iff_guarded (hP : ∀ s, I s → P s)
    (keep : ∀ s a t, I s → G s a → step s a = some t → I t)
    (break_ : ∀ s a t, I s → ¬ G s a → step s a = some t → ¬ P t) (hI : I s)
    (hrun : run step s as = some u) : Always step P s as ↔ Guarded step G s as := by
  apply (guarded_of_run hrun).always_iff_guarded hP _ _ hI
  · exact fun s a t hI _ => keep s a t hI
  · exact fun s a hI ⟨t, ht⟩ hG => ⟨t, ht, break_ s a t hI hG ht⟩

end Machine
