import ALCC.Theory.Run

/-! Two runs of a machine: one on all actions, one on the actions of `own` only. Of a state one sees
`obs`. The unwinding rule `looksPurged_iff_guarded` reduces the question whether the two runs look
the same after every prefix to one step of the pair of them. -/

namespace Machine

variable {σ α ω : Type*} (step : σ → α → Option σ) (own : α → Bool) (obs : σ → ω)

/-- After every prefix of the actions, the run from `w.1` looks like the run from `w.2` on the
actions of `own`. -/
def LooksPurged (w : σ × σ) (as : List α) : Prop :=
  ∀ pre, pre <+: as → (run step w.1 pre).map obs = (run step w.2 (pre.filter own)).map obs

/-- A step of both runs. -/
def pairStep (w : σ × σ) (a : α) : Option (σ × σ) :=
  (step w.1 a).bind fun t => (if own a then step w.2 a else some w.2).map fun u => (t, u)

variable {step own obs} {w w' : σ × σ} {t u : σ} {a : α} {as : List α}

theorem pairStep_eq (h₁ : step w.1 a = some t)
    (h₂ : (if own a then step w.2 a else some w.2) = some u) :
    pairStep step own w a = some (t, u) := by
  rw [pairStep, h₁, Option.bind_some, h₂, Option.map_some]

theorem run_pair_cons (h : pairStep step own w a = some w') (pre : List α) :
    run step w.1 (a :: pre) = run step w'.1 pre ∧
      run step w.2 ((a :: pre).filter own) = run step w'.2 (pre.filter own) := by
  obtain ⟨t, ht, h⟩ := Option.bind_eq_some_iff.mp h
  obtain ⟨u, hu, rfl⟩ := Option.map_eq_some_iff.mp h
  refine ⟨run_cons_of_step ht, ?_⟩
  cases hown : own a with
  | true =>
    rw [hown, if_pos rfl] at hu
    rw [List.filter_cons_of_pos hown, run_cons_of_step hu]
  | false =>
    rw [hown, if_neg Bool.false_ne_true] at hu
    cases hu
    rw [List.filter_cons_of_neg (by simp [hown])]

/-- **The unwinding rule.** Let the pairs of `I` look the same, let the steps meeting `G` keep `I`
or end both runs at once, and let every other step from a pair of `I` make a difference. Then the
runs look the same after every prefix exactly when all steps of the pair meet `G`. -/
theorem looksPurged_iff_guarded {I : σ × σ → Prop} {G : σ × σ → α → Prop}
    (same : ∀ w, I w → obs w.1 = obs w.2)
    (keep : ∀ w a w', I w → G w a → pairStep step own w a = some w' → I w')
    (ends : ∀ w a, I w → G w a → pairStep step own w a = none →
      step w.1 a = none ∧ own a = true ∧ step w.2 a = none)
    (break_ : ∀ w a, I w → ¬ G w a →
      (step w.1 a).map obs ≠ (if own a then step w.2 a else some w.2).map obs) (hI : I w) :
    LooksPurged step own obs w as ↔ Guarded (pairStep step own) G w as := by
  induction as generalizing w with
  | nil =>
    refine ⟨fun _ => trivial, fun _ pre hpre => ?_⟩
    rw [List.prefix_nil.mp hpre]
    exact congrArg some (same w hI)
  | cons a as ih =>
    constructor
    · intro h
      have hG : G w a := by
        by_contra hG
        refine break_ w a hI hG ?_
        have hfirst := h [a] (List.cons_prefix_cons.mpr ⟨rfl, List.nil_prefix⟩)
        cases hown : own a <;> simpa [run, hown] using hfirst
      refine ⟨hG, fun w' hw' => (ih (keep w a w' hI hG hw')).mp fun pre hpre => ?_⟩
      obtain ⟨h₁, h₂⟩ := run_pair_cons hw' pre
      rw [← h₁, ← h₂]
      exact h (a :: pre) (List.cons_prefix_cons.mpr ⟨rfl, hpre⟩)
    · rintro ⟨hG, h⟩ pre hpre
      rcases List.prefix_cons_iff.mp hpre with rfl | ⟨pre', rfl, hpre'⟩
      · exact congrArg some (same w hI)
      · cases hw' : pairStep step own w a with
        | none =>
          obtain ⟨h₁, hown, h₂⟩ := ends w a hI hG hw'
          simp only [List.filter_cons_of_pos hown, run, h₁, h₂, Option.bind_none]
        | some w' =>
          obtain ⟨h₁, h₂⟩ := run_pair_cons hw' pre'
          rw [h₁, h₂]
          exact (ih (keep w a w' hI hG hw')).mpr (h w' hw') pre' hpre'

end Machine
