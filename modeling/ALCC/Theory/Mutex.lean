import Mathlib.Logic.Basic

/-! Mutual exclusion by a mutex that `unlock` releases whoever calls it. The mutex excludes threads
from each other (`Mutex.Excludes`) as long as no thread unlocks it that is not inside, unless it is
free at that moment. -/

namespace Mutex

variable {ι : Type*} {held : Bool} {Inside Inside' : ι → Prop}

/-- At most one thread is inside, and if one is, the mutex is held. -/
structure Excludes (held : Bool) (Inside : ι → Prop) : Prop where
  unique : ∀ i j, Inside i → Inside j → i = j
  held : ∀ i, Inside i → held = true

namespace Excludes

/-- The threads inside are the same, or fewer. -/
theorem mono (h : Excludes held Inside) (hle : ∀ j, Inside' j → Inside j) :
    Excludes held Inside' where
  unique i j hi hj := h.unique i j (hle i hi) (hle j hj)
  held i hi := h.held i (hle i hi)

/-- Thread `i` locks the mutex, which is free. -/
theorem lock (h : Excludes held Inside) (hfree : held = false) {i : ι}
    (hother : ∀ j, Inside' j → j = i ∨ Inside j) : Excludes true Inside' where
  unique j k hj hk := by
    have hnone : ∀ j, Inside' j → j = i := by
      intro j hj
      refine (hother j hj).resolve_right fun hin => ?_
      have := h.held j hin
      rw [hfree] at this
      cases this
    rw [hnone j hj, hnone k hk]
  held _ _ := rfl

/-- Thread `i`, which is inside, unlocks the mutex. -/
theorem unlock (h : Excludes held Inside) {i : ι} (hi : Inside i)
    (hother : ∀ j, Inside' j → j ≠ i ∧ Inside j) : Excludes false Inside' := by
  have hnone : ∀ j, ¬ Inside' j := fun j hj => (hother j hj).1 (h.unique j i (hother j hj).2 hi)
  exact ⟨fun j k hj => absurd hj (hnone j), fun j hj => absurd hj (hnone j)⟩

/-- A thread that may be outside unlocks the mutex, which is free. -/
theorem unlock_free (h : Excludes held Inside) (hfree : held = false) :
    Excludes false Inside := hfree ▸ h

end Excludes

end Mutex
