import Mathlib.Data.List.Rotate
import ALCC.Theory.Memory

/-! Cyclic windows of a byte array. The window of `n` cells starting at `front` wraps around at
the end of the array; a ring buffer stores its bytes in such a window. A window is determined by
its cells (`Ring.window_eq_iff`), which is how the copies of a ring buffer are verified. -/

namespace Ring

variable {α : Type*}

/-- The index `i` reduced to an array of `cap` cells, for an `i` that goes once around at most. -/
def wrap (cap i : Nat) : Nat := if i < cap then i else i - cap

theorem wrap_eq_mod {cap i : Nat} (h : i < 2 * cap) : i % cap = wrap cap i := by
  rw [wrap]
  split
  · exact Nat.mod_eq_of_lt ‹_›
  · rw [Nat.mod_eq_sub_mod (by omega), Nat.mod_eq_of_lt (by omega)]

theorem toNat_mod_eq {cap i : Nat} {x : Int} (hx : x = i) (h : i < 2 * cap) :
    (x % cap).toNat = wrap cap i := by
  rw [hx, ← wrap_eq_mod h]
  rfl

/-- The `n` cells starting at `front`, read around the end of the array. -/
def window (arr : List α) (front n : Nat) : List α := (arr.rotate front).take n

@[simp] theorem window_zero (arr : List α) (front : Nat) : window arr front 0 = [] := rfl

theorem take_window {arr : List α} {front n k : Nat} (hk : k ≤ n) :
    (window arr front n).take k = window arr front k := by
  rw [window, List.take_take, Nat.min_eq_left hk, window]

section
variable {arr l : List α} {cap front n k : Nat} (hcap : arr.length = cap)
include hcap

theorem length_window (hn : n ≤ cap) (front : Nat) : (window arr front n).length = n := by
  rw [window, List.length_take, List.length_rotate]
  omega

theorem window_cell {i : Nat} (hf : front < cap) (hn : n ≤ cap) (hi : i < n) :
    (window arr front n)[i]? = arr[wrap cap (front + i)]? := by
  rw [window, List.getElem?_take_of_lt hi, List.getElem?_rotate (by omega), Nat.add_comm i, hcap,
    wrap_eq_mod (by omega)]

/-- A list is the window as soon as it has its length and its cells. -/
theorem window_eq_iff (hf : front < cap) (hn : n ≤ cap) :
    l = window arr front n ↔ l.length = n ∧ ∀ i < n, l[i]? = arr[wrap cap (front + i)]? := by
  constructor
  · rintro rfl
    exact ⟨length_window hcap hn front, fun i hi => window_cell hcap hf hn hi⟩
  · rintro ⟨hl, hcell⟩
    apply List.ext_getElem?
    intro i
    by_cases hi : i < n
    · rw [hcell i hi, window_cell hcap hf hn hi]
    · rw [List.getElem?_eq_none (by omega),
        List.getElem?_eq_none (by rw [length_window hcap hn]; omega)]

/-- Reading `k` bytes leaves the window that starts `k` cells later. -/
theorem drop_window (hf : front < cap) (hn : n ≤ cap) (hk : k ≤ n) :
    (window arr front n).drop k = window arr (wrap cap (front + k)) (n - k) := by
  have hlt : wrap cap (front + k) < cap ∨ k = n := by
    rw [wrap]; split <;> omega
  rcases hlt with hlt | rfl
  · rw [window_eq_iff hcap hlt (by omega)]
    refine ⟨by rw [List.length_drop, length_window hcap hn], fun i hi => ?_⟩
    rw [List.getElem?_drop, window_cell hcap hf hn (by omega)]
    congr 1
    simp only [wrap]
    split <;> split <;> split <;> omega
  · rw [Nat.sub_self, window_zero, List.drop_eq_nil_iff, length_window hcap hn]

/-- Writing `k` bytes behind a window of `n` cells, and nothing into it, appends them to it. -/
theorem window_append {arr' item : List α} (hf : front < cap) (hn : n + k ≤ cap)
    (hk : k ≤ item.length) (hcap' : arr'.length = cap)
    (hold : ∀ i < n, arr'[wrap cap (front + i)]? = arr[wrap cap (front + i)]?)
    (hnew : ∀ i < k, arr'[wrap cap (front + n + i)]? = item[i]?) :
    window arr' front (n + k) = window arr front n ++ item.take k := by
  have hw : (window arr front n).length = n := length_window hcap (by omega) front
  symm
  rw [window_eq_iff hcap' hf hn]
  refine ⟨by rw [List.length_append, hw, List.length_take]; omega, fun i hi => ?_⟩
  by_cases hin : i < n
  · rw [List.getElem?_append_left (by omega), window_cell hcap hf (by omega) hin, hold i hin]
  · rw [List.getElem?_append_right (by omega), hw, List.getElem?_take_of_lt (by omega),
      ← hnew (i - n) (by omega)]
    congr 2
    omega

/-- A buffer filled with the window, and kept behind it. -/
theorem eq_window_append_drop {buf buf' : List α} (hf : front < cap) (hn : n ≤ cap)
    (hnew : ∀ i < n, buf'[i]? = arr[wrap cap (front + i)]?)
    (hold : ∀ i, n ≤ i → buf'[i]? = buf[i]?) :
    buf' = window arr front n ++ buf.drop n := by
  have hw : (window arr front n).length = n := length_window hcap hn front
  apply List.ext_getElem?
  intro i
  by_cases hi : i < n
  · rw [List.getElem?_append_left (by omega), window_cell hcap hf hn hi, hnew i hi]
  · rw [List.getElem?_append_right (by omega), hw, List.getElem?_drop, hold i (by omega)]
    congr 1
    omega

end

/-- The number of cells from `front` to `rear`, going around the end when `rear` lies behind. -/
def distance (cap front rear : Nat) : Nat :=
  if front ≤ rear then rear - front else cap - front + rear

theorem distance_lt {cap front rear : Nat} (hf : front < cap) (hr : rear < cap) :
    distance cap front rear < cap := by
  rw [distance]
  split <;> omega

theorem wrap_add_distance {cap front rear i : Nat} (hf : front < cap) (hr : rear < cap)
    (hi : distance cap front rear + i < cap) :
    wrap cap (front + distance cap front rear + i) = wrap cap (rear + i) := by
  simp only [wrap, distance] at hi ⊢
  split at hi <;> split <;> split <;> split <;> omega

theorem wrap_lt {cap i : Nat} (h : i < 2 * cap) : wrap cap i < cap := by
  rw [wrap]
  split <;> omega

/-- Moving the end of a window forward. -/
theorem distance_wrap_rear {cap front rear k : Nat} (hf : front < cap) (hr : rear < cap)
    (h : distance cap front rear + k < cap) :
    distance cap front (wrap cap (rear + k)) = distance cap front rear + k := by
  simp only [distance, wrap] at h ⊢
  split at h <;> split <;> split <;> omega

/-- Moving the start of a window forward. -/
theorem distance_wrap_front {cap front rear k : Nat} (hf : front < cap) (hr : rear < cap)
    (h : k ≤ distance cap front rear) :
    distance cap (wrap cap (front + k)) rear = distance cap front rear - k := by
  simp only [distance, wrap] at h ⊢
  split at h <;> split <;> split <;> omega

end Ring
