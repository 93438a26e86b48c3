import Mathlib.Data.List.Basic

/-! Byte arrays as lists, and the copy between two of them. -/

namespace Memory

variable {α : Type*}

/-- `dst` with its cells `d, ..., d + n - 1` replaced by the cells `s, ..., s + n - 1` of `src`. -/
def blit (dst : List α) (d : Nat) (src : List α) (s n : Nat) : List α :=
  dst.take d ++ (src.drop s).take n ++ dst.drop (d + n)

/-- `memcpy(dst + d, src + s, n)`. The length is converted to an unsigned `size_t`, so a negative
one asks for more bytes than any array has; a copy that leaves one of the arrays has no defined
result. -/
def memcpy (dst : List α) (d : Int) (src : List α) (s n : Int) : Option (List α) :=
  if 0 ≤ n ∧ 0 ≤ d ∧ d + n ≤ dst.length ∧ 0 ≤ s ∧ s + n ≤ src.length then
    some (blit dst d.toNat src s.toNat n.toNat)
  else none

theorem memcpy_eq {dst src : List α} {d s n : Int} (i j k : Nat) (hd : d = i) (hs : s = j)
    (hn : n = k) (hdst : i + k ≤ dst.length) (hsrc : j + k ≤ src.length) :
    memcpy dst d src s n = some (blit dst i src j k) := by
  subst hd hs hn
  rw [memcpy, if_pos ⟨by omega, by omega, by omega, by omega, by omega⟩]
  simp only [Int.toNat_natCast]

section
variable {dst src : List α} {d s n : Nat} (hd : d + n ≤ dst.length) (hs : s + n ≤ src.length)
include hd hs

theorem length_blit : (blit dst d src s n).length = dst.length := by
  simp only [blit, List.length_append, List.length_take, List.length_drop]
  omega

/-- A cell of the copied range holds the byte of the source. -/
theorem blit_inside {i : Nat} (h1 : d ≤ i) (h2 : i < d + n) :
    (blit dst d src s n)[i]? = src[s + (i - d)]? := by
  have h3 : (dst.take d).length = d := by rw [List.length_take]; omega
  have h4 : ((src.drop s).take n).length = n := by
    rw [List.length_take, List.length_drop]; omega
  rw [blit, List.getElem?_append_left (by rw [List.length_append]; omega),
    List.getElem?_append_right (by omega), h3, List.getElem?_take_of_lt (by omega),
    List.getElem?_drop]

/-- A cell outside the copied range is unchanged. -/
theorem blit_outside {i : Nat} (h : i < d ∨ d + n ≤ i) :
    (blit dst d src s n)[i]? = dst[i]? := by
  have h3 : (dst.take d).length = d := by rw [List.length_take]; omega
  have h4 : ((src.drop s).take n).length = n := by
    rw [List.length_take, List.length_drop]; omega
  rcases h with h | h
  · rw [blit, List.append_assoc, List.getElem?_append_left (by omega),
      List.getElem?_take_of_lt h]
  · rw [blit, List.getElem?_append_right (by rw [List.length_append]; omega), List.length_append,
      h3, h4, List.getElem?_drop]
    congr 1
    omega

end

end Memory
