import Mathlib.Data.Finmap
import Mathlib.Data.Finset.Max

/-! Finite maps over a linear order, with the entry of the smallest key, the largest key and the
number of keys, as an ordered map has them. -/

namespace Finmap

variable {α β : Type*}

def size (m : Finmap fun _ : α => β) : Nat := m.keys.card

theorem size_pos {m : Finmap fun _ : α => β} {k : α} (h : k ∈ m) : 0 < m.size :=
  Finset.card_pos.mpr ⟨k, mem_keys.mpr h⟩

variable [LinearOrder α] {m : Finmap fun _ : α => β} {k l : α} {v : β}

/-- The value of the smallest key. -/
def first? (m : Finmap fun _ : α => β) : Option β :=
  if h : m.keys.Nonempty then m.lookup (m.keys.min' h) else none

def lastKey? (m : Finmap fun _ : α => β) : Option α :=
  if h : m.keys.Nonempty then some (m.keys.max' h) else none

theorem lookup_of_first? (h : m.first? = some v) : ∃ k, m.lookup k = some v := by
  rw [first?] at h
  split at h
  · exact ⟨_, h⟩
  · cases h

theorem mem_of_lastKey? (h : m.lastKey? = some k) : k ∈ m := by
  rw [lastKey?] at h
  split at h
  · cases h
    exact mem_keys.mp (Finset.max'_mem _ _)
  · cases h

theorem le_of_lastKey? (h : m.lastKey? = some k) (hl : l ∈ m) : l ≤ k := by
  rw [lastKey?] at h
  split at h
  · cases h
    exact Finset.le_max' _ _ (mem_keys.mpr hl)
  · cases h

theorem notMem_of_lastKey? (h : m.lastKey? = none) : k ∉ m := by
  rw [lastKey?] at h
  split at h
  · cases h
  · rename_i hempty
    exact fun hk => hempty ⟨k, mem_keys.mpr hk⟩

theorem keys_insert (k : α) (v : β) (m : Finmap fun _ : α => β) :
    (m.insert k v).keys = Insert.insert k m.keys := by
  ext l
  rw [mem_keys, mem_insert, Finset.mem_insert, mem_keys]

theorem size_insert (h : k ∉ m) : (m.insert k v).size = m.size + 1 := by
  rw [size, keys_insert, Finset.card_insert_of_notMem (mt mem_keys.mp h), size]

theorem size_erase (h : k ∈ m) : (m.erase k).size + 1 = m.size := by
  rw [size, keys_erase, size]
  exact Finset.card_erase_add_one (mem_keys.mpr h)

theorem lookup_of_erase (h : (m.erase l).lookup k = some v) : m.lookup k = some v := by
  by_cases hkl : k = l
  · rw [hkl, lookup_erase] at h
    cases h
  · rwa [lookup_erase_ne hkl] at h

end Finmap
