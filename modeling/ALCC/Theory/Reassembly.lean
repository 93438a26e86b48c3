import Mathlib.Data.Finset.Range
import Mathlib.Data.Finset.Insert

/-! Numbered pieces of items, of which the pieces of one item at a time are collected. An item is
handed out as soon as all of its pieces are there. -/

/-- The item whose pieces are collected, and the numbers of those that are there. -/
structure Collection (ι : Type*) where
  item : ι
  got : Finset Nat

namespace Collection

variable {ι : Type*} [DecidableEq ι]

/-- What is there after the piece `n` of `item`. The pieces of another item are thrown away. -/
def insert (item : ι) (n : Nat) (c : Collection ι) : Collection ι :=
  ⟨item, Insert.insert n (if c.item = item then c.got else ∅)⟩

/-- All pieces are there. -/
def Complete (total : ι → Nat) (c : Collection ι) : Prop := c.got = Finset.range (total c.item)

instance (total : ι → Nat) (c : Collection ι) : Decidable (c.Complete total) :=
  inferInstanceAs (Decidable (_ = _))

/-- An item that is complete is handed out. -/
def add (total : ι → Nat) (item : ι) (n : Nat) (c : Collection ι) : Option ι × Collection ι :=
  let c := c.insert item n
  if c.Complete total then (some item, ⟨item, ∅⟩) else (none, c)

/-- The items that a list of pieces completes, and what is there afterwards. -/
def adds (total : ι → Nat) : List (ι × Nat) → Collection ι → List ι × Collection ι
  | [], c => ([], c)
  | p :: pieces, c =>
    let (done, c) := c.add total p.1 p.2
    let (rest, c) := adds total pieces c
    (done.toList ++ rest, c)

variable {total : ι → Nat} {item : ι} {n : Nat} {c : Collection ι} {pieces : List (ι × Nat)}

theorem adds_cons {p : ι × Nat} : c.adds total (p :: pieces) =
    ((c.add total p.1 p.2).1.toList ++ ((c.add total p.1 p.2).2.adds total pieces).1,
      ((c.add total p.1 p.2).2.adds total pieces).2) := rfl

theorem add_of_complete (h : (c.insert item n).Complete total) :
    c.add total item n = (some item, ⟨item, ∅⟩) := if_pos h

theorem add_of_not_complete (h : ¬ (c.insert item n).Complete total) :
    c.add total item n = (none, c.insert item n) := if_neg h

/-- Only an item of which some piece came is handed out. -/
theorem mem_of_mem_adds (h : item ∈ (c.adds total pieces).1) : ∃ p ∈ pieces, p.1 = item := by
  induction pieces generalizing c with
  | nil => cases h
  | cons p pieces ih =>
    rw [adds_cons] at h
    rcases List.mem_append.mp h with h | h
    · by_cases hcomplete : (c.insert p.1 p.2).Complete total
      · rw [add_of_complete hcomplete] at h
        exact ⟨p, List.mem_cons_self, (List.mem_singleton.mp h).symm⟩
      · rw [add_of_not_complete hcomplete] at h
        cases h
    · obtain ⟨q, hq, hitem⟩ := ih h
      exact ⟨q, List.mem_cons_of_mem p hq, hitem⟩

/-- The pieces that are there are pieces of the item. -/
def Within (total : ι → Nat) (c : Collection ι) : Prop := c.got ⊆ Finset.range (total c.item)

theorem Within.insert (h : c.Within total) (hn : n < total item) :
    (c.insert item n).Within total := by
  apply Finset.insert_subset (Finset.mem_range.mpr hn)
  split
  · rename_i hitem
    exact hitem ▸ h
  · exact Finset.empty_subset _

theorem Within.add (h : c.Within total) (hn : n < total item) :
    (c.add total item n).2.Within total := by
  by_cases hcomplete : (c.insert item n).Complete total
  · rw [add_of_complete hcomplete]
    exact Finset.empty_subset _
  · rw [add_of_not_complete hcomplete]
    exact h.insert hn

theorem Within.adds (h : c.Within total) (hp : ∀ p ∈ pieces, p.2 < total p.1) :
    (c.adds total pieces).2.Within total := by
  induction pieces generalizing c with
  | nil => exact h
  | cons p pieces ih =>
    have hpieces := List.forall_mem_cons.mp hp
    exact ih (h.add hpieces.1) hpieces.2

/-- An item is handed out when the rest of its pieces come, in any order and some of them again,
but no piece of another item in between. -/
theorem Within.mem_adds {numbers : List Nat} (h : c.Within total) (hne : numbers ≠ [])
    (hlt : ∀ n ∈ numbers, n < total item)
    (hall : ∀ n < total item, n ∈ numbers ∨ c.item = item ∧ n ∈ c.got) :
    item ∈ (c.adds total (numbers.map fun n => (item, n))).1 := by
  induction numbers generalizing c with
  | nil => exact absurd rfl hne
  | cons n numbers ih =>
    have hnumbers := List.forall_mem_cons.mp hlt
    rw [List.map_cons, adds_cons]
    by_cases hcomplete : (c.insert item n).Complete total
    · rw [add_of_complete hcomplete]
      exact List.mem_cons_self
    · rw [add_of_not_complete hcomplete]
      have hrest : ∀ k < total item, k ∈ numbers ∨ k ∈ (c.insert item n).got := by
        intro k hk
        rcases hall k hk with hmem | ⟨hitem, hmem⟩
        · rcases List.mem_cons.mp hmem with rfl | hmem
          · exact .inr (Finset.mem_insert_self _ _)
          · exact .inl hmem
        · apply Or.inr
          apply Finset.mem_insert_of_mem
          rwa [if_pos hitem]
      have hne' : numbers ≠ [] := by
        rintro rfl
        apply hcomplete
        apply Finset.Subset.antisymm (h.insert hnumbers.1)
        intro k hk
        exact (hrest k (Finset.mem_range.mp hk)).resolve_left List.not_mem_nil
      exact ih (h.insert hnumbers.1) hne' hnumbers.2
        fun k hk => (hrest k hk).imp_right fun hmem => ⟨rfl, hmem⟩

end Collection
