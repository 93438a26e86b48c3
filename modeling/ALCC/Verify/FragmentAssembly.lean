import ALCC.Verify.TransportFragment
import Mathlib.Data.Finset.Card

/-! A `FragmentAssembly` collects the pieces of one instruction at a time (`Holds`), and refines the
`Collection` of their numbers: it fails no assertion, and hands out the payload of an instruction
when the collection hands out the number of the instruction (`Carries.recvs`). So what comes out of
the network is what went in, whatever the network loses, repeats and reorders. -/

namespace ALCC.Sprout

open BigEndian

namespace FragmentAssembly

/-- The fragment `x` is at its place `i`. -/
def Present (fragments : List Fragment) (i : Nat) (x : Fragment) : Prop :=
  fragments[i]? = some x ∧ x.initialized = true

variable {fragments : List Fragment} {size n i : Nat} {x y : Fragment}

theorem resize_eq (h : fragments.length ≤ size) :
    resize size fragments = fragments ++ List.replicate (size - fragments.length) .empty := by
  induction fragments generalizing size with
  | nil => exact List.takeD_nil size Fragment.empty
  | cons y ys ih =>
    cases size with
    | zero => exact absurd h (Nat.not_succ_le_zero _)
    | succ size =>
      have hrest := ih (Nat.le_of_succ_le_succ h)
      rw [resize] at hrest ⊢
      rw [List.takeD_succ, List.head?_cons, Option.getD_some, List.tail_cons, hrest,
        List.length_cons, Nat.add_sub_add_right, List.cons_append]

theorem length_resize : (resize size fragments).length = size := List.takeD_length ..

theorem present_resize (h : fragments.length ≤ size) :
    Present (resize size fragments) i x ↔ Present fragments i x := by
  rw [resize_eq h, Present, Present]
  apply and_congr_left
  intro hinit
  rcases lt_or_ge i fragments.length with hlt | hge
  · rw [List.getElem?_append_left hlt]
  · rw [List.getElem?_append_right hge, List.getElem?_eq_none hge]
    refine iff_of_false (fun hx => ?_) (Option.some_ne_none x).symm
    have hmem := List.mem_of_getElem? hx
    rw [List.eq_of_mem_replicate hmem] at hinit
    cases hinit

theorem present_set (hlt : n < fragments.length) (hinit : y.initialized = true) :
    Present (fragments.set n y) i x ↔ i = n ∧ x = y ∨ i ≠ n ∧ Present fragments i x := by
  rw [Present, List.getElem?_set]
  by_cases h : n = i
  · subst h
    rw [if_pos rfl, if_pos hlt, Option.some.injEq]
    constructor
    · rintro ⟨rfl, -⟩
      exact .inl ⟨rfl, rfl⟩
    · rintro (⟨-, rfl⟩ | ⟨hne, -⟩)
      · exact ⟨rfl, hinit⟩
      · exact absurd rfl hne
  · rw [if_neg h, or_iff_right fun h' => h h'.1.symm, and_iff_right (Ne.symm h)]
    exact Iff.rfl

/-- A piece of `all` is put to the pieces `got`. -/
theorem present_insert {all : List Fragment} {got : Finset Nat}
    (h : ∀ i y, Present fragments i y ↔ i ∈ got ∧ all[i]? = some y) (hx : all[n]? = some x)
    (hlt : n < fragments.length) (hinit : x.initialized = true) (i : Nat) (y : Fragment) :
    Present (fragments.set n x) i y ↔ i ∈ insert n got ∧ all[i]? = some y := by
  rw [present_set hlt hinit, Finset.mem_insert, h]
  constructor
  · rintro (⟨rfl, rfl⟩ | ⟨-, hgot, hy⟩)
    · exact ⟨.inl rfl, hx⟩
    · exact ⟨.inr hgot, hy⟩
  · rintro ⟨hi, hy⟩
    by_cases hin : i = n
    · subst hin
      rw [hx, Option.some.injEq] at hy
      exact .inl ⟨rfl, hy.symm⟩
    · exact .inr ⟨hin, hi.resolve_left hin, hy⟩

/-- The instructions have the fragments `frags`, and the assembly those in `c`. -/
structure Holds (frags : UInt64 → List Fragment) (c : Collection UInt64)
    (a : FragmentAssembly) : Prop where
  current_id : a.current_id = c.item
  within : c.Within fun id => (frags id).length
  present : ∀ i x, Present a.fragments i x ↔ i ∈ c.got ∧ (frags c.item)[i]? = some x
  length : a.fragments.length ≤ (frags c.item).length
  arrived : a.fragments_arrived = c.got.card
  total : a.fragments_total =
    if (frags c.item).length - 1 ∈ c.got then ((frags c.item).length : Int) else -1

section

variable {frags : UInt64 → List Fragment} {c : Collection UInt64} {a : FragmentAssembly}

theorem Holds.new : Holds frags ⟨-1, ∅⟩ new where
  current_id := rfl
  within := Finset.empty_subset _
  present i x := iff_of_false (fun h => by cases h.1) fun h => absurd h.1 (Finset.notMem_empty i)
  length := Nat.zero_le _
  arrived := rfl
  total := (if_neg (Finset.notMem_empty _)).symm

/-- The assertion at the end of `add_fragment`. -/
theorem Holds.not_overfull (h : Holds frags c a) :
    ¬ (a.fragments_total ≠ -1 ∧ a.fragments_total < a.fragments_arrived) := by
  rintro ⟨hne, hlt⟩
  have hcard : c.got.card ≤ (frags c.item).length :=
    (Finset.card_le_card h.within).trans_eq (Finset.card_range _)
  rw [h.total] at hne hlt
  rw [h.arrived] at hlt
  split at hlt
  · omega
  · rename_i hnot
    exact hne (if_neg hnot)

theorem Holds.complete_iff (h : Holds frags c a) (hn : n ∈ c.got) :
    a.fragments_arrived = a.fragments_total ↔ c.Complete fun id => (frags id).length := by
  have hlt : n < (frags c.item).length := Finset.mem_range.mp (h.within hn)
  rw [h.arrived, h.total, Collection.Complete]
  constructor
  · intro heq
    split at heq
    · apply Finset.eq_of_subset_of_card_le h.within
      rw [Finset.card_range]
      exact Int.ofNat_le.mp heq.ge
    · omega
  · intro hcomplete
    rw [hcomplete, if_pos (Finset.mem_range.mpr (by omega)), Finset.card_range]

/-- The fragment is stored, and counted if it is a new one. -/
theorem Holds.store (h : Holds frags c a) (hx : (frags x.id)[n]? = some x)
    (hnum : x.fragment_num.toNat = n) (hinit : x.initialized = true) :
    ∃ b, a.store x = some b ∧ b.current_id = x.id ∧
      (∀ i y, Present b.fragments i y ↔ i ∈ (c.insert x.id n).got ∧ (frags x.id)[i]? = some y) ∧
      b.fragments.length ≤ (frags x.id).length ∧
      b.fragments_arrived = (c.insert x.id n).got.card ∧
      b.fragments_total = if c.item = x.id then a.fragments_total else -1 := by
  have hlt : n < (frags x.id).length := (List.getElem?_eq_some_iff.mp hx).1
  rw [FragmentAssembly.store, h.current_id, hnum, Collection.insert]
  by_cases hitem : c.item = x.id
  · have hpresent := h.present
    have hlength := h.length
    rw [hitem] at hpresent hlength
    rw [if_neg (not_not.mpr hitem), if_pos hitem, if_pos hitem]
    by_cases hgot : n ∈ c.got
    · have hold := (hpresent n x).mpr ⟨hgot, hx⟩
      rw [if_pos ⟨x, hold.1, hold.2⟩, if_pos hold.1, Finset.insert_eq_of_mem hgot]
      exact ⟨a, rfl, h.current_id.trans hitem, hpresent, hlength, h.arrived, rfl⟩
    · rw [if_neg fun ⟨old, hold⟩ => hgot ((hpresent n old).mp hold).1]
      refine ⟨_, rfl, hitem, ?_, ?_, ?_, rfl⟩
      · apply present_insert _ hx _ hinit
        · intro i y
          split
          · rename_i hshort
            rw [present_resize hshort.le, hpresent]
          · exact hpresent i y
        · split
          · exact length_resize.symm ▸ Nat.lt_succ_self n
          · omega
      · rw [List.length_set]
        split
        · exact length_resize.trans_le hlt
        · exact hlength
      · rw [Finset.card_insert_of_notMem hgot, h.arrived]
        rfl
  · rw [if_pos hitem, if_neg hitem, if_neg hitem]
    refine ⟨_, rfl, rfl, ?_, ?_, rfl, rfl⟩
    · apply present_insert _ hx (length_resize.symm ▸ Nat.lt_succ_self n) hinit
      intro i y
      rw [present_resize (Nat.zero_le _)]
      exact iff_of_false (fun hy => by cases hy.1) fun hy => Finset.notMem_empty i hy.1
    · rw [List.length_set]
      exact length_resize.trans_le hlt

/-- **A fragment is added.** No assertion fails, and the answer is whether all fragments of its
instruction are there. -/
theorem Holds.add_fragment (h : Holds frags c a)
    (hx : (frags x.id)[n]? = some x) (hnum : x.fragment_num.toNat = n)
    (hfinal : x.final = true ↔ n + 1 = (frags x.id).length) (hinit : x.initialized = true) :
    ∃ b, a.add_fragment x = some
        (decide ((c.insert x.id n).Complete fun id => (frags id).length), b) ∧
      Holds frags (c.insert x.id n) b := by
  have hlt : n < (frags x.id).length := (List.getElem?_eq_some_iff.mp hx).1
  have hwithin := h.within.insert hlt
  obtain ⟨b, hstore, hid, hpresent, hlength, harrived, htotal⟩ := h.store hx hnum hinit
  -- the total is known once the last fragment is there
  obtain ⟨d, hclose, hd⟩ : ∃ d, b.close x = some d ∧ Holds frags (c.insert x.id n) d := by
    rw [close, hnum]
    by_cases hlast : n + 1 = (frags x.id).length
    · rw [if_pos (hfinal.mpr hlast), hlast, if_pos hlength]
      refine ⟨_, rfl, hid, hwithin, fun i y => ?_, length_resize.le, harrived, ?_⟩
      · rw [present_resize hlength]
        exact hpresent i y
      · refine (if_pos ?_).symm
        rw [show (frags (c.insert x.id n).item).length - 1 = n from Nat.sub_eq_of_eq_add hlast.symm]
        exact Finset.mem_insert_self ..
    · rw [if_neg (mt hfinal.mp hlast)]
      refine ⟨_, rfl, hid, hwithin, hpresent, hlength, harrived, ?_⟩
      rw [htotal]
      have hmem : (frags x.id).length - 1 ∈ (c.insert x.id n).got ↔
          c.item = x.id ∧ (frags x.id).length - 1 ∈ c.got := by
        rw [Collection.insert, Finset.mem_insert, or_iff_right (by omega)]
        split
        · rename_i hitem
          exact (and_iff_right hitem).symm
        · rename_i hitem
          exact iff_of_false (Finset.notMem_empty _) fun h => hitem h.1
      rw [show (c.insert x.id n).item = x.id from rfl]
      by_cases hitem : c.item = x.id
      · have htotal := h.total
        rw [hitem] at htotal
        simp only [hmem, hitem, true_and, if_true, htotal]
      · rw [if_neg hitem, if_neg fun h => hitem (hmem.mp h).1]
  have hcomplete := hd.complete_iff (n := n) (Finset.mem_insert_self ..)
  refine ⟨d, ?_, hd⟩
  rw [FragmentAssembly.add_fragment, hstore, Option.bind_some, hclose, Option.bind_some,
    if_neg hd.not_overfull, decide_eq_decide.mpr hcomplete]

/-- The contents of the fragments, one behind the other. -/
def payload (frags : List Fragment) : Bytes := (frags.map Fragment.contents).flatten

theorem Holds.get_assembly (h : Holds frags c a) (hn : n ∈ c.got)
    (hcomplete : c.Complete fun id => (frags id).length) :
    ∃ b, a.get_assembly = some (payload (frags c.item), b) ∧ Holds frags ⟨c.item, ∅⟩ b := by
  have heq := (h.complete_iff hn).mpr hcomplete
  have htotal : a.fragments_total = (frags c.item).length := by
    rw [← heq, h.arrived, hcomplete, Finset.card_range]
  -- every place has its fragment
  have hpresent : ∀ i x, (frags c.item)[i]? = some x → Present a.fragments i x := by
    intro i x hx
    refine (h.present i x).mpr ⟨?_, hx⟩
    rw [hcomplete, Finset.mem_range]
    exact (List.getElem?_eq_some_iff.mp hx).1
  have hall : a.fragments = frags c.item := by
    apply List.ext_getElem?
    intro i
    cases hx : (frags c.item)[i]? with
    | none => exact List.getElem?_eq_none (h.length.trans (List.getElem?_eq_none_iff.mp hx))
    | some x => exact (hpresent i x hx).1
  have hinit : ∀ x ∈ frags c.item, x.initialized = true := by
    intro x hx
    obtain ⟨i, hi⟩ := List.getElem?_of_mem hx
    exact (hpresent i x hi).2
  refine ⟨{ a with fragments := [], fragments_arrived := 0, fragments_total := -1 }, ?_, ?_⟩
  · have htake : a.fragments.take a.fragments_total.toNat = frags c.item := by
      rw [htotal, Int.toNat_natCast, hall, List.take_length]
    have hle : a.fragments_total.toNat ≤ a.fragments.length := by
      rw [htotal, Int.toNat_natCast, hall]
    rw [FragmentAssembly.get_assembly, htake, if_pos ⟨heq, hle, hinit⟩]
    rfl
  · refine ⟨h.current_id, Finset.empty_subset _, fun i x => ?_, Nat.zero_le _, rfl, ?_⟩
    · exact iff_of_false (fun hx => by cases hx.1) fun hx => Finset.notMem_empty i hx.1
    · exact (if_neg (Finset.notMem_empty _)).symm

/-- A string is the one of the fragment `p.2` of the instruction `p.1`. -/
def Carries (frags : UInt64 → List Fragment) (s : Bytes) (p : UInt64 × Nat) : Prop :=
  ∃ x, (frags p.1)[p.2]? = some x ∧ x.tostring = some s

/-- The instructions are cut into numbered fragments. -/
def Cut (frags : UInt64 → List Fragment) : Prop :=
  ∀ id, (frags id).length ≤ 2 ^ 15 ∧
    ∀ (i : Nat) (x : Fragment), (frags id)[i]? = some x → x.Numbered id (frags id).length i

theorem Holds.recv (hcut : Cut frags) (h : Holds frags c a) {s : Bytes} {p : UInt64 × Nat}
    (hs : Carries frags s p) :
    ∃ b, a.recv s = some ((c.add (fun id => (frags id).length) p.1 p.2).1.map
        fun id => payload (frags id), b) ∧
      Holds frags (c.add (fun id => (frags id).length) p.1 p.2).2 b := by
  obtain ⟨id, n⟩ := p
  obtain ⟨x, hx, htostring⟩ := hs
  obtain ⟨hlength, hnumbered⟩ := hcut id
  obtain ⟨rfl, hnum, hfinal, hinit⟩ := hnumbered n x hx
  have hlt : n < (frags x.id).length := (List.getElem?_eq_some_iff.mp hx).1
  have htoNat : x.fragment_num.toNat = n := by
    rw [hnum, UInt16.toNat_ofNat_of_lt']
    exact (hlt.trans_le hlength).trans (by decide)
  obtain ⟨b, hadd, hb⟩ := h.add_fragment hx htoNat hfinal hinit
  rw [FragmentAssembly.recv, Fragment.parse_of_tostring htostring, Option.bind_some, hadd,
    Option.bind_some]
  by_cases hcomplete : (c.insert x.id n).Complete fun id => (frags id).length
  · obtain ⟨d, hget, hd⟩ := hb.get_assembly (Finset.mem_insert_self ..) hcomplete
    rw [Collection.add_of_complete hcomplete, decide_eq_true hcomplete]
    refine ⟨d, ?_, hd⟩
    simp only [hget, Option.map_some]
    rfl
  · rw [Collection.add_of_not_complete hcomplete, decide_eq_false hcomplete]
    exact ⟨b, rfl, hb⟩

theorem Carries.unique (hcut : Cut frags) {s : Bytes} {p q : UInt64 × Nat}
    (hp : Carries frags s p) (hq : Carries frags s q) : p = q := by
  obtain ⟨x, hx, hsx⟩ := hp
  obtain ⟨y, hy, hsy⟩ := hq
  have hxy : x = y := Option.some.inj
    ((Fragment.parse_of_tostring hsx).symm.trans (Fragment.parse_of_tostring hsy))
  subst hxy
  obtain ⟨hlenp, hnumberedp⟩ := hcut p.1
  obtain ⟨hlenq, hnumberedq⟩ := hcut q.1
  obtain ⟨hidp, hnump, -⟩ := hnumberedp p.2 x hx
  obtain ⟨hidq, hnumq, -⟩ := hnumberedq q.2 x hy
  have hltp : p.2 < 2 ^ 16 :=
    ((List.getElem?_eq_some_iff.mp hx).1.trans_le hlenp).trans (by decide)
  have hltq : q.2 < 2 ^ 16 :=
    ((List.getElem?_eq_some_iff.mp hy).1.trans_le hlenq).trans (by decide)
  have hnum := congrArg UInt16.toNat (hnump.symm.trans hnumq)
  rw [UInt16.toNat_ofNat_of_lt' hltp, UInt16.toNat_ofNat_of_lt' hltq] at hnum
  exact Prod.ext (hidp.symm.trans hidq) hnum

theorem recvs_cons {s : Bytes} {strings : List Bytes} {encoded : Option Bytes}
    {b : FragmentAssembly} (h : a.recv s = some (encoded, b)) :
    a.recvs (s :: strings) = (b.recvs strings).map fun r => (encoded.toList ++ r.1, r.2) := by
  rw [recvs, h]
  rfl

/-- **The refinement.** An assembly that receives the strings of some pieces hands out the payloads
of the instructions that the pieces complete. -/
theorem Holds.recvs (hcut : Cut frags) (h : Holds frags c a) {strings : List Bytes}
    {pieces : List (UInt64 × Nat)} (hs : List.Forall₂ (Carries frags) strings pieces) :
    ∃ b, a.recvs strings = some ((c.adds (fun id => (frags id).length) pieces).1.map
        fun id => payload (frags id), b) ∧
      Holds frags (c.adds (fun id => (frags id).length) pieces).2 b := by
  induction hs generalizing a c with
  | nil => exact ⟨a, rfl, h⟩
  | @cons s p strings pieces hp hs ih =>
    obtain ⟨b, hrecv, hb⟩ := h.recv hcut hp
    obtain ⟨d, hrecvs, hd⟩ := ih hb
    refine ⟨d, ?_, hd⟩
    rw [recvs_cons hrecv, hrecvs, Option.map_some, Collection.adds_cons, List.map_append]
    cases (c.add (fun id => (frags id).length) p.1 p.2).1 <;> rfl

end

/-- The fragments of the instruction `id`, when the first one has the number 1. -/
def made (MTU : Nat) (payloads : List Bytes) (id : UInt64) : List Fragment :=
  match id.toNat with
  | 0 => []
  | j + 1 => Fragmenter.fragments MTU id (payloads.getD j [])

section

variable {MTU : Nat} {payloads : List Bytes} {sent : List (List Bytes)} {f : Fragmenter}

theorem made_ofNat (hcount : payloads.length < 2 ^ 64) {j : Nat} {payload : Bytes}
    (hj : payloads[j]? = some payload) :
    made MTU payloads (.ofNat (j + 1)) = Fragmenter.fragments MTU (.ofNat (j + 1)) payload := by
  have hlt : j < payloads.length := (List.getElem?_eq_some_iff.mp hj).1
  have htoNat : (UInt64.ofNat (j + 1)).toNat = j + 1 :=
    UInt64.toNat_ofNat_of_lt' (hcount.trans_le' hlt)
  rw [made, htoNat]
  simp only [List.getD_eq_getElem?_getD, hj, Option.getD_some]

theorem made_strings (hcount : payloads.length < 2 ^ 64)
    (hsends : Fragmenter.new.sends MTU payloads = some (sent, f)) {j : Nat} {payload : Bytes}
    (hj : payloads[j]? = some payload) :
    ∃ strings, sent[j]? = some strings ∧ List.Forall₂ (fun x s => x.tostring = some s)
      (made MTU payloads (.ofNat (j + 1))) strings := by
  obtain ⟨strings, hstrings, hall⟩ := Fragmenter.sends_spec hsends hj
  rw [Fragmenter.new, UInt64.zero_add] at hall
  exact ⟨strings, hstrings, (made_ofNat hcount hj).symm ▸ hall⟩

theorem cut_made (hMTU : HEADER_LEN < MTU) (hcount : payloads.length < 2 ^ 64)
    (hsends : Fragmenter.new.sends MTU payloads = some (sent, f)) : Cut (made MTU payloads) := by
  intro id
  cases hid : id.toNat with
  | zero =>
    have hnil : made MTU payloads id = [] := by rw [made, hid]
    rw [hnil]
    exact ⟨Nat.zero_le _, fun i x hx => by cases hx⟩
  | succ j =>
    have hmade : made MTU payloads id = Fragmenter.fragments MTU id (payloads.getD j []) := by
      rw [made, hid]
    rw [hmade]
    refine ⟨?_, fun i x hx => Fragmenter.numbered_fragments hMTU hx⟩
    cases hj : payloads[j]? with
    | none =>
      rw [List.getD_eq_getElem?_getD, hj]
      exact Nat.zero_le _
    | some payload =>
      have hidj : id = .ofNat (j + 1) := by rw [← hid, UInt64.ofNat_toNat]
      obtain ⟨strings, -, hall⟩ := made_strings hcount hsends hj
      rw [List.getD_eq_getElem?_getD, hj, Option.getD_some]
      rw [made_ofNat hcount hj, ← hidj] at hall
      exact Fragmenter.length_fragments_le hMTU hall

/-- A string that was sent is the one of a fragment. -/
theorem carries_of_mem (hcount : payloads.length < 2 ^ 64)
    (hsends : Fragmenter.new.sends MTU payloads = some (sent, f)) {j : Nat} {strings : List Bytes}
    (hj : sent[j]? = some strings) {s : Bytes} (hs : s ∈ strings) :
    ∃ n, Carries (made MTU payloads) s (.ofNat (j + 1), n) := by
  have hlt : j < payloads.length :=
    (List.getElem?_eq_some_iff.mp hj).1.trans_eq (Fragmenter.length_sends hsends)
  obtain ⟨strings', hj', hall⟩ := made_strings hcount hsends (List.getElem?_eq_getElem hlt)
  rw [hj, Option.some.injEq] at hj'
  subst hj'
  obtain ⟨n, hn, rfl⟩ := List.getElem_of_mem hs
  have hn' := hn.trans_eq hall.length_eq.symm
  exact ⟨n, _, List.getElem?_eq_getElem hn', hall.get hn' hn⟩

theorem exists_pieces {α β : Type*} {P : α → β → Prop} {xs : List α} (h : ∀ x ∈ xs, ∃ y, P x y) :
    ∃ ys, List.Forall₂ P xs ys := by
  induction xs with
  | nil => exact ⟨[], .nil⟩
  | cons x xs ih =>
    obtain ⟨y, hy⟩ := h x List.mem_cons_self
    obtain ⟨ys, hys⟩ := ih fun z hz => h z (List.mem_cons_of_mem x hz)
    exact ⟨y :: ys, .cons hy hys⟩

/-- What is handed out for an item is its payload. -/
theorem payload_made (hMTU : HEADER_LEN < MTU) (hcount : payloads.length < 2 ^ 64) {j : Nat}
    {payload : Bytes} (hj : payloads[j]? = some payload) :
    FragmentAssembly.payload (made MTU payloads (.ofNat (j + 1))) = payload := by
  rw [made_ofNat hcount hj]
  exact Fragmenter.flatten_fragments hMTU

/-- The pieces of what was received. -/
theorem exists_carries (hcount : payloads.length < 2 ^ 64)
    (hsends : Fragmenter.new.sends MTU payloads = some (sent, f)) {received : List Bytes}
    (hreceived : ∀ s ∈ received, ∃ strings ∈ sent, s ∈ strings) :
    ∃ pieces, List.Forall₂ (Carries (made MTU payloads)) received pieces ∧
      ∀ p ∈ pieces, ∃ j payload, p.1 = .ofNat (j + 1) ∧ payloads[j]? = some payload := by
  have hpieces : ∀ s ∈ received, ∃ p : UInt64 × Nat, Carries (made MTU payloads) s p ∧
      ∃ j payload, p.1 = .ofNat (j + 1) ∧ payloads[j]? = some payload := by
    intro s hs
    obtain ⟨strings, hmem, hs⟩ := hreceived s hs
    obtain ⟨j, hj⟩ := List.getElem?_of_mem hmem
    obtain ⟨n, hn⟩ := carries_of_mem hcount hsends hj hs
    have hlt : j < payloads.length :=
      (List.getElem?_eq_some_iff.mp hj).1.trans_eq (Fragmenter.length_sends hsends)
    exact ⟨_, hn, j, _, rfl, List.getElem?_eq_getElem hlt⟩
  obtain ⟨pieces, hall⟩ := exists_pieces hpieces
  refine ⟨pieces, hall.imp fun _ _ h => h.1, fun p hp => ?_⟩
  obtain ⟨i, hi, rfl⟩ := List.getElem_of_mem hp
  exact (hall.get (hall.length_eq ▸ hi) hi).2

/-- **Only what was sent is received**, though the network loses, repeats and reorders strings. -/
theorem recvs_sent (hMTU : HEADER_LEN < MTU) (hcount : payloads.length < 2 ^ 64)
    (hsends : Fragmenter.new.sends MTU payloads = some (sent, f)) {received : List Bytes}
    (hreceived : ∀ s ∈ received, ∃ strings ∈ sent, s ∈ strings) :
    ∃ out a, new.recvs received = some (out, a) ∧ ∀ payload ∈ out, payload ∈ payloads := by
  obtain ⟨pieces, hall, hpieces⟩ := exists_carries hcount hsends hreceived
  obtain ⟨a, ha, -⟩ := Holds.new.recvs (cut_made hMTU hcount hsends) hall
  refine ⟨_, a, ha, fun payload hpayload => ?_⟩
  obtain ⟨id, hid, rfl⟩ := List.mem_map.mp hpayload
  obtain ⟨p, hp, rfl⟩ := Collection.mem_of_mem_adds hid
  obtain ⟨j, payload, heq, hj⟩ := hpieces p hp
  rw [heq, payload_made hMTU hcount hj]
  exact List.mem_of_getElem? hj

/-- Two instructions of two fragments and of one. -/
theorem sends_two : Fragmenter.new.sends 68 [[1, 2, 3], [4]] =
    some ([[[0, 0, 0, 0, 0, 0, 0, 1, 0, 0, 1, 2], [0, 0, 0, 0, 0, 0, 0, 1, 128, 1, 3]],
      [[0, 0, 0, 0, 0, 0, 0, 2, 128, 0, 4]]], ⟨2⟩) := rfl

theorem recvs_sent_two : ∃ out a, new.recvs
      [[0, 0, 0, 0, 0, 0, 0, 1, 128, 1, 3], [0, 0, 0, 0, 0, 0, 0, 2, 128, 0, 4],
        [0, 0, 0, 0, 0, 0, 0, 1, 0, 0, 1, 2], [0, 0, 0, 0, 0, 0, 0, 1, 128, 1, 3]] =
      some (out, a) ∧ ∀ payload ∈ out, payload ∈ [[1, 2, 3], [4]] :=
  recvs_sent (by decide) (by decide) sends_two (by decide)

end

end FragmentAssembly

end ALCC.Sprout
