import ALCC.Model.TransportFragment
import ALCC.Theory.Reassembly
import Mathlib.Data.Nat.Bitwise

/-! Fragments survive the network: the strings of `Fragment::tostring` are those that the parser
takes (`Fragment.parse_eq_some_iff`). -/

namespace ALCC.Sprout

open BigEndian

namespace Fragment

theorem toNat_and_high (x : UInt16) : (x &&& 0x8000).toNat = x.toNat / 2 ^ 15 * 2 ^ 15 := by
  have hlt : x.toNat / 2 ^ 15 < 2 := Nat.div_lt_of_lt_mul x.toNat_lt
  rw [UInt16.toNat_and, show (0x8000 : UInt16).toNat = 2 ^ 15 from rfl, Nat.and_two_pow,
    Nat.toNat_testBit, Nat.mod_eq_of_lt hlt]

theorem toNat_and_low (x : UInt16) : (x &&& 0x7FFF).toNat = x.toNat % 2 ^ 15 := by
  rw [UInt16.toNat_and, show (0x7FFF : UInt16).toNat = 2 ^ 15 - 1 from rfl,
    Nat.and_two_pow_sub_one_eq_mod]

theorem and_high_eq_zero {x : UInt16} : x &&& 0x8000 = 0 ↔ x.toNat < 2 ^ 15 := by
  rw [← UInt16.toNat_inj, toNat_and_high, show (0 : UInt16).toNat = 0 from rfl]
  omega

theorem shift_high_ne_zero {x : UInt16} : (x &&& 0x8000) >>> 15 ≠ 0 ↔ 2 ^ 15 ≤ x.toNat := by
  have hlt := x.toNat_lt
  rw [ne_eq, ← UInt16.toNat_inj, UInt16.toNat_shiftRight, toNat_and_high,
    show (15 : UInt16).toNat % 16 = 15 from rfl, Nat.shiftRight_eq_div_pow,
    show (0 : UInt16).toNat = 0 from rfl]
  omega

/-- The final bit is apart from the number. -/
theorem toNat_combined {final : Bool} {x : UInt16} (hx : x.toNat < 2 ^ 15) :
    ((if final then 1 else 0 : UInt16) <<< 15 ||| x).toNat = 2 ^ 15 * final.toNat + x.toNat := by
  rw [Nat.two_pow_add_eq_or_of_lt hx, UInt16.toNat_or]
  cases final <;> rfl

variable {x : Fragment} {s : Bytes}

theorem tostring_eq_some_iff : x.tostring = some s ↔
    x.initialized ∧ x.fragment_num.toNat < 2 ^ 15 ∧
      encode 8 x.id.toNat ++ encode 2 (2 ^ 15 * x.final.toNat + x.fragment_num.toNat) ++
        x.contents = s := by
  rw [tostring]
  by_cases h : x.initialized ∧ x.fragment_num &&& 0x8000 = 0
  · have hnum := and_high_eq_zero.mp h.2
    rw [if_pos h, Option.some.injEq, toNat_combined hnum, and_iff_right h.1, and_iff_right hnum]
  · rw [if_neg h]
    apply iff_of_false (by simp)
    exact fun h' => h ⟨h'.1, and_high_eq_zero.mpr h'.2.1⟩

theorem parse_append (id : UInt64) {num : Nat} (hnum : num < 2 ^ 16) (contents : Bytes) :
    parse (encode 8 id.toNat ++ encode 2 num ++ contents) =
      some {
        id
        fragment_num := .ofNat (num % 2 ^ 15)
        final := decide (2 ^ 15 ≤ num)
        initialized := true
        contents } := by
  have hlen : frag_header_len ≤ (encode 8 id.toNat ++ encode 2 num ++ contents).length := by
    rw [List.length_append, List.length_append, length_encode, length_encode]
    exact Nat.le_add_right ..
  have htoNat : (UInt16.ofNat num).toNat = num := UInt16.toNat_ofNat_of_lt' hnum
  have hlow : UInt16.ofNat num &&& 0x7FFF = .ofNat (num % 2 ^ 15) := by
    apply UInt16.toNat_inj.mp
    rw [toNat_and_low, htoNat, UInt16.toNat_ofNat_of_lt']
    exact (Nat.mod_lt _ (by decide)).trans (by decide)
  have hhigh : decide ((UInt16.ofNat num &&& 0x8000) >>> 15 ≠ 0) = decide (2 ^ 15 ≤ num) :=
    decide_eq_decide.mpr (by rw [shift_high_ne_zero, htoNat])
  have hcontents : (encode 8 id.toNat ++ encode 2 num ++ contents).drop frag_header_len =
      contents := List.drop_left' (by rw [List.length_append, length_encode, length_encode]; rfl)
  rw [parse, if_pos hlen, hcontents, List.append_assoc, List.take_left' (length_encode ..),
    List.drop_left' (length_encode ..), List.take_left' (length_encode ..),
    decode_encode_uint64, decode_encode hnum]
  simp only [hlow, hhigh]

/-- A string is long enough for the parser if it has the two numbers. -/
theorem length_le_iff : frag_header_len ≤ s.length ↔ ∃ (id : UInt64) (num : Nat)
    (contents : Bytes), num < 2 ^ 16 ∧ encode 8 id.toNat ++ encode 2 num ++ contents = s := by
  constructor
  · intro hlen
    have hlen8 : (s.take 8).length = 8 := by
      rw [List.length_take]
      exact min_eq_left ((by decide : 8 ≤ frag_header_len).trans hlen)
    have hlen2 : ((s.drop 8).take 2).length = 2 := by
      rw [List.length_take, List.length_drop]
      exact min_eq_left (Nat.le_sub_of_add_le hlen)
    have hid : (UInt64.ofNat (decode (s.take 8))).toNat = decode (s.take 8) := by
      apply UInt64.toNat_ofNat_of_lt'
      exact (decode_lt _).trans_eq (by rw [hlen8]; rfl)
    refine ⟨.ofNat (decode (s.take 8)), decode ((s.drop 8).take 2), (s.drop 8).drop 2, ?_, ?_⟩
    · exact (decode_lt _).trans_eq (by rw [hlen2]; rfl)
    · rw [hid, encode_decode hlen8, encode_decode hlen2, List.append_assoc, List.take_append_drop,
        List.take_append_drop]
  · rintro ⟨id, num, contents, -, rfl⟩
    rw [List.length_append, List.length_append, length_encode, length_encode]
    exact Nat.le_add_right ..

theorem tostring_of_parse (h : parse s = some x) : x.tostring = some s := by
  have hlen : frag_header_len ≤ s.length := by
    by_contra hlen
    rw [parse, if_neg hlen] at h
    cases h
  obtain ⟨id, num, contents, hnum, rfl⟩ := length_le_iff.mp hlen
  rw [parse_append id hnum, Option.some.injEq] at h
  subst h
  have hmod : num % 2 ^ 15 < 2 ^ 15 := Nat.mod_lt _ (by decide)
  have hlow : (UInt16.ofNat (num % 2 ^ 15)).toNat = num % 2 ^ 15 :=
    UInt16.toNat_ofNat_of_lt' (hmod.trans (by decide))
  have hsum : 2 ^ 15 * (decide (2 ^ 15 ≤ num)).toNat + num % 2 ^ 15 = num := by
    rcases lt_or_ge num (2 ^ 15) with hlt | hge
    · rw [decide_eq_false (not_le.mpr hlt), Nat.mod_eq_of_lt hlt]
      exact Nat.zero_add num
    · rw [decide_eq_true hge, Bool.toNat_true]
      omega
  rw [tostring_eq_some_iff, hlow, hsum]
  exact ⟨rfl, hmod, rfl⟩

theorem parse_of_tostring (h : x.tostring = some s) : parse s = some x := by
  obtain ⟨hinit, hnum, rfl⟩ := tostring_eq_some_iff.mp h
  have hlt : 2 ^ 15 * x.final.toNat + x.fragment_num.toNat < 2 ^ 16 := by
    have := x.final.toNat_le
    omega
  have hmod : (2 ^ 15 * x.final.toNat + x.fragment_num.toNat) % 2 ^ 15 =
      x.fragment_num.toNat := by
    rw [Nat.mul_add_mod, Nat.mod_eq_of_lt hnum]
  have hfinal : decide (2 ^ 15 ≤ 2 ^ 15 * x.final.toNat + x.fragment_num.toNat) = x.final := by
    cases x.final with
    | false => exact decide_eq_false (by rw [Bool.toNat_false]; omega)
    | true => exact decide_eq_true (by rw [Bool.toNat_true]; omega)
  rw [parse_append _ hlt, hmod, hfinal, UInt16.ofNat_toNat, ← hinit]

/-- **The round trip.** The parser yields a fragment for exactly the string of the fragment. -/
theorem parse_eq_some_iff : parse s = some x ↔ x.tostring = some s :=
  ⟨tostring_of_parse, parse_of_tostring⟩

end Fragment

/-- The fragment number `i` of `total` of the instruction `id`. -/
structure Fragment.Numbered (id : UInt64) (total i : Nat) (x : Fragment) : Prop where
  id : x.id = id
  fragment_num : x.fragment_num = .ofNat i
  final : x.final = true ↔ i + 1 = total
  initialized : x.initialized = true

namespace Fragmenter

variable {MTU rounds : Nat} {id : UInt64} {payload : Bytes} {fragment_num : UInt16}

theorem flatten_cut (hMTU : HEADER_LEN < MTU) (h : payload.length ≤ rounds) :
    ((cut MTU id rounds payload fragment_num).map Fragment.contents).flatten = payload := by
  induction rounds generalizing payload fragment_num with
  | zero => exact (List.length_eq_zero_iff.mp (Nat.le_zero.mp h)).symm
  | succ rounds ih =>
    rw [cut]
    split
    · rename_i hnil
      exact hnil.symm
    · split
      · have hdrop : (payload.drop (MTU - HEADER_LEN)).length ≤ rounds := by
          rw [List.length_drop]
          omega
        rw [List.map_cons, List.flatten_cons, ih hdrop, List.take_append_drop]
      · exact List.append_nil payload

theorem cut_ne_nil (h : payload.length ≤ rounds) (hne : payload ≠ []) :
    cut MTU id rounds payload fragment_num ≠ [] := by
  cases rounds with
  | zero => exact absurd (List.length_eq_zero_iff.mp (Nat.le_zero.mp h)) hne
  | succ rounds =>
    rw [cut, if_neg hne]
    split <;> exact List.cons_ne_nil _ _

theorem numbered_cut (hMTU : HEADER_LEN < MTU) (h : payload.length ≤ rounds) {first i : Nat}
    {x : Fragment} (hx : (cut MTU id rounds payload (.ofNat first))[i]? = some x) :
    x.Numbered id (first + (cut MTU id rounds payload (.ofNat first)).length) (first + i) := by
  induction rounds generalizing payload first i with
  | zero => cases hx
  | succ rounds ih =>
    rw [cut] at hx ⊢
    split at hx
    · cases hx
    rename_i hne
    rw [if_neg hne]
    split at hx
    · rename_i hlong
      rw [if_pos hlong]
      have hdrop : (payload.drop (MTU - HEADER_LEN)).length ≤ rounds := by
        rw [List.length_drop]
        omega
      have hrest : payload.drop (MTU - HEADER_LEN) ≠ [] := by
        rw [ne_eq, List.drop_eq_nil_iff]
        omega
      have hnext : UInt16.ofNat first + 1 = .ofNat (first + 1) := (UInt16.ofNat_add ..).symm
      rw [hnext] at hx ⊢
      rw [List.length_cons, ← Nat.add_assoc, Nat.add_right_comm]
      cases i with
      | zero =>
        cases hx
        refine ⟨rfl, rfl, iff_of_false Bool.false_ne_true ?_, rfl⟩
        have hpos : 0 < (cut MTU id rounds (payload.drop (MTU - HEADER_LEN))
            (.ofNat (first + 1))).length := List.length_pos_iff.mpr (cut_ne_nil hdrop hrest)
        omega
      | succ i =>
        rw [← Nat.add_assoc, Nat.add_right_comm first i 1]
        exact ih hdrop hx
    · rename_i hshort
      rw [if_neg hshort]
      cases i with
      | zero =>
        cases hx
        exact ⟨rfl, rfl, iff_of_true rfl rfl, rfl⟩
      | succ i => cases hx

theorem flatten_fragments (hMTU : HEADER_LEN < MTU) :
    ((fragments MTU id payload).map Fragment.contents).flatten = payload :=
  flatten_cut hMTU le_rfl

theorem numbered_fragments (hMTU : HEADER_LEN < MTU) {i : Nat} {x : Fragment}
    (hx : (fragments MTU id payload)[i]? = some x) :
    x.Numbered id (fragments MTU id payload).length i := by
  have hcut : (cut MTU id payload.length payload (.ofNat 0))[i]? = some x := hx
  have hnumbered := numbered_cut hMTU le_rfl hcut
  rwa [Nat.zero_add, Nat.zero_add] at hnumbered

theorem forall₂_of_mapM {α β : Type*} {f : α → Option β} {xs : List α} {ys : List β}
    (h : xs.mapM f = some ys) : List.Forall₂ (fun x y => f x = some y) xs ys := by
  induction xs generalizing ys with
  | nil =>
    cases h
    exact .nil
  | cons x xs ih =>
    rw [List.mapM_cons] at h
    obtain ⟨y, hy, h⟩ := Option.bind_eq_some_iff.mp h
    obtain ⟨ys, hys, h⟩ := Option.bind_eq_some_iff.mp h
    cases h
    exact .cons hy (ih hys)

theorem send_spec {f f' : Fragmenter} {strings : List Bytes}
    (h : f.send MTU payload = some (strings, f')) :
    f'.next_instruction_id = f.next_instruction_id + 1 ∧
      List.Forall₂ (fun x s => x.tostring = some s)
        (fragments MTU (f.next_instruction_id + 1) payload) strings := by
  obtain ⟨made, hmake, h⟩ := Option.bind_eq_some_iff.mp h
  obtain ⟨strings', hstrings, h⟩ := Option.map_eq_some_iff.mp h
  cases h
  rw [make_fragments] at hmake
  split at hmake
  · cases hmake
    exact ⟨rfl, forall₂_of_mapM hstrings⟩
  · cases hmake

/-- The instructions get successive numbers. -/
theorem sends_spec {payloads : List Bytes} {f f' : Fragmenter} {sent : List (List Bytes)}
    (h : f.sends MTU payloads = some (sent, f')) {j : Nat} (hj : payloads[j]? = some payload) :
    ∃ strings, sent[j]? = some strings ∧ List.Forall₂ (fun x s => x.tostring = some s)
      (fragments MTU (f.next_instruction_id + .ofNat (j + 1)) payload) strings := by
  induction payloads generalizing f sent j with
  | nil => cases hj
  | cons p payloads ih =>
    obtain ⟨⟨strings, g⟩, hsend, h⟩ := Option.bind_eq_some_iff.mp h
    obtain ⟨⟨rest, f'⟩, hsends, h⟩ := Option.map_eq_some_iff.mp h
    cases h
    obtain ⟨hg, hstrings⟩ := send_spec hsend
    cases j with
    | zero =>
      cases hj
      exact ⟨strings, rfl, hstrings⟩
    | succ j =>
      have hid : f.next_instruction_id + .ofNat (j + 1 + 1) =
          g.next_instruction_id + .ofNat (j + 1) := by
        rw [hg, UInt64.add_assoc, UInt64.ofNat_add (j + 1), UInt64.add_comm 1]
        rfl
      rw [hid]
      exact ih hsends hj

theorem length_sends {payloads : List Bytes} {f f' : Fragmenter} {sent : List (List Bytes)}
    (h : f.sends MTU payloads = some (sent, f')) : sent.length = payloads.length := by
  induction payloads generalizing f sent with
  | nil =>
    cases h
    rfl
  | cons p payloads ih =>
    obtain ⟨⟨strings, g⟩, hsend, h⟩ := Option.bind_eq_some_iff.mp h
    obtain ⟨⟨rest, f'⟩, hsends, h⟩ := Option.map_eq_some_iff.mp h
    cases h
    rw [List.length_cons, List.length_cons, ih hsends]

/-- The number of a fragment that has a string leaves the final bit free. -/
theorem length_fragments_le (hMTU : HEADER_LEN < MTU) {strings : List Bytes}
    (h : List.Forall₂ (fun x s => x.tostring = some s) (fragments MTU id payload) strings) :
    (fragments MTU id payload).length ≤ 2 ^ 15 := by
  by_contra hlong
  have hx := List.getElem?_eq_getElem (not_le.mp hlong)
  have hnum := (numbered_fragments hMTU hx).fragment_num
  have htostring := Fragment.tostring_eq_some_iff.mp (h.get (not_le.mp hlong)
    ((not_le.mp hlong).trans_eq h.length_eq))
  have hlt := htostring.2.1
  rw [List.get_eq_getElem, hnum] at hlt
  exact absurd hlt (by decide)

end Fragmenter

end ALCC.Sprout
