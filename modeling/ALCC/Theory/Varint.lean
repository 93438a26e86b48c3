import Mathlib.Algebra.Order.Ring.Nat
import Mathlib.Tactic.Ring

/-! Numbers with seven bits in a byte, the lowest ones first, where the top bit says that more bytes
follow. A number is read back, and so is a list of them (`decodeAll_flatMap`). -/

namespace Varint

/-- In at most `width` bytes. -/
def encode : (width : Nat) → (n : Nat) → List UInt8
  | 0, _ => []
  | width + 1, n =>
    if n < 128 then [.ofNat n] else .ofNat (n % 128 + 128) :: encode width (n / 128)

/-- The number, and the bytes after it. -/
def decode : List UInt8 → Option (Nat × List UInt8)
  | [] => none
  | b :: bs =>
    if b.toNat < 128 then some (b.toNat, bs)
    else (decode bs).map fun (n, rest) => (b.toNat - 128 + 128 * n, rest)

/-- The numbers that fill the bytes, of which there are at most `count`. -/
def decodeAll : (count : Nat) → List UInt8 → Option (List Nat)
  | _, [] => some []
  | 0, _ :: _ => none
  | count + 1, bs => (decode bs).bind fun (n, rest) => (decodeAll count rest).map (n :: ·)

variable {width n : Nat}

theorem length_encode_le (width n : Nat) : (encode width n).length ≤ width := by
  induction width generalizing n with
  | zero => exact Nat.le_refl 0
  | succ width ih =>
    rw [encode]
    split
    · exact Nat.succ_le_succ (Nat.zero_le width)
    · exact Nat.succ_le_succ (ih _)

/-- A small number takes few bytes. -/
theorem length_encode_of_lt {k : Nat} (h : n < 128 ^ (k + 1)) :
    (encode width n).length ≤ k + 1 := by
  induction k generalizing width n with
  | zero =>
    rw [Nat.zero_add, Nat.pow_one] at h
    cases width with
    | zero => exact Nat.zero_le 1
    | succ width =>
      rw [encode, if_pos h]
      exact Nat.le_refl 1
  | succ k ih =>
    cases width with
    | zero => exact Nat.zero_le _
    | succ width =>
      rw [encode]
      split
      · exact Nat.succ_le_succ (Nat.zero_le _)
      · refine Nat.succ_le_succ (ih (Nat.div_lt_of_lt_mul ?_))
        rwa [Nat.mul_comm, ← Nat.pow_succ]

theorem decode_encode (h : n < 128 ^ (width + 1)) (rest : List UInt8) :
    decode (encode (width + 1) n ++ rest) = some (n, rest) := by
  induction width generalizing n with
  | zero =>
    rw [Nat.zero_add, Nat.pow_one] at h
    have hbyte : (UInt8.ofNat n).toNat = n := by
      rw [UInt8.toNat_ofNat']
      omega
    rw [encode, if_pos h, List.singleton_append, decode, hbyte, if_pos h]
  | succ width ih =>
    rw [encode]
    split
    · rename_i hlt
      have hbyte : (UInt8.ofNat n).toNat = n := by
        rw [UInt8.toNat_ofNat']
        omega
      rw [List.singleton_append, decode, hbyte, if_pos hlt]
    · have hbyte : (UInt8.ofNat (n % 128 + 128)).toNat = n % 128 + 128 := by
        rw [UInt8.toNat_ofNat']
        omega
      have hrest : n / 128 < 128 ^ (width + 1) := by
        apply Nat.div_lt_of_lt_mul
        rwa [Nat.mul_comm, ← Nat.pow_succ]
      rw [List.cons_append, decode, hbyte, if_neg (by omega), ih hrest, Option.map_some,
        Nat.add_sub_cancel]
      exact congrArg (fun n => some (n, rest)) (Nat.mod_add_div n 128)

theorem encode_ne_nil : encode (width + 1) n ≠ [] := by
  rw [encode]
  split <;> exact List.cons_ne_nil _ _

theorem decodeAll_flatMap {ns : List Nat} (h : ∀ n ∈ ns, n < 128 ^ (width + 1)) {count : Nat}
    (hcount : ns.length ≤ count) : decodeAll count (ns.flatMap (encode (width + 1))) = some ns := by
  induction ns generalizing count with
  | nil => cases count <;> rfl
  | cons n ns ih =>
    obtain ⟨hn, hns⟩ := List.forall_mem_cons.mp h
    obtain ⟨count, rfl⟩ := Nat.exists_eq_add_of_le' (hcount.trans' (Nat.succ_pos _))
    have hrest := ih hns (Nat.le_of_succ_le_succ hcount)
    have hdecode := decode_encode hn (ns.flatMap (encode (width + 1)))
    rw [List.flatMap_cons]
    cases hbytes : encode (width + 1) n ++ ns.flatMap (encode (width + 1)) with
    | nil => exact absurd (List.append_eq_nil_iff.mp hbytes).1 encode_ne_nil
    | cons b bs =>
      rw [hbytes] at hdecode
      rw [decodeAll, hdecode, Option.bind_some]
      · simp only [hrest, Option.map_some]
      · exact List.cons_ne_nil b bs

end Varint
