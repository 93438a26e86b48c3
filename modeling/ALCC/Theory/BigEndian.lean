import Mathlib.Algebra.Order.Ring.Nat
import Mathlib.Tactic.Ring

/-! Numbers as bytes, the most significant one first. A number that fits into its bytes is read back
(`decode_encode`). -/

namespace BigEndian

/-- The lowest `n` bytes of `x`. -/
def encode : (n : Nat) → (x : Nat) → List UInt8
  | 0, _ => []
  | n + 1, x => UInt8.ofNat (x / 256 ^ n) :: encode n x

def decode : List UInt8 → Nat
  | [] => 0
  | b :: bs => b.toNat * 256 ^ bs.length + decode bs

@[simp] theorem length_encode (n x : Nat) : (encode n x).length = n := by
  induction n with
  | zero => rfl
  | succ n ih => rw [encode, List.length_cons, ih]

theorem decode_encode_mod (n x : Nat) : decode (encode n x) = x % 256 ^ n := by
  induction n with
  | zero => rw [Nat.pow_zero, Nat.mod_one, encode, decode]
  | succ n ih =>
    have hbyte : (UInt8.ofNat (x / 256 ^ n)).toNat = x / 256 ^ n % 256 := UInt8.toNat_ofNat'
    rw [encode, decode, ih, length_encode, hbyte, Nat.pow_succ, Nat.mod_mul]
    ring

theorem decode_encode {n x : Nat} (h : x < 256 ^ n) : decode (encode n x) = x := by
  rw [decode_encode_mod, Nat.mod_eq_of_lt h]

theorem decode_lt (bs : List UInt8) : decode bs < 256 ^ bs.length := by
  induction bs with
  | nil => exact Nat.one_pos
  | cons b bs ih =>
    have hle : (b.toNat + 1) * 256 ^ bs.length ≤ 256 * 256 ^ bs.length :=
      Nat.mul_le_mul_right _ b.toNat_lt
    rw [Nat.add_mul] at hle
    rw [decode, List.length_cons, Nat.pow_succ]
    omega

theorem encode_add_mul (n x k : Nat) : encode n (x + 256 ^ n * k) = encode n x := by
  induction n generalizing k with
  | zero => rfl
  | succ n ih =>
    have hbyte : UInt8.ofNat (x / 256 ^ n + 256 * k) = UInt8.ofNat (x / 256 ^ n) := by
      apply UInt8.toNat_inj.mp
      rw [UInt8.toNat_ofNat', UInt8.toNat_ofNat', Nat.add_mul_mod_self_left]
    rw [Nat.pow_succ, Nat.mul_assoc, encode, encode, ih,
      Nat.add_mul_div_left _ _ (Nat.pow_pos (by decide)), hbyte]

theorem encode_decode {n : Nat} {bs : List UInt8} (h : bs.length = n) :
    encode n (decode bs) = bs := by
  subst h
  induction bs with
  | nil => rfl
  | cons b bs ih =>
    have hb : (b.toNat * 256 ^ bs.length + decode bs) / 256 ^ bs.length = b.toNat := by
      rw [Nat.add_comm, Nat.add_mul_div_right _ _ (Nat.pow_pos (by decide)),
        Nat.div_eq_of_lt (decode_lt bs), Nat.zero_add]
    rw [List.length_cons, decode, encode, hb, UInt8.ofNat_toNat, Nat.add_comm, Nat.mul_comm,
      encode_add_mul, ih]

theorem decode_encode_uint16 (x : UInt16) : UInt16.ofNat (decode (encode 2 x.toNat)) = x := by
  rw [decode_encode x.toNat_lt, UInt16.ofNat_toNat]

theorem decode_encode_uint64 (x : UInt64) : UInt64.ofNat (decode (encode 8 x.toNat)) = x := by
  rw [decode_encode x.toNat_lt, UInt64.ofNat_toNat]

end BigEndian
