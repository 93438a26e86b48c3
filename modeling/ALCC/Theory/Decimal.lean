import Mathlib.Data.Nat.Digits.Lemmas

/-! The decimal conversions of `printf` and `scanf` for unsigned numbers of at most 64 bits, on
bytes of ASCII. `scanf` reads the longest run of digits, so it reads a number back when no digit
follows it (`scan_encode`). -/

namespace Decimal

def digit (d : Nat) : UInt8 := .ofNat (48 + d)

def isDigit (b : UInt8) : Bool := 48 ≤ b && b ≤ 57

def isSpace (b : UInt8) : Bool := b = 32 || (9 ≤ b && b ≤ 13)

/-- The conversion of `printf`. -/
def encode (n : Nat) : List UInt8 :=
  if n = 0 then [digit 0] else ((Nat.digits 10 n).map digit).reverse

/-- The value of a run of digits. -/
def value (digits : List UInt8) : Nat := digits.foldl (fun n b => 10 * n + (b.toNat - 48)) 0

/-- An optional sign, which tells whether it is a minus. -/
def sign : List UInt8 → Bool × List UInt8
  | 43 :: s => (false, s)
  | 45 :: s => (true, s)
  | s => (false, s)

/-- The conversion of `scanf`: what is read, and the rest. It skips white space, wraps a negative
number around, and yields the largest number when the digits are too many. -/
def scan (s : List UInt8) : Option (UInt64 × List UInt8) :=
  let (negative, s) := sign (s.dropWhile isSpace)
  let digits := s.takeWhile isDigit
  let n := value digits
  if digits = [] then none
  else
    some (if 2 ^ 64 ≤ n then -1 else if negative then -.ofNat n else .ofNat n,
      s.dropWhile isDigit)

theorem toNat_digit {d : Nat} (h : d < 10) : (digit d).toNat = 48 + d := by
  rw [digit, UInt8.toNat_ofNat']
  omega

theorem isDigit_digit {d : Nat} (h : d < 10) : isDigit (digit d) = true := by
  have hd := toNat_digit h
  rw [isDigit, Bool.and_eq_true, decide_eq_true_eq, decide_eq_true_eq, UInt8.le_iff_toNat_le,
    UInt8.le_iff_toNat_le, hd]
  exact ⟨Nat.le_add_right 48 d, Nat.add_le_add_left (Nat.le_of_lt_succ h) 48⟩

theorem isDigit_encode {n : Nat} {b : UInt8} (h : b ∈ encode n) : isDigit b = true := by
  rw [encode] at h
  split at h
  · rw [List.mem_singleton.mp h]
    exact isDigit_digit (by decide)
  · obtain ⟨d, hd, rfl⟩ := List.mem_map.mp (List.mem_reverse.mp h)
    exact isDigit_digit (Nat.digits_lt_base (by decide) hd)

theorem encode_ne_nil (n : Nat) : encode n ≠ [] := by
  rw [encode]
  split
  · exact List.cons_ne_nil _ _
  · rename_i hne
    simpa [Nat.digits_eq_nil_iff_eq_zero] using hne

theorem value_encode (n : Nat) : value (encode n) = n := by
  rw [encode]
  split
  · rename_i h0
    rw [h0]
    rfl
  · have hdigits : ∀ ds : List Nat, (∀ d ∈ ds, d < 10) →
        value (ds.map digit).reverse = Nat.ofDigits 10 ds := by
      intro ds hds
      induction ds with
      | nil => rfl
      | cons d ds ih =>
        obtain ⟨hd, hds⟩ := List.forall_mem_cons.mp hds
        rw [Nat.ofDigits_cons, ← ih hds, List.map_cons, List.reverse_cons, value,
          List.foldl_append, List.foldl_cons, List.foldl_nil, toNat_digit hd,
          Nat.add_sub_cancel_left, Nat.add_comm]
        rfl
    rw [hdigits _ fun d hd => Nat.digits_lt_base (by decide) hd, Nat.ofDigits_digits]

theorem length_encode_le {n k : Nat} (hk : 1 ≤ k) (h : n < 10 ^ k) : (encode n).length ≤ k := by
  rw [encode]
  split
  · exact hk
  · rw [List.length_reverse, List.length_map, Nat.digits_length_le_iff (by decide)]
    exact h

theorem isSpace_of_isDigit {b : UInt8} (h : isDigit b = true) : isSpace b = false := by
  rw [isDigit, Bool.and_eq_true, decide_eq_true_eq, decide_eq_true_eq, UInt8.le_iff_toNat_le] at h
  have hne : b ≠ 32 := fun heq => absurd h.1 (by rw [heq]; decide)
  have hlt : ¬ b ≤ 13 := fun hle => absurd (h.1.trans (UInt8.le_iff_toNat_le.mp hle)) (by decide)
  simp [isSpace, hne, hlt]

/-- A number has no sign. -/
theorem sign_encode (n : Nat) (rest : List UInt8) :
    sign (encode n ++ rest) = (false, encode n ++ rest) := by
  cases hencode : encode n with
  | nil => exact absurd hencode (encode_ne_nil n)
  | cons b bs =>
    have hdigit : isDigit b = true := isDigit_encode (hencode ▸ List.mem_cons_self)
    rw [List.cons_append, sign]
    · intro s heq
      cases heq
      exact absurd hdigit (by decide)
    · intro s heq
      cases heq
      exact absurd hdigit (by decide)

/-- **The round trip.** A number is read back behind any white space. -/
theorem scan_encode {n : Nat} (h : n < 2 ^ 64) {spaces rest : List UInt8}
    (hspaces : ∀ b ∈ spaces, isSpace b = true) (hrest : ∀ b ∈ rest.head?, isDigit b = false) :
    scan (spaces ++ encode n ++ rest) = some (.ofNat n, rest) := by
  have hspace : (spaces ++ encode n ++ rest).dropWhile isSpace = encode n ++ rest := by
    rw [List.append_assoc, List.dropWhile_append_of_pos hspaces]
    cases hencode : encode n with
    | nil => exact absurd hencode (encode_ne_nil n)
    | cons b bs =>
      have hdigit : isDigit b = true := isDigit_encode (hencode ▸ List.mem_cons_self)
      rw [List.cons_append, List.dropWhile_cons_of_neg]
      rw [isSpace_of_isDigit hdigit]
      exact Bool.false_ne_true
  have hstop : rest.takeWhile isDigit = [] ∧ rest.dropWhile isDigit = rest := by
    cases rest with
    | nil => exact ⟨rfl, rfl⟩
    | cons b rest =>
      have hnot := hrest b rfl
      simp [hnot]
  have htake : (encode n ++ rest).takeWhile isDigit = encode n := by
    rw [List.takeWhile_append_of_pos fun b => isDigit_encode, hstop.1, List.append_nil]
  have hdrop : (encode n ++ rest).dropWhile isDigit = rest := by
    rw [List.dropWhile_append_of_pos fun b => isDigit_encode, hstop.2]
  rw [scan, hspace, sign_encode]
  simp only [htake, hdrop, value_encode, if_neg (encode_ne_nil n), if_neg h.not_ge]
  rfl

end Decimal
