import RaftService.Lib.Order

/-!
# Big-endian digits and their byte order

`digits k n` is the `k`-byte big-endian form of `n`, `value` reads it back, and on numbers below
`256 ^ k` the bytewise lexicographic order of the digits is the numeric order
(`digits_lt_digits_iff`).
-/

/-- A byte string, ordered lexicographically. -/
abbrev Bytes := List UInt8

namespace BigEndian

/-- The `k` low base-256 digits of `n`, the most significant first. -/
def digits : ℕ → ℕ → Bytes
  | 0, _ => []
  | k + 1, n => UInt8.ofNat (n / 256 ^ k) :: digits k (n % 256 ^ k)

/-- The number written by a string of base-256 digits. -/
def value : Bytes → ℕ
  | [] => 0
  | b :: bs => b.toNat * 256 ^ bs.length + value bs

@[simp] theorem length_digits (k n : ℕ) : (digits k n).length = k := by
  induction k generalizing n with
  | zero => rfl
  | succ k ih => simp [digits, ih]

theorem value_lt (bs : Bytes) : value bs < 256 ^ bs.length := by
  induction bs with
  | nil => simp [value]
  | cons b bs ih =>
    have hb : b.toNat + 1 ≤ 256 := b.toNat_lt
    calc value (b :: bs)
        < b.toNat * 256 ^ bs.length + 256 ^ bs.length := by simp only [value]; omega
      _ = (b.toNat + 1) * 256 ^ bs.length := by ring
      _ ≤ 256 * 256 ^ bs.length := Nat.mul_le_mul_right _ hb
      _ = 256 ^ (b :: bs).length := by rw [List.length_cons, pow_succ']

/-- The leading digit of a `k + 1` digit number is not reduced. -/
theorem toNat_leading {k n : ℕ} (hn : n < 256 ^ (k + 1)) :
    (UInt8.ofNat (n / 256 ^ k)).toNat = n / 256 ^ k := by
  rw [UInt8.toNat_ofNat']
  exact Nat.mod_eq_of_lt (Nat.div_lt_of_lt_mul (by rwa [← pow_succ]))

theorem value_digits {k n : ℕ} (hn : n < 256 ^ k) : value (digits k n) = n := by
  induction k generalizing n with
  | zero => simp at hn; simp [digits, value, hn]
  | succ k ih =>
    have hr : n % 256 ^ k < 256 ^ k := Nat.mod_lt _ (by positivity)
    rw [digits, value, toNat_leading hn, length_digits, ih hr]
    exact Nat.div_add_mod' n (256 ^ k)

/-- Every byte string is the digits of its number. -/
theorem digits_value (bs : Bytes) : digits bs.length (value bs) = bs := by
  induction bs with
  | nil => rfl
  | cons b bs ih =>
    have hlt : value bs < 256 ^ bs.length := value_lt bs
    have hdiv : value (b :: bs) / 256 ^ bs.length = b.toNat := by
      rw [value, Nat.mul_comm, Nat.mul_add_div (by positivity), Nat.div_eq_of_lt hlt, add_zero]
    have hmod : value (b :: bs) % 256 ^ bs.length = value bs := by
      rw [value, Nat.mul_comm, Nat.mul_add_mod, Nat.mod_eq_of_lt hlt]
    rw [List.length_cons, digits, hdiv, hmod, ih, UInt8.ofNat_toNat]

/-- Lexicographic comparison of the digits is comparison of the numbers: the leading digit
decides unless it is shared, and then the remainders decide. -/
theorem digits_lt_digits_iff {k m n : ℕ} (hm : m < 256 ^ k) (hn : n < 256 ^ k) :
    digits k m < digits k n ↔ m < n := by
  induction k generalizing m n with
  | zero =>
    simp only [pow_zero, Nat.lt_one_iff] at hm hn
    simp [hm, hn]
  | succ k ih =>
    have hpos : 0 < 256 ^ k := by positivity
    have hrm : m % 256 ^ k < 256 ^ k := Nat.mod_lt _ hpos
    have hrn : n % 256 ^ k < 256 ^ k := Nat.mod_lt _ hpos
    have em : 256 ^ k * (m / 256 ^ k) + m % 256 ^ k = m := Nat.div_add_mod m _
    have en : 256 ^ k * (n / 256 ^ k) + n % 256 ^ k = n := Nat.div_add_mod n _
    rw [digits, digits, List.cons_lt_cons_iff, ih hrm hrn, UInt8.lt_iff_toNat_lt,
      ← UInt8.toNat_inj, toNat_leading hm, toNat_leading hn]
    constructor
    · rintro (h | ⟨h, hr⟩)
      · have hmul : 256 ^ k * (m / 256 ^ k + 1) ≤ 256 ^ k * (n / 256 ^ k) :=
          Nat.mul_le_mul_left _ h
        rw [mul_add, mul_one] at hmul
        omega
      · rw [h] at em; omega
    · intro h
      rcases lt_trichotomy (m / 256 ^ k) (n / 256 ^ k) with hd | hd | hd
      · exact Or.inl hd
      · refine Or.inr ⟨hd, ?_⟩
        rw [hd] at em; omega
      · have := Nat.div_le_div_right (c := 256 ^ k) h.le
        omega

end BigEndian
