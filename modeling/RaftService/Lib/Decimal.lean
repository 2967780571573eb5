import Mathlib

/-!
# Numbers in a format string

A `u64` is written in decimal digits. The digits determine the number, there is at least one, and
none of them is a separator, so numbers that are written with separators between them can be read
back (`append_inj_of_not_digit`).
-/

namespace Decimal

/-- The digits of a `u64`. -/
def digits (n : UInt64) : List Char := Nat.toDigits 10 n.toNat

theorem toList_toString (n : UInt64) : (toString n).toList = digits n := by
  show (toString n.toNat).toList = _
  rw [Nat.toString_eq_repr, Nat.toList_repr]
  rfl

theorem digits_ne_nil (n : UInt64) : digits n ≠ [] := Nat.toDigits_ne_nil

theorem isDigit_of_mem {n : UInt64} {c : Char} (hc : c ∈ digits n) : c.isDigit = true :=
  Nat.isDigit_of_mem_toDigits (by decide) (by decide) hc

theorem digits_injective : Function.Injective digits := by
  intro n m h
  have hread := congrArg (fun ds => Nat.ofDigitChars 10 ds 0) h
  simp only [digits, Nat.ofDigitChars_ten_toDigits] at hread
  exact UInt64.toNat_inj.1 hread

/-- **A number is read up to the separator.** -/
theorem append_inj_of_not_digit {n m : UInt64} {c : Char} (hc : c.isDigit = false)
    {rest rest' : List Char} (h : digits n ++ c :: rest = digits m ++ c :: rest') :
    n = m ∧ rest = rest' := by
  have htake : ∀ (n : UInt64) rest, (digits n ++ c :: rest).takeWhile Char.isDigit = digits n := by
    intro n rest
    rw [List.takeWhile_append_of_pos fun _ => isDigit_of_mem,
      List.takeWhile_cons_of_neg (by simp [hc]), List.append_nil]
  obtain rfl : n = m := digits_injective (by rw [← htake n rest, h, htake])
  exact ⟨rfl, (List.cons.inj (List.append_cancel_left h)).2⟩

/-- Digits do not start with a separator. -/
theorem append_ne_cons {n : UInt64} {c : Char} (hc : c.isDigit = false) (rest rest' : List Char) :
    digits n ++ rest ≠ c :: rest' := by
  intro h
  cases hd : digits n with
  | nil => exact digits_ne_nil n hd
  | cons d ds =>
    rw [hd, List.cons_append] at h
    obtain rfl : d = c := (List.cons.inj h).1
    have hdigit := isDigit_of_mem (n := n) (hd ▸ List.mem_cons_self : d ∈ digits n)
    rw [hc] at hdigit
    cases hdigit

end Decimal
