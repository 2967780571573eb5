import Mathlib

/-!
# Comparison traits

`PartialEq` and `PartialOrd` between two types, as the functions that an implementation gives:
`eq`, and `partialCmp` into `Option Ordering`, which is `none` on incomparable values. The
operators `lt` and `le` are read off `partialCmp`. What a caller trusts an implementation with:

* `Consistent`: on two values, `partialCmp` is `Equal` exactly when `eq` holds;
* `Decides`: on one type, `partialCmp` decides a partial order, and then it is dual
  (`partialCmp_swap`) and transitive (`lt_trans`, `le_trans`);
* `ComparesBy`: values are compared with keys as their own keys are, and when the key is strictly
  monotone, the two comparisons compose (`ComparesBy.lt_of_lt_of_le`, `ComparesBy.lt_key`).
-/

/-- `PartialEq<β>` for `α` -/
class PartialEq (α β : Type*) where
  eq : α → β → Bool

/-- `PartialOrd<β>` for `α` -/
class PartialOrd (α β : Type*) where
  partialCmp : α → β → Option Ordering

namespace PartialOrd

variable {α β κ : Type*}

/-- `<` -/
def lt [PartialOrd α β] (a : α) (b : β) : Bool := decide (partialCmp a b = some .lt)

/-- `<=` -/
def le [PartialOrd α β] (a : α) (b : β) : Bool := (partialCmp a b).any Ordering.isLE

/-- The contract of the two traits for two values. -/
def Consistent [PartialEq α β] [PartialOrd α β] (a : α) (b : β) : Prop :=
  partialCmp a b = some .eq ↔ PartialEq.eq a b = true

/-- The comparison decides the partial order of the type. -/
class Decides (α : Type*) [PartialOrder α] [PartialOrd α α] : Prop where
  lt_iff : ∀ {a b : α}, partialCmp a b = some .lt ↔ a < b
  eq_iff : ∀ {a b : α}, partialCmp a b = some .eq ↔ a = b
  gt_iff : ∀ {a b : α}, partialCmp a b = some .gt ↔ b < a

/-- A value is compared with a key as its own key is. -/
def ComparesBy [LinearOrder κ] [PartialOrd α κ] (key : α → κ) : Prop :=
  ∀ a t, partialCmp a t = some (compare (key a) t)

theorem lt_iff_partialCmp [PartialOrd α β] {a : α} {b : β} :
    lt a b = true ↔ partialCmp a b = some .lt := decide_eq_true_iff

theorem le_iff_partialCmp [PartialOrd α β] {a : α} {b : β} :
    le a b = true ↔ partialCmp a b = some .lt ∨ partialCmp a b = some .eq := by
  unfold le
  rcases partialCmp a b with _ | _ | _ | _ <;> simp

/-! ### One type -/

section Decides

variable [PartialOrder α] [PartialOrd α α] [Decides α] {a b c : α}

theorem lt_iff_lt : lt a b = true ↔ a < b := lt_iff_partialCmp.trans Decides.lt_iff

theorem le_iff_le : le a b = true ↔ a ≤ b := by
  rw [le_iff_partialCmp, Decides.lt_iff, Decides.eq_iff, le_iff_lt_or_eq]

theorem partialCmp_eq_some_iff_swap {ordering : Ordering} :
    partialCmp b a = some ordering ↔ partialCmp a b = some ordering.swap := by
  cases ordering with
  | lt => exact Decides.lt_iff.trans Decides.gt_iff.symm
  | eq => exact Decides.eq_iff.trans (eq_comm.trans Decides.eq_iff.symm)
  | gt => exact Decides.gt_iff.trans Decides.lt_iff.symm

/-- Comparing the other way round turns the result. -/
theorem partialCmp_swap (a b : α) : partialCmp b a = (partialCmp a b).map Ordering.swap := by
  refine Option.ext fun ordering => ?_
  rw [partialCmp_eq_some_iff_swap, Option.map_eq_some_iff]
  constructor
  · intro h
    exact ⟨ordering.swap, h, Ordering.swap_swap⟩
  · rintro ⟨turned, h, rfl⟩
    rwa [Ordering.swap_swap]

theorem lt_trans (hab : lt a b = true) (hbc : lt b c = true) : lt a c = true :=
  lt_iff_lt.2 ((lt_iff_lt.1 hab).trans (lt_iff_lt.1 hbc))

theorem le_trans (hab : le a b = true) (hbc : le b c = true) : le a c = true :=
  le_iff_le.2 ((le_iff_le.1 hab).trans (le_iff_le.1 hbc))

end Decides

/-! ### A type and its keys -/

namespace ComparesBy

variable [LinearOrder κ] [PartialOrd α κ] {key : α → κ} {a b : α} {t : κ}

theorem eq_iff (h : ComparesBy key) : partialCmp a t = some .eq ↔ key a = t := by
  rw [h, Option.some_inj, compare_eq_iff_eq]

theorem lt_iff (h : ComparesBy key) : lt a t = true ↔ key a < t := by
  rw [lt_iff_partialCmp, h, Option.some_inj, compare_lt_iff_lt]

theorem le_iff (h : ComparesBy key) : le a t = true ↔ key a ≤ t := by
  rw [le_iff_partialCmp, h.eq_iff, ← lt_iff_partialCmp, h.lt_iff, le_iff_lt_or_eq]

variable [PartialOrder α] [PartialOrd α α] [Decides α]

theorem lt_of_lt_of_le (h : ComparesBy key) (hkey : StrictMono key) (hab : lt a b = true)
    (hbt : le b t = true) : lt a t = true :=
  h.lt_iff.2 ((hkey (lt_iff_lt.1 hab)).trans_le (h.le_iff.1 hbt))

/-- What is below a value is below its key. -/
theorem lt_key (h : ComparesBy key) (hkey : StrictMono key) (hab : lt a b = true) :
    lt a (key b) = true := h.lt_iff.2 (hkey (lt_iff_lt.1 hab))

end ComparesBy

end PartialOrd
