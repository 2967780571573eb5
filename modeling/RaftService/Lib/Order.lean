import Mathlib

/-!
# The linear orders of fixed-width integers and optional values

The order of the machine integers is the order of their values. An absent value is below every
present one, and present values compare as their contents do.
-/

instance UInt8.instLinearOrder : LinearOrder UInt8 where
  le_refl a := UInt8.le_refl a
  le_trans _ _ _ := UInt8.le_trans
  lt_iff_le_not_ge a b := by
    simp only [UInt8.lt_iff_toNat_lt, UInt8.le_iff_toNat_le]; omega
  le_antisymm _ _ := UInt8.le_antisymm
  le_total a b := UInt8.le_total a b
  toDecidableLE := inferInstance

instance UInt64.instLinearOrder : LinearOrder UInt64 where
  le_refl a := UInt64.le_refl a
  le_trans _ _ _ := UInt64.le_trans
  lt_iff_le_not_ge a b := by
    simp only [UInt64.lt_iff_toNat_lt, UInt64.le_iff_toNat_le]; omega
  le_antisymm _ _ := UInt64.le_antisymm
  le_total a b := UInt64.le_total a b
  toDecidableLE := inferInstance

instance Option.instDecidableLEOption {α : Type*} [LE α] [DecidableLE α] :
    DecidableLE (Option α)
  | none, _ => isTrue Option.none_le
  | some _, none => isFalse Option.not_some_le_none
  | some a, some b => decidable_of_iff (a ≤ b) Option.some_le_some.symm

instance Option.instDecidableLTOption {α : Type*} [LT α] [DecidableLT α] :
    DecidableLT (Option α)
  | _, none => isFalse Option.not_lt_none
  | none, some _ => isTrue Option.none_lt_some
  | some a, some b => decidable_of_iff (a < b) Option.some_lt_some.symm

/-- `none` is the least element; the relation is the one of the core library. -/
instance Option.instLinearOrderOption {α : Type*} [LinearOrder α] : LinearOrder (Option α) where
  le_refl a := by cases a <;> simp
  le_trans a b c hab hbc := by
    cases a with
    | none => exact Option.none_le
    | some a =>
      cases b with
      | none => exact absurd hab Option.not_some_le_none
      | some b =>
        cases c with
        | none => exact absurd hbc Option.not_some_le_none
        | some c =>
          exact Option.some_le_some.2
            ((Option.some_le_some.1 hab).trans (Option.some_le_some.1 hbc))
  lt_iff_le_not_ge a b := by
    cases a with
    | none => cases b <;> simp
    | some a =>
      cases b with
      | none => simp
      | some b =>
        rw [Option.some_lt_some, Option.some_le_some, Option.some_le_some]
        exact lt_iff_le_not_ge
  le_antisymm a b hab hba := by
    cases a with
    | none => cases b with
      | none => rfl
      | some b => exact absurd hba Option.not_some_le_none
    | some a => cases b with
      | none => exact absurd hab Option.not_some_le_none
      | some b =>
        rw [le_antisymm (Option.some_le_some.1 hab) (Option.some_le_some.1 hba)]
  le_total a b := by
    cases a with
    | none => exact Or.inl Option.none_le
    | some a => cases b with
      | none => exact Or.inr Option.none_le
      | some b => simpa using le_total a b
  toDecidableLE := inferInstance
  toDecidableLT := inferInstance
  toDecidableEq := inferInstance
  min a b := if a ≤ b then a else b
  max a b := if a ≤ b then b else a
  compare a b := compareOfLessAndEq a b
