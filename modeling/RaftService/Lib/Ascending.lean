import RaftService.Lib.SortedMap

/-!
# Cutting an ascending list at a bound

A list whose keys ascend strictly is cut by a bound into the elements not above it and those
above it.

* `upTo f x l`, `above f x l`: the two parts; `upTo_append_above` puts them together again;
* `upTo_of_append`, `above_of_append`: the cut at the last key of a prefix is that prefix.
-/

namespace Ascending

variable {α κ : Type*} [LinearOrder κ] {f : α → κ} {l : List α} {x : κ}

/-- The elements whose key is not above `x`. -/
def upTo (f : α → κ) (x : κ) (l : List α) : List α := l.filter fun a => f a ≤ x

/-- The elements whose key is above `x`. -/
def above (f : α → κ) (x : κ) (l : List α) : List α := l.filter fun a => x < f a

theorem mem_above {a : α} : a ∈ above f x l ↔ a ∈ l ∧ x < f a := by simp [above]

/-- The cut splits the list. -/
theorem upTo_append_above (h : l.Pairwise fun a b => f a < f b) :
    upTo f x l ++ above f x l = l := by
  have hdown : l.Pairwise fun a b => decide (f b ≤ x) = true → decide (f a ≤ x) = true :=
    h.imp fun hab hb => by simpa using hab.le.trans (of_decide_eq_true hb)
  have habove : above f x l = l.filter fun a => !decide (f a ≤ x) :=
    List.filter_congr fun a _ => by rw [Bool.eq_iff_iff]; simp
  rw [upTo, habove, ← List.takeWhile_eq_filter_of_pairwise hdown,
    ← List.dropWhile_eq_filter_of_pairwise hdown, List.takeWhile_append_dropWhile]

theorem upTo_prefix (h : l.Pairwise fun a b => f a < f b) : upTo f x l <+: l :=
  ⟨above f x l, upTo_append_above h⟩

/-- Nothing is below a bound that is below every key. -/
theorem upTo_of_forall_lt (h : ∀ a ∈ l, x < f a) : upTo f x l = [] :=
  List.filter_eq_nil_iff.2 fun a ha => by simpa using h a ha

theorem above_of_forall_lt (h : ∀ a ∈ l, x < f a) : above f x l = l :=
  List.filter_eq_self.2 fun a ha => by simpa using h a ha

theorem upTo_of_forall_le (h : ∀ a ∈ l, f a ≤ x) : upTo f x l = l :=
  List.filter_eq_self.2 fun a ha => by simpa using h a ha

theorem above_of_forall_le (h : ∀ a ∈ l, f a ≤ x) : above f x l = [] :=
  List.filter_eq_nil_iff.2 fun a ha => by simpa using h a ha

theorem upTo_append (l m : List α) : upTo f x (l ++ m) = upTo f x l ++ upTo f x m :=
  List.filter_append ..

theorem above_append (l m : List α) : above f x (l ++ m) = above f x l ++ above f x m :=
  List.filter_append ..

/-- In an ascending list the last element of a prefix bounds the prefix from the rest. -/
theorem bounds_of_append {ps rest : List α} {a : α}
    (h : (ps ++ a :: rest).Pairwise fun a b => f a < f b) :
    (∀ b ∈ ps ++ [a], f b ≤ f a) ∧ ∀ b ∈ rest, f a < f b := by
  obtain ⟨-, hrest, hps⟩ := List.pairwise_append.1 h
  refine ⟨fun b hb => ?_, (List.pairwise_cons.1 hrest).1⟩
  rcases List.mem_append.1 hb with hb | hb
  · exact (hps b hb a List.mem_cons_self).le
  · rw [List.mem_singleton.1 hb]

theorem upTo_of_append {ps rest : List α} {a : α}
    (h : (ps ++ a :: rest).Pairwise fun a b => f a < f b) :
    upTo f (f a) (ps ++ a :: rest) = ps ++ [a] := by
  obtain ⟨hle, hlt⟩ := bounds_of_append h
  rw [List.append_cons, upTo_append, upTo_of_forall_le hle, upTo_of_forall_lt hlt, List.append_nil]

theorem above_of_append {ps rest : List α} {a : α}
    (h : (ps ++ a :: rest).Pairwise fun a b => f a < f b) :
    above f (f a) (ps ++ a :: rest) = rest := by
  obtain ⟨hle, hlt⟩ := bounds_of_append h
  rw [List.append_cons, above_append, above_of_forall_le hle, above_of_forall_lt hlt,
    List.nil_append]

end Ascending
