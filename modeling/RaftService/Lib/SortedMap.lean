import Mathlib

/-!
# Finite maps in ascending key order

A map is the list of its bindings, strictly ascending in the key; the order is a field of the
structure, so an unsorted map cannot be built.

* `get?`, `insert`, `filter`, `eraseRange`: the operations of an ordered key-value store;
* `seek`, `last?`: iteration forward from a key, and the last binding;
* `filter_insert_of_pos`, `filter_eraseRange`, `seek_filter`: selecting keys after an operation;
* `mapKeys`: the map under an order embedding of the keys, with which the operations commute;
* `ofList`, `keys`: collecting bindings, and the keys in order; a binding is lost only to a later
  one of the same key (`forall_mem_ofList_iff`).

On a sorted list a downward closed predicate holds on a prefix, so an iteration that stops at
the first failure visits exactly the bindings that satisfy it (`takeWhile_eq_filter`).
-/

/-- On a list along which `p` never becomes true again, the longest prefix satisfying `p`
is the list of all elements satisfying `p`. -/
theorem List.takeWhile_eq_filter_of_pairwise {α : Type*} {p : α → Bool} {l : List α}
    (h : l.Pairwise fun a b => p b = true → p a = true) : l.takeWhile p = l.filter p := by
  induction l with
  | nil => rfl
  | cons a l ih =>
    obtain ⟨ha, hl⟩ := List.pairwise_cons.1 h
    by_cases hp : p a = true
    · rw [List.takeWhile_cons_of_pos hp, List.filter_cons_of_pos hp, ih hl]
    · have hnone : l.filter p = [] :=
        List.filter_eq_nil_iff.2 fun b hb hpb => hp (ha b hb hpb)
      rw [List.takeWhile_cons_of_neg hp, List.filter_cons_of_neg hp, hnone]

/-- The complement of `List.takeWhile_eq_filter_of_pairwise`. -/
theorem List.dropWhile_eq_filter_of_pairwise {α : Type*} {p : α → Bool} {l : List α}
    (h : l.Pairwise fun a b => p b = true → p a = true) :
    l.dropWhile p = l.filter fun a => !p a := by
  induction l with
  | nil => rfl
  | cons a l ih =>
    obtain ⟨ha, hl⟩ := List.pairwise_cons.1 h
    by_cases hp : p a = true
    · rw [List.dropWhile_cons_of_pos hp, List.filter_cons_of_neg (by simp [hp]), ih hl]
    · have hall : l.filter (fun b => !p b) = l :=
        List.filter_eq_self.2 fun b hb => by
          cases hpb : p b with
          | false => rfl
          | true => exact absurd (ha b hb hpb) hp
      rw [List.dropWhile_cons_of_neg hp, List.filter_cons_of_pos (by simp [hp]), hall]

/-- A finite map: its bindings in strictly ascending order of their keys. -/
structure SortedMap (κ ν : Type*) [LinearOrder κ] where
  toList : List (κ × ν)
  sorted : toList.Pairwise fun a b => a.1 < b.1

namespace SortedMap

variable {κ ν : Type*} [LinearOrder κ]

@[ext] theorem ext {m m' : SortedMap κ ν} (h : m.toList = m'.toList) : m = m' := by
  cases m; cases m'; cases h; rfl

instance [DecidableEq ν] : DecidableEq (SortedMap κ ν) := fun m m' =>
  decidable_of_iff (m.toList = m'.toList) ⟨ext, fun h => h ▸ rfl⟩

/-- The empty map. -/
def empty : SortedMap κ ν := ⟨[], List.Pairwise.nil⟩

@[simp] theorem toList_empty : (empty : SortedMap κ ν).toList = [] := rfl

/-- The value bound to a key. -/
def get? (m : SortedMap κ ν) (k : κ) : Option ν := m.toList.lookup k

/-- The keys in ascending order. -/
def keys (m : SortedMap κ ν) : List κ := m.toList.map Prod.fst

/-- Insertion into a list of bindings, replacing a binding of the same key. -/
def insertList (k : κ) (v : ν) : List (κ × ν) → List (κ × ν)
  | [] => [(k, v)]
  | p :: l =>
    if k < p.1 then (k, v) :: p :: l
    else if k = p.1 then (k, v) :: l
    else p :: insertList k v l

theorem mem_insertList {k : κ} {v : ν} {p : κ × ν} {l : List (κ × ν)}
    (h : p ∈ insertList k v l) : p = (k, v) ∨ p ∈ l := by
  induction l with
  | nil => exact Or.inl (by simpa [insertList] using h)
  | cons q l ih =>
    rw [insertList] at h
    split_ifs at h with h1 h2
    · exact List.mem_cons.1 h
    · exact (List.mem_cons.1 h).imp_right (List.mem_cons_of_mem q)
    · rcases List.mem_cons.1 h with h | h
      · exact Or.inr (h ▸ List.mem_cons_self)
      · exact (ih h).imp_right (List.mem_cons_of_mem q)

theorem sorted_insertList {k : κ} {v : ν} {l : List (κ × ν)}
    (h : l.Pairwise fun a b => a.1 < b.1) :
    (insertList k v l).Pairwise fun a b => a.1 < b.1 := by
  induction l with
  | nil => simp [insertList]
  | cons q l ih =>
    obtain ⟨hq, hl⟩ := List.pairwise_cons.1 h
    rw [insertList]
    split_ifs with h1 h2
    · refine List.pairwise_cons.2 ⟨fun p hp => ?_, h⟩
      rcases List.mem_cons.1 hp with rfl | hp
      · exact h1
      · exact h1.trans (hq p hp)
    · exact List.pairwise_cons.2 ⟨fun p hp => h2 ▸ hq p hp, hl⟩
    · refine List.pairwise_cons.2 ⟨fun p hp => ?_, ih hl⟩
      rcases mem_insertList hp with rfl | hp
      · exact lt_of_le_of_ne (not_lt.1 h1) (Ne.symm h2)
      · exact hq p hp

theorem length_insertList_le (k : κ) (v : ν) (l : List (κ × ν)) :
    (insertList k v l).length ≤ l.length + 1 := by
  induction l with
  | nil => simp [insertList]
  | cons q l ih =>
    rw [insertList]
    split_ifs
    · simp
    · simp
    · simpa using ih

/-- Bind `k` to `v`. -/
def insert (m : SortedMap κ ν) (k : κ) (v : ν) : SortedMap κ ν :=
  ⟨insertList k v m.toList, sorted_insertList m.sorted⟩

/-- The bindings whose key satisfies `p`. -/
def filter (m : SortedMap κ ν) (p : κ → Bool) : SortedMap κ ν :=
  ⟨m.toList.filter fun b => p b.1, m.sorted.filter _⟩

/-- Delete every key of the half-open range `[lo, hi)`. -/
def eraseRange (m : SortedMap κ ν) (lo hi : κ) : SortedMap κ ν :=
  m.filter fun k => !(decide (lo ≤ k) && decide (k < hi))

/-- The bindings from the first key not below `lo`, in ascending order. -/
def seek (m : SortedMap κ ν) (lo : κ) : List (κ × ν) := m.toList.dropWhile fun b => b.1 < lo

/-- The binding of the greatest key. -/
def last? (m : SortedMap κ ν) : Option (κ × ν) := m.toList.getLast?

/-- Collect bindings one by one; a later binding of a key replaces an earlier one. -/
def ofList (l : List (κ × ν)) : SortedMap κ ν := l.foldl (fun m b => m.insert b.1 b.2) empty

@[simp] theorem toList_insert (m : SortedMap κ ν) (k : κ) (v : ν) :
    (m.insert k v).toList = insertList k v m.toList := rfl

@[simp] theorem toList_eraseRange (m : SortedMap κ ν) (lo hi : κ) :
    (m.eraseRange lo hi).toList =
      m.toList.filter fun b => !(decide (lo ≤ b.1) && decide (b.1 < hi)) := rfl

/-- Binding a new key keeps the bindings there are. -/
theorem mem_insert_of_not_mem_keys {m : SortedMap κ ν} {k : κ} (hk : k ∉ m.keys) (v : ν)
    (b : κ × ν) : b ∈ (m.insert k v).toList ↔ b = (k, v) ∨ b ∈ m.toList := by
  rw [toList_insert]
  unfold keys at hk
  generalize m.toList = l at hk
  induction l with
  | nil => simp [insertList]
  | cons c l ih =>
    rw [List.map_cons, List.mem_cons, not_or] at hk
    rw [insertList, if_neg hk.1]
    split_ifs
    · simp
    · rw [List.mem_cons, ih hk.2, List.mem_cons]
      tauto

/-! ### Lookup -/

theorem lookup_insertList_self (k : κ) (v : ν) (l : List (κ × ν)) :
    (insertList k v l).lookup k = some v := by
  induction l with
  | nil => simp [insertList]
  | cons q l ih =>
    obtain ⟨q₁, q₂⟩ := q
    rw [insertList]
    split_ifs with h1 h2
    · simp
    · simp
    · rw [List.lookup_cons, beq_false_of_ne h2, ih]

theorem lookup_insertList_ne {k k' : κ} (h : k' ≠ k) (v : ν) (l : List (κ × ν)) :
    (insertList k v l).lookup k' = l.lookup k' := by
  induction l with
  | nil => simp [insertList, h]
  | cons q l ih =>
    obtain ⟨q₁, q₂⟩ := q
    rw [insertList]
    split_ifs with h1 h2
    · rw [List.lookup_cons, beq_false_of_ne h]
    · simp only at h2
      rw [List.lookup_cons, List.lookup_cons, ← h2, beq_false_of_ne h]
    · rw [List.lookup_cons, List.lookup_cons, ih]

@[simp] theorem get?_empty (k : κ) : (empty : SortedMap κ ν).get? k = none := rfl

@[simp] theorem get?_insert_self (m : SortedMap κ ν) (k : κ) (v : ν) :
    (m.insert k v).get? k = some v := lookup_insertList_self k v m.toList

theorem get?_insert_ne (m : SortedMap κ ν) {k k' : κ} (h : k' ≠ k) (v : ν) :
    (m.insert k v).get? k' = m.get? k' := lookup_insertList_ne h v m.toList

/-! ### Appending at the end, and collecting a sorted list -/

theorem insertList_of_forall_lt {k : κ} {v : ν} {l : List (κ × ν)} (h : ∀ p ∈ l, p.1 < k) :
    insertList k v l = l ++ [(k, v)] := by
  induction l with
  | nil => rfl
  | cons q l ih =>
    have hq : q.1 < k := h q List.mem_cons_self
    rw [insertList, if_neg (not_lt.2 hq.le), if_neg (ne_of_gt hq),
      ih fun p hp => h p (List.mem_cons_of_mem q hp), List.cons_append]

theorem foldl_insert_of_sorted (l : List (κ × ν)) (m : SortedMap κ ν)
    (h : (m.toList ++ l).Pairwise fun a b => a.1 < b.1) :
    (l.foldl (fun m b => m.insert b.1 b.2) m).toList = m.toList ++ l := by
  induction l generalizing m with
  | nil => simp
  | cons q l ih =>
    have hlast : (m.insert q.1 q.2).toList = m.toList ++ [q] :=
      insertList_of_forall_lt fun p hp =>
        (List.pairwise_append.1 h).2.2 p hp q List.mem_cons_self
    have hl : ((m.insert q.1 q.2).toList ++ l).Pairwise fun a b => a.1 < b.1 := by
      rw [hlast]; simpa using h
    rw [List.foldl_cons, ih _ hl, hlast, List.append_assoc, List.singleton_append]

/-- Collecting the bindings of a map, in order, gives the map back. -/
@[simp] theorem ofList_toList (m : SortedMap κ ν) : ofList m.toList = m :=
  ext (foldl_insert_of_sorted m.toList empty (by simpa using m.sorted))

theorem ofList_snoc (l : List (κ × ν)) (b : κ × ν) :
    ofList (l ++ [b]) = (ofList l).insert b.1 b.2 := by
  unfold ofList
  rw [List.foldl_append]
  rfl

theorem length_ofList_le (l : List (κ × ν)) : (ofList l).toList.length ≤ l.length := by
  induction l using List.reverseRecOn with
  | nil => simp [ofList]
  | append_singleton l a ih =>
    have hinsert := length_insertList_le a.1 a.2 (ofList l).toList
    rw [ofList_snoc, toList_insert, List.length_append, List.length_singleton]
    omega

theorem keys_nodup (m : SortedMap κ ν) : m.keys.Nodup :=
  List.pairwise_map.2 (m.sorted.imp fun h => ne_of_lt h)

theorem mem_of_mem_ofList {l : List (κ × ν)} {b : κ × ν} (h : b ∈ (ofList l).toList) : b ∈ l := by
  induction l using List.reverseRecOn with
  | nil => exact absurd h List.not_mem_nil
  | append_singleton l a ih =>
    rw [ofList_snoc, toList_insert] at h
    rw [List.mem_append, List.mem_singleton]
    exact (mem_insertList h).symm.imp ih id

/-- Of several bindings of a key, the last one is kept. -/
theorem get?_ofList (l : List (κ × ν)) (k : κ) : (ofList l).get? k = l.reverse.lookup k := by
  induction l using List.reverseRecOn with
  | nil => rfl
  | append_singleton l b ih =>
    rw [ofList_snoc, List.reverse_append, List.reverse_singleton, List.singleton_append,
      List.lookup_cons]
    by_cases hk : k = b.1
    · rw [hk, get?_insert_self, beq_self_eq_true]
    · rw [get?_insert_ne _ hk, beq_false_of_ne hk]
      exact ih

theorem mem_keys_ofList {l : List (κ × ν)} {k : κ} :
    k ∈ (ofList l).keys ↔ k ∈ l.map Prod.fst := by
  constructor
  · intro h
    obtain ⟨b, hb, rfl⟩ := List.mem_map.1 h
    exact List.mem_map_of_mem (mem_of_mem_ofList hb)
  · intro h
    by_contra hk
    -- no binding of the key is kept, so there was none
    have hnone : (ofList l).get? k = none := by
      refine List.lookup_eq_none_iff.2 fun b hb => ?_
      simpa using fun hbk : k = b.1 => hk (hbk ▸ List.mem_map_of_mem hb)
    obtain ⟨b, hb, rfl⟩ := List.mem_map.1 h
    rw [get?_ofList, List.lookup_eq_none_iff] at hnone
    simpa using hnone b (List.mem_reverse.2 hb)

/-- A map has as many bindings as it was given keys. -/
theorem length_ofList (l : List (κ × ν)) :
    (ofList l).toList.length = (l.map Prod.fst).dedup.length := by
  have hperm : (ofList l).keys.Perm (l.map Prod.fst).dedup :=
    (List.perm_ext_iff_of_nodup (keys_nodup _) (List.nodup_dedup _)).2 fun k => by
      rw [mem_keys_ofList, List.mem_dedup]
  rw [← hperm.length_eq, keys, List.length_map]

/-- Collecting bindings of distinct keys keeps all of them. -/
theorem mem_ofList {l : List (κ × ν)} (hl : (l.map Prod.fst).Nodup) {b : κ × ν} (h : b ∈ l) :
    b ∈ (ofList l).toList := by
  induction l using List.reverseRecOn with
  | nil => exact absurd h List.not_mem_nil
  | append_singleton l a ih =>
    rw [List.map_append, List.map_singleton] at hl
    obtain ⟨hnodup, -, hnew⟩ := List.nodup_append.1 hl
    have hkey : a.1 ∉ (ofList l).keys := by
      intro ha
      obtain ⟨c, hc, hca⟩ := List.mem_map.1 ha
      exact hnew _ (List.mem_map_of_mem (mem_of_mem_ofList hc)) _ (List.mem_singleton_self _) hca
    rw [ofList_snoc, mem_insert_of_not_mem_keys hkey]
    rcases List.mem_append.1 h with h | h
    · exact Or.inr (ih hnodup h)
    · exact Or.inl (List.mem_singleton.1 h)

/-- Collecting bindings loses none of them exactly when their keys are distinct. -/
theorem forall_mem_ofList_iff {l : List (κ × ν)} (hl : l.Nodup) :
    (∀ b ∈ l, b ∈ (ofList l).toList) ↔ (l.map Prod.fst).Nodup := by
  constructor
  · intro h
    -- the keys of the map are distinct and as many as the bindings
    have hsub : (ofList l).keys.Subperm (l.map Prod.fst) := by
      refine List.Nodup.subperm (keys_nodup _) ?_
      intro k hk
      obtain ⟨b, hb, rfl⟩ := List.mem_map.1 hk
      exact List.mem_map_of_mem (mem_of_mem_ofList hb)
    have hlength : (l.map Prod.fst).length ≤ (ofList l).keys.length := by
      unfold keys
      rw [List.length_map, List.length_map]
      exact (List.Nodup.subperm hl h).length_le
    exact (hsub.perm_of_length_le hlength).nodup_iff.1 (keys_nodup _)
  · intro h b hb
    exact mem_ofList h hb

/-! ### Iteration -/

theorem seek_eq_filter (m : SortedMap κ ν) (lo : κ) :
    m.seek lo = m.toList.filter fun b => !decide (b.1 < lo) :=
  List.dropWhile_eq_filter_of_pairwise <| m.sorted.imp fun hab hb => by
    simpa using hab.trans (of_decide_eq_true hb)

/-- The last binding is the one of the greatest key. -/
theorem last?_eq_some_iff {m : SortedMap κ ν} {b : κ × ν} :
    m.last? = some b ↔ b ∈ m.toList ∧ ∀ c ∈ m.toList, c.1 ≤ b.1 := by
  have hsorted := m.sorted
  unfold last?
  generalize m.toList = l at hsorted
  rcases List.eq_nil_or_concat' l with rfl | ⟨l, a, rfl⟩
  · simp
  · have hlt : ∀ c ∈ l, c.1 < a.1 := fun c hc =>
      (List.pairwise_append.1 hsorted).2.2 c hc a (List.mem_singleton_self a)
    rw [List.getLast?_concat, Option.some_inj]
    constructor
    · rintro rfl
      refine ⟨by simp, fun c hc => ?_⟩
      rcases List.mem_append.1 hc with hc | hc
      · exact (hlt c hc).le
      · rw [List.mem_singleton.1 hc]
    · rintro ⟨hb, hmax⟩
      rcases List.mem_append.1 hb with hb | hb
      · exact absurd (hmax a (by simp)) (not_le.2 (hlt b hb))
      · exact (List.mem_singleton.1 hb).symm

/-! ### Selecting keys -/

theorem insertList_of_forall_gt {k : κ} {v : ν} {l : List (κ × ν)} (h : ∀ p ∈ l, k < p.1) :
    insertList k v l = (k, v) :: l := by
  cases l with
  | nil => rfl
  | cons q l => rw [insertList, if_pos (h q List.mem_cons_self)]

/-- A binding whose key is selected is inserted among the selected ones. -/
theorem filter_insertList_of_pos {p : κ → Bool} {k : κ} (hk : p k = true) (v : ν)
    {l : List (κ × ν)} (h : l.Pairwise fun a b => a.1 < b.1) :
    (insertList k v l).filter (fun b => p b.1) = insertList k v (l.filter fun b => p b.1) := by
  induction l with
  | nil => simp [insertList, hk]
  | cons q l ih =>
    obtain ⟨hq, hl⟩ := List.pairwise_cons.1 h
    rcases lt_trichotomy k q.1 with hlt | heq | hgt
    · have hall : ∀ b ∈ (q :: l).filter fun b => p b.1, k < b.1 := by
        intro b hb
        rcases List.mem_cons.1 (List.mem_filter.1 hb).1 with rfl | hb
        · exact hlt
        · exact hlt.trans (hq b hb)
      rw [insertList, if_pos hlt, insertList_of_forall_gt hall,
        List.filter_cons_of_pos (by exact hk)]
    · have hpq : p q.1 = true := heq ▸ hk
      rw [insertList, if_neg heq.not_lt, if_pos heq, List.filter_cons_of_pos (by exact hk),
        List.filter_cons_of_pos (by exact hpq), insertList, if_neg heq.not_lt, if_pos heq]
    · have hins : ∀ l' : List (κ × ν), insertList k v (q :: l') = q :: insertList k v l' :=
        fun l' => by rw [insertList, if_neg hgt.not_gt, if_neg hgt.ne']
      rw [hins, List.filter_cons, List.filter_cons, ih hl]
      split_ifs
      · rw [hins]
      · rfl

/-- A binding whose key is not selected does not show. -/
theorem filter_insertList_of_neg {p : κ → Bool} {k : κ} (hk : p k = false) (v : ν)
    (l : List (κ × ν)) :
    (insertList k v l).filter (fun b => p b.1) = l.filter fun b => p b.1 := by
  induction l with
  | nil => simp [insertList, hk]
  | cons q l ih =>
    rw [insertList]
    by_cases h1 : k < q.1
    · rw [if_pos h1, List.filter_cons_of_neg (by simp [hk])]
    · rw [if_neg h1]
      by_cases h2 : k = q.1
      · rw [if_pos h2, List.filter_cons_of_neg (by simp [hk]),
          List.filter_cons_of_neg (by simp [← h2, hk])]
      · rw [if_neg h2, List.filter_cons, List.filter_cons, ih]

theorem filter_insert_of_pos (m : SortedMap κ ν) {p : κ → Bool} {k : κ} (hk : p k = true) (v : ν) :
    (m.insert k v).filter p = (m.filter p).insert k v :=
  ext (filter_insertList_of_pos hk v m.sorted)

theorem filter_insert_of_neg (m : SortedMap κ ν) {p : κ → Bool} {k : κ} (hk : p k = false)
    (v : ν) : (m.insert k v).filter p = m.filter p :=
  ext (filter_insertList_of_neg hk v m.toList)

theorem filter_eraseRange (m : SortedMap κ ν) (p : κ → Bool) (lo hi : κ) :
    (m.eraseRange lo hi).filter p = (m.filter p).eraseRange lo hi := by
  refine ext ?_
  simp only [eraseRange, filter, List.filter_filter]
  refine List.filter_congr fun b _ => ?_
  exact Bool.and_comm ..

/-- Of two selections, the narrower one counts. -/
theorem filter_filter_of_imp (m : SortedMap κ ν) {p q : κ → Bool}
    (h : ∀ k, q k = true → p k = true) : (m.filter p).filter q = m.filter q := by
  refine ext ?_
  simp only [filter, List.filter_filter]
  refine List.filter_congr fun b _ => ?_
  rw [Bool.eq_iff_iff, Bool.and_eq_true]
  exact ⟨fun hb => hb.1, fun hb => ⟨hb, h b.1 hb⟩⟩

/-- An iteration does not visit what is below its start. -/
theorem seek_filter (m : SortedMap κ ν) {p : κ → Bool} {lo : κ} (h : ∀ k, lo ≤ k → p k = true) :
    (m.filter p).seek lo = m.seek lo := by
  rw [seek_eq_filter, seek_eq_filter]
  show (m.toList.filter fun b => p b.1).filter _ = _
  rw [List.filter_filter]
  refine List.filter_congr fun b _ => ?_
  by_cases hb : b.1 < lo
  · simp [hb]
  · simp [hb, h b.1 (not_lt.1 hb)]

/-! ### Another type of keys -/

section MapKeys

variable {κ' : Type*} [LinearOrder κ']

/-- The map with its keys under an order embedding. -/
def mapKeys (f : κ ↪o κ') (m : SortedMap κ ν) : SortedMap κ' ν where
  toList := m.toList.map (Prod.map f id)
  sorted := List.pairwise_map.2 (m.sorted.imp fun h => f.lt_iff_lt.2 h)

@[simp] theorem toList_mapKeys (f : κ ↪o κ') (m : SortedMap κ ν) :
    (m.mapKeys f).toList = m.toList.map (Prod.map f id) := rfl

/-- A map whose keys all come from the embedding is the image of a map. -/
theorem exists_eq_mapKeys {f : κ ↪o κ'} {m : SortedMap κ' ν}
    (h : ∀ k ∈ m.keys, ∃ i, f i = k) : ∃ m' : SortedMap κ ν, m = m'.mapKeys f := by
  have hlist : m.toList ∈ Set.range (List.map (Prod.map f (id : ν → ν))) := by
    rw [Set.range_list_map]
    intro b hb
    obtain ⟨i, hi⟩ := h b.1 (List.mem_map_of_mem hb)
    exact ⟨(i, b.2), Prod.ext hi rfl⟩
  obtain ⟨l, hl⟩ := hlist
  have hsorted : l.Pairwise fun a b => a.1 < b.1 := by
    have := m.sorted
    rw [← hl, List.pairwise_map] at this
    exact this.imp fun h => f.lt_iff_lt.1 h
  exact ⟨⟨l, hsorted⟩, ext hl.symm⟩

theorem seek_mapKeys (f : κ ↪o κ') (m : SortedMap κ ν) (lo : κ) :
    (m.mapKeys f).seek (f lo) = (m.seek lo).map (Prod.map f id) := by
  rw [seek_eq_filter, seek_eq_filter, toList_mapKeys, List.filter_map]
  congr 1
  refine List.filter_congr fun b _ => ?_
  simp

theorem last?_mapKeys (f : κ ↪o κ') (m : SortedMap κ ν) :
    (m.mapKeys f).last? = m.last?.map (Prod.map f id) := by
  unfold last?
  rw [toList_mapKeys, List.getLast?_map]

theorem eraseRange_mapKeys (f : κ ↪o κ') (m : SortedMap κ ν) (lo hi : κ) :
    (m.mapKeys f).eraseRange (f lo) (f hi) = (m.eraseRange lo hi).mapKeys f := by
  refine ext ?_
  rw [toList_eraseRange, toList_mapKeys, toList_mapKeys, toList_eraseRange, List.filter_map]
  congr 1
  refine List.filter_congr fun b _ => ?_
  simp

end MapKeys

end SortedMap
