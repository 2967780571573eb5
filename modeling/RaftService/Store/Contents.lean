import RaftService.Store.Log

/-!
# What the log columns hold

`Holds m es` says that the bindings of a column are the encodings of the entries `es`, in this
order: each key is `idToBin` of the entry's index and each value its JSON. The lemmas say what one
primitive write does to `es` and what the readers return for it; nothing here assumes that the
entries are contiguous.

* `Holds.insert_last`, `Holds.eraseRange`: one put beyond the last entry, one range delete;
* `tryGetLogEntries_of_holds`: the reader returns the entries whose index lies in the range;
* `getLogState_of_holds`: the log state is read off the last entry and the column `meta`.
-/

namespace RaftService
namespace RocksLogStore

variable {E V : Type} [RaftEntry E] [Serde E]

open RaftEntry (index logId)

/-- A binding is the encoding of an entry. -/
def Stored (b : Bytes × Bytes) (e : E) : Prop :=
  b.1 = idToBin (index e) ∧ Serde.toVec e = .ok b.2

/-- The bindings of a column are the encodings of `es`. -/
def Holds (m : SortedMap Bytes Bytes) (es : List E) : Prop := List.Forall₂ Stored m.toList es

theorem holds_empty : Holds SortedMap.empty ([] : List E) := List.Forall₂.nil

theorem keys_of_stored {l : List (Bytes × Bytes)} {es : List E} (h : List.Forall₂ Stored l es) :
    l.map Prod.fst = es.map fun e => idToBin (index e) := by
  induction h with
  | nil => rfl
  | cons hb _ ih => rw [List.map_cons, List.map_cons, hb.1, ih]

/-- The keys ascend, so the indexes do. -/
theorem Holds.ascending {m : SortedMap Bytes Bytes} {es : List E} (h : Holds m es) :
    es.Pairwise fun a b => index a < index b := by
  have hk : (m.toList.map Prod.fst).Pairwise (· < ·) := List.pairwise_map.2 m.sorted
  rw [keys_of_stored h, List.pairwise_map] at hk
  exact hk.imp fun hab => idToBin_lt_iff.1 hab

/-- A put above every index appends the entry. -/
theorem Holds.insert_last {m : SortedMap Bytes Bytes} {es : List E} (h : Holds m es) {e : E}
    {b : Bytes} (hb : Serde.toVec e = .ok b) (hlt : ∀ a ∈ es, index a < index e) :
    Holds (m.insert (idToBin (index e)) b) (es ++ [e]) := by
  have hkeys : ∀ p ∈ m.toList, p.1 < idToBin (index e) := by
    intro p hp
    have hmem : p.1 ∈ es.map fun a => idToBin (index a) := by
      rw [← keys_of_stored h]; exact List.mem_map_of_mem hp
    obtain ⟨a, ha, hap⟩ := List.mem_map.1 hmem
    rw [← hap]
    exact idToBin_lt_iff.2 (hlt a ha)
  unfold Holds
  rw [SortedMap.toList_insert, SortedMap.insertList_of_forall_lt hkeys]
  exact List.rel_append h (List.Forall₂.cons ⟨rfl, hb⟩ List.Forall₂.nil)

/-- A range delete between two encoded bounds drops the entries of that index range. -/
theorem Holds.eraseRange {m : SortedMap Bytes Bytes} {es : List E} (h : Holds m es)
    (lo hi : UInt64) :
    Holds (m.eraseRange (idToBin lo) (idToBin hi))
      (es.filter fun e => !(decide (lo ≤ index e) && decide (index e < hi))) := by
  unfold Holds
  rw [SortedMap.toList_eraseRange]
  refine List.rel_filter (R := Stored) (fun b e hb => ?_) h
  simp only [hb.1, idToBin_le_iff, idToBin_lt_iff]

/-- The range delete of `truncate` leaves the entries below `i`, and the one at `u64::MAX`: that
index is the excluded end of the range. -/
theorem Holds.eraseFrom {m : SortedMap Bytes Bytes} {es : List E} (h : Holds m es) (i : UInt64) :
    Holds (m.eraseRange (idToBin i) (idToBin u64Max))
      (es.filter fun e => decide (index e < i) || decide (index e = u64Max)) := by
  have heq : (es.filter fun e => decide (index e < i) || decide (index e = u64Max)) =
      es.filter fun e => !(decide (i ≤ index e) && decide (index e < u64Max)) := by
    refine List.filter_congr fun e _ => ?_
    have hmax : ¬ index e < u64Max ↔ index e = u64Max := by
      rw [not_lt]
      exact ⟨fun h => le_antisymm (le_u64Max _) h, fun h => h.ge⟩
    rw [Bool.eq_iff_iff]
    simp only [Bool.or_eq_true, decide_eq_true_eq, Bool.not_eq_true', Bool.and_eq_false_iff,
      decide_eq_false_iff_not, not_le, hmax]
  rw [heq]
  exact h.eraseRange i u64Max

/-- The range delete of `purge` leaves the entries above `i`, if `i + 1` does not overflow. -/
theorem Holds.eraseUpTo {m : SortedMap Bytes Bytes} {es : List E} (h : Holds m es) {i : UInt64}
    (hi : i < u64Max) :
    Holds (m.eraseRange (idToBin 0) (idToBin (i + 1))) (es.filter fun e => i < index e) := by
  have h0 : ∀ e : E, (0 : UInt64) ≤ index e := fun e => UInt64.le_iff_toNat_le.2 (Nat.zero_le _)
  have heq : (es.filter fun e => i < index e) =
      es.filter fun e => !(decide (0 ≤ index e) && decide (index e < i + 1)) :=
    List.filter_congr fun e _ => by rw [Bool.eq_iff_iff]; simp [h0, lt_add_one_iff hi]
  rw [heq]
  exact h.eraseRange 0 (i + 1)

/-! ### The reader -/

variable [LawfulSerde E]

/-- What the column holds is determined. -/
theorem holds_unique {m : SortedMap Bytes Bytes} {es es' : List E}
    (h : Holds m es) (h' : Holds m es') : es = es' := by
  refine List.right_unique_forall₂' (R := Stored) (fun b e e' he he' => ?_) h h'
  have hread := LawfulSerde.fromSlice_toVec he.2
  rw [LawfulSerde.fromSlice_toVec he'.2] at hread
  exact (Except.ok.inj hread).symm

/-- The loop of the reader stops at the first index outside the range. -/
theorem readEntries_eq (range : RangeBounds) {it : List (Bytes × Bytes)} {es : List E}
    (h : List.Forall₂ Stored it es) (res : List E) :
    readEntries range it res = .ok (res ++ es.takeWhile fun e => range.contains (index e)) := by
  induction h generalizing res with
  | nil => simp [readEntries]
  | @cons b e it es hb _ ih =>
    obtain ⟨id, val⟩ := b
    obtain ⟨hid, hval⟩ := hb
    simp only at hid hval
    subst hid
    have hread : (Serde.fromSlice val : Except String E) = .ok e :=
      LawfulSerde.fromSlice_toVec hval
    by_cases hc : range.contains (index e) = true
    · rw [List.takeWhile_cons_of_pos (p := fun e => range.contains (index e)) hc]
      simp only [readEntries, binToId_idToBin, hread, mapIo_ok, bind, Except.bind, hc,
        Bool.true_eq_false, if_false, if_true]
      rw [ih (res ++ [e]), List.append_assoc, List.singleton_append]
    · rw [List.takeWhile_cons_of_neg (p := fun e => range.contains (index e)) hc]
      simp only [readEntries, binToId_idToBin, bind, Except.bind, pure, Except.pure]
      rw [if_pos (by simpa using hc), List.append_nil]

variable [BuildProfile]

/-- The reader can compute its start key: with overflow checks on, the start bound is not
`Excluded(u64::MAX)`. -/
def RangeBounds.Seekable (range : RangeBounds) : Prop :=
  BuildProfile.overflowChecks = true → range.startBound ≠ .excluded u64Max

/-- Nothing in the range is below the start key, and from the start key on the range is downward
closed. Without overflow checks `Excluded(u64::MAX)` wraps to the key of `0`, but then no index is
in the range. -/
theorem seekKey_spec {range : RangeBounds} (hr : RangeBounds.Seekable range) :
    ∃ y, seekKey range = .ok (idToBin y) ∧ (∀ id, range.contains id = true → y ≤ id) ∧
      ∀ a b, y ≤ a → a < b → range.contains b = true → range.contains a = true := by
  have down : ∀ {a b : UInt64}, a < b → range.endBound.beforeEnd b = true →
      range.endBound.beforeEnd a = true := by
    intro a b hab hb
    cases he : range.endBound with
    | included e => rw [he] at hb; simp [Bound.beforeEnd] at hb ⊢; exact hab.le.trans hb
    | excluded e => rw [he] at hb; simp [Bound.beforeEnd] at hb ⊢; exact hab.trans hb
    | unbounded => rfl
  cases hs : range.startBound with
  | included x =>
    refine ⟨x, by simp [seekKey, hs], fun id hid => ?_, fun a b ha hab hb => ?_⟩
    · simp [RangeBounds.contains, hs, Bound.afterStart] at hid
      exact hid.1
    · simp only [RangeBounds.contains, hs, Bound.afterStart, Bool.and_eq_true,
        decide_eq_true_eq] at hb ⊢
      exact ⟨ha, down hab hb.2⟩
  | excluded x =>
    by_cases hx : x < u64Max
    · refine ⟨x + 1, by simp [seekKey, hs, addOne_of_lt hx], fun id hid => ?_,
        fun a b ha hab hb => ?_⟩
      · simp [RangeBounds.contains, hs, Bound.afterStart] at hid
        exact not_lt.1 fun hlt => not_le.2 hid.1 ((lt_add_one_iff hx).1 hlt)
      · have hxa : x < a := not_le.1 fun hle => not_lt.2 ha ((lt_add_one_iff hx).2 hle)
        simp only [RangeBounds.contains, hs, Bound.afterStart, Bool.and_eq_true,
          decide_eq_true_eq] at hb ⊢
        exact ⟨hxa, down hab hb.2⟩
    · have hmax : x = u64Max := le_antisymm (le_u64Max x) (not_lt.1 hx)
      have hoff : BuildProfile.overflowChecks ≠ true := fun hon => hr hon (hmax ▸ hs)
      have hnone : ∀ id, range.contains id = true → False := by
        intro id hid
        simp [RangeBounds.contains, hs, Bound.afterStart] at hid
        exact hx (hid.1.trans_le (le_u64Max id))
      refine ⟨x + 1, ?_, fun id hid => (hnone id hid).elim, fun a b _ _ hb => (hnone b hb).elim⟩
      simp [seekKey, hs, addOne, hoff]
  | unbounded =>
    refine ⟨0, by simp [seekKey, hs], fun id _ => ?_, fun a b _ hab hb => ?_⟩
    · exact UInt64.le_iff_toNat_le.2 (Nat.zero_le _)
    · simp only [RangeBounds.contains, hs, Bound.afterStart, Bool.true_and] at hb ⊢
      exact down hab hb

/-- **The reader returns exactly the entries whose index lies in the range, in order.** -/
theorem tryGetLogEntries_of_holds {db : Db} {es : List E} (h : Holds (db .logs) es)
    {range : RangeBounds} (hr : RangeBounds.Seekable range) :
    tryGetLogEntries db range = .ok (es.filter fun e => range.contains (index e)) := by
  obtain ⟨y, hy, hlow, hdown⟩ := seekKey_spec hr
  have hseek : List.Forall₂ Stored ((db .logs).seek (idToBin y))
      (es.filter fun e => !decide (index e < y)) := by
    rw [SortedMap.seek_eq_filter]
    refine List.rel_filter (R := Stored) (fun b e hb => ?_) h
    simp only [hb.1, idToBin_lt_iff]
  have hprefix : (es.filter fun e => !decide (index e < y)).Pairwise fun a b =>
      range.contains (index b) = true → range.contains (index a) = true := by
    have hasc := h.ascending.filter fun e => !decide (index e < y)
    refine hasc.imp_of_mem fun {a b} ha _ hab hb => hdown _ _ ?_ hab hb
    simpa using (List.mem_filter.1 ha).2
  simp only [tryGetLogEntries, hy, bind, Except.bind]
  rw [readEntries_eq range hseek [], List.nil_append,
    List.takeWhile_eq_filter_of_pairwise hprefix, List.filter_filter]
  congr 1
  refine List.filter_congr fun e _ => ?_
  cases hc : range.contains (index e) with
  | false => rfl
  | true => simpa using hlow _ hc

/-! ### The log state -/

omit [LawfulSerde E] [BuildProfile] in
theorem getLast?_of_stored {l : List (Bytes × Bytes)} {es : List E}
    (h : List.Forall₂ Stored l es) :
    (l.getLast? = none ∧ es.getLast? = none) ∨
      ∃ b e, l.getLast? = some b ∧ es.getLast? = some e ∧ Stored b e := by
  induction h with
  | nil => exact Or.inl ⟨rfl, rfl⟩
  | @cons b e l es hb _ ih =>
    right
    rw [List.getLast?_cons, List.getLast?_cons]
    rcases ih with ⟨hl, hes⟩ | ⟨b', e', hl, hes, hb'⟩
    · exact ⟨b, e, by simp [hl], by simp [hes], hb⟩
    · exact ⟨b', e', by simp [hl], by simp [hes], hb'⟩

omit [BuildProfile] in
/-- The log state: the last entry's log id, or the last purged one when the column is empty. -/
theorem getLogState_of_holds [Serde LogId] {db : Db} {es : List E} (h : Holds (db .logs) es)
    {lp : Option LogId} (hlp : getMeta db .lastPurged = .ok lp) :
    getLogState E db = .ok ⟨lp, (es.getLast?.map logId).or lp⟩ := by
  rcases getLast?_of_stored h with ⟨hlast, hes⟩ | ⟨b, e, hlast, he, hb⟩
  · simp [getLogState, SortedMap.last?, hlast, hes, hlp, bind, Except.bind, pure, Except.pure]
  · obtain ⟨k, v⟩ := b
    have hread : (Serde.fromSlice v : Except String E) = .ok e :=
      LawfulSerde.fromSlice_toVec hb.2
    simp [getLogState, SortedMap.last?, hlast, hlp, he, hread, bind, Except.bind, pure, Except.pure]

end RocksLogStore
end RaftService
