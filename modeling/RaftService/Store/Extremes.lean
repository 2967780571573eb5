import RaftService.Store.Refinement

/-!
# Index arithmetic at the ends of `u64`

`truncate`, `purge` and a read that starts after an index turn their bound into a half-open range
of keys: `truncate` ends at `u64::MAX`, which the range then leaves out, and the other two add one
to the index. Here the column may hold entries at any indexes, with gaps or without.

`exactAt_iff`: the three are exact for an index below `u64::MAX` on a column without an entry at
`u64::MAX`, and only there.
-/

namespace RaftService

open RaftEntry (index)

namespace RocksLogStore

/-- `i + 1` is computed without an overflow. -/
def AddsExactly (i : UInt64) : Prop := (i + 1).toNat = i.toNat + 1

theorem addsExactly_iff {i : UInt64} : AddsExactly i ↔ i < u64Max := by
  constructor
  · intro h
    by_contra hlt
    have hi : i = u64Max := le_antisymm (le_u64Max i) (not_lt.1 hlt)
    rw [hi] at h
    exact absurd h (by unfold AddsExactly; decide)
  · intro h
    exact toNat_add_one h

variable {E : Type} [RaftEntry E] [Serde E]

section Exact

variable [BuildProfile] [Serde LogId]

/-- On a column that holds `es`, `truncate` leaves exactly the entries below the index, `purge`
exactly those above, a read that starts after the index returns exactly the entries above it up to
the end bound, and no addition overflows. -/
structure ExactAt (db : Db) (es : List E) (id : LogId) : Prop where
  truncate : (RocksLogStore.truncate id).result = .ok () ∧
    Holds ((RocksLogStore.truncate id).run db .logs) (es.filter fun e => index e < id.index)
  purge : (RocksLogStore.purge id).result = .ok () ∧
    Holds ((RocksLogStore.purge id).run db .logs) (es.filter fun e => id.index < index e)
  read : ∀ endBound, tryGetLogEntries db ⟨.excluded id.index, endBound⟩ =
    .ok (es.filter fun e => decide (id.index < index e) && endBound.beforeEnd (index e))
  addsExactly : AddsExactly id.index

end Exact

/-! ### Truncating -/

theorem truncate_run (db : Db) (id : LogId) :
    (truncate id).run db .logs = (db .logs).eraseRange (idToBin id.index) (idToBin u64Max) := by
  have hrun : (truncate id).run db =
      db.write (.deleteRange .logs (idToBin id.index) (idToBin u64Max)) := rfl
  rw [hrun, Db.write_deleteRange_self]

/-- `truncate` leaves an entry at `u64::MAX`, whatever the index, and otherwise exactly the entries
below the index. -/
theorem truncate_exact_iff [LawfulSerde E] {db : Db} {es : List E} (h : Holds (db .logs) es)
    (id : LogId) :
    Holds ((truncate id).run db .logs) (es.filter fun e => index e < id.index) ↔
      ∀ e ∈ es, index e < u64Max := by
  rw [truncate_run]
  have hleft := h.eraseFrom id.index
  constructor
  · intro hexact e he
    by_contra hlt
    have hmax : index e = u64Max := le_antisymm (le_u64Max _) (not_lt.1 hlt)
    have hmem : e ∈ es.filter fun e => index e < id.index := by
      rw [← holds_unique hleft hexact, List.mem_filter]
      exact ⟨he, by simp [hmax]⟩
    have hbelow := (List.mem_filter.1 hmem).2
    rw [hmax, decide_eq_true_eq] at hbelow
    exact absurd (le_u64Max id.index) (not_le.2 hbelow)
  · intro hmax
    have heq : (es.filter fun e => index e < id.index) =
        es.filter fun e => decide (index e < id.index) || decide (index e = u64Max) :=
      List.filter_congr fun e he => by simp [(hmax e he).ne]
    rw [heq]
    exact hleft

/-! ### Purging -/

variable [BuildProfile]

theorem purge_exact [Serde LogId] {db : Db} {es : List E} (h : Holds (db .logs) es) {id : LogId}
    (hser : Serializes id) (hid : id.index < u64Max) :
    (purge id).result = .ok () ∧
      Holds ((purge id).run db .logs) (es.filter fun e => id.index < index e) := by
  have hrun : (purge id).run db =
      (db.write (.put .metadata StoreMeta.lastPurged.key (bytesOf id))).write
        (.deleteRange .logs (idToBin 0) (idToBin (id.index + 1))) := by
    rw [purge_io hser hid]
    rfl
  constructor
  · rw [purge_io hser hid]
  · rw [hrun, Db.write_deleteRange_self, Db.write_put_of_ne db (by decide)]
    exact h.eraseUpTo hid

/-! ### Reading -/

theorem read_exact [LawfulSerde E] {db : Db} {es : List E} (h : Holds (db .logs) es) {i : UInt64}
    (hi : i < u64Max) (endBound : Bound) :
    tryGetLogEntries db ⟨.excluded i, endBound⟩ =
      .ok (es.filter fun e => decide (i < index e) && endBound.beforeEnd (index e)) := by
  have hseek : RangeBounds.Seekable ⟨.excluded i, endBound⟩ := by
    rintro - hmax
    exact hi.ne (Bound.excluded.inj hmax)
  exact tryGetLogEntries_of_holds h hseek

/-- **The index arithmetic is exact below `u64::MAX`, and only there**: the index has to be below
it, and no entry may stand at it. -/
theorem exactAt_iff [LawfulSerde E] [Serde LogId] {db : Db} {es : List E} (h : Holds (db .logs) es)
    {id : LogId} (hser : Serializes id) :
    ExactAt db es id ↔ id.index < u64Max ∧ ∀ e ∈ es, index e < u64Max := by
  constructor
  · intro hexact
    exact ⟨addsExactly_iff.1 hexact.addsExactly, (truncate_exact_iff h id).1 hexact.truncate.2⟩
  · rintro ⟨hid, hmax⟩
    exact
      { truncate := ⟨rfl, (truncate_exact_iff h id).2 hmax⟩
        purge := purge_exact h hser hid
        read := read_exact h hid
        addsExactly := addsExactly_iff.2 hid }

end RocksLogStore

/-! ### The log of the counter, and the last index of all -/

namespace RocksLogStore

section Counter

open scoped Counter

/-- The database after the log of the counter has been appended. -/
def counterDb : Db := (Counter.entries.map putOf).foldl Db.write Db.empty

theorem holds_counterDb : Holds (counterDb .logs) Counter.entries := by
  have hser : ∀ e ∈ Counter.entries, Serializes e := fun e he => exists_toVecIn he
  have hasc : Counter.entries.Pairwise fun a b => index a < index b := by decide +kernel
  exact holds_foldl_putOf_empty hser hasc

/-- On the log of the counter, everything is exact at the second entry. -/
theorem exactAt_counterDb : ExactAt counterDb Counter.entries ⟨1, 1⟩ := by
  refine (exactAt_iff holds_counterDb (exists_toVecIn (by decide))).2 ?_
  decide +kernel

end Counter

/-- The entry with the last index of all. -/
def lastEntry : Pb.Entry := ⟨1, u64Max, none, none⟩

namespace LastEntry

scoped instance : Serde Pb.Entry :=
  Serde.ofTable [(lastEntry, ascii ("\x7b\"term\":1,\"index\":18446744073709551615," ++
    "\"app_data\":null,\"membership\":null\x7d"))]
scoped instance : Serde LogId :=
  Serde.ofTable [(⟨1, u64Max⟩, ascii "\x7b\"leader_id\":1,\"index\":18446744073709551615\x7d")]
scoped instance : BuildProfile := ⟨true⟩

end LastEntry

section LastEntry

open scoped LastEntry

/-- The database that holds it. -/
def lastDb : Db := Db.empty.write (putOf lastEntry)

theorem holds_lastDb : Holds (lastDb .logs) [lastEntry] := by
  unfold lastDb putOf
  rw [Db.write_put_self]
  show Holds _ ([] ++ [lastEntry])
  exact holds_empty.insert_last (Serializes.toVec_eq (exists_toVecIn (by decide))) (by simp)

/-- `truncate` from the start leaves this entry, though it is above the index, and `purge` up to it
panics on the addition and leaves it, too. -/
theorem not_exactAt_lastDb :
    Holds (lastDb .logs) [lastEntry] ∧
      ¬ ExactAt lastDb [lastEntry] ⟨1, 0⟩ ∧
      (∃ message, (purge ⟨1, u64Max⟩).result = .error (.panic message)) ∧
      ¬ ExactAt lastDb [lastEntry] ⟨1, u64Max⟩ := by
  refine ⟨holds_lastDb, ?_, ⟨_, rfl⟩, ?_⟩
  · rintro ⟨⟨-, h⟩, -, -, -⟩
    have hlength := List.Forall₂.length_eq h
    exact absurd hlength (by decide +kernel)
  · rintro ⟨-, ⟨h, -⟩, -, -⟩
    cases h

end LastEntry

end RocksLogStore

end RaftService
