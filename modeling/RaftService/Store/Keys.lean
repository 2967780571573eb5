import RaftService.Store.Contents

/-!
# The keys of the log column

`idToBin` embeds the order of the indexes into the bytewise order of the eight-byte keys
(`idEmbedding`), and reaches every key of eight bytes (`exists_idToBin_eq`). So a column with such
keys is the image of a map from indexes to values, and a scan or a range delete between encoded
bounds is the same operation on the indexes.
-/

namespace RaftService
namespace RocksLogStore

/-- `idToBin` as an embedding of orders. -/
def idEmbedding : UInt64 ↪o Bytes := OrderEmbedding.ofMapLEIff idToBin fun _ _ => idToBin_le_iff

@[simp] theorem idEmbedding_apply (id : UInt64) : idEmbedding id = idToBin id := rfl

/-- Every key of eight bytes is the key of the index that `binToId` reads. -/
theorem exists_idToBin_eq {k : Bytes} (hk : k.length = 8) :
    ∃ id, binToId k = .ok id ∧ idToBin id = k := by
  have hlt : BigEndian.value k < 2 ^ 64 := by
    have := BigEndian.value_lt k
    rw [hk] at this
    exact this
  refine ⟨UInt64.ofNat (BigEndian.value k), ?_, ?_⟩
  · rw [binToId, if_neg (by omega), List.take_of_length_le hk.le]
  · rw [idToBin, UInt64.toNat_ofNat_of_lt' hlt, ← hk, BigEndian.digits_value]

/-- A column whose keys have eight bytes is the image of a map of indexes. -/
theorem exists_eq_mapKeys {column : SortedMap Bytes Bytes}
    (h : ∀ k ∈ column.keys, k.length = 8) :
    ∃ log : SortedMap UInt64 Bytes, column = log.mapKeys idEmbedding := by
  refine SortedMap.exists_eq_mapKeys fun k hk => ?_
  obtain ⟨id, -, hid⟩ := exists_idToBin_eq (h k hk)
  exact ⟨id, hid⟩

/-- The column of a log is such a column. -/
theorem Holds.length_key {E : Type} [RaftEntry E] [Serde E] {column : SortedMap Bytes Bytes}
    {es : List E} (h : Holds column es) : ∀ k ∈ column.keys, k.length = 8 := by
  intro k hk
  have hkeys : column.keys = es.map fun e => idToBin (RaftEntry.index e) := keys_of_stored h
  rw [hkeys] at hk
  obtain ⟨e, -, rfl⟩ := List.mem_map.1 hk
  exact length_idToBin _

/-- **The key encoding is an order embedding**, onto the keys of eight bytes: both conversions undo
each other, and the keys are ordered bytewise as the indexes are numerically. Hence in every column
with keys of eight bytes, which is a map of indexes with its keys encoded, iteration from the key
of `s` visits exactly the bindings of the indexes from `s` on, the last binding is that of the
greatest index, and a range delete between two encoded bounds leaves exactly the bindings of the
indexes outside the range. -/
theorem idToBin_orderEmbedding :
    (∀ a : UInt64, (idToBin a).length = 8 ∧ binToId (idToBin a) = .ok a) ∧
    (∀ k : Bytes, k.length = 8 → ∃ a, binToId k = .ok a ∧ idToBin a = k) ∧
    (∀ a b : UInt64, (idToBin a < idToBin b ↔ a < b) ∧ (idToBin a = idToBin b ↔ a = b)) ∧
    ∀ column : SortedMap Bytes Bytes, (∀ k ∈ column.keys, k.length = 8) →
      ∃ log : SortedMap UInt64 Bytes,
        column.toList = log.toList.map (Prod.map idToBin id) ∧
        (∀ s, column.seek (idToBin s) =
          (log.toList.filter fun b => s ≤ b.1).map (Prod.map idToBin id)) ∧
        (∀ b, column.last? = some b ↔ ∃ a ∈ log.toList, (∀ c ∈ log.toList, c.1 ≤ a.1) ∧
          b = (idToBin a.1, a.2)) ∧
        ∀ lo hi, (column.eraseRange (idToBin lo) (idToBin hi)).toList =
          (log.toList.filter fun b => ¬ (lo ≤ b.1 ∧ b.1 < hi)).map (Prod.map idToBin id) := by
  refine ⟨fun a => ⟨length_idToBin a, binToId_idToBin a⟩, fun k hk => exists_idToBin_eq hk,
    fun a b => ⟨idToBin_lt_iff, idToBin_inj⟩, fun column hcolumn => ?_⟩
  obtain ⟨log, rfl⟩ := exists_eq_mapKeys hcolumn
  refine ⟨log, rfl, fun s => ?_, fun b => ?_, fun lo hi => ?_⟩
  · rw [← idEmbedding_apply, SortedMap.seek_mapKeys, SortedMap.seek_eq_filter]
    refine congrArg _ (List.filter_congr fun b _ => ?_)
    rw [Bool.eq_iff_iff]
    simp
  · rw [SortedMap.last?_mapKeys, Option.map_eq_some_iff]
    constructor
    · rintro ⟨a, ha, rfl⟩
      obtain ⟨hmem, hmax⟩ := SortedMap.last?_eq_some_iff.1 ha
      exact ⟨a, hmem, hmax, rfl⟩
    · rintro ⟨a, hmem, hmax, rfl⟩
      exact ⟨a, SortedMap.last?_eq_some_iff.2 ⟨hmem, hmax⟩, rfl⟩
  · rw [← idEmbedding_apply, ← idEmbedding_apply, SortedMap.eraseRange_mapKeys,
      SortedMap.toList_mapKeys, SortedMap.toList_eraseRange]
    refine congrArg _ (List.filter_congr fun b _ => ?_)
    rw [Bool.eq_iff_iff]
    simp

end RocksLogStore
end RaftService
