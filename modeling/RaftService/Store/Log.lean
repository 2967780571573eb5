import RaftService.Rocks

/-!
# `RocksLogStore`

The functions of `raft/store/log.rs`. A function that writes is the list of the calls it issues
(`Io`); a function that reads takes the contents of the database. Log entries live in the column
`logs` under the eight big-endian bytes of their index, the vote and the last purged log id in the
column `meta` under a key of their own.

The store is generic in its configuration: `E` is the entry type with the accessors of `RaftEntry`,
`V` the vote type.
-/

namespace RaftService

/-- `openraft::entry::RaftEntry`, of which the store uses `log_id_parts`. -/
class RaftEntry (E : Type) where
  logIdParts : E → UInt64 × UInt64

/-- `RaftEntry::log_id` -/
def RaftEntry.logId {E : Type} [RaftEntry E] (e : E) : LogId :=
  ⟨(logIdParts e).1, (logIdParts e).2⟩

/-- `RaftEntry::index` -/
def RaftEntry.index {E : Type} [RaftEntry E] (e : E) : UInt64 := (logIdParts e).2

@[simp] theorem RaftEntry.index_logId {E : Type} [RaftEntry E] (e : E) :
    (RaftEntry.logId e).index = RaftEntry.index e := rfl

/-- `std::ops::Bound<u64>` -/
inductive Bound
  | included (x : UInt64)
  | excluded (x : UInt64)
  | unbounded
  deriving DecidableEq

/-- A value of a type implementing `RangeBounds<u64>`, given by its two bounds. -/
structure RangeBounds where
  startBound : Bound
  endBound : Bound
  deriving DecidableEq

/-- The part of `RangeBounds::contains` about the start bound. -/
def Bound.afterStart : Bound → UInt64 → Bool
  | .included s, id => s ≤ id
  | .excluded s, id => s < id
  | .unbounded, _ => true

/-- The part of `RangeBounds::contains` about the end bound. -/
def Bound.beforeEnd : Bound → UInt64 → Bool
  | .included e, id => id ≤ e
  | .excluded e, id => id < e
  | .unbounded, _ => true

/-- `RangeBounds::contains` -/
def RangeBounds.contains (range : RangeBounds) (id : UInt64) : Bool :=
  range.startBound.afterStart id && range.endBound.beforeEnd id

/-- `openraft::LogState` -/
structure LogState where
  lastPurgedLogId : Option LogId
  lastLogId : Option LogId
  deriving DecidableEq

/-- `meta::StoreMeta`: the key of a value of the column `meta`. -/
structure StoreMeta (α : Type) where
  key : Bytes

/-- `meta::LastPurged` -/
def StoreMeta.lastPurged : StoreMeta LogId := ⟨ascii "last_purged_log_id"⟩

/-- `meta::Vote` -/
def StoreMeta.vote {V : Type} : StoreMeta V := ⟨ascii "vote"⟩

/-- `u64::MAX` -/
def u64Max : UInt64 := UInt64.ofNat (UInt64.size - 1)

namespace RocksLogStore

variable {E V : Type}

/-- `id_to_bin` -/
def idToBin (id : UInt64) : Bytes := BigEndian.digits 8 id.toNat

/-- `bin_to_id`; slicing `[0..8]` panics on a shorter key. -/
def binToId (buf : Bytes) : Except Fault UInt64 :=
  if buf.length < 8 then .error (.panic "range end index 8 out of range for slice")
  else .ok (UInt64.ofNat (BigEndian.value (buf.take 8)))

/-- `read_logs_err` -/
def readLogsErr (e : String) : IoError := .other e

/-- `get_meta` -/
def getMeta {α : Type} [Serde α] (db : Db) (M : StoreMeta α) : Except Fault (Option α) :=
  match (db .metadata).get? M.key with
  | none => .ok none
  | some bytes =>
    match mapIo .invalidData (Serde.fromSlice bytes) with
    | .ok t => .ok (some t)
    | .error e => .error e

/-- `put_meta` -/
def putMeta {α : Type} [Serde α] (M : StoreMeta α) (value : α) : Io Unit := do
  let jsonValue ← Io.lift (mapIo .invalidData (Serde.toVec value))
  Io.putCf .metadata M.key jsonValue

/-- The key `try_get_log_entries` starts its iterator from. -/
def seekKey [BuildProfile] (range : RangeBounds) : Except Fault Bytes :=
  match range.startBound with
  | .included x => .ok (idToBin x)
  | .excluded x =>
    match addOne x with
    | .ok y => .ok (idToBin y)
    | .error e => .error e
  | .unbounded => .ok (idToBin 0)

section Entries

variable [RaftEntry E] [Serde E]

/-- The loop of `try_get_log_entries` over the iterator, with the entries read so far. -/
def readEntries (range : RangeBounds) : List (Bytes × Bytes) → List E → Except Fault (List E)
  | [], res => .ok res
  | (id, val) :: it, res => do
    let id ← binToId id
    if range.contains id = false then
      pure res
    else
      let entry : E ← mapIo readLogsErr (Serde.fromSlice val)
      if id = RaftEntry.index entry then
        readEntries range it (res ++ [entry])
      else
        .error (.panic "assertion `left == right` failed")

/-- `try_get_log_entries` -/
def tryGetLogEntries [BuildProfile] (db : Db) (range : RangeBounds) : Except Fault (List E) := do
  let start ← seekKey range
  readEntries range ((db .logs).seek start) []

/-- `get_log_state` -/
def getLogState (E : Type) [RaftEntry E] [Serde E] [Serde LogId] (db : Db) :
    Except Fault LogState := do
  let lastLogId ←
    match (db .logs).last? with
    | none => pure none
    | some (_, entryBytes) => do
      let ent : E ← mapIo readLogsErr (Serde.fromSlice entryBytes)
      pure (some (RaftEntry.logId ent))
  let lastPurgedLogId ← getMeta db .lastPurged
  let lastLogId :=
    match lastLogId with
    | none => lastPurgedLogId
    | some x => some x
  pure ⟨lastPurgedLogId, lastLogId⟩

/-- The body of the loop of `append`. -/
def putEntry (entry : E) : Io Unit := do
  let value ← Io.lift (mapIo .invalidData (Serde.toVec entry))
  Io.putCf .logs (idToBin (RaftEntry.index entry)) value

/-- `append` -/
def append (entries : List E) : Io Unit := do
  entries.forM putEntry
  Io.spawnFlush

end Entries

/-- `read_vote` -/
def readVote [Serde V] (db : Db) : Except Fault (Option V) := getMeta db .vote

/-- `save_vote` -/
def saveVote [Serde V] (vote : V) : Io Unit := do
  putMeta .vote vote
  Io.flushWal

/-- `truncate` -/
def truncate (logId : LogId) : Io Unit :=
  Io.deleteRangeCf .logs (idToBin logId.index) (idToBin u64Max)

/-- `purge` -/
def purge [BuildProfile] [Serde LogId] (logId : LogId) : Io Unit := do
  putMeta .lastPurged logId
  let upTo ← Io.lift (addOne logId.index)
  Io.deleteRangeCf .logs (idToBin 0) (idToBin upTo)

/-! ### Keys -/

theorem toNat_lt_pow (x : UInt64) : x.toNat < 256 ^ 8 := x.toNat_lt

@[simp] theorem length_idToBin (x : UInt64) : (idToBin x).length = 8 := BigEndian.length_digits 8 _

theorem idToBin_lt_iff {x y : UInt64} : idToBin x < idToBin y ↔ x < y := by
  rw [idToBin, idToBin, BigEndian.digits_lt_digits_iff (toNat_lt_pow x) (toNat_lt_pow y),
    UInt64.lt_iff_toNat_lt]

theorem idToBin_le_iff {x y : UInt64} : idToBin x ≤ idToBin y ↔ x ≤ y := by
  rw [← not_lt, idToBin_lt_iff, not_lt]

theorem idToBin_inj {x y : UInt64} : idToBin x = idToBin y ↔ x = y := by
  rw [le_antisymm_iff, idToBin_le_iff, idToBin_le_iff, le_antisymm_iff]

@[simp] theorem binToId_idToBin (x : UInt64) : binToId (idToBin x) = .ok x := by
  rw [binToId, if_neg (by rw [length_idToBin]; omega), List.take_of_length_le (by simp), idToBin,
    BigEndian.value_digits (toNat_lt_pow x), UInt64.ofNat_toNat]

theorem toNat_u64Max : u64Max.toNat = 2 ^ 64 - 1 := rfl

theorem le_u64Max (x : UInt64) : x ≤ u64Max := by
  have := x.toNat_lt
  rw [UInt64.le_iff_toNat_le, toNat_u64Max]
  omega

/-- Below `u64::MAX` the increment does not overflow, in either profile. -/
theorem addOne_of_lt [BuildProfile] {x : UInt64} (h : x < u64Max) : addOne x = .ok (x + 1) :=
  if_neg fun hx => (ne_of_lt h) hx.2

theorem toNat_add_one {x : UInt64} (h : x < u64Max) : (x + 1).toNat = x.toNat + 1 := by
  rw [UInt64.lt_iff_toNat_lt, toNat_u64Max] at h
  rw [UInt64.toNat_add]
  show (x.toNat + 1) % 2 ^ 64 = x.toNat + 1
  omega

theorem lt_add_one_iff {x y : UInt64} (h : x < u64Max) : y < x + 1 ↔ y ≤ x := by
  rw [UInt64.lt_iff_toNat_lt, toNat_add_one h, UInt64.le_iff_toNat_le]
  omega

end RocksLogStore

end RaftService
