import RaftService.StateMachine.ReferenceLog

/-!
# A counter on one node

Values for what the development is generic in, so that a run can be computed:

* `Serde.ofTable`: the codec of a table of values and their JSON, which obeys the laws of
  `serde_json` when no two values share their JSON;
* `Openraft.checked`: a `Membership::new` that checks what it is given;
* `counter`: an application that adds up the numbers it is sent;
* `counterLog`: the first entries of a cluster of one node.

The instances are scoped to the namespace `Counter`: no other module sees them unless it opens it.
-/

namespace RaftService

/-! ### Codecs -/

/-- Look up the text of a value. -/
def toVecIn {α : Type} [DecidableEq α] (table : List (α × Bytes)) (a : α) : Except String Bytes :=
  match table.find? fun row => row.1 = a with
  | some row => .ok row.2
  | none => .error "not in the table"

/-- Look up the value of a text. -/
def fromSliceIn {α : Type} (table : List (α × Bytes)) (b : Bytes) : Except String α :=
  match table.find? fun row => row.2 = b with
  | some row => .ok row.1
  | none => .error "not in the table"

/-- The codec of a table of values and their JSON; any other value or text is an error. -/
@[reducible] def Serde.ofTable {α : Type} [DecidableEq α] (table : List (α × Bytes)) : Serde α :=
  ⟨toVecIn table, fromSliceIn table⟩

variable {α : Type} [DecidableEq α] {table : List (α × Bytes)}

theorem fromSliceIn_toVecIn (h : (table.map Prod.snd).Nodup) {a : α} {b : Bytes}
    (hvec : toVecIn table a = .ok b) : fromSliceIn table b = .ok a := by
  rw [toVecIn] at hvec
  split at hvec
  · next row hrow =>
    cases hvec
    obtain rfl : row.1 = a := by simpa using List.find?_some hrow
    have hmem := List.mem_of_find?_eq_some hrow
    rw [fromSliceIn]
    cases hfind : table.find? fun row' => row'.2 = row.2 with
    | none => exact absurd (List.find?_eq_none.1 hfind row hmem) (by simp)
    | some row' =>
      have hsnd : row'.2 = row.2 := by simpa using List.find?_some hfind
      rw [List.inj_on_of_nodup_map h (List.mem_of_find?_eq_some hfind) hmem hsnd]
  · cases hvec

/-- The codec of a table is lawful when the texts differ. -/
theorem LawfulSerde.ofTable (h : (table.map Prod.snd).Nodup) :
    @LawfulSerde α (Serde.ofTable table) :=
  @LawfulSerde.mk α (Serde.ofTable table) (fromSliceIn_toVecIn h)

/-- What is in the table serialises. -/
theorem exists_toVecIn {a : α} (h : a ∈ table.map Prod.fst) : ∃ b, toVecIn table a = .ok b := by
  obtain ⟨row, hrow, rfl⟩ := List.mem_map.1 h
  rw [toVecIn]
  cases hfind : table.find? fun row' => row'.1 = row.1 with
  | none => exact absurd (List.find?_eq_none.1 hfind row hrow) (by simp)
  | some row' => exact ⟨row'.2, rfl⟩

/-! ### Memberships -/

/-- `Membership::new` with the check of openraft. -/
def checkedMembership (configs : List NodeSet) (nodes : SortedMap UInt64 Node) :
    Except String Membership :=
  if (Membership.mk configs nodes).Valid then .ok ⟨configs, nodes⟩
  else .error "empty config, or a voter without a node"

@[reducible] def Openraft.checked : Openraft := ⟨checkedMembership⟩

theorem LawfulOpenraft.checked : @LawfulOpenraft Openraft.checked := by
  refine @LawfulOpenraft.mk Openraft.checked (fun {configs nodes m} h => ?_)
    (fun {configs nodes e} h => ?_)
  · change checkedMembership configs nodes = .ok m at h
    rw [checkedMembership] at h
    split_ifs at h
    exact (Except.ok.inj h).symm
  · change checkedMembership configs nodes = .error e at h
    rw [checkedMembership] at h
    split_ifs at h with hvalid
    exact hvalid

/-! ### The counter -/

/-- The application: a request is added to the state, and the sum is the response. -/
def counter : ApplicationStateMachine ℕ ℕ ℕ ℕ where
  default := 0
  exportSnapshot total := .ok total
  importSnapshot total := .ok total
  apply total amount := (total + amount, .ok (total + amount))

theorem counter_roundTrips : counter.RoundTrips := by
  rintro total s h
  cases h
  rfl

namespace Counter

/-- The JSON of a number, and of a data vector with one byte for each of its digits. -/
def numbers : List (ℕ × Bytes) := [(0, ascii "0"), (5, ascii "5"), (7, ascii "7"), (12, ascii "12")]

/-- The cluster: one voter. -/
def cluster : Membership :=
  ⟨[NodeSet.ofKeys [1]], SortedMap.ofList [(1, ⟨1, "localhost:7000"⟩)]⟩

theorem cluster_valid : cluster.Valid := by decide +kernel

/-- A snapshot of the counter at an entry of term 1. -/
def snapshotAt (index : UInt64) (snapshotId : String) (data : Bytes) : StoredSnapshot :=
  ⟨⟨some ⟨1, index⟩, ⟨some ⟨1, 0⟩, cluster⟩, snapshotId⟩, data⟩

/-- The JSON of `snapshotAt`. -/
def snapshotJson (index snapshotId data : String) : Bytes :=
  ascii "\x7b\"meta\":\x7b\"last_log_id\":\x7b\"leader_id\":1,\"index\":" ++ (ascii index ++
    (ascii "\x7d,\"last_membership\":\x7b\"log_id\":\x7b\"leader_id\":1,\"index\":0\x7d," ++
    (ascii "\"membership\":\x7b\"configs\":[[1]],\"nodes\":\x7b\"1\":\x7b\"node_id\":1," ++
    (ascii "\"rpc_addr\":\"localhost:7000\"\x7d\x7d\x7d\x7d,\"snapshot_id\":\"" ++
    (ascii snapshotId ++ (ascii "\"\x7d,\"data\":" ++ (ascii data ++ ascii "\x7d")))))))

/-- The snapshots that the runs of the counter come to. -/
def snapshots : List (StoredSnapshot × Bytes) :=
  [(snapshotAt 0 "1-0-1" (ascii "5"), snapshotJson "0" "1-0-1" "[53]"),
    (snapshotAt 0 "1-0-1" (ascii "12"), snapshotJson "0" "1-0-1" "[49,50]"),
    (snapshotAt 1 "1-1-1" (ascii "5"), snapshotJson "1" "1-1-1" "[53]"),
    (snapshotAt 2 "1-2-1" (ascii "12"), snapshotJson "2" "1-2-1" "[49,50]")]

/-- The JSON of the log ids of the log. -/
def logIds : List (LogId × Bytes) :=
  [(⟨1, 0⟩, ascii "\x7b\"leader_id\":1,\"index\":0\x7d"),
    (⟨1, 1⟩, ascii "\x7b\"leader_id\":1,\"index\":1\x7d"),
    (⟨1, 2⟩, ascii "\x7b\"leader_id\":1,\"index\":2\x7d")]

/-- The entries of the log: the membership, and two requests. -/
def entries : List Pb.Entry :=
  [⟨1, 0, none, some (Membership.toPb cluster)⟩, ⟨1, 1, some (ascii "5"), none⟩,
    ⟨1, 2, some (ascii "7"), none⟩]

/-- The entries with their JSON. -/
def entryTable : List (Pb.Entry × Bytes) :=
  entries.zip
    [ascii ("\x7b\"term\":1,\"index\":0,\"app_data\":null,\"membership\":\x7b\"configs\":" ++
      "[\x7b\"node_ids\":\x7b\"1\":null\x7d\x7d],\"nodes\":\x7b\"1\":\x7b\"node_id\":1," ++
      "\"rpc_addr\":\"localhost:7000\"\x7d\x7d\x7d\x7d"),
    ascii "\x7b\"term\":1,\"index\":1,\"app_data\":[53],\"membership\":null\x7d",
    ascii "\x7b\"term\":1,\"index\":2,\"app_data\":[55],\"membership\":null\x7d"]

/-- The vote of the only node for itself. -/
def vote : Pb.Vote := ⟨some ⟨1, 1⟩, true⟩

/-- The JSON of the vote. -/
def votes : List (Pb.Vote × Bytes) :=
  [(vote, ascii "\x7b\"leader_id\":\x7b\"term\":1,\"node_id\":1\x7d,\"committed\":true\x7d")]

scoped instance : Serde ℕ := Serde.ofTable numbers
scoped instance : Serde StoredSnapshot := Serde.ofTable snapshots
scoped instance : Serde LogId := Serde.ofTable logIds
scoped instance : Serde Pb.Entry := Serde.ofTable entryTable
scoped instance : Serde Pb.Vote := Serde.ofTable votes
scoped instance : Openraft := Openraft.checked
scoped instance : BuildProfile := ⟨true⟩

scoped instance : LawfulSerde ℕ := LawfulSerde.ofTable (by decide +kernel)

/-- The snapshots differ in the index or in the data. -/
theorem snapshots_nodup : (snapshots.map Prod.snd).Nodup := by
  have hindex : ascii "0" = [48] ∧ ascii "1" = [49] ∧ ascii "2" = [50] := by decide +kernel
  have hdata : ascii "[53]" ≠ ascii "[49,50]" := by decide +kernel
  simp [snapshots, snapshotJson, hindex, hdata]

scoped instance : LawfulSerde StoredSnapshot := LawfulSerde.ofTable snapshots_nodup
scoped instance : LawfulSerde LogId := LawfulSerde.ofTable (by decide +kernel)
scoped instance : LawfulSerde Pb.Entry := LawfulSerde.ofTable (by decide +kernel)
scoped instance : LawfulSerde Pb.Vote := LawfulSerde.ofTable (by decide +kernel)
scoped instance : LawfulOpenraft := LawfulOpenraft.checked

/-- The log. -/
def log : ReferenceLog ℕ where
  proposals := [(⟨1, 0⟩, .membership cluster), (⟨1, 1⟩, .normal 5), (⟨1, 2⟩, .normal 7)]
  entries := entries
  encodes := .cons rfl (.cons rfl (.cons rfl .nil))
  ascending := by simp [LogId.lt_iff]
  valid := by simp [cluster_valid]

end Counter

end RaftService
