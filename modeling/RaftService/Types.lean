import RaftService.Lib.Order
import RaftService.Lib.SortedMap
import RaftService.Lib.BigEndian

/-!
# The data of the service

* the protobuf messages of `common.proto` and `internal.proto` that the stores and the snapshot
  transfer use (`Pb.*`); a message-typed field is an `Option`, a `map` is a `SortedMap`;
* the openraft types at this crate's `TypeConfig` (terms, node ids and indexes are `u64`, a
  committed leader id is the term);
* the errors, and `Fault`, which keeps a returned `io::Error` apart from a panic;
* what is not in this repository and enters as a parameter: `serde_json` at a type (`Serde`),
  `Membership::new` of openraft (`Openraft`), the application (`ApplicationStateMachine`), and
  the build profile, which decides what an overflowing addition does.
-/

namespace RaftService

/-! ### Protobuf messages -/

/-- `common.Node` -/
structure Node where
  nodeId : UInt64
  rpcAddr : String
  deriving DecidableEq

/-- A `BTreeSet<u64>`; in Rust, too, a set is a map to the unit type. -/
abbrev NodeSet := SortedMap UInt64 Unit

namespace Pb

/-- `common.NodeIdSet` -/
structure NodeIdSet where
  nodeIds : SortedMap UInt64 Unit
  deriving DecidableEq

/-- `common.Membership` -/
structure Membership where
  configs : List NodeIdSet
  nodes : SortedMap UInt64 Node
  deriving DecidableEq

/-- `common.LogId` -/
structure LogId where
  term : UInt64
  index : UInt64
  deriving DecidableEq

/-- `internal.LeaderId` -/
structure LeaderId where
  term : UInt64
  nodeId : UInt64
  deriving DecidableEq

/-- `internal.Vote` -/
structure Vote where
  leaderId : Option LeaderId
  committed : Bool
  deriving DecidableEq

/-- `internal.Entry` -/
structure Entry where
  term : UInt64
  index : UInt64
  appData : Option Bytes
  membership : Option Membership
  deriving DecidableEq

/-- `internal.SnapshotRequestMeta` -/
structure SnapshotRequestMeta where
  vote : Option Vote
  lastLogId : Option LogId
  lastMembershipLogId : Option LogId
  lastMembership : Option Membership
  snapshotId : String
  deriving DecidableEq

/-- The `oneof payload` of `internal.SnapshotRequest`. -/
inductive Payload
  | metadata (m : SnapshotRequestMeta)
  | chunk (data : Bytes)
  deriving DecidableEq

/-- `internal.SnapshotRequest` -/
structure SnapshotRequest where
  payload : Option Payload
  deriving DecidableEq

/-- `internal.SnapshotResponse` -/
structure SnapshotResponse where
  vote : Option Vote
  deriving DecidableEq

end Pb

/-! ### openraft types -/

/-- `openraft::LogId`: the committed leader id, here the term, and the index. -/
structure LogId where
  leaderId : UInt64
  index : UInt64

/-- The derived order: by leader id, then by index. -/
instance : LinearOrder LogId :=
  LinearOrder.lift' (fun l => toLex (l.leaderId, l.index)) fun a b h => by
    cases a; cases b; simp_all

theorem LogId.lt_iff {a b : LogId} :
    a < b ↔ a.leaderId < b.leaderId ∨ a.leaderId = b.leaderId ∧ a.index < b.index :=
  Prod.lex_def

/-- `openraft::Membership` -/
structure Membership where
  configs : List NodeSet
  nodes : SortedMap UInt64 Node
  deriving DecidableEq

/-- Every config is non-empty and every voter is among the nodes. -/
def Membership.Valid (m : Membership) : Prop :=
  ∀ c ∈ m.configs, c.keys ≠ [] ∧ ∀ k ∈ c.keys, (m.nodes.get? k).isSome = true

/-- Checked voter by voter; the instance found for a quantifier over node ids would try them all. -/
instance (m : Membership) : Decidable m.Valid :=
  have : DecidablePred fun c : NodeSet =>
      c.keys ≠ [] ∧ ∀ k ∈ c.keys, (m.nodes.get? k).isSome = true := fun c =>
    @instDecidableAnd _ _ _ (List.decidableBAll (fun k => (m.nodes.get? k).isSome = true) c.keys)
  List.decidableBAll _ m.configs

/-- `openraft::StoredMembership` -/
structure StoredMembership where
  logId : Option LogId
  membership : Membership
  deriving DecidableEq

/-- `StoredMembership::default()` -/
def StoredMembership.default : StoredMembership := ⟨none, ⟨[], SortedMap.empty⟩⟩

/-- `openraft::entry::EntryPayload` -/
inductive EntryPayload (Req : Type*)
  | blank
  | normal (data : Req)
  | membership (m : Membership)

/-- `openraft::SnapshotMeta` -/
structure SnapshotMeta where
  lastLogId : Option LogId
  lastMembership : StoredMembership
  snapshotId : String
  deriving DecidableEq

/-- `openraft::Snapshot` at `SnapshotData = Vec<u8>`. -/
structure Snapshot where
  snapshotMeta : SnapshotMeta
  snapshot : Bytes
  deriving DecidableEq

/-! ### Errors -/

/-- The `io::Error`s this crate builds: `io::Error::other`, the kind `InvalidData`, and
`StorageError::apply` converted by `?`. -/
inductive IoError
  | other (message : String)
  | invalidData (message : String)
  | apply (logId : LogId) (message : String)
  deriving DecidableEq

/-- How a function ends without a value: it returns an `io::Error`, or it panics. -/
inductive Fault
  | io (e : IoError)
  | panic (message : String)
  deriving DecidableEq

/-- `Result::map_err` into an `io::Error`. -/
def mapIo {α : Type*} (f : String → IoError) : Except String α → Except Fault α
  | .ok a => .ok a
  | .error e => .error (.io (f e))

/-- `Result::unwrap` -/
def unwrap {α : Type*} : Except String α → Except Fault α
  | .ok a => .ok a
  | .error e => .error (.panic ("called `Result::unwrap()` on an `Err` value: " ++ e))

@[simp] theorem mapIo_ok {α : Type*} (f : String → IoError) (a : α) :
    mapIo f (.ok a) = .ok a := rfl

@[simp] theorem unwrap_ok {α : Type*} (a : α) : unwrap (.ok a) = .ok a := rfl

/-! ### Parameters -/

/-- `serde_json` at a type: `to_vec` and `from_slice`, with the text of their errors. -/
class Serde (α : Type*) where
  toVec : α → Except String Bytes
  fromSlice : Bytes → Except String α

/-- What `to_vec` writes, `from_slice` reads back. -/
class LawfulSerde (α : Type*) [Serde α] : Prop where
  fromSlice_toVec : ∀ {a : α} {b : Bytes}, Serde.toVec a = .ok b → Serde.fromSlice b = .ok a

/-- The value can be written as JSON. -/
def Serializes {α : Type} [Serde α] (a : α) : Prop := ∃ b, Serde.toVec a = .ok b

/-- The JSON of a value; no bytes when it has none. -/
def bytesOf {α : Type} [Serde α] (a : α) : Bytes :=
  match Serde.toVec a with
  | .ok b => b
  | .error _ => []

theorem Serializes.toVec_eq {α : Type} [Serde α] {a : α} (h : Serializes a) :
    Serde.toVec a = .ok (bytesOf a) := by
  obtain ⟨b, hb⟩ := h
  simp [bytesOf, hb]

/-- `openraft::Membership::new`, with the text of its error. -/
class Openraft where
  membershipNew : List NodeSet → SortedMap UInt64 Node → Except String Membership

/-- `Membership::new` stores what it is given, and refuses only an empty config or a voter
without a node. -/
class LawfulOpenraft [Openraft] : Prop where
  stores : ∀ {configs nodes m}, Openraft.membershipNew configs nodes = .ok m → m = ⟨configs, nodes⟩
  err_only : ∀ {configs nodes e}, Openraft.membershipNew configs nodes = .error e →
    ¬ (Membership.mk configs nodes).Valid

/-- The trait `ApplicationStateMachine` with the types of its `ApplicationConfig`. A failing
`apply` may have changed the state. -/
structure ApplicationStateMachine (σ Req Resp Snap : Type) where
  default : σ
  exportSnapshot : σ → Except String Snap
  importSnapshot : Snap → Except String σ
  apply : σ → Req → σ × Except String Resp

/-- `import` undoes `export`. -/
def ApplicationStateMachine.RoundTrips {σ Req Resp Snap : Type}
    (A : ApplicationStateMachine σ Req Resp Snap) : Prop :=
  ∀ x s, A.exportSnapshot x = .ok s → A.importSnapshot s = .ok x

/-- The profile the crate is compiled with: overflow checks on (debug) or off (release). -/
class BuildProfile where
  overflowChecks : Bool

/-- `x + 1` at `u64`. -/
def addOne [BuildProfile] (x : UInt64) : Except Fault UInt64 :=
  if BuildProfile.overflowChecks = true ∧ x = UInt64.ofNat (UInt64.size - 1) then
    .error (.panic "attempt to add with overflow")
  else .ok (x + 1)

end RaftService
