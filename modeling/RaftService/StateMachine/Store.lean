import RaftService.Conversions

/-!
# `StateMachineStore`

The functions of `raft/state_machine/{store,data,snapshot}.rs`. The fields of the store are
copied by `clone`, except `application_data` and `db`, which are behind an `Arc`: a snapshot
builder is a clone, so it has its own last applied log id and membership but reads the
application data of the store it was taken from (`SnapshotBuilder`, `buildSnapshot`).

A call may fail after it has changed the store, so `applyEntry`, `apply`, `updateStateMachine_`
and `installSnapshot` return what they leave in memory together with how they end.
-/

namespace RaftService

/-- `StoredSnapshot` -/
structure StoredSnapshot where
  snapshotMeta : SnapshotMeta
  data : Bytes
  deriving DecidableEq

/-- `StateMachineData` -/
structure StateMachineData (σ : Type) where
  lastAppliedLog : Option LogId
  lastMembership : StoredMembership
  applicationData : σ
  deriving DecidableEq

/-- `StateMachineStore`, whose `db` is passed to the functions that use it. -/
structure StateMachineStore (σ : Type) where
  stateMachine : StateMachineData σ
  snapshotIdx : UInt64
  deriving DecidableEq

/-- A clone of the store: the fields `clone` copies. -/
structure SnapshotBuilder where
  lastAppliedLog : Option LogId
  lastMembership : StoredMembership
  snapshotIdx : UInt64
  deriving DecidableEq

/-- `StateMachineData::clone` and `StateMachineStore::clone` -/
def StateMachineStore.clone {σ : Type} (s : StateMachineStore σ) : SnapshotBuilder :=
  ⟨s.stateMachine.lastAppliedLog, s.stateMachine.lastMembership, s.snapshotIdx⟩

/-- What `apply` leaves: the store, the responses sent, in order, and how it ends. -/
structure Applied (σ ρ Resp : Type) where
  stateMachine : StateMachineData σ
  sent : List (ρ × Resp)
  result : Except Fault Unit

namespace StateMachineStore

variable {σ Req Resp Snap ρ : Type}

/-- The key `b"snapshot"`. -/
def snapshotKey : Bytes := ascii "snapshot"

/-! ### Snapshots in the database -/

section Stored

variable [Serde StoredSnapshot]

/-- `get_current_snapshot_`; a value that does not decode counts as none. -/
def getCurrentSnapshot_ (db : Db) : Option StoredSnapshot :=
  match (db .store).get? snapshotKey with
  | none => none
  | some v => (Serde.fromSlice v).toOption

/-- `set_current_snapshot_` -/
def setCurrentSnapshot_ (snap : StoredSnapshot) : Io Unit := do
  let bytes ← Io.lift (unwrap (Serde.toVec snap))
  Io.putCf .store snapshotKey bytes
  Io.flushWal

/-- `get_current_snapshot` -/
def getCurrentSnapshot (db : Db) : Option Snapshot :=
  (getCurrentSnapshot_ db).map fun s => ⟨s.snapshotMeta, s.data⟩

end Stored

/-! ### The store -/

/-- Read the snapshot data and import it. -/
def importData [Serde Snap] (A : ApplicationStateMachine σ Req Resp Snap) (data : Bytes) :
    Except Fault σ := do
  let data : Snap ← mapIo .invalidData (Serde.fromSlice data)
  mapIo .invalidData (A.importSnapshot data)

/-- `update_state_machine_`; the log id and the membership are assigned before the data is read. -/
def updateStateMachine_ [Serde Snap] (A : ApplicationStateMachine σ Req Resp Snap)
    (sm : StateMachineData σ) (snapshot : StoredSnapshot) :
    StateMachineData σ × Except Fault Unit :=
  let sm := { sm with
    lastAppliedLog := snapshot.snapshotMeta.lastLogId
    lastMembership := snapshot.snapshotMeta.lastMembership }
  match importData A snapshot.data with
  | .ok data => ({ sm with applicationData := data }, .ok ())
  | .error e => (sm, .error e)

/-- `new` -/
def new [Serde Snap] [Serde StoredSnapshot] (A : ApplicationStateMachine σ Req Resp Snap)
    (db : Db) : Except Fault (StateMachineStore σ) :=
  let sm : StateMachineData σ := ⟨none, .default, A.default⟩
  match getCurrentSnapshot_ db with
  | none => .ok ⟨sm, 0⟩
  | some snap =>
    match updateStateMachine_ A sm snap with
    | (sm, .ok ()) => .ok ⟨sm, 0⟩
    | (_, .error e) => .error e

/-- `applied_state` -/
def appliedState (s : StateMachineStore σ) : Option LogId × StoredMembership :=
  (s.stateMachine.lastAppliedLog, s.stateMachine.lastMembership)

section Apply

variable [Openraft] [Serde Req] (A : ApplicationStateMachine σ Req Resp Snap)

/-- The body of the loop of `apply` up to the response: the value to respond with. -/
def applyEntry (sm : StateMachineData σ) (entry : Pb.Entry) :
    StateMachineData σ × Except Fault (Option Resp) :=
  let logId := RaftEntry.logId entry
  let sm := { sm with lastAppliedLog := some logId }
  match entry.appData with
  | some req =>
    match mapIo (.apply logId) (Serde.fromSlice req) with
    | .error e => (sm, .error e)
    | .ok req =>
      match A.apply sm.applicationData req with
      | (data, .ok response) => ({ sm with applicationData := data }, .ok (some response))
      | (data, .error e) => ({ sm with applicationData := data }, .error (.io (.apply logId e)))
  | none =>
    match entry.membership with
    | some membership =>
      match Membership.ofPb membership with
      | .error e => (sm, .error e)
      | .ok membership => ({ sm with lastMembership := ⟨some logId, membership⟩ }, .ok none)
    | none => (sm, .ok none)

/-- The end of the loop of `apply`: respond when there is both a responder and a value. -/
def respond : Option ρ → Option Resp → List (ρ × Resp)
  | some response, some value => [(response, value)]
  | _, _ => []

/-- `apply` on a stream of entries with their responders; the stream may yield an error. -/
def apply (sm : StateMachineData σ) :
    List (Except IoError (Pb.Entry × Option ρ)) → Applied σ ρ Resp
  | [] => ⟨sm, [], .ok ()⟩
  | .error e :: _ => ⟨sm, [], .error (.io e)⟩
  | .ok (entry, response) :: entries =>
    match applyEntry A sm entry with
    | (sm, .error e) => ⟨sm, [], .error e⟩
    | (sm, .ok value) =>
      let rest := apply sm entries
      ⟨rest.stateMachine, respond response value ++ rest.sent, rest.result⟩

end Apply

/-- `get_snapshot_builder`: the store with its counter advanced, and the clone. -/
def getSnapshotBuilder [BuildProfile] (s : StateMachineStore σ) :
    Except Fault (StateMachineStore σ × SnapshotBuilder) :=
  match addOne s.snapshotIdx with
  | .ok idx =>
    let s := { s with snapshotIdx := idx }
    .ok (s, s.clone)
  | .error e => .error e

/-- The `snapshot_id` of a builder. -/
def snapshotId (self : SnapshotBuilder) : String :=
  match self.lastAppliedLog with
  | some last =>
    toString last.leaderId ++ "-" ++ toString last.index ++ "-" ++ toString self.snapshotIdx
  | none => "--" ++ toString self.snapshotIdx

/-- `build_snapshot`, with the application data of the store at the time of the call. -/
def buildSnapshot [Serde Snap] [Serde StoredSnapshot]
    (A : ApplicationStateMachine σ Req Resp Snap) (self : SnapshotBuilder) (applicationData : σ) :
    Io Snapshot := do
  let exported ← Io.lift (mapIo .other (A.exportSnapshot applicationData))
  let data ← Io.lift (mapIo .invalidData (Serde.toVec exported))
  let snapshotMeta : SnapshotMeta := ⟨self.lastAppliedLog, self.lastMembership, snapshotId self⟩
  setCurrentSnapshot_ ⟨snapshotMeta, data⟩
  pure ⟨snapshotMeta, data⟩

/-- `install_snapshot` -/
def installSnapshot [Serde Snap] [Serde StoredSnapshot]
    (A : ApplicationStateMachine σ Req Resp Snap) (s : StateMachineStore σ)
    (snapshotMeta : SnapshotMeta) (snapshot : Bytes) : StateMachineStore σ × Io Unit :=
  let newSnapshot : StoredSnapshot := ⟨snapshotMeta, snapshot⟩
  let (sm, updated) := updateStateMachine_ A s.stateMachine newSnapshot
  ({ s with stateMachine := sm }, do
    Io.lift updated
    setCurrentSnapshot_ newSnapshot)

end StateMachineStore

/-- `new_storage`: the two stores over one database; the log store has no state of its own. -/
def newStorage {σ Req Resp Snap : Type} [Serde Snap] [Serde StoredSnapshot]
    (A : ApplicationStateMachine σ Req Resp Snap) (db : Db) : Except Fault (StateMachineStore σ) :=
  StateMachineStore.new A db

end RaftService
