import RaftService.StateMachine.ReferenceLog

/-!
# The snapshot calls

What the calls that store, build, install and reopen a snapshot do, one lemma each. A call
either stores one snapshot and flushes, or it issues no call at all: the value is serialised
before anything is written.
-/

namespace RaftService

variable {σ Req Resp Snap : Type} {A : ApplicationStateMachine σ Req Resp Snap}

section Stored

variable [Serde StoredSnapshot]

/-- The write that stores a snapshot. -/
def putSnapshot (snap : StoredSnapshot) : Write :=
  .put .store StateMachineStore.snapshotKey (bytesOf snap)

namespace StateMachineStore

theorem setCurrentSnapshot_io {snap : StoredSnapshot} (h : Serializes snap) :
    setCurrentSnapshot_ snap = ⟨[.write (putSnapshot snap), .flushWal], .ok ()⟩ := by
  simp [setCurrentSnapshot_, h.toVec_eq, putSnapshot, Io.flushWal]

/-- A snapshot that does not serialise is not stored: the `unwrap` panics before the put. -/
theorem setCurrentSnapshot_fails {snap : StoredSnapshot} (h : ¬ Serializes snap) :
    ∃ e, setCurrentSnapshot_ snap = ⟨[], .error e⟩ := by
  cases hv : Serde.toVec snap with
  | ok b => exact absurd ⟨b, hv⟩ h
  | error e =>
    refine ⟨.panic ("called `Result::unwrap()` on an `Err` value: " ++ e), ?_⟩
    rw [setCurrentSnapshot_, hv]
    rfl

theorem getCurrentSnapshot_putSnapshot [LawfulSerde StoredSnapshot] (db : Db)
    {snap : StoredSnapshot} (h : Serializes snap) :
    getCurrentSnapshot_ (db.write (putSnapshot snap)) = some snap := by
  simp [getCurrentSnapshot_, putSnapshot, LawfulSerde.fromSlice_toVec h.toVec_eq, Except.toOption]

theorem getCurrentSnapshot_of_eq {db db' : Db} (h : db' .store = db .store) :
    getCurrentSnapshot_ db' = getCurrentSnapshot_ db := by
  rw [getCurrentSnapshot_, getCurrentSnapshot_, h]

end StateMachineStore

/-- The last log id of the stored snapshot: what a reopened state machine has applied. -/
def snapshotLogId (db : Db) : Option LogId :=
  (StateMachineStore.getCurrentSnapshot_ db).bind fun snap => snap.snapshotMeta.lastLogId

theorem snapshotLogId_of_eq {db db' : Db} (h : db' .store = db .store) :
    snapshotLogId db' = snapshotLogId db := by
  rw [snapshotLogId, snapshotLogId, StateMachineStore.getCurrentSnapshot_of_eq h]

theorem snapshotLogId_putSnapshot [LawfulSerde StoredSnapshot] (db : Db) {snap : StoredSnapshot}
    (h : Serializes snap) :
    snapshotLogId (db.write (putSnapshot snap)) = snap.snapshotMeta.lastLogId := by
  rw [snapshotLogId, StateMachineStore.getCurrentSnapshot_putSnapshot db h, Option.bind_some]

end Stored

section Calls

namespace StateMachineStore

/-- `get_snapshot_builder` changes the counter only, and copies the log id and the membership. -/
theorem getSnapshotBuilder_ok [BuildProfile] {s s' : StateMachineStore σ} {b : SnapshotBuilder}
    (h : getSnapshotBuilder s = .ok (s', b)) :
    s'.stateMachine = s.stateMachine ∧ b.lastAppliedLog = s.stateMachine.lastAppliedLog ∧
      b.lastMembership = s.stateMachine.lastMembership := by
  cases hidx : addOne s.snapshotIdx with
  | error e => simp [getSnapshotBuilder, hidx] at h
  | ok idx =>
    simp only [getSnapshotBuilder, hidx, Except.ok.injEq, Prod.mk.injEq] at h
    obtain ⟨rfl, rfl⟩ := h
    exact ⟨rfl, rfl, rfl⟩

variable [Serde Snap]

/-- Importable data replaces the whole state. -/
theorem updateStateMachine_of_import {snap : StoredSnapshot} {x : σ}
    (h : importData A snap.data = .ok x) (sm : StateMachineData σ) :
    updateStateMachine_ A sm snap =
      (⟨snap.snapshotMeta.lastLogId, snap.snapshotMeta.lastMembership, x⟩, .ok ()) := by
  simp [updateStateMachine_, h]

/-- The meta a builder gives its snapshot. -/
def builderMeta (b : SnapshotBuilder) : SnapshotMeta :=
  ⟨b.lastAppliedLog, b.lastMembership, snapshotId b⟩

variable [Serde StoredSnapshot]

/-- The application data can be exported, and the snapshot a builder makes of it serialises. -/
def Exportable (A : ApplicationStateMachine σ Req Resp Snap) (b : SnapshotBuilder) (x : σ) : Prop :=
  ∃ exported data, A.exportSnapshot x = .ok exported ∧ Serde.toVec exported = .ok data ∧
    Serializes (⟨builderMeta b, data⟩ : StoredSnapshot)

/-- `build_snapshot` stores what it returns: its own copies in the meta, and data that imports to
the application data it found. Or it fails and writes nothing. -/
theorem buildSnapshot_cases [LawfulSerde Snap] (hA : A.RoundTrips) (b : SnapshotBuilder) (x : σ) :
    (Exportable A b x ∧ ∃ data, importData A data = .ok x ∧
      Serializes (⟨builderMeta b, data⟩ : StoredSnapshot) ∧
      buildSnapshot A b x = ⟨[.write (putSnapshot ⟨builderMeta b, data⟩), .flushWal],
        .ok ⟨builderMeta b, data⟩⟩) ∨
    (¬ Exportable A b x ∧ ∃ e, buildSnapshot A b x = ⟨[], .error e⟩) := by
  cases hexp : A.exportSnapshot x with
  | error e =>
    refine Or.inr ⟨?_, .io (.other e), ?_⟩
    · rintro ⟨exported, -, hex, -⟩
      rw [hexp] at hex
      cases hex
    · rw [buildSnapshot, hexp]
      rfl
  | ok s =>
    cases hvec : Serde.toVec s with
    | error e =>
      refine Or.inr ⟨?_, .io (.invalidData e), ?_⟩
      · rintro ⟨exported, data, hex, hdata, -⟩
        rw [hexp] at hex
        cases hex
        rw [hvec] at hdata
        cases hdata
      · rw [buildSnapshot, hexp, mapIo_ok, Io.lift_ok_bind, hvec]
        rfl
    | ok data =>
      have himp : importData A data = .ok x := by
        simp [importData, LawfulSerde.fromSlice_toVec hvec, bind, Except.bind, hA x s hexp]
      have hbuild : buildSnapshot A b x =
          setCurrentSnapshot_ ⟨builderMeta b, data⟩ >>= fun _ => pure ⟨builderMeta b, data⟩ := by
        rw [buildSnapshot, hexp, mapIo_ok, Io.lift_ok_bind, hvec, mapIo_ok, Io.lift_ok_bind]
        rfl
      by_cases hser : Serializes (⟨builderMeta b, data⟩ : StoredSnapshot)
      · refine Or.inl ⟨⟨s, data, hexp, hvec, hser⟩, data, himp, hser, ?_⟩
        rw [hbuild, setCurrentSnapshot_io hser, Io.bind_of_ok rfl]
        rfl
      · obtain ⟨e, he⟩ := setCurrentSnapshot_fails hser
        refine Or.inr ⟨?_, e, by rw [hbuild, he]; rfl⟩
        rintro ⟨exported, data', hex, hdata, hser'⟩
        rw [hexp] at hex
        cases hex
        rw [hvec] at hdata
        cases hdata
        exact hser hser'

theorem installSnapshot_of_import {snapshotMeta : SnapshotMeta} {data : Bytes} {x : σ}
    (h : importData A data = .ok x) (s : StateMachineStore σ) :
    installSnapshot A s snapshotMeta data =
      ({ s with stateMachine := ⟨snapshotMeta.lastLogId, snapshotMeta.lastMembership, x⟩ },
        setCurrentSnapshot_ ⟨snapshotMeta, data⟩) := by
  have hupdate : updateStateMachine_ A s.stateMachine ⟨snapshotMeta, data⟩ = _ :=
    updateStateMachine_of_import h s.stateMachine
  simp [installSnapshot, hupdate]

theorem new_of_none {db : Db} (h : getCurrentSnapshot_ db = none) :
    new A db = .ok ⟨⟨none, .default, A.default⟩, 0⟩ := by
  simp [new, h]

theorem new_of_import {db : Db} {snap : StoredSnapshot} {x : σ}
    (h : getCurrentSnapshot_ db = some snap) (hx : importData A snap.data = .ok x) :
    new A db =
      .ok ⟨⟨snap.snapshotMeta.lastLogId, snap.snapshotMeta.lastMembership, x⟩, 0⟩ := by
  simp [new, h, updateStateMachine_of_import hx]

end StateMachineStore

end Calls

/-! ### Databases that hold snapshots of a log -/

section Holds

variable [Serde Snap] [Serde StoredSnapshot] [Serde Req] {log : ReferenceLog Req}

open StateMachineStore

/-- The snapshot in the database, if there is one, is exact. -/
def HoldsExact (A : ApplicationStateMachine σ Req Resp Snap) (log : ReferenceLog Req) (db : Db) :
    Prop :=
  ∀ snap, getCurrentSnapshot_ db = some snap → snap.Exact A log

theorem holdsExact_empty : HoldsExact A log Db.empty := by
  intro snap h
  cases h

theorem HoldsExact.of_eq {db db' : Db} (h : HoldsExact A log db) (heq : db' .store = db .store) :
    HoldsExact A log db' := by
  unfold HoldsExact
  rw [getCurrentSnapshot_of_eq heq]
  exact h

theorem holdsExact_putSnapshot [LawfulSerde StoredSnapshot] (db : Db) {snap : StoredSnapshot}
    (hser : Serializes snap) (h : snap.Exact A log) :
    HoldsExact A log (db.write (putSnapshot snap)) := by
  intro snap' h'
  rw [getCurrentSnapshot_putSnapshot db hser] at h'
  cases h'
  exact h

/-- A call that stores an exact snapshot, if it stores one, leaves an exact one. -/
theorem holdsExact_setCurrentSnapshot [LawfulSerde StoredSnapshot] {db : Db}
    {snap : StoredSnapshot} (hdb : HoldsExact A log db) (h : snap.Exact A log) :
    HoldsExact A log ((setCurrentSnapshot_ snap).run db) := by
  by_cases hser : Serializes snap
  · rw [setCurrentSnapshot_io hser]
    exact holdsExact_putSnapshot db hser h
  · obtain ⟨e, he⟩ := setCurrentSnapshot_fails hser
    rw [he]
    exact hdb

/-- A builder that reads the application data of the state it was cloned from builds an exact
snapshot, and stores it. -/
theorem buildSnapshot_exact [LawfulSerde Snap] [LawfulSerde StoredSnapshot] (hA : A.RoundTrips)
    {sm : StateMachineData σ} (hat : AtLog A log sm) {b : SnapshotBuilder}
    (hlast : b.lastAppliedLog = sm.lastAppliedLog) (hmem : b.lastMembership = sm.lastMembership)
    {snap : Snapshot} (hok : (buildSnapshot A b sm.applicationData).result = .ok snap) (db : Db) :
    (StoredSnapshot.mk snap.snapshotMeta snap.snapshot).Exact A log ∧
      HoldsExact A log ((buildSnapshot A b sm.applicationData).run db) := by
  rcases buildSnapshot_cases hA b sm.applicationData with ⟨-, data, himp, hser, hio⟩ | ⟨-, e, hio⟩
  · rw [hio] at hok
    cases hok
    have hexact : (StoredSnapshot.mk (builderMeta b) data).Exact A log := by
      refine ⟨_, himp, ?_⟩
      simp only [builderMeta, hlast, hmem]
      exact hat
    rw [hio]
    exact ⟨hexact, holdsExact_putSnapshot db hser hexact⟩
  · rw [hio] at hok
    cases hok

/-- **Reopening a database that holds an exact snapshot succeeds**, with a state of the log whose
last applied log id is that of the snapshot. -/
theorem new_of_holdsExact {db : Db} (h : HoldsExact A log db) :
    ∃ s, StateMachineStore.new A db = .ok s ∧ AtLog A log s.stateMachine ∧
      s.stateMachine.lastAppliedLog = snapshotLogId db := by
  cases hsnap : getCurrentSnapshot_ db with
  | none => exact ⟨_, new_of_none hsnap, atLog_default, by simp [snapshotLogId, hsnap]⟩
  | some snap =>
    obtain ⟨x, hx, hat⟩ := h snap hsnap
    exact ⟨_, new_of_import hsnap hx, hat, by simp [snapshotLogId, hsnap]⟩

end Holds

end RaftService
