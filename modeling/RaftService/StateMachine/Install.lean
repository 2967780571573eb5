import RaftService.StateMachine.Snapshot
import RaftService.Counter

/-!
# Installing a snapshot, and reopening one

`install_snapshot` changes four things one after the other: the last applied log id and the last
membership, the application state, and the stored snapshot. It can stop in between: the data does
not decode, the application does not import it, or the database refuses the put.

* `installSnapshot_allOrNothing_iff`: when a failing call leaves everything as it was;
* `new_neverDropped_iff`: when what is stored under the key of the snapshot is not overlooked.
-/

namespace RaftService

variable {σ Req Resp Snap : Type}

namespace StateMachineStore

section Install

variable [Serde Snap] [Serde StoredSnapshot] {A : ApplicationStateMachine σ Req Resp Snap}

omit [Serde StoredSnapshot] in
theorem importData_fault {data : Bytes} {fault : Fault} (h : importData A data = .error fault) :
    ∃ e, fault = .io e := by
  unfold importData at h
  cases hread : (Serde.fromSlice data : Except String Snap) with
  | error e =>
    rw [hread] at h
    cases h
    exact ⟨_, rfl⟩
  | ok snap =>
    rw [hread] at h
    cases himport : A.importSnapshot snap with
    | error e =>
      simp only [mapIo_ok, bind, Except.bind, himport] at h
      cases h
      exact ⟨_, rfl⟩
    | ok x => simp [bind, Except.bind, himport] at h

theorem installSnapshot_of_error {snapshotMeta : SnapshotMeta} {data : Bytes} {fault : Fault}
    (h : importData A data = .error fault) (s : StateMachineStore σ) :
    installSnapshot A s snapshotMeta data =
      (⟨⟨snapshotMeta.lastLogId, snapshotMeta.lastMembership, s.stateMachine.applicationData⟩,
        s.snapshotIdx⟩, ⟨[], .error fault⟩) := by
  simp only [installSnapshot, updateStateMachine_, h]
  rfl

/-- What `install_snapshot` leaves in memory and in the database, and how it ends; `refused` is the
error of the database when it refuses the put. -/
def install (A : ApplicationStateMachine σ Req Resp Snap) (s : StateMachineStore σ) (db : Db)
    (snapshotMeta : SnapshotMeta) (data : Bytes) (refused : Option IoError) :
    StateMachineStore σ × Db × Except Fault Unit :=
  let (s, io) := installSnapshot A s snapshotMeta data
  match refused with
  | none => (s, io.run db, io.result)
  | some e => (s, io.runFailing 0 e db)

/-- A call that returns `Err` leaves the store and the database as they were, and one that returns
`Ok` leaves the state and the snapshot of the given meta and data. -/
def AllOrNothing (A : ApplicationStateMachine σ Req Resp Snap) (s : StateMachineStore σ) (db : Db)
    (snapshotMeta : SnapshotMeta) (data : Bytes) (refused : Option IoError) : Prop :=
  let (s', db', result) := install A s db snapshotMeta data refused
  (∀ e, result = .error (.io e) → s' = s ∧ db' = db) ∧
    (result = .ok () →
      appliedState s' = (snapshotMeta.lastLogId, snapshotMeta.lastMembership) ∧
      importData A data = .ok s'.stateMachine.applicationData ∧
      getCurrentSnapshot db' = some ⟨snapshotMeta, data⟩)

/-- What a failing call assigns is what the store holds already: the log id and the membership of
the meta and, when it is the put that is refused, the application state of the data, too. -/
def AssignsTheSame (A : ApplicationStateMachine σ Req Resp Snap) (s : StateMachineStore σ)
    (snapshotMeta : SnapshotMeta) (data : Bytes) (refused : Option IoError) : Prop :=
  match importData A data with
  | .error _ => appliedState s = (snapshotMeta.lastLogId, snapshotMeta.lastMembership)
  | .ok x => refused.isSome → Serializes (⟨snapshotMeta, data⟩ : StoredSnapshot) →
      s.stateMachine = ⟨snapshotMeta.lastLogId, snapshotMeta.lastMembership, x⟩

theorem install_of_error {s : StateMachineStore σ} {snapshotMeta : SnapshotMeta} {data : Bytes}
    {fault : Fault} (h : importData A data = .error fault) (db : Db) (refused : Option IoError) :
    install A s db snapshotMeta data refused =
      (⟨⟨snapshotMeta.lastLogId, snapshotMeta.lastMembership, s.stateMachine.applicationData⟩,
        s.snapshotIdx⟩, db, .error fault) := by
  unfold install
  rw [installSnapshot_of_error h]
  cases refused <;> rfl

theorem install_of_import {s : StateMachineStore σ} {snapshotMeta : SnapshotMeta} {data : Bytes}
    {x : σ} (h : importData A data = .ok x)
    (hser : Serializes (⟨snapshotMeta, data⟩ : StoredSnapshot)) (db : Db)
    (refused : Option IoError) :
    install A s db snapshotMeta data refused =
      (⟨⟨snapshotMeta.lastLogId, snapshotMeta.lastMembership, x⟩, s.snapshotIdx⟩,
        match refused with
        | none => (db.write (putSnapshot ⟨snapshotMeta, data⟩), .ok ())
        | some e => (db, .error (.io e))) := by
  unfold install
  rw [installSnapshot_of_import h, setCurrentSnapshot_io hser]
  cases refused <;> rfl

theorem install_of_not_serializes {s : StateMachineStore σ} {snapshotMeta : SnapshotMeta}
    {data : Bytes} {x : σ} (h : importData A data = .ok x)
    (hser : ¬ Serializes (⟨snapshotMeta, data⟩ : StoredSnapshot)) (db : Db)
    (refused : Option IoError) :
    ∃ message, install A s db snapshotMeta data refused =
      (⟨⟨snapshotMeta.lastLogId, snapshotMeta.lastMembership, x⟩, s.snapshotIdx⟩, db,
        .error (.panic message)) := by
  cases hvec : Serde.toVec (⟨snapshotMeta, data⟩ : StoredSnapshot) with
  | ok b => exact absurd ⟨b, hvec⟩ hser
  | error e =>
    refine ⟨"called `Result::unwrap()` on an `Err` value: " ++ e, ?_⟩
    unfold install
    rw [installSnapshot_of_import h, setCurrentSnapshot_, hvec]
    cases refused <;> rfl

/-! ### How much a failing call has assigned -/

/-- Data that cannot be imported: the log id and the membership have been assigned. -/
theorem allOrNothing_of_error {s : StateMachineStore σ} {db : Db} {snapshotMeta : SnapshotMeta}
    {data : Bytes} {fault : Fault} (h : importData A data = .error fault)
    (refused : Option IoError) :
    AllOrNothing A s db snapshotMeta data refused ↔
      appliedState s = (snapshotMeta.lastLogId, snapshotMeta.lastMembership) := by
  obtain ⟨e, rfl⟩ := importData_fault h
  unfold AllOrNothing
  rw [install_of_error h]
  constructor
  · rintro ⟨hsame, -⟩
    obtain ⟨hs, -⟩ := hsame e rfl
    rw [← hs]
    rfl
  · intro heq
    obtain ⟨hlast, hmem⟩ := Prod.mk.inj heq
    constructor
    · intro _ _
      rw [← hlast, ← hmem]
      exact ⟨rfl, rfl⟩
    · intro hok
      cases hok

theorem allOrNothing_of_stored [LawfulSerde StoredSnapshot] {s : StateMachineStore σ}
    {snapshotMeta : SnapshotMeta} {data : Bytes} {x : σ} (h : importData A data = .ok x)
    (hser : Serializes (⟨snapshotMeta, data⟩ : StoredSnapshot)) (db : Db) :
    AllOrNothing A s db snapshotMeta data none := by
  unfold AllOrNothing
  rw [install_of_import h hser]
  constructor
  · rintro e ⟨⟩
  · intro _
    refine ⟨rfl, h, ?_⟩
    rw [getCurrentSnapshot, getCurrentSnapshot_putSnapshot db hser]
    rfl

/-- A snapshot whose put is refused: the application state has been assigned, too. -/
theorem allOrNothing_of_refused {s : StateMachineStore σ} {snapshotMeta : SnapshotMeta}
    {data : Bytes} {x : σ} (h : importData A data = .ok x)
    (hser : Serializes (⟨snapshotMeta, data⟩ : StoredSnapshot)) (db : Db) (e : IoError) :
    AllOrNothing A s db snapshotMeta data (some e) ↔
      s.stateMachine = ⟨snapshotMeta.lastLogId, snapshotMeta.lastMembership, x⟩ := by
  unfold AllOrNothing
  rw [install_of_import h hser]
  constructor
  · rintro ⟨hsame, -⟩
    obtain ⟨hs, -⟩ := hsame e rfl
    rw [← hs]
  · intro heq
    constructor
    · intro _ _
      rw [← heq]
      exact ⟨rfl, rfl⟩
    · intro hok
      cases hok

/-- A snapshot that does not serialise: the call returns neither `Ok` nor `Err`. -/
theorem allOrNothing_of_not_serializes {s : StateMachineStore σ} {snapshotMeta : SnapshotMeta}
    {data : Bytes} {x : σ} (h : importData A data = .ok x)
    (hser : ¬ Serializes (⟨snapshotMeta, data⟩ : StoredSnapshot)) (db : Db)
    (refused : Option IoError) : AllOrNothing A s db snapshotMeta data refused := by
  obtain ⟨message, hpanic⟩ := install_of_not_serializes (s := s) h hser db refused
  unfold AllOrNothing
  rw [hpanic]
  constructor
  · rintro e ⟨⟩
  · intro hok
    cases hok

/-- **Installing a snapshot is not all or nothing**: a call that fails has assigned the log id and
the membership already and, when the put is refused, the application state. It leaves everything as
it was only if these were the same before. -/
theorem installSnapshot_allOrNothing_iff [LawfulSerde StoredSnapshot] (s : StateMachineStore σ)
    (db : Db) (snapshotMeta : SnapshotMeta) (data : Bytes) (refused : Option IoError) :
    AllOrNothing A s db snapshotMeta data refused ↔
      AssignsTheSame A s snapshotMeta data refused := by
  unfold AssignsTheSame
  cases himport : importData A data with
  | error fault => exact allOrNothing_of_error himport refused
  | ok x =>
    by_cases hser : Serializes (⟨snapshotMeta, data⟩ : StoredSnapshot)
    · cases refused with
      | none =>
        constructor
        · rintro - ⟨⟩
        · intro _
          exact allOrNothing_of_stored himport hser db
      | some e =>
        rw [allOrNothing_of_refused himport hser db e]
        constructor
        · intro h _ _
          exact h
        · intro h
          exact h rfl hser
    · constructor
      · intro _ _ hser'
        exact absurd hser' hser
      · intro _
        exact allOrNothing_of_not_serializes himport hser db refused

/-! ### Reopening -/

/-- What is stored under the key of the snapshot makes `new` fail or is the state that it returns,
and it is the current snapshot. -/
def NeverDropped (A : ApplicationStateMachine σ Req Resp Snap) (db : Db) : Prop :=
  ∀ v, (db .store).get? snapshotKey = some v →
    ((∃ e, new A db = .error (.io e)) ∨
      ∃ (snap : StoredSnapshot) (s : StateMachineStore σ), Serde.fromSlice v = .ok snap ∧
        new A db = .ok s ∧
        appliedState s = (snap.snapshotMeta.lastLogId, snap.snapshotMeta.lastMembership) ∧
        importData A snap.data = .ok s.stateMachine.applicationData) ∧
    ∃ snap : StoredSnapshot, Serde.fromSlice v = .ok snap ∧
      getCurrentSnapshot db = some ⟨snap.snapshotMeta, snap.data⟩

/-- A stored value that does not decode counts as none: the store starts from the default. -/
theorem new_of_undecodable {db : Db} {v : Bytes} {e : String}
    (hv : (db .store).get? snapshotKey = some v)
    (he : (Serde.fromSlice v : Except String StoredSnapshot) = .error e) :
    new A db = .ok ⟨⟨none, .default, A.default⟩, 0⟩ ∧ getCurrentSnapshot db = none := by
  have hnone : getCurrentSnapshot_ db = none := by
    unfold getCurrentSnapshot_
    rw [hv]
    simp only [he]
    rfl
  refine ⟨new_of_none hnone, ?_⟩
  unfold getCurrentSnapshot
  rw [hnone]
  rfl

/-- **A stored snapshot is overlooked exactly when it does not decode.** -/
theorem new_neverDropped_iff (db : Db) :
    NeverDropped A db ↔ ∀ v, (db .store).get? snapshotKey = some v →
      ∃ snap : StoredSnapshot, Serde.fromSlice v = .ok snap := by
  constructor
  · intro h v hv
    obtain ⟨-, snap, hsnap, -⟩ := h v hv
    exact ⟨snap, hsnap⟩
  · intro h v hv
    obtain ⟨snap, hsnap⟩ := h v hv
    have hcurrent : getCurrentSnapshot_ db = some snap := by
      unfold getCurrentSnapshot_
      rw [hv]
      simp only [hsnap]
      rfl
    refine ⟨?_, snap, hsnap, ?_⟩
    · cases himport : importData A snap.data with
      | error fault =>
        obtain ⟨e, rfl⟩ := importData_fault himport
        left
        refine ⟨e, ?_⟩
        simp [new, hcurrent, updateStateMachine_, himport]
      | ok x =>
        right
        exact ⟨snap, _, hsnap, new_of_import hcurrent himport, rfl, himport⟩
    · unfold getCurrentSnapshot
      rw [hcurrent]
      rfl

end Install

/-! ### Snapshots of the counter -/

section Counter

open scoped Counter

/-- The store of the counter after its first request. -/
def counterStore : StateMachineStore ℕ := ⟨⟨some ⟨1, 1⟩, ⟨some ⟨1, 0⟩, Counter.cluster⟩, 5⟩, 0⟩

/-- A snapshot that can be read is installed. -/
theorem installSnapshot_allOrNothing_counter :
    AllOrNothing counter counterStore Db.empty
      (Counter.snapshotAt 2 "1-2-1" (ascii "12")).snapshotMeta (ascii "12") none := by
  refine (installSnapshot_allOrNothing_iff counterStore Db.empty _ _ none).2 ?_
  have himport : importData counter (ascii "12") = .ok 12 := by decide +kernel
  unfold AssignsTheSame
  rw [himport]
  rintro ⟨⟩

/-- A snapshot that cannot be read has moved the last applied log id to `1-2`, with the sum of
`1-1`. -/
theorem installSnapshot_unreadable :
    (install counter counterStore Db.empty
        (Counter.snapshotAt 2 "1-2-1" (ascii "x")).snapshotMeta (ascii "x") none).1.stateMachine =
      ⟨some ⟨1, 2⟩, ⟨some ⟨1, 0⟩, Counter.cluster⟩, 5⟩ ∧
    ¬ AllOrNothing counter counterStore Db.empty
      (Counter.snapshotAt 2 "1-2-1" (ascii "x")).snapshotMeta (ascii "x") none := by
  refine ⟨by decide +kernel, ?_⟩
  rintro ⟨h, -⟩
  obtain ⟨hsame, -⟩ := h (.invalidData "not in the table") (by decide +kernel)
  exact absurd hsame (by decide +kernel)

/-- A database with a value under the key of the snapshot that is no snapshot. -/
def corrupted : Db := Db.empty.write (.put .store snapshotKey (ascii "x"))

/-- It is opened as if it were empty. -/
theorem new_corrupted :
    new counter corrupted = .ok ⟨⟨none, .default, 0⟩, 0⟩ ∧ getCurrentSnapshot corrupted = none ∧
      ¬ NeverDropped counter corrupted := by
  refine ⟨by decide +kernel, by decide +kernel, ?_⟩
  intro h
  obtain ⟨-, snap, hsnap, -⟩ := h (ascii "x") (by decide +kernel)
  cases hsnap

end Counter

end StateMachineStore

end RaftService
