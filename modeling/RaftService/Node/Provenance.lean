import RaftService.Node.Recovery

/-!
# Where the snapshots of a node come from

A snapshot gets into the database of a node in two ways only: `build_snapshot` builds it, or
`install_snapshot` is given it. So what holds of the snapshots built and of those installed holds
of the stored one, and of every one that a crash may bring back (`Stores`).

The log store writes to the same database, but never to the column of the snapshots.
-/

namespace RaftService

open RocksLogStore StateMachineStore

variable {σ Req Resp Snap ρ : Type}

/-- The snapshot in the database, if there is one, has the property. -/
def HoldsOnly [Serde StoredSnapshot] (P : StoredSnapshot → Prop) (db : Db) : Prop :=
  ∀ snap, getCurrentSnapshot_ db = some snap → P snap

theorem HoldsOnly.of_eq [Serde StoredSnapshot] {P : StoredSnapshot → Prop} {db db' : Db}
    (h : HoldsOnly P db) (heq : db' .store = db .store) : HoldsOnly P db' := by
  unfold HoldsOnly
  rw [getCurrentSnapshot_of_eq heq]
  exact h

namespace RaftNode

section Stores

variable [Serde Snap] [Serde StoredSnapshot] {P : StoredSnapshot → Prop} {s s' : RaftNode σ}

/-- The calls of the state machine store put snapshots with the property only. -/
def Puts (P : StoredSnapshot → Prop) (calls : List Call) : Prop :=
  ∀ w, .write w ∈ calls → ∃ snap, Serializes snap ∧ P snap ∧ w = putSnapshot snap

/-- The snapshots in a node have the property: the one on disk, whatever crash comes, and the one
on its way there. -/
structure Stores (P : StoredSnapshot → Prop) (s : RaftNode σ) : Prop where
  disk : s.wal.Since Db.write s.base 0 (HoldsOnly P)
  storing : ∀ p, s.storing = some p → Puts P p.calls

/-- The stored snapshot has the property. -/
theorem Stores.db (h : Stores P s) : HoldsOnly P s.db :=
  h.disk.contents (Nat.zero_le _)

theorem Stores.mono {Q : StoredSnapshot → Prop} (h : Stores P s) (hPQ : ∀ snap, P snap → Q snap) :
    Stores Q s where
  disk := h.disk.mono le_rfl fun _ hc snap hsnap => hPQ snap (hc snap hsnap)
  storing p hp w hw := by
    obtain ⟨snap, hser, hP, hput⟩ := h.storing p hp w hw
    exact ⟨snap, hser, hPQ snap hP, hput⟩

/-- A node that opens such a database. -/
theorem stores_opened {db : Db} (h : HoldsOnly P db) (store : StateMachineStore σ)
    (returned : List (Option LogId)) : Stores P (opened db store returned) :=
  ⟨Wal.since_here h, fun p hp => by cases hp⟩

theorem holdsOnly_empty : HoldsOnly P Db.empty := by
  intro snap h
  cases h

theorem puts_nil : Puts P [] := fun w hw => by cases hw

/-- A call of the log store leaves the snapshots alone. -/
theorem Stores.logCall (h : Stores P s) {call : Call} (rest : List Call)
    (hcall : ∀ w, call = .write w → ∀ db : Db, db.write w .store = db .store) :
    Stores P { s.perform call with logCalls := rest } := by
  cases call with
  | write w =>
    exact ⟨h.disk.write (h.db.of_eq (hcall w rfl s.db)), h.storing⟩
  | flushWal => exact ⟨h.disk.sync, h.storing⟩
  | spawnFlush => exact ⟨h.disk, h.storing⟩

/-- So do the writes that the log store has to make. -/
theorem LogTodo.store_eq [Serde Req] [Serde Pb.Entry] [Serde LogId] {log : ReferenceLog Req}
    {c : Db} {w : Write} {rest : List Call} (h : LogTodo log c (.write w :: rest)) (db : Db) :
    db.write w .store = db .store := by
  generalize hc : Call.write w :: rest = calls at h
  cases h with
  | done => cases hc
  | @append i j es hij hi hholds hes =>
    cases es with
    | nil => cases hc
    | cons e es =>
      cases hc
      exact Db.write_put_of_ne db (by decide) ..
  | purge hx hle =>
    cases hc
    exact Db.write_put_of_ne db (by decide) ..
  | delete hx hle =>
    cases hc
    exact Db.write_deleteRange_of_ne db (by decide) ..

/-- The state machine store makes its next call. -/
theorem Stores.storeNext [LawfulSerde StoredSnapshot] (h : Stores P s) {call : Call}
    {rest : List Call} {result : Except Fault (Option LogId)}
    (hstoring : s.storing = some ⟨call :: rest, result⟩) :
    Stores P { s.perform call with storing := some ⟨rest, result⟩ } := by
  have hputs := h.storing _ hstoring
  have hrest : ∀ p, some (⟨rest, result⟩ : Storing) = some p → Puts P p.calls := by
    intro p hp w hw
    cases hp
    exact hputs w (List.mem_cons_of_mem call hw)
  cases call with
  | write w =>
    obtain ⟨snap, hser, hP, rfl⟩ := hputs w List.mem_cons_self
    refine ⟨h.disk.write fun snap' hsnap' => ?_, hrest⟩
    rw [getCurrentSnapshot_putSnapshot _ hser] at hsnap'
    cases hsnap'
    exact hP
  | flushWal => exact ⟨h.disk.sync, hrest⟩
  | spawnFlush => exact ⟨h.disk, hrest⟩

/-- `set_current_snapshot_` puts its snapshot. -/
theorem puts_setCurrentSnapshot {snap : StoredSnapshot} (hP : P snap) :
    Puts P (setCurrentSnapshot_ snap).calls := by
  by_cases hser : Serializes snap
  · rw [setCurrentSnapshot_io hser]
    intro w hw
    obtain rfl : w = putSnapshot snap := by simpa using hw
    exact ⟨snap, hser, hP, rfl⟩
  · obtain ⟨e, he⟩ := setCurrentSnapshot_fails hser
    rw [he]
    exact puts_nil

/-- `build_snapshot` puts the snapshot it returns. -/
theorem puts_buildSnapshot [LawfulSerde Snap] {A : ApplicationStateMachine σ Req Resp Snap}
    (hA : A.RoundTrips) {b : SnapshotBuilder} {x : σ}
    (hP : ∀ snap, (buildSnapshot A b x).result = .ok snap →
      P ⟨snap.snapshotMeta, snap.snapshot⟩) :
    Puts P (buildSnapshot A b x).calls := by
  rcases buildSnapshot_cases hA b x with ⟨-, data, -, hser, hio⟩ | ⟨-, e, hio⟩
  · have hsnap := hP ⟨builderMeta b, data⟩ (by rw [hio])
    rw [hio]
    intro w hw
    obtain rfl : w = putSnapshot ⟨builderMeta b, data⟩ := by simpa using hw
    exact ⟨_, hser, hsnap, rfl⟩
  · rw [hio]
    exact puts_nil

/-- `install_snapshot` puts what it is given. -/
theorem puts_installSnapshot {A : ApplicationStateMachine σ Req Resp Snap}
    (store : StateMachineStore σ) {snapshotMeta : SnapshotMeta} {data : Bytes}
    (hP : P ⟨snapshotMeta, data⟩) : Puts P (installSnapshot A store snapshotMeta data).2.calls := by
  cases himp : importData A data with
  | ok x =>
    rw [installSnapshot_of_import himp]
    exact puts_setCurrentSnapshot hP
  | error e =>
    simp only [installSnapshot, updateStateMachine_, himp]
    exact puts_nil

end Stores

variable [BuildProfile] [Openraft] [Serde Req] [Serde Snap] [Serde StoredSnapshot] [Serde Pb.Entry]
  [Serde LogId] [LawfulSerde Snap] [LawfulSerde StoredSnapshot]
  {A : ApplicationStateMachine σ Req Resp Snap} {log : ReferenceLog Req}
  {P : StoredSnapshot → Prop} {s s' : RaftNode σ}

/-- **Every step keeps the snapshots of a node among those built and installed.** -/
theorem Stores.step (hA : A.RoundTrips) (hinv : Inv A log s) (h : Stores P s) {e : Event ρ}
    (hbuilt : ∀ store b snap, e = .build → getSnapshotBuilder s.store = .ok (store, b) →
      (buildSnapshot A b store.stateMachine.applicationData).result = .ok snap →
      P ⟨snap.snapshotMeta, snap.snapshot⟩)
    (hinst : ∀ m data, e = .install m data → P ⟨m, data⟩)
    (hstep : RaftNode.step A log s e = some s') : Stores P s' := by
  cases e with
  | append es =>
    simp only [RaftNode.step] at hstep
    split at hstep
    · simp only [Option.ite_none_right_eq_some, Option.some.injEq] at hstep
      obtain ⟨-, rfl⟩ := hstep
      exact ⟨h.disk, h.storing⟩
    · cases hstep
  | purge x =>
    simp only [RaftNode.step, Option.ite_none_right_eq_some, Option.some.injEq] at hstep
    obtain ⟨-, rfl⟩ := hstep
    exact ⟨h.disk, h.storing⟩
  | logNext =>
    simp only [RaftNode.step] at hstep
    split at hstep
    · next call rest hcalls =>
      cases hstep
      refine h.logCall rest fun w hw db => ?_
      subst hw
      exact LogTodo.store_eq (hcalls ▸ hinv.logTodo) db
    · cases hstep
  | apply strm =>
    simp only [RaftNode.step, Option.ite_none_right_eq_some, Option.some.injEq] at hstep
    obtain ⟨-, rfl⟩ := hstep
    exact ⟨h.disk, h.storing⟩
  | build =>
    simp only [RaftNode.step] at hstep
    split at hstep
    · next store b hidle hbuilder =>
      cases hstep
      refine ⟨h.disk, fun p hp => ?_⟩
      cases hp
      exact puts_buildSnapshot hA fun snap => hbuilt store b snap rfl hbuilder
    · cases hstep
  | install m data =>
    simp only [RaftNode.step, Option.ite_none_right_eq_some, Option.some.injEq] at hstep
    obtain ⟨-, rfl⟩ := hstep
    refine ⟨h.disk, fun p hp => ?_⟩
    cases hp
    exact puts_installSnapshot s.store (hinst m data rfl)
  | storeNext =>
    simp only [RaftNode.step] at hstep
    split at hstep
    · next call rest result hstoring => cases hstep; exact h.storeNext hstoring
    · cases hstep
  | storeRet =>
    simp only [RaftNode.step] at hstep
    split at hstep
    · cases hstep
      exact ⟨h.disk, fun p hp => by cases hp⟩
    · cases hstep
      exact ⟨h.disk, fun p hp => by cases hp⟩
    · cases hstep
  | flushStart k =>
    simp only [RaftNode.step] at hstep
    split at hstep
    · cases hstep; exact ⟨h.disk, h.storing⟩
    · cases hstep
  | flushDone k =>
    simp only [RaftNode.step] at hstep
    split at hstep
    · cases hstep; exact ⟨h.disk.sync, h.storing⟩
    · cases hstep
  | flushFailed k =>
    simp only [RaftNode.step] at hstep
    split at hstep
    · cases hstep; exact ⟨h.disk, h.storing⟩
    · cases hstep
  | crash k =>
    simp only [RaftNode.step, Option.ite_none_right_eq_some] at hstep
    obtain ⟨⟨-, hlen⟩, hstep⟩ := hstep
    split at hstep
    · cases hstep
      exact stores_opened (h.disk k (Nat.zero_le k) hlen) _ _
    · cases hstep

end RaftNode
end RaftService
