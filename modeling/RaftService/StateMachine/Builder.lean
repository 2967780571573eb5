import RaftService.Counter
import RaftService.StateMachine.Snapshot
import RaftService.Lib.Run

/-!
# Snapshot builders beside the store

openraft takes a builder from the store and runs `build_snapshot` on it in a task of its own,
while the store goes on applying entries and installing snapshots. The builder has the log id and
the membership of the moment it was taken, but reads the application data, and writes the
database, of the moment it builds. A `World` is the store, its database, and the builders taken
so far.

* `builds_exact_iff`: the snapshots built are snapshots of their own meta exactly when no builder
  finds other application data than there was when it was taken;
* `storedLogId_mono_iff`: the stored snapshot never goes backwards exactly when no builder
  overwrites a snapshot newer than what the store had applied when it was taken.

Neither condition is checked anywhere, and each fails on a short run.
-/

namespace RaftService

variable {σ Req Resp Snap ρ : Type}

open StateMachineStore

/-- The store, the database, and the builders taken from the store, oldest first. -/
structure World (σ : Type) where
  store : StateMachineStore σ
  db : Db
  builders : List SnapshotBuilder

namespace World

/-- What openraft calls. -/
inductive Event (ρ : Type)
  | apply (strm : List (Except IoError (Pb.Entry × Option ρ)))
  | install (snapshotMeta : SnapshotMeta) (data : Bytes)
  | getSnapshotBuilder
  | buildSnapshot (i : ℕ)

/-- The last log id of the snapshot under the key `"snapshot"`, if one is held. -/
def storedLogId [Serde StoredSnapshot] (db : Db) : Option (Option LogId) :=
  (getCurrentSnapshot_ db).map fun snap => snap.snapshotMeta.lastLogId

variable [BuildProfile] [Openraft] [Serde Req] [Serde Snap] [Serde StoredSnapshot]

/-- One call, run to its end. `apply` gets the next entries of the log; a call may fail. -/
def step (A : ApplicationStateMachine σ Req Resp Snap) (log : ReferenceLog Req) (w : World σ) :
    Event ρ → Option (World σ)
  | .apply strm =>
    if delivered strm <+: log.entriesAfter w.store.stateMachine.lastAppliedLog then
      some { w with store.stateMachine := (apply A w.store.stateMachine strm).stateMachine }
    else none
  | .install snapshotMeta data =>
    let (s, io) := installSnapshot A w.store snapshotMeta data
    some { w with store := s, db := io.run w.db }
  | .getSnapshotBuilder =>
    match getSnapshotBuilder w.store with
    | .ok (s, b) => some { w with store := s, builders := w.builders ++ [b] }
    | .error _ => none
  | .buildSnapshot i =>
    match w.builders[i]? with
    | some b =>
      some { w with db := (buildSnapshot A b w.store.stateMachine.applicationData).run w.db }
    | none => none

variable {A : ApplicationStateMachine σ Req Resp Snap} {log : ReferenceLog Req}

/-- Opening a database. -/
def opens (A : ApplicationStateMachine σ Req Resp Snap) (db : Db) (w : World σ) : Prop :=
  StateMachineStore.new A db = .ok w.store ∧ w.db = db ∧ w.builders = []

/-- The `i`-th builder was taken in the state `w₁` of the run `tr`. -/
def TakenIn (A : ApplicationStateMachine σ Req Resp Snap) (log : ReferenceLog Req) (w₀ : World σ)
    (tr : List (Event ρ)) (i : ℕ) (w₁ : World σ) : Prop :=
  ∃ t t', tr = t ++ .getSnapshotBuilder :: t' ∧ Run.exec (step A log) w₀ t = some w₁ ∧
    w₁.builders.length = i

/-- The run `tr` comes to a build of the `i`-th builder, which is `b`, in the state `w` after
its first part `t`. -/
def BuildsIn (A : ApplicationStateMachine σ Req Resp Snap) (log : ReferenceLog Req) (w₀ : World σ)
    (tr t : List (Event ρ)) (i : ℕ) (b : SnapshotBuilder) (w : World σ) : Prop :=
  (∃ t', tr = t ++ .buildSnapshot i :: t') ∧ Run.exec (step A log) w₀ t = some w ∧
    w.builders[i]? = some b

/-! ### Steps -/

theorem step_cases {w w' : World σ} {e : Event ρ} (h : step A log w e = some w') :
    (∃ strm, e = .apply strm ∧
      delivered strm <+: log.entriesAfter w.store.stateMachine.lastAppliedLog ∧
      w' = { w with store.stateMachine := (apply A w.store.stateMachine strm).stateMachine }) ∨
    (∃ snapshotMeta data, e = .install snapshotMeta data ∧
      w' = { w with
        store := (installSnapshot A w.store snapshotMeta data).1
        db := (installSnapshot A w.store snapshotMeta data).2.run w.db }) ∨
    (∃ s b, e = .getSnapshotBuilder ∧ getSnapshotBuilder w.store = .ok (s, b) ∧
      w' = { w with store := s, builders := w.builders ++ [b] }) ∨
    (∃ i b, e = .buildSnapshot i ∧ w.builders[i]? = some b ∧
      w' = { w with
        db := (buildSnapshot A b w.store.stateMachine.applicationData).run w.db }) := by
  cases e with
  | apply strm =>
    simp only [step, Option.ite_none_right_eq_some] at h
    exact Or.inl ⟨strm, rfl, h.1, (Option.some.inj h.2).symm⟩
  | install snapshotMeta data =>
    exact Or.inr (Or.inl ⟨snapshotMeta, data, rfl, (Option.some.inj h).symm⟩)
  | getSnapshotBuilder =>
    cases hget : getSnapshotBuilder w.store with
    | error err => simp [step, hget] at h
    | ok sb =>
      simp only [step, hget, Option.some.injEq] at h
      exact Or.inr (Or.inr (Or.inl ⟨sb.1, sb.2, rfl, rfl, h.symm⟩))
  | buildSnapshot i =>
    cases hb : w.builders[i]? with
    | none => simp [step, hb] at h
    | some b =>
      simp only [step, hb, Option.some.injEq] at h
      exact Or.inr (Or.inr (Or.inr ⟨i, b, rfl, hb, h.symm⟩))

theorem builders_prefix {w w' : World σ} {tr : List (Event ρ)}
    (h : Run.exec (step A log) w tr = some w') : w.builders <+: w'.builders := by
  refine Run.exec_mono (R := fun w w' : World σ => w.builders <+: w'.builders)
    (fun _ => List.prefix_rfl) (fun _ _ _ => List.IsPrefix.trans) (fun w e w' hstep => ?_) h
  rcases step_cases hstep with ⟨strm, -, -, rfl⟩ | ⟨m, d, -, rfl⟩ | ⟨s, b, -, -, rfl⟩ |
    ⟨i, b, -, -, rfl⟩
  · exact List.prefix_rfl
  · exact List.prefix_rfl
  · exact List.prefix_append _ _
  · exact List.prefix_rfl

/-- The `i`-th builder of a state has the log id and the membership of the state it was taken
in. -/
theorem builder_of_takenIn {w₀ w₁ w : World σ} {tr : List (Event ρ)} {i : ℕ} {b : SnapshotBuilder}
    (htaken : TakenIn A log w₀ tr i w₁) (hrun : Run.exec (step A log) w₀ tr = some w)
    (hb : w.builders[i]? = some b) :
    b.lastAppliedLog = w₁.store.stateMachine.lastAppliedLog ∧
      b.lastMembership = w₁.store.stateMachine.lastMembership := by
  obtain ⟨t, t', rfl, ht, rfl⟩ := htaken
  obtain ⟨w₁', ht', hrest⟩ := Run.exec_append_eq_some.1 hrun
  cases ht.symm.trans ht'
  obtain ⟨w₂, hget, hrest⟩ := Run.exec_cons_eq_some.1 hrest
  rcases step_cases hget with ⟨_, he, _⟩ | ⟨_, _, he, _⟩ | ⟨s, b', -, hsb, rfl⟩ | ⟨_, _, he, _⟩
  · cases he
  · cases he
  · -- the clone is the last builder then, and stays at its place
    obtain ⟨more, hmore⟩ := builders_prefix hrest
    simp only at hmore
    rw [← hmore, List.append_assoc, List.getElem?_append_right (Nat.le_refl _), Nat.sub_self] at hb
    cases hb
    exact (getSnapshotBuilder_ok hsb).2
  · cases he

theorem exists_takenIn {w₀ w : World σ} {tr : List (Event ρ)} (h₀ : w₀.builders = [])
    (hrun : Run.exec (step A log) w₀ tr = some w) {i : ℕ} (hi : i < w.builders.length) :
    ∃ w₁, TakenIn A log w₀ tr i w₁ := by
  refine Run.exec_induction
    (motive := fun tr w => i < w.builders.length → ∃ w₁, TakenIn A log w₀ tr i w₁)
    (fun hi => ?_) (fun tr w e w' hrun ih hstep hi => ?_) tr w hrun hi
  · rw [h₀] at hi
    exact absurd hi (Nat.not_lt_zero i)
  · by_cases hold : i < w.builders.length
    · obtain ⟨w₁, t, t', rfl, ht, hlen⟩ := ih hold
      exact ⟨w₁, t, t' ++ [e], by simp, ht, hlen⟩
    · -- a new builder: this step took it
      rcases step_cases hstep with ⟨strm, -, -, rfl⟩ | ⟨m, d, -, rfl⟩ | ⟨s, b, rfl, -, rfl⟩ |
        ⟨j, b, -, -, rfl⟩
      · exact absurd hi hold
      · exact absurd hi hold
      · simp only [List.length_append, List.length_singleton] at hi
        exact ⟨w, tr, [], rfl, hrun, by omega⟩
      · exact absurd hi hold

/-! ### Snapshots of their own meta -/

section Exact

/-- Every snapshot that a build of the run returns is stored, and is one of its own meta. -/
def BuildsExact (A : ApplicationStateMachine σ Req Resp Snap) (log : ReferenceLog Req)
    (w₀ : World σ) (tr : List (Event ρ)) : Prop :=
  ∀ t i b w snap, BuildsIn A log w₀ tr t i b w →
    (buildSnapshot A b w.store.stateMachine.applicationData).result = .ok snap →
    (StoredSnapshot.mk snap.snapshotMeta snap.snapshot).Exact A log ∧
      getCurrentSnapshot_ ((buildSnapshot A b w.store.stateMachine.applicationData).run w.db) =
        some ⟨snap.snapshotMeta, snap.snapshot⟩

/-- No builder finds other application data than there was when it was taken: whatever was
applied or installed in between has left the application data as it was. -/
def Undisturbed (A : ApplicationStateMachine σ Req Resp Snap) (log : ReferenceLog Req)
    (w₀ : World σ) (tr : List (Event ρ)) : Prop :=
  ∀ t i b w w₁, BuildsIn A log w₀ tr t i b w → TakenIn A log w₀ t i w₁ →
    Exportable A b w.store.stateMachine.applicationData →
    w.store.stateMachine.applicationData = w₁.store.stateMachine.applicationData

/-- Every snapshot installed in the run is exact. -/
def InstallsExact (A : ApplicationStateMachine σ Req Resp Snap) (log : ReferenceLog Req)
    (tr : List (Event ρ)) : Prop :=
  ∀ snapshotMeta data, .install snapshotMeta data ∈ tr →
    (StoredSnapshot.mk snapshotMeta data).Exact A log

variable [LawfulOpenraft] [LawfulSerde Req]

/-- The store stays at the log: only the builders can fall behind it. -/
theorem atLog_of_run {w₀ w : World σ} {tr : List (Event ρ)}
    (h₀ : AtLog A log w₀.store.stateMachine) (hinst : InstallsExact A log tr)
    (hrun : Run.exec (step A log) w₀ tr = some w) : AtLog A log w.store.stateMachine := by
  refine Run.exec_induction
    (motive := fun tr w => InstallsExact A log tr → AtLog A log w.store.stateMachine)
    (fun _ => h₀) (fun tr w e w' _ ih hstep hinst => ?_) tr w hrun hinst
  have hat := ih fun m d hmem => hinst m d (List.mem_append_left [e] hmem)
  rcases step_cases hstep with ⟨strm, -, hnext, rfl⟩ | ⟨m, d, rfl, rfl⟩ | ⟨s, b, -, hsb, rfl⟩ |
    ⟨i, b, -, -, rfl⟩
  · exact (atLog_apply hat hnext).1
  · obtain ⟨x, hx, hatx⟩ := hinst m d (by simp)
    simp only [installSnapshot_of_import hx]
    exact hatx
  · simp only [(getSnapshotBuilder_ok hsb).1]
    exact hat
  · exact hat

variable [LawfulSerde Snap] [LawfulSerde StoredSnapshot]

/-- **The snapshots built in a run are snapshots of their own meta if and only if no builder
finds other application data than there was when it was taken.** -/
theorem builds_exact_iff (hA : A.RoundTrips) {db₀ : Db} (hdb₀ : HoldsExact A log db₀)
    {w₀ : World σ} (hopen : opens A db₀ w₀) {tr : List (Event ρ)}
    (hinst : InstallsExact A log tr) :
    BuildsExact A log w₀ tr ↔ Undisturbed A log w₀ tr := by
  obtain ⟨hnew, -, hnone⟩ := hopen
  obtain ⟨s, hs, hat₀, -⟩ := new_of_holdsExact hdb₀
  cases hnew.symm.trans hs
  -- the state a builder was taken in is at the log, and the builder has its log id
  have htakenAt : ∀ {t t' i w₁}, tr = t ++ t' → TakenIn A log w₀ t i w₁ →
      AtLog A log w₁.store.stateMachine := by
    rintro t t' i w₁ rfl ⟨u, u', rfl, hu, -⟩
    exact atLog_of_run hat₀ (fun m d hmem => hinst m d (by simp [hmem])) hu
  constructor
  · rintro hexact t i b w₂ w₁ hbuild htaken hexp
    have hbuild' := hbuild
    obtain ⟨⟨t', ht'⟩, ht, hb⟩ := hbuild
    have hat₁ := htakenAt ht' htaken
    obtain ⟨hlast, -⟩ := builder_of_takenIn htaken ht hb
    rcases buildSnapshot_cases hA b w₂.store.stateMachine.applicationData with
      ⟨-, data, himp, hser, hio⟩ | ⟨hnot, -⟩
    · obtain ⟨⟨x, hx, hatx⟩, -⟩ := hexact t i b w₂ _ hbuild' (by rw [hio])
      rw [himp] at hx
      cases hx
      -- both are the fold up to the builder's log id
      have hsnap := congrArg StateMachineData.applicationData hatx
      have hstore := congrArg StateMachineData.applicationData hat₁
      simp only [builderMeta, hlast] at hsnap
      rw [hsnap, hstore]
    · exact absurd hexp hnot
  · rintro hund t i b w₂ snap hbuild hok
    have hbuild' := hbuild
    obtain ⟨⟨t', ht'⟩, ht, hb⟩ := hbuild
    obtain ⟨w₁, htaken⟩ := exists_takenIn hnone ht (List.getElem?_eq_some_iff.1 hb).1
    have hat₁ := htakenAt ht' htaken
    obtain ⟨hlast, hmem⟩ := builder_of_takenIn htaken ht hb
    rcases buildSnapshot_cases hA b w₂.store.stateMachine.applicationData with
      ⟨hexp, data, himp, hser, hio⟩ | ⟨-, e, hio⟩
    · rw [hio] at hok ⊢
      cases hok
      refine ⟨⟨_, himp, ?_⟩, getCurrentSnapshot_putSnapshot w₂.db hser⟩
      rw [hund t i b w₂ w₁ hbuild' htaken hexp]
      simp only [builderMeta, hlast, hmem]
      exact hat₁
    · rw [hio] at hok
      cases hok

end Exact

/-! ### The stored snapshot -/

section Stored

/-- From one state of the run to a later one the stored snapshot does not go backwards. -/
def NeverGoesBack (A : ApplicationStateMachine σ Req Resp Snap) (log : ReferenceLog Req)
    (w₀ : World σ) (tr : List (Event ρ)) : Prop :=
  ∀ t u t' w w', tr = t ++ (u ++ t') → Run.exec (step A log) w₀ t = some w →
    Run.exec (step A log) w u = some w' → storedLogId w.db ≤ storedLogId w'.db

/-- No builder finds a stored snapshot that is newer than what the store had applied when the
builder was taken: none such was installed or built in between. -/
def NoneNewerStored (A : ApplicationStateMachine σ Req Resp Snap) (log : ReferenceLog Req)
    (w₀ : World σ) (tr : List (Event ρ)) : Prop :=
  ∀ t i b w w₁, BuildsIn A log w₀ tr t i b w → TakenIn A log w₀ t i w₁ →
    Exportable A b w.store.stateMachine.applicationData →
    storedLogId w.db ≤ some w₁.store.stateMachine.lastAppliedLog

/-- Every snapshot installed in the run is for a log id not below the last applied one. -/
def InstallsForward (A : ApplicationStateMachine σ Req Resp Snap) (log : ReferenceLog Req)
    (w₀ : World σ) (tr : List (Event ρ)) : Prop :=
  ∀ t t' snapshotMeta data w, tr = t ++ .install snapshotMeta data :: t' →
    Run.exec (step A log) w₀ t = some w →
    w.store.stateMachine.lastAppliedLog ≤ snapshotMeta.lastLogId

omit [BuildProfile] [Openraft] [Serde Req] [Serde Snap] in
theorem storedLogId_putSnapshot [LawfulSerde StoredSnapshot] (db : Db) {snap : StoredSnapshot}
    (h : Serializes snap) :
    storedLogId (db.write (putSnapshot snap)) = some snap.snapshotMeta.lastLogId := by
  rw [storedLogId, getCurrentSnapshot_putSnapshot db h, Option.map_some]

omit [BuildProfile] [Openraft] [Serde Req] in
theorem installSnapshot_cases (s : StateMachineStore σ) (snapshotMeta : SnapshotMeta)
    (data : Bytes) (db : Db) :
    (installSnapshot A s snapshotMeta data).1.stateMachine.lastAppliedLog =
        snapshotMeta.lastLogId ∧
      ((installSnapshot A s snapshotMeta data).2.run db = db ∨
        Serializes (⟨snapshotMeta, data⟩ : StoredSnapshot) ∧
          (installSnapshot A s snapshotMeta data).2.run db =
            db.write (putSnapshot ⟨snapshotMeta, data⟩)) := by
  cases himp : importData A data with
  | error e =>
    refine ⟨by simp [installSnapshot, updateStateMachine_, himp], Or.inl ?_⟩
    simp only [installSnapshot, updateStateMachine_, himp]
    rfl
  | ok x =>
    rw [installSnapshot_of_import himp]
    refine ⟨rfl, ?_⟩
    by_cases hser : Serializes (⟨snapshotMeta, data⟩ : StoredSnapshot)
    · exact Or.inr ⟨hser, by rw [setCurrentSnapshot_io hser]; rfl⟩
    · obtain ⟨e, he⟩ := setCurrentSnapshot_fails hser
      exact Or.inl (by rw [he]; rfl)

omit [BuildProfile] [Serde Snap] [Serde StoredSnapshot] in
theorem apply_lastAppliedLog (sm : StateMachineData σ)
    (strm : List (Except IoError (Pb.Entry × Option ρ))) :
    (apply A sm strm).stateMachine.lastAppliedLog = sm.lastAppliedLog ∨
      ∃ e ∈ delivered strm, (apply A sm strm).stateMachine.lastAppliedLog =
        some (RaftEntry.logId e) := by
  induction strm generalizing sm with
  | nil => exact Or.inl rfl
  | cons item strm ih =>
    rcases item with err | ⟨e, response⟩
    · exact Or.inl rfl
    · right
      have hid : (applyEntry A sm e).1.lastAppliedLog = some (RaftEntry.logId e) := by
        simp only [applyEntry]
        split
        · split
          · rfl
          · split <;> rfl
        · split
          · split <;> rfl
          · rfl
      cases happ : applyEntry A sm e with
      | mk sm' r =>
        rw [happ] at hid
        cases r with
        | error err => exact ⟨e, List.mem_cons_self, by simpa [apply, happ] using hid⟩
        | ok value =>
          rcases ih sm' with hsame | ⟨e', he', hlast⟩
          · exact ⟨e, List.mem_cons_self, by simpa [apply, happ, hsame] using hid⟩
          · exact ⟨e', List.mem_cons_of_mem e he', by simpa [apply, happ] using hlast⟩

/-- The stored snapshot and the builders are not ahead of the store. -/
structure Behind (w : World σ) : Prop where
  stored : storedLogId w.db ≤ some w.store.stateMachine.lastAppliedLog
  builders : ∀ b ∈ w.builders, b.lastAppliedLog ≤ w.store.stateMachine.lastAppliedLog

variable [LawfulSerde Snap] [LawfulSerde StoredSnapshot]

/-- **What a step does to the stored snapshot**: if it puts one, the log id is that of the meta
installed or of the builder. -/
theorem behind_step (hA : A.RoundTrips) {w w' : World σ} {e : Event ρ} (h : Behind w)
    (hforward : ∀ m d, e = .install m d → w.store.stateMachine.lastAppliedLog ≤ m.lastLogId)
    (hstep : step A log w e = some w') :
    Behind w' ∧ (storedLogId w.db ≤ storedLogId w'.db ∨
      ∃ i b, e = .buildSnapshot i ∧ w.builders[i]? = some b ∧
        Exportable A b w.store.stateMachine.applicationData ∧
        storedLogId w'.db = some b.lastAppliedLog) := by
  rcases step_cases hstep with ⟨strm, -, hnext, rfl⟩ | ⟨m, d, rfl, rfl⟩ | ⟨s, b, -, hsb, rfl⟩ |
    ⟨i, b, rfl, hb, rfl⟩
  · -- the entries delivered are after the last applied one
    have hle : w.store.stateMachine.lastAppliedLog ≤
        (apply A w.store.stateMachine strm).stateMachine.lastAppliedLog := by
      rcases apply_lastAppliedLog (A := A) w.store.stateMachine strm with hsame | ⟨e, he, hlast⟩
      · exact hsame.ge
      · rw [hlast]
        exact (Ascending.mem_above.1 (hnext.subset he)).2.le
    exact ⟨⟨h.stored.trans (Option.some_le_some.2 hle), fun b hb => (h.builders b hb).trans hle⟩,
      Or.inl le_rfl⟩
  · have hle := hforward m d rfl
    obtain ⟨hlast, hrun⟩ := installSnapshot_cases (A := A) w.store m d w.db
    have hstored : storedLogId w.db ≤ some m.lastLogId :=
      h.stored.trans (Option.some_le_some.2 hle)
    refine ⟨⟨?_, fun b hb => ?_⟩, Or.inl ?_⟩
    · simp only [hlast]
      rcases hrun with hrun | ⟨hser, hrun⟩
      · rw [hrun]; exact hstored
      · rw [hrun, storedLogId_putSnapshot w.db hser]
    · simp only [hlast]
      exact (h.builders b hb).trans hle
    · simp only
      rcases hrun with hrun | ⟨hser, hrun⟩
      · rw [hrun]
      · rw [hrun, storedLogId_putSnapshot w.db hser]; exact hstored
  · obtain ⟨hsm, hlast, -⟩ := getSnapshotBuilder_ok hsb
    refine ⟨⟨by simp only [hsm]; exact h.stored, fun b' hb' => ?_⟩, Or.inl le_rfl⟩
    simp only [hsm]
    rcases List.mem_append.1 hb' with hb' | hb'
    · exact h.builders b' hb'
    · rw [List.mem_singleton.1 hb', hlast]
  · have hle := h.builders b (List.mem_of_getElem? hb)
    rcases buildSnapshot_cases hA b w.store.stateMachine.applicationData with
      ⟨hexp, data, -, hser, hio⟩ | ⟨-, e, hio⟩
    · have hput : storedLogId ((buildSnapshot A b w.store.stateMachine.applicationData).run w.db) =
          some b.lastAppliedLog := by
        rw [hio]
        exact storedLogId_putSnapshot w.db hser
      refine ⟨⟨?_, h.builders⟩, Or.inr ⟨i, b, rfl, hb, hexp, hput⟩⟩
      simp only [hput]
      exact Option.some_le_some.2 hle
    · have hsame : (buildSnapshot A b w.store.stateMachine.applicationData).run w.db = w.db := by
        rw [hio]; rfl
      exact ⟨⟨by simp only [hsame]; exact h.stored, h.builders⟩,
        Or.inl (by simp only [hsame]; exact le_rfl)⟩

theorem behind_of_run (hA : A.RoundTrips) {w₀ w : World σ} {tr : List (Event ρ)} (h₀ : Behind w₀)
    (hforward : InstallsForward A log w₀ tr) (hrun : Run.exec (step A log) w₀ tr = some w) :
    Behind w := by
  refine Run.exec_induction
    (motive := fun tr w => InstallsForward A log w₀ tr → Behind w)
    (fun _ => h₀) (fun tr w e w' hrun ih hstep hforward => ?_) tr w hrun hforward
  have hbehind := ih fun t t' m d v ht hv => hforward t (t' ++ [e]) m d v (by simp [ht]) hv
  exact (behind_step hA hbehind (fun m d he => hforward tr [] m d w (by rw [he]) hrun) hstep).1

omit [BuildProfile] [Openraft] [Serde Req] [LawfulSerde Snap] [LawfulSerde StoredSnapshot] in
/-- A database just opened is not ahead of the store: the log id comes from the snapshot. -/
theorem behind_of_opens {db₀ : Db} {w₀ : World σ} (h : opens A db₀ w₀) : Behind w₀ := by
  obtain ⟨hnew, hdb, hnone⟩ := h
  refine ⟨?_, fun b hb => absurd hb (by rw [hnone]; exact List.not_mem_nil)⟩
  rw [hdb]
  cases hsnap : getCurrentSnapshot_ db₀ with
  | none => rw [storedLogId, hsnap]; exact Option.none_le
  | some snap =>
    rw [storedLogId, hsnap, Option.map_some]
    cases himp : importData A snap.data with
    | error e => simp [StateMachineStore.new, hsnap, updateStateMachine_, himp] at hnew
    | ok x =>
      rw [new_of_import hsnap himp] at hnew
      rw [← Except.ok.inj hnew]

/-- **The stored snapshot never goes backwards in a run if and only if no builder finds a newer
one stored** than what the store had applied when the builder was taken. -/
theorem storedLogId_mono_iff (hA : A.RoundTrips) {db₀ : Db} {w₀ : World σ}
    (hopen : opens A db₀ w₀) {tr : List (Event ρ)} (hforward : InstallsForward A log w₀ tr) :
    NeverGoesBack A log w₀ tr ↔ NoneNewerStored A log w₀ tr := by
  have hbehind : ∀ {t t' v}, tr = t ++ t' → Run.exec (step A log) w₀ t = some v → Behind v :=
    fun {t t' v} ht hv => behind_of_run hA (behind_of_opens hopen)
      (fun u u' m d z hu hz => hforward u (u' ++ t') m d z (by simp [ht, hu]) hz) hv
  constructor
  · intro hmono t i b w₂ w₁ hbuild htaken hexp
    obtain ⟨⟨t', ht'⟩, ht, hb⟩ := hbuild
    obtain ⟨hlast, -⟩ := builder_of_takenIn htaken ht hb
    have hstep : step A log w₂ (.buildSnapshot i : Event ρ) = some { w₂ with
        db := (buildSnapshot A b w₂.store.stateMachine.applicationData).run w₂.db } := by
      simp only [step, hb]
    have hle := hmono t [.buildSnapshot i] t' w₂ _ (by simp [ht']) ht
      (by rw [Run.exec_cons, hstep]; rfl)
    rcases buildSnapshot_cases hA b w₂.store.stateMachine.applicationData with
      ⟨-, data, -, hser, hio⟩ | ⟨hnot, -⟩
    · rw [hio] at hle
      rw [← hlast]
      exact hle.trans (storedLogId_putSnapshot w₂.db hser).le
    · exact absurd hexp hnot
  · intro hnewer t u t' v v' hsplit ht hu
    -- step by step through `u`
    induction u generalizing t v with
    | nil => cases hu; exact le_rfl
    | cons e u ih =>
      obtain ⟨v₁, hstep, hu⟩ := Run.exec_cons_eq_some.1 hu
      have ht₁ : Run.exec (step A log) w₀ (t ++ [e]) = some v₁ :=
        Run.exec_snoc_eq_some.2 ⟨v, ht, hstep⟩
      refine le_trans ?_ (ih (t ++ [e]) v₁ (by simp [hsplit]) ht₁ hu)
      have hforward' : ∀ m d, e = .install m d →
          v.store.stateMachine.lastAppliedLog ≤ m.lastLogId := by
        rintro m d rfl
        exact hforward t (u ++ t') m d v (by simp [hsplit]) ht
      obtain ⟨-, hle | ⟨i, b, rfl, hb, hexp, hput⟩⟩ :=
        behind_step hA (hbehind hsplit ht) hforward' hstep
      · exact hle
      · obtain ⟨w₁, htaken⟩ := exists_takenIn hopen.2.2 ht (List.getElem?_eq_some_iff.1 hb).1
        rw [hput, (builder_of_takenIn htaken ht hb).1]
        exact hnewer t i b v w₁ ⟨⟨u ++ t', by simp [hsplit]⟩, ht, hb⟩ htaken hexp

end Stored

end World

/-! ### Runs of the counter -/

namespace World

open scoped Counter

/-- The counter's store on a database just created. -/
def fresh : World ℕ := ⟨⟨⟨none, .default, 0⟩, 0⟩, Db.empty, []⟩

/-- Two entries are applied, and a snapshot is built. -/
def plainBuild : List (Event Unit) :=
  [.apply (unanswered Unit (Counter.entries.take 2)), .getSnapshotBuilder, .buildSnapshot 0]

/-- The builder finds the state that there was when it was taken, so what it builds is exact. -/
theorem plainBuild_exact : BuildsExact counter Counter.log fresh plainBuild := by
  have hinst : InstallsExact counter Counter.log plainBuild := by
    simp [InstallsExact, plainBuild]
  refine (builds_exact_iff counter_roundTrips holdsExact_empty ⟨rfl, rfl, rfl⟩ hinst).2 ?_
  rintro t i b w w₁ ⟨⟨t', ht⟩, hw, -⟩ ⟨u, u', hu, hw₁, -⟩ -
  obtain ⟨n, hn, hbuild, rfl⟩ := Run.exists_index ht
  change n < 3 at hn
  obtain rfl : n = 2 := by interval_cases n <;> first | rfl | cases hbuild
  obtain ⟨n, hn, htaken, rfl⟩ := Run.exists_index hu
  change n < 2 at hn
  obtain rfl : n = 1 := by interval_cases n <;> first | rfl | cases htaken
  have hdata : (Run.exec (step counter Counter.log) fresh (plainBuild.take 2)).map
      (fun w => w.store.stateMachine.applicationData) = some 5 := rfl
  have hdata₁ : (Run.exec (step counter Counter.log) fresh ((plainBuild.take 2).take 1)).map
      (fun w => w.store.stateMachine.applicationData) = some 5 := rfl
  rw [hw] at hdata
  rw [hw₁] at hdata₁
  exact (Option.some.inj hdata).trans (Option.some.inj hdata₁).symm

/-- An entry is applied between the two steps of a build. -/
def lateBuild : List (Event Unit) :=
  [.apply (unanswered Unit (Counter.entries.take 1)), .getSnapshotBuilder,
    .apply (unanswered Unit ((Counter.entries.drop 1).take 1)), .buildSnapshot 0]

/-- The snapshot built contains the entry, and its meta says it does not. -/
theorem lateBuild_inexact :
    counter.RoundTrips ∧ LawfulSerde ℕ ∧ LawfulSerde StoredSnapshot ∧
      HoldsExact counter Counter.log Db.empty ∧ opens counter Db.empty fresh ∧
      InstallsExact counter Counter.log lateBuild ∧
      ¬ BuildsExact counter Counter.log fresh lateBuild := by
  refine ⟨counter_roundTrips, inferInstance, inferInstance, holdsExact_empty, ⟨rfl, rfl, rfl⟩,
    by simp [InstallsExact, lateBuild], fun h => ?_⟩
  obtain ⟨⟨x, hx, hat⟩, -⟩ := h (lateBuild.take 3) 0
    ⟨some ⟨1, 0⟩, ⟨some ⟨1, 0⟩, Counter.cluster⟩, 1⟩ _ ⟨_, ascii "5"⟩ ⟨⟨[], rfl⟩, rfl, rfl⟩ rfl
  obtain rfl : x = 5 := (Except.ok.inj hx).symm
  -- up to the log id of the meta, the sum is zero
  have hsum := congrArg StateMachineData.applicationData hat
  cases hsum

/-- What is stored after the events of a run. -/
def storedAfter (tr : List (Event Unit)) : Option (Option (Option LogId)) :=
  (Run.exec (step counter Counter.log) fresh tr).map fun w => storedLogId w.db

/-- The builder finds no snapshot stored, so the stored one does not go backwards. -/
theorem plainBuild_forward : NeverGoesBack counter Counter.log fresh plainBuild := by
  have hforward : InstallsForward counter Counter.log fresh plainBuild := by
    rintro t t' m d w ht -
    obtain ⟨n, hn, hinst, -⟩ := Run.exists_index ht
    change n < 3 at hn
    interval_cases n <;> cases hinst
  refine (storedLogId_mono_iff counter_roundTrips ⟨rfl, rfl, rfl⟩ hforward).2 ?_
  rintro t i b w w₁ ⟨⟨t', ht⟩, hw, -⟩ - -
  obtain ⟨n, hn, hbuild, rfl⟩ := Run.exists_index ht
  change n < 3 at hn
  obtain rfl : n = 2 := by interval_cases n <;> first | rfl | cases hbuild
  have hstored : storedAfter (plainBuild.take 2) = some none := rfl
  rw [storedAfter, hw] at hstored
  have hnone : storedLogId w.db = none := Option.some.inj hstored
  rw [hnone]
  exact Option.none_le

/-- A newer snapshot is installed between the two steps of a build. -/
def overtakenBuild : List (Event Unit) :=
  [.apply (unanswered Unit (Counter.entries.take 1)), .getSnapshotBuilder,
    .install (Counter.snapshotAt 2 "1-2-1" (ascii "12")).snapshotMeta (ascii "12"),
    .buildSnapshot 0]

set_option maxRecDepth 8000 in
/-- The older snapshot replaces the newer one. -/
theorem overtakenBuild_back :
    counter.RoundTrips ∧ LawfulSerde ℕ ∧ LawfulSerde StoredSnapshot ∧
      opens counter Db.empty fresh ∧ InstallsForward counter Counter.log fresh overtakenBuild ∧
      ¬ NeverGoesBack counter Counter.log fresh overtakenBuild := by
  refine ⟨counter_roundTrips, inferInstance, inferInstance, ⟨rfl, rfl, rfl⟩, ?_, fun h => ?_⟩
  · rintro t t' m d w ht hw
    obtain ⟨n, hn, hinst, rfl⟩ := Run.exists_index ht
    change n < 4 at hn
    obtain rfl : n = 2 := by interval_cases n <;> first | rfl | cases hinst
    cases hinst
    have hlast : (Run.exec (step counter Counter.log) fresh (overtakenBuild.take 2)).map
        (fun w => w.store.stateMachine.lastAppliedLog) = some (some ⟨1, 0⟩) := rfl
    rw [hw] at hlast
    have hat : w.store.stateMachine.lastAppliedLog = some ⟨1, 0⟩ := Option.some.inj hlast
    rw [hat]
    decide
  · have hlast : storedAfter (overtakenBuild.take 3 ++ [.buildSnapshot 0]) =
        some (some (some ⟨1, 0⟩)) := by decide +kernel
    have hbefore : storedAfter (overtakenBuild.take 3) = some (some (some ⟨1, 2⟩)) := rfl
    obtain ⟨w', hrun, hstored'⟩ := Option.map_eq_some_iff.1 hlast
    obtain ⟨w, hw, hbuild⟩ := Run.exec_append_eq_some.1 hrun
    rw [storedAfter, hw] at hbefore
    have hstored : storedLogId w.db = some (some ⟨1, 2⟩) := Option.some.inj hbefore
    have hle := h (overtakenBuild.take 3) [.buildSnapshot 0] [] w w' rfl hw hbuild
    rw [hstored, hstored'] at hle
    exact absurd hle (by decide)

end World

end RaftService
