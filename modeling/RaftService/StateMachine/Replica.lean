import RaftService.Counter
import RaftService.StateMachine.Snapshot

/-!
# Replicas of one log agree with the reference fold

A replica applies the entries it has not applied yet, in batches cut anywhere; builds snapshots;
is restarted from its database; and installs snapshots that another replica of the same log
built. Whatever mixture of these it goes through, its state is the fold of the log up to the
entry that `applied_state` reports (`replicas_agree_with_fold`).

The invariant ties the memory and the database to the log separately: the memory is the replay of
a prefix, and the stored snapshot, if any, is exact. A restart falls back to the snapshot's
prefix, which may be a shorter one.
-/

namespace RaftService

variable {σ Req Resp Snap ρ : Type}

open StateMachineStore

/-! ### The membership of a list of entries -/

section Membership

variable [Openraft]

/-- The membership of an entry, if `get_membership` is `Some`, with the entry's log id. -/
def Pb.Entry.storedMembership? (e : Pb.Entry) : Option StoredMembership :=
  match e.getMembership with
  | .ok (some m) => some ⟨some (RaftEntry.logId e), m⟩
  | _ => none

/-- The last membership among the entries; the default one when there is none. -/
def lastMembershipIn (es : List Pb.Entry) : StoredMembership :=
  (es.reverse.findSome? Pb.Entry.storedMembership?).getD .default

/-- `get_membership` of an entry made by `RaftEntry::new` is the membership of the payload. -/
theorem getMembership_of_new [LawfulOpenraft] [Serde Req] {p : Proposal Req} {e : Pb.Entry}
    (h : Pb.Entry.new p.1 p.2 = .ok e) (hvalid : ∀ m, p.2 = .membership m → m.Valid) :
    e.getMembership = .ok p.2.membership? := by
  obtain ⟨id, payload⟩ := p
  obtain ⟨-, hcases⟩ := Pb.Entry.new_cases h
  simp only at hcases hvalid
  rcases hcases with ⟨rfl, -, hmem⟩ | ⟨r, b, rfl, -, -, hmem⟩ | ⟨m, rfl, -, hmem⟩
  · simp [Pb.Entry.getMembership, hmem, EntryPayload.membership?]
  · simp [Pb.Entry.getMembership, hmem, EntryPayload.membership?]
  · simp [Pb.Entry.getMembership, hmem, EntryPayload.membership?,
      Membership.ofPb_toPb (hvalid m rfl)]

/-- Read off the entries, the last membership is that of the proposals. -/
theorem lastMembershipIn_eq [LawfulOpenraft] [Serde Req] {ps : List (Proposal Req)}
    {es : List Pb.Entry} (h : List.Forall₂ (fun p e => Pb.Entry.new p.1 p.2 = .ok e) ps es)
    (hvalid : ∀ p ∈ ps, ∀ m, p.2 = .membership m → m.Valid) :
    lastMembershipIn es = lastMembershipOf ps := by
  unfold lastMembershipIn lastMembershipOf
  congr 1
  -- both searches run over the reversed lists in step
  have hrev := List.rel_reverse h
  have hvalid' : ∀ p ∈ ps.reverse, ∀ m, p.2 = .membership m → m.Valid := fun p hp =>
    hvalid p (List.mem_reverse.1 hp)
  generalize ps.reverse = qs, es.reverse = fs at hrev hvalid'
  induction hrev with
  | nil => rfl
  | @cons p e qs fs hpe _ ih =>
    have hhead : e.storedMembership? = p.2.membership?.map (StoredMembership.mk (some p.1)) := by
      rw [Pb.Entry.storedMembership?, getMembership_of_new hpe (hvalid' p List.mem_cons_self),
        (Pb.Entry.new_cases hpe).1]
      cases p.2.membership? <;> rfl
    rw [List.findSome?_cons, List.findSome?_cons, hhead,
      ih fun q hq => hvalid' q (List.mem_cons_of_mem p hq)]

end Membership

/-! ### Replicas -/

/-- A node's state machine store and its database. -/
structure Replica (σ : Type) where
  store : StateMachineStore σ
  db : Db

namespace Replica

/-- The last log id that `applied_state` reports. -/
def lastApplied (r : Replica σ) : Option LogId := (appliedState r.store).1

variable [BuildProfile] [Openraft] [Serde Req] [Serde Snap] [Serde StoredSnapshot]

/-- The replicas of a log, by the steps that lead to them; no step fails. -/
inductive Reachable (ρ : Type) (A : ApplicationStateMachine σ Req Resp Snap)
    (log : ReferenceLog Req) : Replica σ → Prop
  /-- `new` on a database just created. -/
  | start {s : StateMachineStore σ} (hnew : StateMachineStore.new A Db.empty = .ok s) :
      Reachable ρ A log ⟨s, Db.empty⟩
  /-- `apply` on a stream of entries not yet applied, the next ones of the log. -/
  | apply {r : Replica σ} (strm : List (Except IoError (Pb.Entry × Option ρ)))
      (h : Reachable ρ A log r) (hnext : delivered strm <+: log.entriesAfter r.lastApplied)
      (hok : (StateMachineStore.apply A r.store.stateMachine strm).result = .ok ()) :
      Reachable ρ A log
        { r with store.stateMachine :=
            (StateMachineStore.apply A r.store.stateMachine strm).stateMachine }
  /-- `get_snapshot_builder`, then at once `build_snapshot`. -/
  | build {r : Replica σ} {s : StateMachineStore σ} {b : SnapshotBuilder} {snap : Snapshot}
      (h : Reachable ρ A log r) (hbuilder : getSnapshotBuilder r.store = .ok (s, b))
      (hok : (buildSnapshot A b s.stateMachine.applicationData).result = .ok snap) :
      Reachable ρ A log ⟨s, (buildSnapshot A b s.stateMachine.applicationData).run r.db⟩
  /-- The process ends and `new_storage` opens its database again. -/
  | restart {r : Replica σ} {s : StateMachineStore σ} (h : Reachable ρ A log r)
      (hnew : newStorage A r.db = .ok s) : Reachable ρ A log ⟨s, r.db⟩
  /-- `install_snapshot` of a snapshot that another replica built. -/
  | install {r r' : Replica σ} {s : StateMachineStore σ} {b : SnapshotBuilder} {snap : Snapshot}
      (h : Reachable ρ A log r) (h' : Reachable ρ A log r')
      (hbuilder : getSnapshotBuilder r'.store = .ok (s, b))
      (hbuilt : (buildSnapshot A b s.stateMachine.applicationData).result = .ok snap)
      (hle : r.lastApplied ≤ snap.snapshotMeta.lastLogId)
      (hok : (installSnapshot A r.store snap.snapshotMeta snap.snapshot).2.result = .ok ()) :
      Reachable ρ A log
        ⟨(installSnapshot A r.store snap.snapshotMeta snap.snapshot).1,
          (installSnapshot A r.store snap.snapshotMeta snap.snapshot).2.run r.db⟩

variable {A : ApplicationStateMachine σ Req Resp Snap} {log : ReferenceLog Req}

/-- The memory is at the log, and so is the stored snapshot. -/
structure Inv (A : ApplicationStateMachine σ Req Resp Snap) (log : ReferenceLog Req)
    (r : Replica σ) : Prop where
  memory : AtLog A log r.store.stateMachine
  stored : HoldsExact A log r.db

variable [LawfulOpenraft] [LawfulSerde Req] [LawfulSerde Snap] [LawfulSerde StoredSnapshot]

/-- Every step keeps the invariant; an installed snapshot is exact because the replica that built
it satisfies the invariant, too. -/
theorem Reachable.inv (hA : A.RoundTrips) {r : Replica σ} (h : Reachable ρ A log r) :
    Inv A log r := by
  induction h with
  | start hnew =>
    rw [new_of_none rfl] at hnew
    cases hnew
    exact ⟨atLog_default, holdsExact_empty⟩
  | apply strm _ hnext _ ih => exact ⟨(atLog_apply ih.memory hnext).1, ih.stored⟩
  | @build r s b snap _ hbuilder hok ih =>
    obtain ⟨hsm, hlast, hmem⟩ := getSnapshotBuilder_ok hbuilder
    rw [hsm] at hok ⊢
    refine ⟨?_, (buildSnapshot_exact hA ih.memory hlast hmem hok r.db).2⟩
    show AtLog A log s.stateMachine
    rw [hsm]
    exact ih.memory
  | restart _ hnew ih =>
    obtain ⟨s, hs, hat, -⟩ := new_of_holdsExact ih.stored
    rw [newStorage, hs] at hnew
    cases hnew
    exact ⟨hat, ih.stored⟩
  | @install r r' s b snap _ _ hbuilder hbuilt _ _ ih ih' =>
    obtain ⟨hsm, hlast, hmem⟩ := getSnapshotBuilder_ok hbuilder
    rw [hsm] at hbuilt
    obtain ⟨hexact, -⟩ := buildSnapshot_exact hA ih'.memory hlast hmem hbuilt r'.db
    obtain ⟨x, hx, hat⟩ := hexact
    rw [installSnapshot_of_import hx]
    exact ⟨hat, holdsExact_setCurrentSnapshot ih.stored ⟨x, hx, hat⟩⟩

/-- **A replica's state is the fold of the log up to the entry it reports.** Whatever `apply`,
builds, restarts and installs led to it, the application state is the fold of the application's
`apply` over the requests up to the last applied log id, in order, from the default; the
membership is the one of the last membership entry up to it; and the log id is one of the log. -/
theorem replicas_agree_with_fold (hA : A.RoundTrips) {r : Replica σ} (h : Reachable ρ A log r)
    {last : Option LogId} {membership : StoredMembership}
    (hstate : appliedState r.store = (last, membership)) :
    last = lastLogIdOf (log.upTo last) ∧
      r.store.stateMachine.applicationData = stateOf A (log.upTo last) ∧
      membership = lastMembershipIn (log.entriesUpTo last) := by
  have hat : r.store.stateMachine = replay A (log.upTo r.store.stateMachine.lastAppliedLog) :=
    (h.inv hA).memory
  obtain ⟨hlast, hmem⟩ := Prod.mk.inj hstate
  rw [hlast] at hat
  have hvalid : ∀ p ∈ log.upTo last, ∀ m, p.2 = .membership m → m.Valid := fun p hp =>
    log.valid p ((log.upTo_prefix last).subset hp)
  refine ⟨?_, ?_, ?_⟩
  · calc last = r.store.stateMachine.lastAppliedLog := hlast.symm
      _ = lastLogIdOf (log.upTo last) := by rw [hat]; rfl
  · rw [hat]; rfl
  · rw [lastMembershipIn_eq (log.encodes_entriesUpTo last) hvalid, ← hmem, hat]; rfl

end Replica

/-! ### A run of the counter -/

namespace Replica

open scoped Counter

/-- The counter's replica on a database just created. -/
def fresh : Replica ℕ := ⟨⟨⟨none, .default, 0⟩, 0⟩, Db.empty⟩

/-- The snapshot of the first two entries. -/
def snapshot : Snapshot := ⟨(Counter.snapshotAt 1 "1-1-1" (ascii "5")).snapshotMeta, ascii "5"⟩

/-- A replica installs the snapshot. -/
def installed : StateMachineStore ℕ × Io Unit :=
  installSnapshot counter fresh.store snapshot.snapshotMeta snapshot.snapshot

/-- What it finds after a restart. -/
def restarted : StateMachineData ℕ := ⟨some ⟨1, 1⟩, ⟨some ⟨1, 0⟩, Counter.cluster⟩, 5⟩

/-- The third entry is applied after the restart. -/
def caughtUp : Replica ℕ :=
  ⟨⟨(StateMachineStore.apply counter restarted
      (unanswered Unit (Counter.entries.drop 2))).stateMachine, 0⟩, installed.2.run fresh.db⟩

set_option maxRecDepth 10000 in
theorem reachable_caughtUp : Reachable Unit counter Counter.log caughtUp := by
  have hfresh : Reachable Unit counter Counter.log fresh := .start rfl
  -- another replica applies two entries and builds the snapshot
  have happlied := hfresh.apply (unanswered Unit (Counter.entries.take 2)) (by decide) rfl
  have hle : fresh.lastApplied ≤ snapshot.snapshotMeta.lastLogId := by decide
  have hinstalled : Reachable Unit counter Counter.log ⟨installed.1, installed.2.run fresh.db⟩ :=
    hfresh.install happlied rfl (rfl : _ = Except.ok snapshot) hle rfl
  have hopened : newStorage counter (installed.2.run fresh.db) = .ok ⟨restarted, 0⟩ := by
    decide +kernel
  exact (hinstalled.restart hopened).apply (unanswered Unit (Counter.entries.drop 2)) (by decide)
    rfl

/-- It has the sum of both requests. -/
theorem caughtUp_agrees : Reachable Unit counter Counter.log caughtUp ∧
    appliedState caughtUp.store = (some ⟨1, 2⟩, ⟨some ⟨1, 0⟩, Counter.cluster⟩) ∧
    caughtUp.store.stateMachine.applicationData = 12 ∧
    some ⟨1, 2⟩ = lastLogIdOf (Counter.log.upTo (some ⟨1, 2⟩)) ∧
    caughtUp.store.stateMachine.applicationData = stateOf counter (Counter.log.upTo (some ⟨1, 2⟩)) ∧
    ⟨some ⟨1, 0⟩, Counter.cluster⟩ = lastMembershipIn (Counter.log.entriesUpTo (some ⟨1, 2⟩)) :=
  ⟨reachable_caughtUp, rfl, rfl,
    replicas_agree_with_fold counter_roundTrips reachable_caughtUp rfl⟩

end Replica

end RaftService
