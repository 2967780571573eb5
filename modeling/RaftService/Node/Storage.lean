import RaftService.Node.Recovery
import RaftService.Node.Reopened

/-!
# The two stores on one database

`new_storage` opens one database for the log store and the state machine store. They share its
write-ahead log: a flush by either one makes the writes of both durable, and a crash cuts both off
at the same write. `Storage` is the log store of `LogNode` beside the state machine store of
`RaftNode`, with all their operations, on one log.

In the columns of the log store it is a `LogNode`, and in that of the snapshots a `RaftNode` that
keeps no log, so it has the invariants of both (`Storage.Inv`). What connects them is that openraft
purges up to snapshots only whose `build_snapshot` or `install_snapshot` has returned.

After a crash both stores are opened again on what it has left, and openraft goes on from what they
answer. What must outlast that is recorded beside them: the snapshots known to be stored, the
entries promised, and the votes that may be the saved one.
-/

namespace RaftService

open RaftEntry (index logId)
open RocksLogStore StateMachineStore

variable {σ Req Resp Snap ρ : Type}

/-! ### The state machine store on a shared log -/

namespace RaftNode

/-- The steps of the state machine store. -/
def Event.ofStore : Event ρ → Bool
  | .apply _ | .build | .install _ _ | .storeNext | .storeRet => true
  | _ => false

/-- A node with some of its columns, and the writes to them only. -/
def only (p : Column → Bool) (s : RaftNode σ) : RaftNode σ :=
  { s with
    base := s.base.only p
    wal := s.wal.only fun w => p w.column }

theorem only_write_of_neg {p : Column → Bool} {s : RaftNode σ} {w : Write}
    (hw : p w.column = false) (hsync : s.wal.synced ≤ s.wal.log.length) :
    ({ s with wal := s.wal.write w } : RaftNode σ).only p = s.only p := by
  have hwal : (s.wal.write w).only (fun w => p w.column) = s.wal.only fun w => p w.column :=
    Wal.only_write_of_neg hw hsync
  simp only [only, hwal]

theorem only_sync {p : Column → Bool} {s : RaftNode σ} (n : ℕ) :
    ({ s with wal := s.wal.sync n } : RaftNode σ).only p =
      { s.only p with wal := (s.only p).wal.sync (s.wal.among (fun w => p w.column) n) } := by
  simp only [only, Wal.only_sync]

/-- The state machine store is about to write to the columns, or to flush. -/
def WritesOnly (p : Column → Bool) (s : RaftNode σ) : Prop :=
  ∀ call rest result, s.storing = some ⟨call :: rest, result⟩ →
    call = .flushWal ∨ ∃ w, call = .write w ∧ p w.column = true

section Shared

variable [BuildProfile] [Openraft] [Serde Req] [Serde Snap] [Serde StoredSnapshot] [Serde Pb.Entry]
  [Serde LogId] {A : ApplicationStateMachine σ Req Resp Snap} {log : ReferenceLog Req}
  {s s' : RaftNode σ} {p : Column → Bool}

/-- **On a shared log, the state machine store steps as it does on its own.** -/
theorem step_only {e : Event ρ} (he : e.ofStore = true) (hsync : s.wal.synced ≤ s.wal.log.length)
    (hwrites : s.WritesOnly p) (hstep : step A log s e = some s') :
    step A log (s.only p) e = some (s'.only p) := by
  cases e with
  | apply strm =>
    simp only [step, Option.ite_none_right_eq_some, Option.some.injEq] at hstep
    obtain ⟨hnext, rfl⟩ := hstep
    exact if_pos hnext
  | build =>
    simp only [step] at hstep ⊢
    split at hstep
    · next store b hidle hbuilder =>
      cases hstep
      simp only [only, hidle, hbuilder]
    · cases hstep
  | install snapshotMeta data =>
    simp only [step, Option.ite_none_right_eq_some, Option.some.injEq] at hstep
    obtain ⟨hnext, rfl⟩ := hstep
    exact if_pos hnext
  | storeNext =>
    simp only [step] at hstep ⊢
    split at hstep
    · next call rest result hstoring =>
      cases hstep
      simp only [only, hstoring]
      rcases hwrites call rest result hstoring with rfl | ⟨w, rfl, hw⟩
      · simp only [perform, Wal.only_sync, Wal.among_length]
      · have hwal : (s.wal.write w).only (fun w => p w.column) =
            (s.wal.only fun w => p w.column).write w := Wal.only_write_of_pos hw hsync
        simp only [perform, hwal]
    · cases hstep
  | storeRet =>
    simp only [step] at hstep ⊢
    split at hstep
    · next l hstoring => cases hstep; simp only [only, hstoring]
    · next err hstoring => cases hstep; simp only [only, hstoring]
    · cases hstep
  | append | purge | logNext | flushStart | flushDone | flushFailed | crash => cases he

/-- What a step of the state machine store does to the rest of the node. -/
theorem shared_of_step {e : Event ρ} (he : e.ofStore = true) (hwrites : s.WritesOnly p)
    (hstep : step A log s e = some s') :
    s'.base = s.base ∧ s'.logCalls = s.logCalls ∧ s'.flushes = s.flushes ∧
      s.returned ⊆ s'.returned ∧
      (s'.wal = s.wal ∨ (∃ w, p w.column = true ∧ s'.wal = s.wal.write w) ∨
        s'.wal = s.wal.sync s.wal.log.length) := by
  cases e with
  | apply strm =>
    simp only [step, Option.ite_none_right_eq_some, Option.some.injEq] at hstep
    obtain ⟨-, rfl⟩ := hstep
    exact ⟨rfl, rfl, rfl, List.Subset.refl _, Or.inl rfl⟩
  | build =>
    simp only [step] at hstep
    split at hstep
    · cases hstep
      exact ⟨rfl, rfl, rfl, List.Subset.refl _, Or.inl rfl⟩
    · cases hstep
  | install snapshotMeta data =>
    simp only [step, Option.ite_none_right_eq_some, Option.some.injEq] at hstep
    obtain ⟨-, rfl⟩ := hstep
    exact ⟨rfl, rfl, rfl, List.Subset.refl _, Or.inl rfl⟩
  | storeNext =>
    simp only [step] at hstep
    split at hstep
    · next call rest result hstoring =>
      cases hstep
      rcases hwrites call rest result hstoring with rfl | ⟨w, rfl, hw⟩
      · exact ⟨rfl, rfl, rfl, List.Subset.refl _, Or.inr (Or.inr rfl)⟩
      · exact ⟨rfl, rfl, rfl, List.Subset.refl _, Or.inr (Or.inl ⟨w, hw, rfl⟩)⟩
    · cases hstep
  | storeRet =>
    simp only [step] at hstep
    split at hstep
    · cases hstep
      exact ⟨rfl, rfl, rfl, List.subset_cons_self _ _, Or.inl rfl⟩
    · cases hstep
      exact ⟨rfl, rfl, rfl, List.Subset.refl _, Or.inl rfl⟩
    · cases hstep
  | append | purge | logNext | flushStart | flushDone | flushFailed | crash => cases he

omit [BuildProfile] [Openraft] in
theorem Inv.syncWal (h : Inv A log s) {n : ℕ} (hn : n ≤ s.wal.log.length) :
    Inv A log { s with wal := s.wal.sync n } :=
  ⟨h.disk.sync hn, h.memory, h.logTodo, fun p hp => (h.storeTodo p hp).sync n⟩

omit [BuildProfile] [Openraft] in
/-- What the state machine store has to do is in its column. -/
theorem Inv.writesOnly (h : Inv A log s) : s.WritesOnly Column.ofStore := by
  intro call rest result hstoring
  have htodo := h.storeTodo _ hstoring
  generalize hp : (⟨call :: rest, result⟩ : Storing) = todo at htodo
  cases htodo with
  | put hser hexact hlast =>
    cases hp
    exact Or.inr ⟨_, rfl, rfl⟩
  | flush hle =>
    cases hp
    exact Or.inl rfl
  | stored hkept => cases hp
  | failed e => cases hp

end Shared

end RaftNode

/-! ### The machine -/

/-- The two stores on one database: what was on disk when it was opened; the log store, with the
write-ahead log that they share; the state machine store and what it is storing; the last log ids
of the snapshots known to be stored; the entries reported as written and not truncated since; and
the votes that may be the saved one. These three go on over crashes. -/
structure Storage (σ : Type) where
  base : Db
  log : LogNode Pb.Entry Pb.Vote
  store : StateMachineStore σ
  storing : Option Storing
  reported : List (Option LogId)
  promised : List Pb.Entry
  saved : List (Option Pb.Vote)

namespace Storage

/-- The contents of the database. -/
def db (s : Storage σ) : Db := s.log.wal.contents Db.write s.base

/-- The state machine store as a node that keeps no log. -/
def storeNode (s : Storage σ) : RaftNode σ :=
  ⟨s.base, s.log.wal, [], [], s.store, s.storing, s.reported⟩

/-- The stores opened on a database that holds the log `a`: its snapshot is stored, its entries
are written and its vote is saved. -/
def opened [Serde StoredSnapshot] (db : Db) (a : RaftLog Pb.Entry Pb.Vote)
    (store : StateMachineStore σ) (reported : List (Option LogId)) (promised : List Pb.Entry) :
    Storage σ :=
  ⟨db, .found a, store, none, snapshotLogId db :: reported, a.entries ++ promised, [a.vote]⟩

/-- The steps of the two stores, and crashes that keep the first `k` writes, after which openraft
goes on from a log. -/
inductive Event (ρ : Type)
  | log (e : LogNode.Event Pb.Entry Pb.Vote)
  | store (e : RaftNode.Event ρ)
  | crash (k : ℕ) (a : RaftLog Pb.Entry Pb.Vote)

/-- A call of `truncate` takes back what was promised, a flush that ends promises more. -/
def promises (s : Storage σ) : LogNode.Event Pb.Entry Pb.Vote → List Pb.Entry
  | .call op => s.promised.filter fun e => op.keeps e
  | .flushDone k => s.log.flushed k ++ s.promised
  | _ => s.promised

/-- From the call of `save_vote` on its vote may be the saved one, from its return on it is. -/
def saves (s : Storage σ) : LogNode.Event Pb.Entry Pb.Vote → List (Option Pb.Vote)
  | .call (.saveVote v) => some v :: s.saved
  | .ret =>
    match s.log.running with
    | some (.saveVote v, _) => [some v]
    | _ => s.saved
  | _ => s.saved

section Machine

variable [BuildProfile] [Openraft] [Serde Req] [Serde Snap] [Serde StoredSnapshot] [Serde Pb.Entry]
  [Serde Pb.Vote] [Serde LogId]

/-- openraft purges the log up to snapshots that are known to be stored. It appends and truncates
at the last log id that `get_log_state` reports: while that is one which a purge should have
deleted, there are only purges and votes. -/
def allows (log : ReferenceLog Req) (s : Storage σ) : LogNode.Event Pb.Entry Pb.Vote → Bool
  | .call (.purge x) =>
    (log.entries.map logId).contains x && s.reported.any fun l => decide (some x ≤ l)
  | .call (.append _) | .call (.truncate _) =>
    decide ((getLogState Pb.Entry s.db).map LogState.lastLogId = .ok s.log.log.lastLogId)
  | _ => true

/-- One step. After a crash the stores are opened on what it has left, and openraft goes on from
the log that they answer. -/
def step (A : ApplicationStateMachine σ Req Resp Snap) (log : ReferenceLog Req) (s : Storage σ) :
    Event ρ → Option (Storage σ)
  | .log e =>
    if allows log s e then
      (s.log.step e).map fun l => { s with log := l, promised := s.promises e, saved := s.saves e }
    else none
  | .store e =>
    if e.ofStore then
      (RaftNode.step A log s.storeNode e).map fun n =>
        { s with
          log.wal := n.wal
          store := n.store
          storing := n.storing
          reported := n.returned }
    else none
  | .crash k a =>
    if s.log.wal.synced ≤ k ∧ k ≤ s.log.wal.log.length ∧
        a.ReadBack (s.log.wal.contentsAt Db.write s.base k) then
      match newStorage A (s.log.wal.contentsAt Db.write s.base k) with
      | .ok store =>
        some (opened (s.log.wal.contentsAt Db.write s.base k) a store s.reported s.promised)
      | .error _ => none
    else none

end Machine

/-! ### The invariant -/

section Invariant

variable [Serde Req] [Serde LogId]

/-- The last purged log id is one of the log, not below the index `first`, and not above a
snapshot known to be stored. -/
def PurgedBelow (log : ReferenceLog Req) (reported : List (Option LogId)) (first : UInt64)
    (c : Db) : Prop :=
  ∃ lp, getMeta c .lastPurged = .ok lp ∧ log.Has lp ∧ first.toNat ≤ nextIndex lp ∧
    ∃ l ∈ reported, lp ≤ l

theorem PurgedBelow.of_eq {log : ReferenceLog Req} {reported : List (Option LogId)}
    {first : UInt64} {c c' : Db} (h : PurgedBelow log reported first c)
    (heq : getMeta c' .lastPurged = getMeta c .lastPurged) : PurgedBelow log reported first c' := by
  unfold PurgedBelow
  rw [heq]
  exact h

theorem PurgedBelow.mono {log : ReferenceLog Req} {reported reported' : List (Option LogId)}
    {first : UInt64} {c : Db} (h : PurgedBelow log reported first c)
    (hsub : reported ⊆ reported') : PurgedBelow log reported' first c := by
  obtain ⟨lp, hlp, hhas, hfirst, l, hl, hle⟩ := h
  exact ⟨lp, hlp, hhas, hfirst, l, hsub hl, hle⟩

variable [BuildProfile] [Serde Snap] [Serde StoredSnapshot] [Serde Pb.Entry] [Serde Pb.Vote]

/-- Each store has the invariant that it has on a log of its own, the log store with the entries
from `first` on, where the last purged log id was when it was opened. Purges stay below the
snapshots known to be stored. An entry promised is in such a snapshot, or its `append` was
reported as written. -/
structure Inv (A : ApplicationStateMachine σ Req Resp Snap) (log : ReferenceLog Req)
    (first : UInt64) (v₀ : Option Pb.Vote) (s : Storage σ) : Prop where
  synced_le : s.log.wal.synced ≤ s.log.wal.log.length
  marked : s.log.Marked
  logStore : ∃ a db dn mark,
    LogNode.Inv (s.base.ofLog first) v₀ (s.log.only (Write.ofLog first)) a db dn mark
  first_le : first.toNat ≤ nextIndex s.log.log.lastPurged
  store : RaftNode.Inv A log (s.storeNode.only Column.ofStore)
  purged : s.log.wal.Since Db.write s.base 0 (PurgedBelow log s.reported first)
  entries : s.log.wal.Since Db.write s.base 0 (Db.OfEntries Pb.Entry)
  purges : ∀ x, .purge x ∈ s.log.history → log.Has (some x) ∧ ∃ l ∈ s.reported, some x ≤ l
  promised : ∀ e ∈ s.promised,
    (∃ l ∈ s.reported, log.Has l ∧ (index e).toNat < nextIndex l) ∨
      ∃ i ∈ s.log.acked, ∃ es, s.log.history[i]? = some (.append es) ∧ e ∈ es ∧
        LogNode.Untruncated s.log.history i e
  saved : ∀ v, LogNode.VoteOk v₀ s.log.history s.log.returned v → v ∈ s.saved

variable {A : ApplicationStateMachine σ Req Resp Snap} {log : ReferenceLog Req}
  {first : UInt64} {v₀ : Option Pb.Vote} {s s' : Storage σ}

/-- The log store writes to its own columns, and puts no entry below the first one. -/
theorem Inv.ofLog_of_running (h : Inv A log first v₀ s) {op : LogOp Pb.Entry Pb.Vote} {w : Write}
    {rest : List Call} (hrun : s.log.running = some (op, .write w :: rest)) :
    w.ofLog first = true ∧ w.column.ofStore = false := by
  obtain ⟨a, db, dn, mark, hinv⟩ := h.logStore
  obtain ⟨-, hser, hmem, ha⟩ := hinv.write_mem hrun
  rcases LogOp.write_cases ha hser hmem with ⟨e, rfl, -, hle, -⟩ | ⟨lo, hi, rfl⟩ | ⟨v, rfl⟩ |
    ⟨x, -, -, -, rfl⟩
  · refine ⟨decide_eq_true (idToBin_le_iff.2 ?_), rfl⟩
    exact UInt64.le_iff_toNat_le.2 (h.first_le.trans hle)
  · exact ⟨rfl, rfl⟩
  · exact ⟨rfl, rfl⟩
  · exact ⟨rfl, rfl⟩

/-- What a write of the log store leaves of the last purged log id and of the entries. -/
theorem Inv.write [LawfulSerde LogId] (h : Inv A log first v₀ s) {op : LogOp Pb.Entry Pb.Vote}
    {w : Write} {rest : List Call} (hrun : s.log.running = some (op, .write w :: rest)) :
    PurgedBelow log s.reported first (s.db.write w) ∧ (s.db.write w).OfEntries Pb.Entry := by
  obtain ⟨a, db, dn, mark, hinv⟩ := h.logStore
  obtain ⟨hhist, hser, hmem, ha⟩ := hinv.write_mem hrun
  have hpurged : PurgedBelow log s.reported first s.db := h.purged.contents (Nat.zero_le _)
  have hentries : s.db.OfEntries Pb.Entry := h.entries.contents (Nat.zero_le _)
  rcases LogOp.write_cases ha hser hmem with ⟨e, rfl, hserial, -, hlt⟩ | ⟨lo, hi, rfl⟩ | ⟨v, rfl⟩ |
    ⟨x, rfl, hlp, hx, rfl⟩
  · exact ⟨hpurged.of_eq (getMeta_of_eq (Db.write_put_of_ne s.db (by decide) ..) _),
      hentries.put hserial hlt⟩
  · exact ⟨hpurged.of_eq (getMeta_of_eq (Db.write_deleteRange_of_ne s.db (by decide) ..) _),
      hentries.deleteRange lo hi⟩
  · exact ⟨hpurged.of_eq (getMeta_put_of_ne _ _ (vote_key_ne (V := Pb.Vote)).symm _),
      hentries.of_eq (Db.write_put_of_ne s.db (by decide) ..)⟩
  · obtain ⟨hhas, hle⟩ := h.purges x hhist
    have hfirst : first.toNat ≤ nextIndex s.log.log.lastPurged := h.first_le
    change s.log.log.lastPurged = some x at hlp
    rw [hlp] at hfirst
    exact ⟨⟨some x, getMeta_put_self _ _ hx, hhas, hfirst, hle⟩,
      hentries.of_eq (Db.write_put_of_ne s.db (by decide) ..)⟩

end Invariant

/-! ### The steps -/

section Steps

variable [BuildProfile] [Openraft] [Serde Req] [Serde Snap] [Serde StoredSnapshot] [Serde Pb.Entry]
  [Serde Pb.Vote] [Serde LogId] {A : ApplicationStateMachine σ Req Resp Snap}
  {log : ReferenceLog Req} {first : UInt64} {v₀ : Option Pb.Vote} {s s' : Storage σ}

omit [Openraft] in
/-- Two stores on a database that holds a log and a snapshot, where the log is purged no further
than the snapshot; what was promised before is in the one or in the other. -/
theorem inv_opened {db : Db} {a : RaftLog Pb.Entry Pb.Vote} (hlog : Reopens db a)
    (hexact : HoldsExact A log db) (hhas : log.Has a.lastPurged)
    (hle : a.lastPurged ≤ snapshotLogId db) {store : StateMachineStore σ}
    (hnew : newStorage A db = .ok store) {reported : List (Option LogId)}
    (hreported : ∀ l ∈ reported, l ≤ snapshotLogId db) {promised : List Pb.Entry}
    (hpromised : ∀ e ∈ promised, (index e).toNat < nextIndex (snapshotLogId db) ∨ e ∈ a.entries) :
    Inv A log (firstToApply a.lastPurged) a.vote (opened db a store reported promised) := by
  have hstore := Db.only_ofStore_store db
  have hid : snapshotLogId (db.only Column.ofStore) = snapshotLogId db := snapshotLogId_of_eq hstore
  -- the entries found are those of the one operation on record
  have hentries : ∀ e ∈ a.entries, ∃ i ∈ (LogNode.found a : LogNode Pb.Entry Pb.Vote).acked,
      ∃ es, (LogNode.found a).history[i]? = some (.append es) ∧ e ∈ es ∧
        LogNode.Untruncated (LogNode.found a).history i e := fun e he =>
    ⟨0, List.mem_singleton_self _, a.entries, rfl, he, fun op hop => absurd hop List.not_mem_nil⟩
  refine ⟨le_rfl, fun f hf => absurd hf List.not_mem_nil,
    ⟨a, _, [], fun _ => 0, LogNode.inv_found hlog.sim hlog.terms⟩, hlog.first.le, ?_,
    Wal.since_here ⟨_, hlog.sim.purged, hhas, hlog.first.le, _, List.mem_cons_self, hle⟩,
    Wal.since_here hlog.entries, fun x hx => ?_, fun e he => ?_, fun v hv => ?_⟩
  · -- in the column of the snapshots alone there is no log
    have hrec : Recoverable A log (db.only Column.ofStore) :=
      ⟨hexact.of_eq hstore, ⟨none, rfl, ⟨0, Nat.zero_le _, rfl⟩, Option.none_le⟩, 0, 0,
        Nat.zero_le _, fun h => absurd h (lt_irrefl 0), holds_empty⟩
    have hnew' : newStorage A (db.only Column.ofStore) = .ok store := by
      rw [← hnew, newStorage, newStorage, StateMachineStore.new, StateMachineStore.new,
        getCurrentSnapshot_of_eq hstore]
    refine RaftNode.inv_opened hrec hnew' fun l hl => ?_
    rw [hid]
    rcases List.mem_cons.1 hl with rfl | hl
    · exact le_rfl
    · exact hreported l hl
  · exact absurd (List.mem_singleton.1 hx) (by simp)
  · rcases List.mem_append.1 he with he | he
    · exact Or.inr (hentries e he)
    · rcases hpromised e he with hlt | he
      · exact Or.inl ⟨_, List.mem_cons_self, hexact.has_snapshotLogId, hlt⟩
      · exact Or.inr (hentries e he)
  · rcases hv with ⟨rfl, -⟩ | ⟨k, w, hk, -⟩
    · exact List.mem_singleton_self _
    · exact absurd (List.mem_singleton.1 (List.mem_of_getElem? hk)) (by simp)

omit [Openraft] in
/-- The entries promised after a step of the log store. -/
theorem Inv.promises (h : Inv A log first v₀ s) {e : LogNode.Event Pb.Entry Pb.Vote}
    {l : LogNode Pb.Entry Pb.Vote} (hstep : s.log.step e = some l) {x : Pb.Entry}
    (hx : x ∈ s.promises e) :
    (∃ id ∈ s.reported, log.Has id ∧ (index x).toNat < nextIndex id) ∨
      ∃ i ∈ l.acked, ∃ es, l.history[i]? = some (.append es) ∧ x ∈ es ∧
        LogNode.Untruncated l.history i x := by
  rcases LogNode.record_of_step hstep with ⟨op, rfl, -, -, hhist, -, hacked⟩ |
    ⟨op, rfl, -, -, hhist, -, hacked⟩ | ⟨k, i, n, rfl, hk, -, hhist, -, hacked⟩ |
    ⟨he, -, hhist, -, hacked⟩
  · obtain ⟨hx, hkeeps⟩ := List.mem_filter.1 hx
    refine (h.promised x hx).imp_right ?_
    rintro ⟨i, hi, es, hes, hmem, hun⟩
    have hlt := (List.getElem?_eq_some_iff.1 hes).1
    rw [hhist, hacked]
    refine ⟨i, hi, es, ?_, hmem, hun.snoc hlt hkeeps⟩
    rw [List.getElem?_append_left hlt]
    exact hes
  · rw [hhist, hacked]
    exact h.promised x hx
  · rw [hhist, hacked]
    rcases List.mem_append.1 hx with hx | hx
    · exact Or.inr ⟨i, List.mem_cons_self, LogNode.mem_flushed hk hx⟩
    · refine (h.promised x hx).imp_right ?_
      rintro ⟨j, hj, hes⟩
      exact ⟨j, List.mem_cons_of_mem i hj, hes⟩
  · rw [hhist, hacked]
    refine h.promised x ?_
    rcases he with rfl | ⟨k, rfl⟩ | ⟨k, rfl⟩ <;> exact hx

omit [Openraft] in
/-- The votes that may be the saved one after a step of the log store. -/
theorem Inv.saves (h : Inv A log first v₀ s) {e : LogNode.Event Pb.Entry Pb.Vote}
    {l : LogNode Pb.Entry Pb.Vote} (hstep : s.log.step e = some l) {v : Option Pb.Vote}
    (hv : LogNode.VoteOk v₀ l.history l.returned v) : v ∈ s.saves e := by
  rcases LogNode.record_of_step hstep with ⟨op, rfl, -, -, hhist, hret, -⟩ |
    ⟨op, rfl, hrun, -, hhist, hret, -⟩ | ⟨k, i, n, rfl, hk, -, hhist, hret, -⟩ |
    ⟨he, -, hhist, hret, -⟩
  · rw [hhist, hret] at hv
    rcases hv.of_snoc with hv | ⟨w, rfl, rfl⟩
    · have hmem := h.saved v hv
      cases op with
      | saveVote w => exact List.mem_cons_of_mem _ hmem
      | append es => exact hmem
      | truncate id => exact hmem
      | purge id => exact hmem
    · exact List.mem_cons_self
  · rw [hhist, hret] at hv
    obtain ⟨a, db, dn, mark, hinv⟩ := h.logStore
    have hcur := hinv.current
    rw [LogNode.Current, show (s.log.only (Write.ofLog first)).running = some (op, []) from hrun]
      at hcur
    obtain ⟨-, -, -, -, -, hlen, hop, -⟩ := hcur
    simp only [Storage.saves, hrun]
    cases op with
    | saveVote w => exact List.mem_singleton.2 (hv.eq_of_ret hlen hop)
    | append es => exact h.saved v hv.of_ret
    | truncate id => exact h.saved v hv.of_ret
    | purge id => exact h.saved v hv.of_ret
  · rw [hhist, hret] at hv
    exact h.saved v hv
  · rw [hhist, hret] at hv
    rcases he with rfl | ⟨k, rfl⟩ | ⟨k, rfl⟩ <;> exact h.saved v hv


variable [LawfulSerde Pb.Vote] [LawfulSerde LogId]

theorem Inv.logStep (h : Inv A log first v₀ s) {e : LogNode.Event Pb.Entry Pb.Vote}
    (hser : ∀ op, e = .call op → op.Serializable)
    (hstep : step A log s (.log e : Event ρ) = some s') : Inv A log first v₀ s' := by
  simp only [step, Option.ite_none_right_eq_some, Option.map_eq_some_iff] at hstep
  obtain ⟨hallows, l, hl, rfl⟩ := hstep
  obtain ⟨a, db, dn, mark, hlog⟩ := h.logStore
  have halone := LogNode.step_only h.synced_le h.marked
    (fun op w rest hrun => (h.ofLog_of_running hrun).1) hl
  obtain ⟨hmarked, hwal⟩ := LogNode.wal_of_step h.marked hl
  have hfirst : first.toNat ≤ nextIndex l.log.lastPurged := by
    rcases LogNode.record_of_step hl with ⟨op, -, -, hop, -⟩ | ⟨op, -, -, hsame, -⟩ |
      ⟨k, i, n, -, -, hsame, -⟩ | ⟨-, hsame, -⟩
    · exact h.first_le.trans (RaftLog.nextIndex_lastPurged_le hop)
    all_goals rw [hsame]; exact h.first_le
  have hpurges : ∀ x, .purge x ∈ l.history → log.Has (some x) ∧ ∃ l ∈ s.reported, some x ≤ l := by
    intro x hx
    rcases LogNode.record_of_step hl with ⟨op, rfl, -, -, hhist, -⟩ | ⟨op, -, -, -, hhist, -⟩ |
      ⟨k, i, n, -, -, -, hhist, -⟩ | ⟨-, -, hhist, -⟩
    · rw [hhist] at hx
      rcases List.mem_append.1 hx with hx | hx
      · exact h.purges x hx
      · obtain rfl := List.mem_singleton.1 hx
        simp only [allows, Bool.and_eq_true, List.contains_iff_mem, List.any_eq_true,
          decide_eq_true_eq] at hallows
        exact ⟨ReferenceLog.has_of_mem hallows.1, hallows.2⟩
    all_goals exact h.purges x (hhist ▸ hx)
  -- what a write adds, and what a flush leaves as it is
  have hwrite : l.wal.synced ≤ l.wal.log.length ∧
      RaftNode.Inv A log (RaftNode.only Column.ofStore { s.storeNode with wal := l.wal }) ∧
      l.wal.Since Db.write s.base 0 (PurgedBelow log s.reported first) ∧
      l.wal.Since Db.write s.base 0 (Db.OfEntries Pb.Entry) := by
    rcases hwal with hw | ⟨op, w, rest, hrun, hw⟩ | ⟨n, hn, hw⟩
    · rw [hw]
      exact ⟨h.synced_le, h.store, h.purged, h.entries⟩
    · obtain ⟨hpurged, hents⟩ := h.write hrun
      have hsame : RaftNode.only Column.ofStore { s.storeNode with wal := s.log.wal.write w } =
          s.storeNode.only Column.ofStore :=
        RaftNode.only_write_of_neg (h.ofLog_of_running hrun).2 h.synced_le
      rw [hw, hsame]
      exact ⟨h.synced_le.trans (by simp), h.store, h.purged.write hpurged,
        h.entries.write hents⟩
    · have hsync : RaftNode.only Column.ofStore { s.storeNode with wal := s.log.wal.sync n } = _ :=
        RaftNode.only_sync n
      rw [hw, hsync]
      exact ⟨max_le h.synced_le hn, h.store.syncWal (Wal.among_le n), h.purged.sync,
        h.entries.sync⟩
  obtain ⟨hsynced, hstore, hpurged, hents⟩ := hwrite
  exact ⟨hsynced, hmarked, hlog.step hser halone, hfirst, hstore, hpurged, hents, hpurges,
    fun x hx => h.promises hl hx, fun v hv => h.saves hl hv⟩

variable [LawfulOpenraft] [LawfulSerde Req] [LawfulSerde Snap] [LawfulSerde StoredSnapshot]
  [LawfulSerde Pb.Entry]

omit [LawfulSerde Pb.Vote] in
theorem Inv.storeStep (hA : A.RoundTrips) (hlog : log.GapFree)
    (hser : ∀ e ∈ log.entries, Serializes e) (hids : ∀ x, log.Has (some x) → Serializes x)
    (h : Inv A log first v₀ s) {e : RaftNode.Event ρ}
    (hinst : ∀ md data, e = .install md data → (StoredSnapshot.mk md data).Exact A log)
    (hstep : step A log s (.store e) = some s') : Inv A log first v₀ s' := by
  simp only [step, Option.ite_none_right_eq_some, Option.map_eq_some_iff] at hstep
  obtain ⟨he, n, hn, rfl⟩ := hstep
  have hwrites : s.storeNode.WritesOnly Column.ofStore := h.store.writesOnly
  have halone := h.store.step hA hlog hser hids hinst
    (RaftNode.step_only he h.synced_le hwrites hn)
  obtain ⟨hbase, hcalls, hflushes, hreported, hwal⟩ := RaftNode.shared_of_step he hwrites hn
  have hnode : n = ⟨s.base, n.wal, [], [], n.store, n.storing, n.returned⟩ := by
    obtain ⟨base, wal, calls, flushes, store, storing, returned⟩ := n
    cases hbase
    cases hcalls
    cases hflushes
    rfl
  have hpurged := h.purged.mono le_rfl fun c hc => hc.mono hreported
  -- the log store sees the flushes only
  have hrest : n.wal.synced ≤ n.wal.log.length ∧ LogNode.Marked { s.log with wal := n.wal } ∧
      (∃ a db dn mark, LogNode.Inv (s.base.ofLog first) v₀
        (LogNode.only (Write.ofLog first) { s.log with wal := n.wal }) a db dn mark) ∧
      n.wal.Since Db.write s.base 0 (PurgedBelow log n.returned first) ∧
      n.wal.Since Db.write s.base 0 (Db.OfEntries Pb.Entry) := by
    obtain ⟨a, db, dn, mark, hl⟩ := h.logStore
    change n.wal = s.log.wal ∨ (∃ w, _ ∧ n.wal = s.log.wal.write w) ∨
      n.wal = s.log.wal.sync s.log.wal.log.length at hwal
    rcases hwal with hw | ⟨w, hp, hw⟩ | hw
    · rw [hw]
      exact ⟨h.synced_le, h.marked, ⟨a, db, dn, mark, hl⟩, hpurged, h.entries⟩
    · have hcol : w.column = .store := of_decide_eq_true hp
      have hother : w.ofLog first = false :=
        Bool.eq_false_iff.2 fun hof => Write.column_ne_store hof hcol.symm
      have hsame : ∀ {cf : Column}, cf ≠ .store → ∀ c : Db, c.write w cf = c cf :=
        fun hcf c => Db.write_of_ne (hcol ▸ hcf) c
      have hlen : s.log.wal.log.length ≤ (s.log.wal.write w).log.length := by simp
      have hlogs : LogNode.only (Write.ofLog first) { s.log with wal := s.log.wal.write w } =
          s.log.only (Write.ofLog first) :=
        LogNode.only_write_of_neg hother h.synced_le h.marked
      rw [hw, hlogs]
      exact ⟨h.synced_le.trans hlen, fun f hf m hm => (h.marked f hf m hm).trans hlen,
        ⟨a, db, dn, mark, hl⟩,
        hpurged.write ((hpurged.contents (Nat.zero_le _)).of_eq
          (getMeta_of_eq (hsame (by decide) _) _)),
        h.entries.write ((h.entries.contents (Nat.zero_le _)).of_eq (hsame (by decide) _))⟩
    · rw [hw, LogNode.only_sync]
      exact ⟨max_le h.synced_le le_rfl, h.marked, ⟨a, db, dn, mark, hl.syncWal (Wal.among_le _)⟩,
        hpurged.sync, h.entries.sync⟩
  obtain ⟨hsync, hmarked, hlogStore, hpurged', hents⟩ := hrest
  refine ⟨hsync, hmarked, hlogStore, h.first_le, ?_, hpurged', hents, fun x hx => ?_,
    fun x hx => ?_, h.saved⟩
  · show RaftNode.Inv A log (RaftNode.only Column.ofStore
      ⟨s.base, n.wal, [], [], n.store, n.storing, n.returned⟩)
    rw [← hnode]
    exact halone
  · obtain ⟨hhas, l, hmem, hle⟩ := h.purges x hx
    exact ⟨hhas, l, hreported hmem, hle⟩
  · refine (h.promised x hx).imp_left ?_
    rintro ⟨l, hmem, hl⟩
    exact ⟨l, hreported hmem, hl⟩

end Steps

end Storage

end RaftService
