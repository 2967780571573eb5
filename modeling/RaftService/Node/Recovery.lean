import RaftService.Counter
import RaftService.Node.Recoverable
import RaftService.Lib.Run

/-!
# A node loses no entry when it crashes

The two stores of a node over their database (`RaftNode`). Each store makes its calls on the
database one at a time, and the two interleave; the flushes that `append` spawns run in the
background. A crash keeps a prefix of the primitive writes that contains all that completed
flushes cover, and the node opens what is left; it may crash again.

`node_recovers`: whatever a crash leaves, the node finds a last purged log id not above the last
log id applied, and every entry after that up to the last one held. The invariant says of every
prefix of the writes that it is `Recoverable`, and of every durable one that it holds a snapshot
not older than those reported.
-/

namespace RaftService

open RaftEntry (index logId)
open RocksLogStore StateMachineStore

variable {σ Req Resp Snap ρ : Type}

/-- A call of the state machine store that is storing a snapshot: the calls on the database it
still has to make, and how it ends, with the last log id of the snapshot if it ends well. -/
structure Storing where
  calls : List Call
  result : Except Fault (Option LogId)

/-- A node: what was on disk when it was opened and the writes since; the calls the log store still
has to make; the flushes in the background, each with the number of writes issued when it started;
the state machine store and what it is storing; and the last log ids of the snapshots whose
`build_snapshot` or `install_snapshot` has returned `Ok`. -/
structure RaftNode (σ : Type) where
  base : Db
  wal : Wal Write
  logCalls : List Call
  flushes : List (Option ℕ)
  store : StateMachineStore σ
  storing : Option Storing
  returned : List (Option LogId)

namespace RaftNode

/-- The contents of the database. -/
def db (s : RaftNode σ) : Db := s.wal.contents Db.write s.base

/-- A node that has just opened its database. -/
def opened (db : Db) (store : StateMachineStore σ) (returned : List (Option LogId)) : RaftNode σ :=
  ⟨db, Wal.empty, [], [], store, none, returned⟩

/-- The steps of a node. -/
inductive Event (ρ : Type)
  | append (entries : List Pb.Entry)
  | purge (logId : LogId)
  | logNext
  | apply (strm : List (Except IoError (Pb.Entry × Option ρ)))
  | build
  | install (snapshotMeta : SnapshotMeta) (data : Bytes)
  | storeNext
  | storeRet
  | flushStart (k : ℕ)
  | flushDone (k : ℕ)
  | flushFailed (k : ℕ)
  | crash (k : ℕ)

/-- One call on the database. -/
def perform (s : RaftNode σ) : Call → RaftNode σ
  | .write w => { s with wal := s.wal.write w }
  | .flushWal => { s with wal := s.wal.sync s.wal.log.length }
  | .spawnFlush => { s with flushes := s.flushes ++ [none] }

section Machine

variable [BuildProfile] [Openraft] [Serde Req] [Serde Snap] [Serde StoredSnapshot] [Serde Pb.Entry]
  [Serde LogId]

/-- One step. `append` gets entries of the log that start right after the last log id; `purge` a
log id of the log that is not above that of a snapshot reported as stored; `apply` the next
entries of the log; `install` a snapshot not below the last applied log id. No step overlaps
another one of the state machine. -/
def step (A : ApplicationStateMachine σ Req Resp Snap) (log : ReferenceLog Req) (s : RaftNode σ) :
    Event ρ → Option (RaftNode σ)
  | .append es =>
    match s.logCalls, getLogState Pb.Entry s.db with
    | [], .ok st =>
      if es <+: log.entries.drop (nextIndex st.lastLogId) then
        some { s with logCalls := (RocksLogStore.append es).calls }
      else none
    | _, _ => none
  | .purge x =>
    if s.logCalls = [] ∧ x ∈ log.entries.map logId ∧ ∃ l ∈ s.returned, some x ≤ l then
      some { s with logCalls := (RocksLogStore.purge x).calls }
    else none
  | .logNext =>
    match s.logCalls with
    | call :: rest => some { s.perform call with logCalls := rest }
    | [] => none
  | .apply strm =>
    if s.storing.isNone ∧
        delivered strm <+: log.entriesAfter s.store.stateMachine.lastAppliedLog then
      some { s with
        store.stateMachine := (StateMachineStore.apply A s.store.stateMachine strm).stateMachine }
    else none
  | .build =>
    match s.storing, getSnapshotBuilder s.store with
    | none, .ok (store, b) =>
      let io := buildSnapshot A b store.stateMachine.applicationData
      some { s with
        store := store
        storing := some ⟨io.calls, io.result.map fun snap => snap.snapshotMeta.lastLogId⟩ }
    | _, _ => none
  | .install snapshotMeta data =>
    if s.storing.isNone ∧ s.store.stateMachine.lastAppliedLog ≤ snapshotMeta.lastLogId then
      let (store, io) := installSnapshot A s.store snapshotMeta data
      some { s with
        store := store
        storing := some ⟨io.calls, io.result.map fun _ => snapshotMeta.lastLogId⟩ }
    else none
  | .storeNext =>
    match s.storing with
    | some ⟨call :: rest, result⟩ =>
      some { s.perform call with storing := some ⟨rest, result⟩ }
    | _ => none
  | .storeRet =>
    match s.storing with
    | some ⟨[], .ok l⟩ => some { s with storing := none, returned := l :: s.returned }
    | some ⟨[], .error _⟩ => some { s with storing := none }
    | _ => none
  | .flushStart k =>
    match s.flushes[k]? with
    | some none => some { s with flushes := s.flushes.set k (some s.wal.log.length) }
    | _ => none
  | .flushDone k =>
    match s.flushes[k]? with
    | some (some n) => some { s with wal := s.wal.sync n, flushes := s.flushes.eraseIdx k }
    | _ => none
  | .flushFailed k =>
    match s.flushes[k]? with
    | some _ => some { s with flushes := s.flushes.eraseIdx k }
    | none => none
  | .crash k =>
    if s.wal.synced ≤ k ∧ k ≤ s.wal.log.length then
      match newStorage A (s.wal.contentsAt Db.write s.base k) with
      | .ok store => some (opened (s.wal.contentsAt Db.write s.base k) store s.returned)
      | .error _ => none
    else none

end Machine

/-! ### The invariant -/

section Invariant

variable [Serde Req] [Serde Snap] [Serde StoredSnapshot]

/-- The snapshot on disk is not older than `l`, and no crash can take that back. -/
def Kept (base : Db) (wal : Wal Write) (l : Option LogId) : Prop :=
  wal.Since Db.write base wal.synced fun c => l ≤ snapshotLogId c

/-- What the state machine store still has to do, after it applied entries up to `last`. -/
inductive StoreTodo (A : ApplicationStateMachine σ Req Resp Snap) (log : ReferenceLog Req)
    (last : Option LogId) (base : Db) (wal : Wal Write) : Storing → Prop
  | put {snap : StoredSnapshot} (hser : Serializes snap) (hexact : snap.Exact A log)
      (hlast : snap.snapshotMeta.lastLogId = last) :
      StoreTodo A log last base wal ⟨[.write (putSnapshot snap), .flushWal], .ok last⟩
  | flush {l : Option LogId} (hle : l ≤ snapshotLogId (wal.contents Db.write base)) :
      StoreTodo A log last base wal ⟨[.flushWal], .ok l⟩
  | stored {l : Option LogId} (hkept : Kept base wal l) : StoreTodo A log last base wal ⟨[], .ok l⟩
  | failed (e : Fault) : StoreTodo A log last base wal ⟨[], .error e⟩

variable {A : ApplicationStateMachine σ Req Resp Snap} {log : ReferenceLog Req} {base : Db}
  {wal : Wal Write} {last : Option LogId}

theorem Kept.write {l : Option LogId} (h : Kept base wal l)
    (hsync : wal.synced ≤ wal.log.length) {w : Write}
    (hle : snapshotLogId (wal.contents Db.write base) ≤
      snapshotLogId ((wal.contents Db.write base).write w)) : Kept base (wal.write w) l :=
  Wal.Since.write h ((h.contents hsync).trans hle)

theorem Kept.sync {l : Option LogId} (h : Kept base wal l) (n : ℕ) : Kept base (wal.sync n) l :=
  Wal.Since.mono (Wal.Since.sync h) (le_max_left _ _) fun _ hc => hc

/-- What the state machine store has to do is not changed by a write of the log store. -/
theorem StoreTodo.write {p : Storing} (h : StoreTodo A log last base wal p)
    (hsync : wal.synced ≤ wal.log.length) {w : Write}
    (hle : snapshotLogId (wal.contents Db.write base) ≤
      snapshotLogId ((wal.contents Db.write base).write w)) :
    StoreTodo A log last base (wal.write w) p := by
  cases h with
  | put hser hexact hlast => exact .put hser hexact hlast
  | flush hl => exact .flush (by rw [Wal.contents_write]; exact hl.trans hle)
  | stored hkept => exact .stored (hkept.write hsync hle)
  | failed e => exact .failed e

theorem StoreTodo.sync {p : Storing} (h : StoreTodo A log last base wal p) (n : ℕ) :
    StoreTodo A log last base (wal.sync n) p := by
  cases h with
  | put hser hexact hlast => exact .put hser hexact hlast
  | flush hl => exact .flush hl
  | stored hkept => exact .stored (hkept.sync n)
  | failed e => exact .failed e

variable [Serde Pb.Entry] [Serde LogId]

/-- What the log store still has to do on the contents `c`. -/
inductive LogTodo (log : ReferenceLog Req) (c : Db) : List Call → Prop
  | done : LogTodo log c []
  | append {i j : ℕ} {es : List Pb.Entry} (hij : i ≤ j) (hi : i ≤ nextIndex (snapshotLogId c))
      (hholds : Holds (c .logs) (log.segment i j)) (hes : es <+: log.entries.drop j) :
      LogTodo log c (es.map (fun e => .write (putOf e)) ++ [.spawnFlush])
  | purge {x : LogId} (hx : log.Has (some x)) (hle : some x ≤ snapshotLogId c) :
      LogTodo log c
        [.write (.put .metadata StoreMeta.lastPurged.key (bytesOf x)),
          .write (.deleteRange .logs (idToBin 0) (idToBin (x.index + 1)))]
  | delete {x : LogId} (hx : log.Has (some x)) (hle : some x ≤ snapshotLogId c) :
      LogTodo log c [.write (.deleteRange .logs (idToBin 0) (idToBin (x.index + 1)))]

/-- Every prefix of the writes is recoverable, the snapshots reported are kept, and the memory is
not behind the snapshot on disk. -/
structure Disk (A : ApplicationStateMachine σ Req Resp Snap) (log : ReferenceLog Req) (base : Db)
    (wal : Wal Write) (flushes : List (Option ℕ)) (returned : List (Option LogId))
    (last : Option LogId) : Prop where
  synced_le : wal.synced ≤ wal.log.length
  recoverable : wal.Since Db.write base 0 (Recoverable A log)
  kept : ∀ l ∈ returned, Kept base wal l
  notBehind : snapshotLogId (wal.contents Db.write base) ≤ last
  marks : ∀ n, some n ∈ flushes → n ≤ wal.log.length

/-- The disk is as it should be, so is the memory, and so is what the stores still have to do. -/
structure Inv (A : ApplicationStateMachine σ Req Resp Snap) (log : ReferenceLog Req)
    (s : RaftNode σ) : Prop where
  disk : Disk A log s.base s.wal s.flushes s.returned s.store.stateMachine.lastAppliedLog
  memory : AtLog A log s.store.stateMachine
  logTodo : LogTodo log s.db s.logCalls
  storeTodo : ∀ p, s.storing = some p →
    StoreTodo A log s.store.stateMachine.lastAppliedLog s.base s.wal p

variable {s s' : RaftNode σ} {flushes : List (Option ℕ)} {returned : List (Option LogId)}

theorem Disk.contents (h : Disk A log base wal flushes returned last) :
    Recoverable A log (wal.contents Db.write base) :=
  h.recoverable.contents (Nat.zero_le _)

/-- A write that leaves the database recoverable, with a snapshot not older. -/
theorem Disk.write (h : Disk A log base wal flushes returned last) {w : Write}
    (hrec : Recoverable A log ((wal.contents Db.write base).write w))
    (hle : snapshotLogId (wal.contents Db.write base) ≤
      snapshotLogId ((wal.contents Db.write base).write w))
    (hlast : snapshotLogId ((wal.contents Db.write base).write w) ≤ last) :
    Disk A log base (wal.write w) flushes returned last := by
  have hlen : wal.log.length ≤ (wal.write w).log.length := by simp
  refine ⟨h.synced_le.trans hlen, h.recoverable.write hrec, fun l hl => ?_, ?_,
    fun n hn => (h.marks n hn).trans hlen⟩
  · exact (h.kept l hl).write h.synced_le hle
  · rw [Wal.contents_write]
    exact hlast

/-- A flush of the first `n` writes ends. -/
theorem Disk.sync (h : Disk A log base wal flushes returned last) {n : ℕ}
    (hn : n ≤ wal.log.length) : Disk A log base (wal.sync n) flushes returned last where
  synced_le := max_le h.synced_le hn
  recoverable := h.recoverable.sync
  kept l hl := (h.kept l hl).sync n
  notBehind := h.notBehind
  marks := h.marks

/-- Only the flushes change. -/
theorem Disk.setFlushes (h : Disk A log base wal flushes returned last) {fs : List (Option ℕ)}
    (hfs : ∀ n, some n ∈ fs → n ≤ wal.log.length) : Disk A log base wal fs returned last :=
  ⟨h.synced_le, h.recoverable, h.kept, h.notBehind, hfs⟩

/-- The memory moves on. -/
theorem Disk.setLast (h : Disk A log base wal flushes returned last) {last' : Option LogId}
    (hle : last ≤ last') : Disk A log base wal flushes returned last' :=
  ⟨h.synced_le, h.recoverable, h.kept, h.notBehind.trans hle, h.marks⟩

/-- What the log store has to do is not changed by a newer snapshot. -/
theorem LogTodo.mono {c c' : Db} {calls : List Call} (h : LogTodo log c calls)
    (hlogs : c' .logs = c .logs) (hle : snapshotLogId c ≤ snapshotLogId c')
    (hnext : nextIndex (snapshotLogId c) ≤ nextIndex (snapshotLogId c')) :
    LogTodo log c' calls := by
  cases h with
  | done => exact .done
  | append hij hi hholds hes => exact .append hij (hi.trans hnext) (hlogs ▸ hholds) hes
  | purge hx hx' => exact .purge hx (hx'.trans hle)
  | delete hx hx' => exact .delete hx (hx'.trans hle)

/-! ### The log store -/

/-- A write of the log store leaves the snapshot as it is. -/
theorem Inv.logWrite (h : Inv A log s) {w : Write} {rest : List Call}
    (hrec : Recoverable A log (s.db.write w)) (hstore : s.db.write w .store = s.db .store)
    (hrest : LogTodo log (s.db.write w) rest) :
    Inv A log { s.perform (.write w) with logCalls := rest } := by
  have heq : snapshotLogId (s.db.write w) = snapshotLogId s.db := snapshotLogId_of_eq hstore
  refine ⟨h.disk.write hrec heq.ge (heq.le.trans h.disk.notBehind), h.memory, ?_, fun p hp => ?_⟩
  · show LogTodo log ((s.wal.write w).contents Db.write s.base) rest
    rw [Wal.contents_write]
    exact hrest
  · exact (h.storeTodo p hp).write h.disk.synced_le heq.ge

/-- The log store makes its next call. -/
theorem Inv.logNext [LawfulSerde LogId] (h : Inv A log s) (hlog : log.GapFree)
    (hser : ∀ e ∈ log.entries, Serializes e) (hids : ∀ x, log.Has (some x) → Serializes x)
    {call : Call} {rest : List Call} (hcalls : s.logCalls = call :: rest) :
    Inv A log { s.perform call with logCalls := rest } := by
  have hrec := h.disk.contents
  have htodo := h.logTodo
  rw [hcalls] at htodo
  generalize hc : call :: rest = calls at htodo
  cases htodo with
  | done => cases hc
  | @append i j es hij hi hholds hes =>
    cases es with
    | nil =>
      cases hc
      refine ⟨h.disk.setFlushes fun n hn => h.disk.marks n ?_, h.memory, .done, h.storeTodo⟩
      simpa [RaftNode.perform] using hn
    | cons e es =>
      cases hc
      obtain ⟨fs, hfs⟩ := hes
      -- the next entry is that at position `j`
      have hget : log.entries[j]? = some e := by
        have := congrArg List.head? hfs
        simpa [List.head?_drop] using this.symm
      have htail : es <+: log.entries.drop (j + 1) :=
        ⟨fs, by rw [← List.tail_drop, ← hfs]; rfl⟩
      obtain ⟨hrec', hholds'⟩ := hrec.putEntry hlog hij hi hholds hget
        (hser e (List.mem_of_getElem? hget))
      have hstore : s.db.write (putOf e) .store = s.db .store :=
        Db.write_put_of_ne s.db (by decide) ..
      refine h.logWrite hrec' hstore (.append (hij.trans (Nat.le_succ j)) ?_ hholds' htail)
      rw [snapshotLogId_of_eq hstore]
      exact hi
  | purge hx hle =>
    cases hc
    have hstore := Db.write_put_of_ne s.db (show Column.store ≠ .metadata by decide)
      StoreMeta.lastPurged.key
    refine h.logWrite (hrec.putPurged hx hle (hids _ hx)) (hstore _) (.delete hx ?_)
    rw [snapshotLogId_of_eq (hstore _)]
    exact hle
  | delete hx hle =>
    cases hc
    exact h.logWrite (hrec.deleteUpTo hlog hx hle (hlog.index_lt hx))
      (Db.write_deleteRange_of_ne s.db (by decide) ..) .done

/-- `append` goes on where the entries held end, or after the last purged log id. -/
theorem Inv.append [LawfulSerde Pb.Entry] (h : Inv A log s) (hlog : log.GapFree)
    (hser : ∀ e ∈ log.entries, Serializes e) {st : LogState}
    (hst : getLogState Pb.Entry s.db = .ok st) {es : List Pb.Entry}
    (hes : es <+: log.entries.drop (nextIndex st.lastLogId)) :
    Inv A log { s with logCalls := (RocksLogStore.append es).calls } := by
  have hrec : Recoverable A log s.db := h.disk.contents
  obtain ⟨i, j, hj, hi, hholds⟩ := hrec.logs
  obtain ⟨lp, hlp, hhas, hpurged⟩ := hrec.purged
  rw [getLogState_of_holds hholds hlp] at hst
  cases hst
  have hsub : ∀ e ∈ es, Serializes e := fun e he =>
    hser e (List.mem_of_mem_drop (hes.subset he))
  refine ⟨h.disk, h.memory, ?_, h.storeTodo⟩
  show LogTodo log s.db (RocksLogStore.append es).calls
  rw [append_io hsub]
  rcases Nat.lt_or_ge i j with hij | hij
  · rw [hlog.nextIndex_getLast?_segment hij hj] at hes
    exact .append hij.le (hi hij) hholds hes
  · rw [ReferenceLog.segment_eq_nil hij, List.getLast?_nil, Option.map_none, Option.none_or] at hes
    have hnext := (hlog.le_iff hhas hrec.exact.has_snapshotLogId).1 hpurged
    have hempty : log.segment i j = log.segment (nextIndex lp) (nextIndex lp) := by
      rw [ReferenceLog.segment_eq_nil hij, ReferenceLog.segment_eq_nil le_rfl]
    exact .append le_rfl hnext (hempty ▸ hholds) hes

/-- `purge` is called up to a log id not above a snapshot reported as stored, and this snapshot, or
a newer one, is still on disk. -/
theorem Inv.purge [BuildProfile] (h : Inv A log s) (hlog : log.GapFree)
    (hids : ∀ x, log.Has (some x) → Serializes x) {x : LogId} (hx : x ∈ log.entries.map logId)
    {l : Option LogId} (hl : l ∈ s.returned) (hle : some x ≤ l) :
    Inv A log { s with logCalls := (RocksLogStore.purge x).calls } := by
  have hhas := ReferenceLog.has_of_mem hx
  refine ⟨h.disk, h.memory, ?_, h.storeTodo⟩
  show LogTodo log s.db (RocksLogStore.purge x).calls
  rw [purge_io (hids x hhas) (hlog.index_lt hhas)]
  exact .purge hhas (hle.trans ((h.disk.kept l hl).contents h.disk.synced_le))

/-! ### The state machine store -/

theorem Inv.apply [LawfulSerde Req] [Openraft] [LawfulOpenraft] (h : Inv A log s)
    (hidle : s.storing = none) {strm : List (Except IoError (Pb.Entry × Option ρ))}
    (hnext : delivered strm <+: log.entriesAfter s.store.stateMachine.lastAppliedLog) :
    Inv A log { s with
      store.stateMachine :=
        (StateMachineStore.apply A s.store.stateMachine strm).stateMachine } := by
  obtain ⟨hat, hle⟩ := atLog_apply h.memory hnext
  exact ⟨h.disk.setLast hle, hat, h.logTodo, fun p hp => by rw [hidle] at hp; cases hp⟩

/-- `build_snapshot` is to store a snapshot of the memory. -/
theorem Inv.build [BuildProfile] [LawfulSerde Snap] (hA : A.RoundTrips) (h : Inv A log s)
    {store : StateMachineStore σ} {b : SnapshotBuilder}
    (hbuilder : getSnapshotBuilder s.store = .ok (store, b)) :
    Inv A log { s with
      store := store
      storing := some ⟨(buildSnapshot A b store.stateMachine.applicationData).calls,
        (buildSnapshot A b store.stateMachine.applicationData).result.map
          fun snap => snap.snapshotMeta.lastLogId⟩ } := by
  obtain ⟨hsm, hlast, hmem⟩ := getSnapshotBuilder_ok hbuilder
  have hdisk := h.disk
  have hat := h.memory
  rw [← hsm] at hdisk hat hlast hmem
  refine ⟨hdisk, hat, h.logTodo, fun p hp => ?_⟩
  cases hp
  rcases buildSnapshot_cases hA b store.stateMachine.applicationData with
    ⟨-, data, himp, hser, hio⟩ | ⟨-, e, hio⟩
  · have hexact : (StoredSnapshot.mk (builderMeta b) data).Exact A log := by
      refine ⟨_, himp, ?_⟩
      simp only [builderMeta, hlast, hmem]
      exact hat
    rw [hio]
    show StoreTodo A log store.stateMachine.lastAppliedLog s.base s.wal
      ⟨[.write (putSnapshot ⟨builderMeta b, data⟩), .flushWal], .ok b.lastAppliedLog⟩
    rw [hlast]
    exact .put hser hexact hlast
  · rw [hio]
    exact .failed e

/-- `install_snapshot` is to store the snapshot it has put in memory. -/
theorem Inv.install (h : Inv A log s) {snapshotMeta : SnapshotMeta} {data : Bytes}
    (hexact : (StoredSnapshot.mk snapshotMeta data).Exact A log)
    (hle : s.store.stateMachine.lastAppliedLog ≤ snapshotMeta.lastLogId) :
    Inv A log { s with
      store := (installSnapshot A s.store snapshotMeta data).1
      storing := some ⟨(installSnapshot A s.store snapshotMeta data).2.calls,
        (installSnapshot A s.store snapshotMeta data).2.result.map
          fun _ => snapshotMeta.lastLogId⟩ } := by
  obtain ⟨x, hx, hat⟩ := hexact
  rw [installSnapshot_of_import hx]
  refine ⟨h.disk.setLast hle, hat, h.logTodo, fun p hp => ?_⟩
  cases hp
  by_cases hser : Serializes (StoredSnapshot.mk snapshotMeta data)
  · rw [setCurrentSnapshot_io hser]
    exact .put hser ⟨x, hx, hat⟩ rfl
  · obtain ⟨e, he⟩ := setCurrentSnapshot_fails hser
    rw [he]
    exact .failed e

/-- The state machine store makes its next call. -/
theorem Inv.storeNext [LawfulSerde StoredSnapshot] (h : Inv A log s) (hlog : log.GapFree)
    {call : Call} {rest : List Call} {result : Except Fault (Option LogId)}
    (hstoring : s.storing = some ⟨call :: rest, result⟩) :
    Inv A log { s.perform call with storing := some ⟨rest, result⟩ } := by
  have hrec := h.disk.contents
  have htodo := h.storeTodo _ hstoring
  generalize hp : (⟨call :: rest, result⟩ : Storing) = p at htodo
  cases htodo with
  | @put snap hser hexact hlast =>
    cases hp
    have hnew := snapshotLogId_putSnapshot s.db hser
    have hbehind : snapshotLogId s.db ≤ snap.snapshotMeta.lastLogId := hlast ▸ h.disk.notBehind
    have hrec' := hrec.putSnapshot hlog hser hexact hbehind
    have hle : snapshotLogId s.db ≤ snapshotLogId (s.db.write (putSnapshot snap)) := hnew ▸ hbehind
    have hnext := (hlog.le_iff hrec.exact.has_snapshotLogId hrec'.exact.has_snapshotLogId).1 hle
    refine ⟨h.disk.write hrec' hle (hnew.trans hlast).le, h.memory, ?_, fun p hp => ?_⟩
    · show LogTodo log ((s.wal.write (putSnapshot snap)).contents Db.write s.base) s.logCalls
      rw [Wal.contents_write]
      exact h.logTodo.mono (Db.write_put_of_ne s.db (by decide) ..) hle hnext
    · cases hp
      refine .flush ?_
      show _ ≤ snapshotLogId ((s.wal.write (putSnapshot snap)).contents Db.write s.base)
      rw [Wal.contents_write]
      exact (hnew.trans hlast).ge
  | @flush l hle =>
    cases hp
    refine ⟨h.disk.sync le_rfl, h.memory, h.logTodo, fun p hp => ?_⟩
    cases hp
    -- all writes issued so far are durable now
    have hsynced : (s.wal.sync s.wal.log.length).synced = s.wal.log.length :=
      max_eq_right h.disk.synced_le
    refine .stored ?_
    show Kept s.base (s.wal.sync s.wal.log.length) l
    rw [Kept, hsynced]
    exact (Wal.since_here hle).sync
  | stored _ => cases hp
  | failed e => cases hp

/-- The state machine store returns. -/
theorem Inv.storeRet (h : Inv A log s) {l : Option LogId}
    (hstoring : s.storing = some ⟨[], .ok l⟩) :
    Inv A log { s with storing := none, returned := l :: s.returned } := by
  have htodo := h.storeTodo _ hstoring
  cases htodo with
  | stored hkept =>
    refine ⟨⟨h.disk.synced_le, h.disk.recoverable, fun l' hl' => ?_, h.disk.notBehind,
      h.disk.marks⟩, h.memory, h.logTodo, fun p hp => by cases hp⟩
    rcases List.mem_cons.1 hl' with rfl | hl'
    · exact hkept
    · exact h.disk.kept l' hl'

/-! ### Crashes -/

/-- A node that opens a recoverable database, which holds all snapshots reported. -/
theorem inv_opened {c : Db} (hrec : Recoverable A log c) {store : StateMachineStore σ}
    (hnew : newStorage A c = .ok store) {returned : List (Option LogId)}
    (hreturned : ∀ l ∈ returned, l ≤ snapshotLogId c) : Inv A log (opened c store returned) := by
  obtain ⟨st, hst, hat, hlast⟩ := new_of_holdsExact hrec.exact
  rw [newStorage, hst] at hnew
  cases hnew
  refine ⟨⟨le_rfl, Wal.since_here hrec, fun l hl => Wal.since_here (hreturned l hl), hlast.ge, ?_⟩,
    hat, .done, fun p hp => by cases hp⟩
  simp [opened]

/-- What a crash leaves is recoverable, and holds all snapshots reported. -/
theorem Disk.recovers (h : Disk A log base wal flushes returned last) {c : Db}
    (hc : wal.Recovers Db.write base c) :
    Recoverable A log c ∧ ∀ l ∈ returned, l ≤ snapshotLogId c :=
  ⟨hc.of_since h.recoverable (Nat.zero_le _), fun l hl => hc.of_since (h.kept l hl) le_rfl⟩

end Invariant

section Recovery

variable [BuildProfile] [Openraft] [Serde Req] [Serde Snap] [Serde StoredSnapshot] [Serde Pb.Entry]
  [Serde LogId] {A : ApplicationStateMachine σ Req Resp Snap} {log : ReferenceLog Req}
  {s s' : RaftNode σ}

/-- A flush in the background starts, ends or fails. -/
theorem Inv.flushes (h : Inv A log s) {k : ℕ} {e : Event ρ}
    (he : e = .flushStart k ∨ e = .flushDone k ∨ e = .flushFailed k)
    (hstep : RaftNode.step A log s e = some s') : Inv A log s' := by
  rcases he with rfl | rfl | rfl
  · simp only [RaftNode.step] at hstep
    split at hstep
    · cases hstep
      refine ⟨h.disk.setFlushes fun n hn => ?_, h.memory, h.logTodo, h.storeTodo⟩
      rcases List.mem_or_eq_of_mem_set hn with hn | hn
      · exact h.disk.marks n hn
      · exact (Option.some.inj hn).le
    · cases hstep
  · simp only [RaftNode.step] at hstep
    split at hstep
    · next n hk =>
      cases hstep
      have hn := h.disk.marks n (List.mem_of_getElem? hk)
      exact ⟨(h.disk.sync hn).setFlushes fun m hm => h.disk.marks m (List.eraseIdx_subset hm),
        h.memory, h.logTodo, fun p hp => (h.storeTodo p hp).sync n⟩
    · cases hstep
  · simp only [RaftNode.step] at hstep
    split at hstep
    · cases hstep
      exact ⟨h.disk.setFlushes fun m hm => h.disk.marks m (List.eraseIdx_subset hm), h.memory,
        h.logTodo, h.storeTodo⟩
    · cases hstep

variable [LawfulOpenraft] [LawfulSerde Req] [LawfulSerde Snap] [LawfulSerde StoredSnapshot]
  [LawfulSerde Pb.Entry] [LawfulSerde LogId]

/-- **Every step keeps the invariant.** -/
theorem Inv.step (hA : A.RoundTrips) (hlog : log.GapFree)
    (hser : ∀ e ∈ log.entries, Serializes e) (hids : ∀ x, log.Has (some x) → Serializes x)
    (h : Inv A log s) {e : Event ρ}
    (hinst : ∀ m data, e = .install m data → (StoredSnapshot.mk m data).Exact A log)
    (hstep : RaftNode.step A log s e = some s') : Inv A log s' := by
  cases e with
  | append es =>
    simp only [RaftNode.step] at hstep
    split at hstep
    · next st hcalls hst =>
      simp only [Option.ite_none_right_eq_some, Option.some.injEq] at hstep
      obtain ⟨hes, rfl⟩ := hstep
      exact h.append hlog hser hst hes
    · cases hstep
  | purge x =>
    simp only [RaftNode.step, Option.ite_none_right_eq_some, Option.some.injEq] at hstep
    obtain ⟨⟨-, hx, l, hl, hle⟩, rfl⟩ := hstep
    exact h.purge hlog hids hx hl hle
  | logNext =>
    simp only [RaftNode.step] at hstep
    split at hstep
    · next call rest hcalls => cases hstep; exact h.logNext hlog hser hids hcalls
    · cases hstep
  | apply strm =>
    simp only [RaftNode.step, Option.ite_none_right_eq_some, Option.some.injEq,
      Option.isNone_iff_eq_none] at hstep
    obtain ⟨⟨hidle, hnext⟩, rfl⟩ := hstep
    exact h.apply hidle hnext
  | build =>
    simp only [RaftNode.step] at hstep
    split at hstep
    · next store b hidle hbuilder => cases hstep; exact h.build hA hbuilder
    · cases hstep
  | install snapshotMeta data =>
    simp only [RaftNode.step, Option.ite_none_right_eq_some, Option.some.injEq] at hstep
    obtain ⟨⟨-, hle⟩, rfl⟩ := hstep
    exact h.install (hinst _ _ rfl) hle
  | storeNext =>
    simp only [RaftNode.step] at hstep
    split at hstep
    · next call rest result hstoring => cases hstep; exact h.storeNext hlog hstoring
    · cases hstep
  | storeRet =>
    simp only [RaftNode.step] at hstep
    split at hstep
    · next l hstoring => cases hstep; exact h.storeRet hstoring
    · cases hstep
      exact ⟨h.disk, h.memory, h.logTodo, fun p hp => by cases hp⟩
    · cases hstep
  | flushStart k => exact h.flushes (Or.inl rfl) hstep
  | flushDone k => exact h.flushes (Or.inr (Or.inl rfl)) hstep
  | flushFailed k => exact h.flushes (Or.inr (Or.inr rfl)) hstep
  | crash k =>
    simp only [RaftNode.step, Option.ite_none_right_eq_some] at hstep
    obtain ⟨⟨hsync, hlen⟩, hstep⟩ := hstep
    obtain ⟨hrec, hreturned⟩ := h.disk.recovers ⟨k, hsync, hlen, rfl⟩
    split at hstep
    · next store hnew => cases hstep; exact inv_opened hrec hnew hreturned
    · cases hstep

/-- **A node recovers every entry it needs.** A node starts on a fresh database. It appends and
purges entries of a log without gaps, applies them, builds snapshots, and installs exact ones; the
calls of its two stores and its background flushes interleave in any way; it may crash and open
its database again any number of times. Whatever the last crash leaves:
* the node opens it;
* the last purged log id is not above the last log id applied;
* every entry after that, up to any `n` not beyond the last entry held, is read back;
* applying these entries gives the state of the log up to `n`, if the application accepts them. -/
theorem node_recovers (hA : A.RoundTrips) (hlog : log.GapFree)
    (hser : ∀ e ∈ log.entries, Serializes e) (hids : ∀ x, log.Has (some x) → Serializes x)
    {st₀ : StateMachineStore σ} (hnew : newStorage A Db.empty = .ok st₀) {tr : List (Event ρ)}
    (hinst : ∀ m data, .install m data ∈ tr → (StoredSnapshot.mk m data).Exact A log)
    (hrun : Run.exec (RaftNode.step A log) (opened Db.empty st₀ []) tr = some s) {c : Db}
    (hcrash : s.wal.Recovers Db.write s.base c) :
    ∃ st lp ls, newStorage A c = .ok st ∧ getMeta c .lastPurged = .ok lp ∧
      getLogState Pb.Entry c = .ok ls ∧ lp ≤ (appliedState st).1 ∧
      ∀ n : UInt64, nextIndex (appliedState st).1 ≤ n.toNat → n.toNat < nextIndex ls.lastLogId →
        n.toNat < log.entries.length ∧
        tryGetLogEntries c ⟨.included (firstToApply (appliedState st).1), .included n⟩ =
          .ok (log.segment (nextIndex (appliedState st).1) (n.toNat + 1)) ∧
        (Accepts A log →
          StateMachineStore.apply A st.stateMachine
              (unanswered ρ (log.segment (nextIndex (appliedState st).1) (n.toNat + 1))) =
            ⟨replay A (log.proposals.take (n.toNat + 1)), [], .ok ()⟩) := by
  have hinv : Inv A log s := by
    refine Run.exec_induction
      (motive := fun tr s => (∀ m data, .install m data ∈ tr →
        (StoredSnapshot.mk m data).Exact A log) → Inv A log s)
      (fun _ => inv_opened recoverable_empty hnew (by simp)) (fun tr s e s' _ ih hstep hinst => ?_)
      tr s hrun hinst
    have h := ih fun m data hm => hinst m data (List.mem_append_left _ hm)
    exact h.step hA hlog hser hids (fun m data he => hinst m data (by simp [he])) hstep
  exact (hinv.disk.recovers hcrash).1.reopens hlog

end Recovery

end RaftNode

/-! ### A run of the counter -/

namespace RaftNode

open scoped Counter

/-- The counter's store on a database just created. -/
def newCounter : StateMachineStore ℕ := ⟨⟨none, .default, 0⟩, 0⟩

/-- The log is appended and its first two entries applied; a snapshot is stored; and a purge has
written its log id, but has not deleted anything yet. -/
def halfPurged : List (Event Unit) :=
  [.append Counter.entries, .logNext, .logNext, .logNext, .logNext,
    .apply (unanswered Unit (Counter.entries.take 2)), .build, .storeNext, .storeNext, .storeRet,
    .purge ⟨1, 0⟩, .logNext]

theorem counterLog_gapFree : Counter.log.GapFree where
  contiguous := ⟨rfl, rfl, rfl, trivial⟩
  bounded := by
    show ∀ e ∈ Counter.entries, index e < u64Max
    decide +kernel

theorem counterLog_ids {x : LogId} (h : Counter.log.Has (some x)) : Serializes x := by
  obtain ⟨k, hk, hx⟩ := h
  refine exists_toVecIn ?_
  change k ≤ 3 at hk
  interval_cases k
  · cases hx
  all_goals
    obtain rfl := Option.some.inj hx
    decide +kernel

set_option maxRecDepth 10000 in
/-- After a crash there, the node reads back the entry that the snapshot does not contain. -/
theorem halfPurged_recovers :
    ∃ s st, Run.exec (RaftNode.step counter Counter.log) (opened Db.empty newCounter [])
        halfPurged = some s ∧
      newStorage counter s.db = .ok st ∧ (appliedState st).1 = some ⟨1, 1⟩ ∧
      tryGetLogEntries s.db ⟨.included 2, .included 2⟩ = .ok (Counter.log.segment 2 3) ∧
      StateMachineStore.apply counter st.stateMachine (unanswered Unit (Counter.log.segment 2 3)) =
        ⟨replay counter Counter.log.proposals, [], .ok ()⟩ := by
  have hseen : (Run.exec (RaftNode.step counter Counter.log) (opened Db.empty newCounter [])
      halfPurged).map (fun s => ((newStorage counter s.db).map fun st => (appliedState st).1,
        (getLogState Pb.Entry s.db).map LogState.lastLogId,
        decide (s.wal.synced ≤ s.wal.log.length))) =
      some (.ok (some ⟨1, 1⟩), .ok (some ⟨1, 2⟩), true) := by decide +kernel
  obtain ⟨s, hrun, hs⟩ := Option.map_eq_some_iff.1 hseen
  obtain ⟨hstore, hs⟩ := Prod.mk.inj hs
  obtain ⟨hstate, hsync⟩ := Prod.mk.inj hs
  obtain ⟨st, lp, ls, hnew, -, hls, -, hread⟩ := node_recovers (c := s.db) counter_roundTrips
    counterLog_gapFree (fun e he => exists_toVecIn he) (fun x => counterLog_ids) rfl
    (by simp [halfPurged]) hrun
    ⟨_, of_decide_eq_true hsync, le_rfl, (Wal.contentsAt_length s.wal).symm⟩
  rw [hnew] at hstore
  rw [hls] at hstate
  have hst : (appliedState st).1 = some ⟨1, 1⟩ := Except.ok.inj hstore
  have hlast : ls.lastLogId = some ⟨1, 2⟩ := Except.ok.inj hstate
  rw [hst, hlast] at hread
  obtain ⟨-, hentries, happly⟩ := hread 2 le_rfl (by decide)
  exact ⟨s, st, hrun, hnew, hst, hentries, happly fun ps id r _ => ⟨_, rfl⟩⟩

end RaftNode

end RaftService
