import RaftService.Counter
import RaftService.Store.RaftLog

/-!
# `RocksLogStore` refines the abstract Raft log

`Sim db a` ties the two column families to the abstract log: the column `logs` holds the entries
of `a`, and the column `meta` reads back its last purged log id and its vote. Every disciplined
operation keeps the relation (`sim_step`), every read answers what the abstract log says, so for
any sequence of operations and reads the store gives the abstract replies
(`rocksLogStore_refines`).

The shape of the calls of each operation (`append_io`, `purge_io`, `saveVote_io`, `truncate_io`)
is what the crash analysis uses as well.
-/

namespace RaftService

open RaftEntry (index logId)

variable {E V : Type}

/-- What `append` writes for one entry. -/
def putOf [RaftEntry E] [Serde E] (e : E) : Write :=
  .put .logs (RocksLogStore.idToBin (index e)) (bytesOf e)

namespace RocksLogStore

/-! ### The calls of each operation -/

section Calls

variable [RaftEntry E] [Serde E]

theorem putEntry_io {e : E} (h : Serializes e) : putEntry e = ⟨[.write (putOf e)], .ok ()⟩ := by
  simp [putEntry, h.toVec_eq, Io.putCf, putOf]

theorem forM_putEntry_io {es : List E} (h : ∀ e ∈ es, Serializes e) :
    es.forM putEntry = ⟨es.map fun e => .write (putOf e), .ok ()⟩ := by
  induction es with
  | nil => rfl
  | cons e es ih =>
    have hes := ih fun a ha => h a (List.mem_cons_of_mem e ha)
    show (putEntry e >>= fun _ => es.forM putEntry) = _
    rw [putEntry_io (h e List.mem_cons_self), Io.bind_of_ok rfl, hes]
    rfl

theorem append_io {es : List E} (h : ∀ e ∈ es, Serializes e) :
    append es = ⟨es.map (fun e => .write (putOf e)) ++ [.spawnFlush], .ok ()⟩ := by
  rw [append, forM_putEntry_io h, Io.bind_of_ok rfl]
  rfl

theorem purge_io [Serde LogId] [BuildProfile] {id : LogId} (h : Serializes id)
    (hid : id.index < u64Max) :
    purge id =
      ⟨[.write (.put .metadata StoreMeta.lastPurged.key (bytesOf id)),
        .write (.deleteRange .logs (idToBin 0) (idToBin (id.index + 1)))], .ok ()⟩ := by
  simp [purge, putMeta, h.toVec_eq, addOne_of_lt hid, Io.deleteRangeCf, Io.putCf,
    Io.bind_of_ok (x := ⟨_, .ok ()⟩) rfl]

theorem saveVote_io [Serde V] {v : V} (h : Serializes v) :
    saveVote v =
      ⟨[.write (.put .metadata (StoreMeta.vote (V := V)).key (bytesOf v)), .flushWal], .ok ()⟩ := by
  simp [saveVote, putMeta, h.toVec_eq, Io.putCf, Io.flushWal, Io.bind_of_ok (x := ⟨_, .ok ()⟩) rfl]

end Calls

/-! ### The column `meta` -/

section Meta

variable {α : Type} [Serde α]

theorem getMeta_of_eq {db db' : Db} (h : db' .metadata = db .metadata) (M : StoreMeta α) :
    getMeta db' M = getMeta db M := by
  rw [getMeta, getMeta, h]

theorem getMeta_put_self [LawfulSerde α] (db : Db) (M : StoreMeta α) {a : α} (h : Serializes a) :
    getMeta (db.write (.put .metadata M.key (bytesOf a))) M = .ok (some a) := by
  simp [getMeta, LawfulSerde.fromSlice_toVec h.toVec_eq]

theorem getMeta_put_of_ne (db : Db) (M : StoreMeta α) {key : Bytes} (hk : M.key ≠ key)
    (value : Bytes) : getMeta (db.write (.put .metadata key value)) M = getMeta db M := by
  rw [getMeta, getMeta, Db.write_put_self, SortedMap.get?_insert_ne _ hk]

theorem vote_key_ne : (StoreMeta.vote (V := V)).key ≠ StoreMeta.lastPurged.key := by
  show ascii "vote" ≠ ascii "last_purged_log_id"
  decide

end Meta

/-! ### The column `logs` under the puts of `append` -/

section Puts

variable [RaftEntry E] [Serde E]

theorem foldl_putOf_metadata (es : List E) (db : Db) :
    (es.map putOf).foldl Db.write db .metadata = db .metadata := by
  induction es generalizing db with
  | nil => rfl
  | cons e es ih =>
    rw [List.map_cons, List.foldl_cons, ih, putOf, Db.write_put_of_ne db (by decide)]

theorem holds_foldl_putOf {es fs : List E} {db : Db} (h : Holds (db .logs) es)
    (hfs : ∀ e ∈ fs, Serializes e) (hasc : (es ++ fs).Pairwise fun a b => index a < index b) :
    Holds ((fs.map putOf).foldl Db.write db .logs) (es ++ fs) := by
  induction fs generalizing db es with
  | nil => simpa using h
  | cons e fs ih =>
    have hlast : ∀ a ∈ es, index a < index e := fun a ha =>
      (List.pairwise_append.1 hasc).2.2 a ha e List.mem_cons_self
    have hput : Holds (db.write (putOf e) .logs) (es ++ [e]) := by
      rw [putOf, Db.write_put_self]
      exact h.insert_last (hfs e List.mem_cons_self).toVec_eq hlast
    have := ih hput (fun a ha => hfs a (List.mem_cons_of_mem e ha)) (by simpa using hasc)
    simpa using this

theorem holds_foldl_putOf_empty {fs : List E} (hfs : ∀ e ∈ fs, Serializes e)
    (hasc : fs.Pairwise fun a b => index a < index b) :
    Holds ((fs.map putOf).foldl Db.write Db.empty .logs) fs := by
  have hempty : Holds (Db.empty .logs) ([] : List E) := holds_empty
  exact holds_foldl_putOf hempty hfs hasc

end Puts

end RocksLogStore

/-! ### The simulation -/

section Simulation

variable [RaftEntry E] [Serde E] [Serde V] [Serde LogId]

/-- The values an operation writes can be written as JSON. -/
def LogOp.Serializable : LogOp E V → Prop
  | .append es => ∀ e ∈ es, Serializes e
  | .truncate _ => True
  | .purge id => Serializes id
  | .saveVote v => Serializes v

/-- The function of the store behind an operation. -/
def LogOp.io [BuildProfile] : LogOp E V → Io Unit
  | .append es => RocksLogStore.append es
  | .truncate id => RocksLogStore.truncate id
  | .purge id => RocksLogStore.purge id
  | .saveVote v => RocksLogStore.saveVote v

/-- The database holds the abstract log. -/
structure Sim (db : Db) (a : RaftLog E V) : Prop where
  logs : RocksLogStore.Holds (db .logs) a.entries
  purged : RocksLogStore.getMeta db .lastPurged = .ok a.lastPurged
  vote : RocksLogStore.readVote db = .ok a.vote

theorem sim_empty : Sim Db.empty (RaftLog.empty : RaftLog E V) :=
  ⟨RocksLogStore.holds_empty, rfl, rfl⟩

open RocksLogStore

/-- The range delete of `truncate` drops the entries from `i` on: all indexes are below
`u64::MAX`, the excluded end of the range. -/
theorem holds_truncate {a : RaftLog E V} {db : Db} (h : Sim db a) (i : UInt64) :
    Holds ((db .logs).eraseRange (idToBin i) (idToBin u64Max))
      (a.entries.filter fun e => index e < i) := by
  have heq : (a.entries.filter fun e => index e < i) =
      a.entries.filter fun e => decide (index e < i) || decide (index e = u64Max) :=
    List.filter_congr fun e he => by simp [(a.bounded e he).ne]
  rw [heq]
  exact h.logs.eraseFrom i

/-- The range delete of `purge` drops the entries up to `i`. -/
theorem holds_purge {a : RaftLog E V} {db : Db} (h : Sim db a) {i : UInt64} (hi : i < u64Max) :
    Holds ((db .logs).eraseRange (idToBin 0) (idToBin (i + 1)))
      (a.entries.filter fun e => i < index e) :=
  h.logs.eraseUpTo hi

/-- What the reads return under the simulation. -/
theorem Sim.reads [BuildProfile] [LawfulSerde E] {db : Db} {a : RaftLog E V} (h : Sim db a) :
    RocksLogStore.readVote db = .ok a.vote ∧
      RocksLogStore.getLogState E db = .ok ⟨a.lastPurged, a.lastLogId⟩ ∧
      ∀ range, RangeBounds.Seekable range → RocksLogStore.tryGetLogEntries db range =
        .ok (a.entries.filter fun e => range.contains (index e)) :=
  ⟨h.vote, getLogState_of_holds h.logs h.purged, fun _ hr => tryGetLogEntries_of_holds h.logs hr⟩

section Writes

variable [BuildProfile]

theorem append_writes {es : List E} (h : ∀ e ∈ es, Serializes e) :
    (LogOp.append es : LogOp E V).io.writes = es.map putOf := by
  rw [LogOp.io, append_io h]
  simp [Io.writes, Call.write?, Function.comp_def, List.filterMap_append, List.filterMap_map]

theorem purge_writes {id : LogId} (h : Serializes id) (hid : id.index < u64Max) :
    (LogOp.purge id : LogOp E V).io.writes =
      [.put .metadata StoreMeta.lastPurged.key (bytesOf id),
        .deleteRange .logs (idToBin 0) (idToBin (id.index + 1))] := by
  rw [LogOp.io, purge_io h hid]
  rfl

theorem saveVote_writes {v : V} (h : Serializes v) :
    (LogOp.saveVote v : LogOp E V).io.writes =
      [.put .metadata (StoreMeta.vote (V := V)).key (bytesOf v)] := by
  rw [LogOp.io, saveVote_io h]
  rfl

end Writes

variable [BuildProfile] [LawfulSerde V] [LawfulSerde LogId]

/-- **Every disciplined operation keeps the simulation**, and returns `Ok`. -/
theorem sim_step {db : Db} {a a' : RaftLog E V} {op : LogOp E V} (h : Sim db a)
    (hstep : a.step op = some a') (hser : op.Serializable) :
    op.io.result = .ok () ∧ Sim (op.io.run db) a' := by
  rcases RaftLog.step_cases hstep with ⟨es, rfl, hes, -, hv, hp, he⟩ | ⟨id, rfl, -, -, hv, hp, he⟩ |
    ⟨id, rfl, -, hid, hv, hp, he⟩ | ⟨v, rfl, hv, hp, he⟩
  · have hio : (LogOp.append es : LogOp E V).io = _ := append_io hser
    have hwrites : (LogOp.append es : LogOp E V).io.writes = es.map putOf := append_writes hser
    refine ⟨by rw [hio], ?_, ?_, ?_⟩
    · rw [he, Io.run, hwrites]
      exact holds_foldl_putOf h.logs hser
        (contiguous_append.2 ⟨a.gapFree, a.nextIndex_lastLogId ▸ hes⟩).ascending
    · rw [hp, Io.run, hwrites, getMeta_of_eq (foldl_putOf_metadata es db)]
      exact h.purged
    · rw [hv, Io.run, hwrites, readVote, getMeta_of_eq (foldl_putOf_metadata es db)]
      exact h.vote
  · have hrun : (LogOp.truncate id : LogOp E V).io.run db =
        db.write (.deleteRange .logs (idToBin id.index) (idToBin u64Max)) := rfl
    have hmeta : (LogOp.truncate id : LogOp E V).io.run db .metadata = db .metadata := by
      rw [hrun, Db.write_deleteRange_of_ne db (by decide)]
    refine ⟨rfl, ?_, ?_, ?_⟩
    · rw [he, hrun, Db.write_deleteRange_self]; exact holds_truncate h id.index
    · rw [hp, getMeta_of_eq hmeta]; exact h.purged
    · rw [hv, readVote, getMeta_of_eq hmeta]; exact h.vote
  · have hio : (LogOp.purge id : LogOp E V).io = _ := purge_io hser hid
    have hrun : (LogOp.purge id : LogOp E V).io.run db =
        (db.write (.put .metadata StoreMeta.lastPurged.key (bytesOf id))).write
          (.deleteRange .logs (idToBin 0) (idToBin (id.index + 1))) := by
      rw [hio]; rfl
    have hmeta : (LogOp.purge id : LogOp E V).io.run db .metadata =
        db.write (.put .metadata StoreMeta.lastPurged.key (bytesOf id)) .metadata := by
      rw [hrun, Db.write_deleteRange_of_ne _ (by decide)]
    refine ⟨by rw [hio], ?_, ?_, ?_⟩
    · rw [he, hrun, Db.write_deleteRange_self, Db.write_put_of_ne db (by decide)]
      exact holds_purge h hid
    · rw [hp, getMeta_of_eq hmeta]
      exact getMeta_put_self db .lastPurged hser
    · rw [hv, readVote, getMeta_of_eq hmeta, getMeta_put_of_ne db .vote vote_key_ne]
      exact h.vote
  · have hio : (LogOp.saveVote v : LogOp E V).io = _ := saveVote_io hser
    have hrun : (LogOp.saveVote v : LogOp E V).io.run db =
        db.write (.put .metadata (StoreMeta.vote (V := V)).key (bytesOf v)) := by
      rw [hio]; rfl
    refine ⟨by rw [hio], ?_, ?_, ?_⟩
    · rw [he, hrun, Db.write_put_of_ne db (by decide)]; exact h.logs
    · rw [hp, hrun, getMeta_put_of_ne db .lastPurged vote_key_ne.symm]; exact h.purged
    · rw [hv, hrun]; exact getMeta_put_self db .vote hser

/-! ### Requests and replies -/

/-- The store answers the requests one after the other, up to the first that fails. -/
def RocksLogStore.serve (db : Db) :
    List (LogRequest E V) → Except Fault (Db × List (LogReply E V))
  | [] => .ok (db, [])
  | .call op :: reqs => do
    op.io.result
    let (db, replies) ← serve (op.io.run db) reqs
    .ok (db, .done :: replies)
  | .tryGetLogEntries range :: reqs => do
    let es ← RocksLogStore.tryGetLogEntries db range
    let (db, replies) ← serve db reqs
    .ok (db, .entries es :: replies)
  | .readVote :: reqs => do
    let v ← RocksLogStore.readVote db
    let (db, replies) ← serve db reqs
    .ok (db, .vote v :: replies)
  | .getLogState :: reqs => do
    let st ← RocksLogStore.getLogState E db
    let (db, replies) ← serve db reqs
    .ok (db, .state st :: replies)

/-- The values a request writes have a JSON form, and the start of a range can be computed. -/
def LogRequest.Acceptable : LogRequest E V → Prop
  | .call op => op.Serializable
  | .tryGetLogEntries range => RangeBounds.Seekable range
  | .readVote => True
  | .getLogState => True

variable [LawfulSerde E]

theorem serve_of_sim {reqs : List (LogRequest E V)} {db : Db} {a a' : RaftLog E V}
    {replies : List (LogReply E V)} (h : Sim db a) (hacc : ∀ r ∈ reqs, r.Acceptable)
    (hserve : a.serve reqs = some (a', replies)) :
    ∃ db', RocksLogStore.serve db reqs = .ok (db', replies) ∧ Sim db' a' := by
  induction reqs generalizing db a a' replies with
  | nil => cases hserve; exact ⟨db, rfl, h⟩
  | cons r reqs ih =>
    have hr := hacc r List.mem_cons_self
    have hrest : ∀ q ∈ reqs, q.Acceptable := fun q hq => hacc q (List.mem_cons_of_mem r hq)
    obtain ⟨hvote, hstate, hentries⟩ := h.reads
    cases r with
    | call op =>
      simp only [RaftLog.serve, bind, Option.bind_eq_some_iff] at hserve
      obtain ⟨a₁, ha₁, ⟨a₂, reps⟩, ha₂, heq⟩ := hserve
      cases heq
      obtain ⟨hok, hsim⟩ := sim_step h ha₁ hr
      obtain ⟨db', hdb', hsim'⟩ := ih hsim hrest ha₂
      exact ⟨db', by simp [RocksLogStore.serve, hok, hdb', bind, Except.bind], hsim'⟩
    | tryGetLogEntries range =>
      simp only [RaftLog.serve, bind, Option.bind_eq_some_iff] at hserve
      obtain ⟨⟨a₂, reps⟩, ha₂, heq⟩ := hserve
      cases heq
      obtain ⟨db', hdb', hsim'⟩ := ih h hrest ha₂
      exact ⟨db', by simp [RocksLogStore.serve, hentries range hr, hdb', bind, Except.bind], hsim'⟩
    | readVote =>
      simp only [RaftLog.serve, bind, Option.bind_eq_some_iff] at hserve
      obtain ⟨⟨a₂, reps⟩, ha₂, heq⟩ := hserve
      cases heq
      obtain ⟨db', hdb', hsim'⟩ := ih h hrest ha₂
      exact ⟨db', by simp [RocksLogStore.serve, hvote, hdb', bind, Except.bind], hsim'⟩
    | getLogState =>
      simp only [RaftLog.serve, bind, Option.bind_eq_some_iff] at hserve
      obtain ⟨⟨a₂, reps⟩, ha₂, heq⟩ := hserve
      cases heq
      obtain ⟨db', hdb', hsim'⟩ := ih h hrest ha₂
      exact ⟨db', by simp [RocksLogStore.serve, hstate, hdb', bind, Except.bind], hsim'⟩

/-- **`RocksLogStore` refines the abstract Raft log**: for every disciplined sequence of
operations and reads from an empty database, no call fails or panics, the replies are those of
the abstract log, and the final database holds the final abstract log. -/
theorem rocksLogStore_refines {reqs : List (LogRequest E V)} {a : RaftLog E V}
    {replies : List (LogReply E V)} (hacc : ∀ r ∈ reqs, r.Acceptable)
    (hserve : RaftLog.empty.serve reqs = some (a, replies)) :
    ∃ db, RocksLogStore.serve Db.empty reqs = .ok (db, replies) ∧ Sim db a :=
  serve_of_sim sim_empty hacc hserve

end Simulation

/-! ### The log of the counter -/

section Counter

open scoped Counter

/-- The log is appended, truncated and purged, a vote is saved, and all of it is read. -/
def counterRequests : List (LogRequest Pb.Entry Pb.Vote) :=
  [.call (.append Counter.entries), .call (.saveVote Counter.vote), .call (.truncate ⟨1, 2⟩),
    .call (.purge ⟨1, 0⟩), .tryGetLogEntries ⟨.excluded 0, .unbounded⟩, .readVote, .getLogState]

/-- The store answers as the abstract log does. -/
theorem serve_counterRequests :
    ∃ db, RocksLogStore.serve Db.empty counterRequests =
      .ok (db, [.done, .done, .done, .done, .entries ((Counter.entries.drop 1).take 1),
        .vote (some Counter.vote), .state ⟨some ⟨1, 0⟩, some ⟨1, 1⟩⟩]) := by
  have hacc : ∀ r ∈ counterRequests, r.Acceptable := by
    simp only [counterRequests, List.forall_mem_cons]
    refine ⟨fun e he => exists_toVecIn he, exists_toVecIn (by decide), trivial,
      exists_toVecIn (by decide), fun _ => by decide, trivial, trivial, by simp⟩
  obtain ⟨db, hserve, -⟩ := rocksLogStore_refines hacc rfl
  exact ⟨db, hserve⟩

end Counter

end RaftService
