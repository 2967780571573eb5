import RaftService.Store.Refinement

/-!
# A purge that stops half way

`purge` first writes the last purged log id and then deletes a range of the column `logs`, in
another column family. When the deletion fails, or the process stops before it, the entries stay.

* `PurgedLog`: what the store then tracks, entries without gaps that start at or below the last
  purged log id and reach it;
* `PurgeEvent.step`: one call that keeps the discipline towards the log state the store reports, or
  a purge that stops;
* `logState_ordered_iff`: the reported log state is ordered throughout a run exactly when every
  purge that stops is covered by the entries the store holds, if it holds any.
-/

namespace RaftService

open RaftEntry (index logId)

variable {E : Type} [RaftEntry E]

/-! ### What is tracked -/

/-- The last purged log id, and entries without gaps that start at or below its successor and reach
it. -/
structure PurgedLog (E : Type) [RaftEntry E] where
  lastPurged : Option LogId
  start : ℕ
  entries : List E
  gapFree : Contiguous start entries
  starts : start ≤ nextIndex lastPurged
  reaches : nextIndex lastPurged ≤ start + entries.length
  bounded : ∀ e ∈ entries, index e < u64Max

namespace PurgedLog

theorem bounded_nil : ∀ e ∈ ([] : List E), index e < u64Max := by simp

/-- The log of a database just created. -/
def empty : PurgedLog E := ⟨none, 0, [], trivial, le_rfl, le_rfl, bounded_nil⟩

/-- The log id of the last entry, the last purged one when there is no entry. -/
def lastLogId (a : PurgedLog E) : Option LogId := (a.entries.getLast?.map logId).or a.lastPurged

/-- The last log id is where the entries end. -/
theorem nextIndex_lastLogId (a : PurgedLog E) :
    nextIndex a.lastLogId = a.start + a.entries.length := by
  have hgap := a.gapFree
  have hstarts := a.starts
  have hreaches := a.reaches
  unfold lastLogId
  rcases List.eq_nil_or_concat a.entries with hnil | ⟨es, e, hes⟩
  · rw [hnil] at hreaches ⊢
    simp only [List.getLast?_nil, Option.map_none, Option.none_or, List.length_nil] at hreaches ⊢
    omega
  · rw [List.concat_eq_append] at hes
    rw [hes] at hgap ⊢
    have hlast := (contiguous_append.1 hgap).2.1
    simp [hlast, Nat.add_assoc]

theorem ordered (a : PurgedLog E) : nextIndex a.lastPurged ≤ nextIndex a.lastLogId := by
  rw [a.nextIndex_lastLogId]
  exact a.reaches

/-- Contiguous entries that start right after the last log id are appended. -/
def append (a : PurgedLog E) (es : List E) (h : Contiguous (nextIndex a.lastLogId) es)
    (hmax : ∀ e ∈ es, index e < u64Max) : PurgedLog E where
  lastPurged := a.lastPurged
  start := a.start
  entries := a.entries ++ es
  gapFree := contiguous_append.2 ⟨a.gapFree, a.nextIndex_lastLogId ▸ h⟩
  starts := a.starts
  reaches := by
    have := a.reaches
    rw [List.length_append]
    omega
  bounded e he := (List.mem_append.1 he).elim (a.bounded e) (hmax e)

theorem length_filter_lt (a : PurgedLog E) {i : UInt64} (hi : i.toNat ≤ nextIndex a.lastLogId) :
    (a.entries.filter fun e => index e < i).length = i.toNat - a.start := by
  have htake := a.gapFree.filter_lt_eq_take i.toNat
  have hlast := a.nextIndex_lastLogId
  simp only [UInt64.lt_iff_toNat_lt]
  rw [htake, List.length_take]
  omega

/-- The entries from an index above the last purged one on are dropped. -/
def truncate (a : PurgedLog E) (i : UInt64) (hlow : nextIndex a.lastPurged ≤ i.toNat)
    (hhigh : i.toNat ≤ nextIndex a.lastLogId) : PurgedLog E where
  lastPurged := a.lastPurged
  start := a.start
  entries := a.entries.filter fun e => index e < i
  gapFree := a.gapFree.filter_lt i
  starts := a.starts
  reaches := by
    have := a.starts
    rw [a.length_filter_lt hhigh]
    omega
  bounded e he := a.bounded e (List.mem_filter.1 he).1

/-- The entries up to a log id are dropped, and it is recorded. -/
def purge (a : PurgedLog E) (id : LogId) (h : nextIndex a.lastPurged ≤ id.index.toNat + 1) :
    PurgedLog E where
  lastPurged := some id
  start := id.index.toNat + 1
  entries := a.entries.filter fun e => id.index < index e
  gapFree := a.gapFree.filter_gt (a.starts.trans h)
  starts := le_rfl
  reaches := Nat.le_add_right ..
  bounded e he := a.bounded e (List.mem_filter.1 he).1

/-- The log id is recorded, and no entry is dropped: there is none, or the last one is not below. -/
theorem exists_purgeStopped (a : PurgedLog E) (id : LogId)
    (h : nextIndex a.lastPurged ≤ id.index.toNat + 1)
    (hcovered : ∀ e ∈ a.entries.getLast?, id.index ≤ index e) :
    ∃ a' : PurgedLog E, a'.lastPurged = some id ∧ a'.entries = a.entries := by
  by_cases hnil : a.entries = []
  · refine ⟨⟨some id, id.index.toNat + 1, [], trivial, le_rfl, le_rfl, by simp⟩, rfl, hnil.symm⟩
  · have hlast := a.nextIndex_lastLogId
    have hget := List.getLast?_eq_some_getLast hnil
    have hle := hcovered _ hget
    unfold lastLogId at hlast
    rw [hget] at hlast
    simp only [Option.map_some, Option.some_or, nextIndex_some, RaftEntry.index_logId] at hlast
    rw [UInt64.le_iff_toNat_le] at hle
    refine ⟨⟨some id, a.start, a.entries, a.gapFree, a.starts.trans h, ?_, a.bounded⟩, rfl, rfl⟩
    rw [nextIndex_some]
    omega

end PurgedLog

/-! ### Calls -/

/-- The calls that change the log; a purge may stop between its two writes. -/
inductive PurgeEvent (E : Type)
  | append (entries : List E)
  | truncate (logId : LogId)
  | purge (logId : LogId)
  | purgeStopped (logId : LogId)

namespace PurgeEvent

/-- The discipline of a caller that was told the log state. -/
def Disciplined (st : LogState) : PurgeEvent E → Prop
  | .append es => Contiguous (nextIndex st.lastLogId) es ∧ ∀ e ∈ es, index e < u64Max
  | .truncate id =>
    nextIndex st.lastPurgedLogId ≤ id.index.toNat ∧ id.index.toNat ≤ nextIndex st.lastLogId
  | .purge id => nextIndex st.lastPurgedLogId ≤ id.index.toNat + 1 ∧ id.index < u64Max
  | .purgeStopped id => nextIndex st.lastPurgedLogId ≤ id.index.toNat + 1 ∧ id.index < u64Max

instance (st : LogState) (ev : PurgeEvent E) : Decidable (ev.Disciplined st) :=
  match ev with
  | .append es =>
    inferInstanceAs
      (Decidable (Contiguous (nextIndex st.lastLogId) es ∧ ∀ e ∈ es, index e < u64Max))
  | .truncate id =>
    inferInstanceAs (Decidable
      (nextIndex st.lastPurgedLogId ≤ id.index.toNat ∧ id.index.toNat ≤ nextIndex st.lastLogId))
  | .purge id =>
    inferInstanceAs
      (Decidable (nextIndex st.lastPurgedLogId ≤ id.index.toNat + 1 ∧ id.index < u64Max))
  | .purgeStopped id =>
    inferInstanceAs
      (Decidable (nextIndex st.lastPurgedLogId ≤ id.index.toNat + 1 ∧ id.index < u64Max))

variable [Serde E] [Serde LogId]

/-- The values a call writes can be written as JSON. -/
def Serializable : PurgeEvent E → Prop
  | .append es => ∀ e ∈ es, Serializes e
  | .truncate _ => True
  | .purge id => Serializes id
  | .purgeStopped id => Serializes id

/-- What a call leaves in the database; a purge that stops leaves its first write. -/
def effect [BuildProfile] (db : Db) : PurgeEvent E → Db
  | .append es => (RocksLogStore.append es).run db
  | .truncate id => (RocksLogStore.truncate id).run db
  | .purge id => (RocksLogStore.purge id).run db
  | .purgeStopped id => ((RocksLogStore.purge id).writes.take 1).foldl Db.write db

/-- A call of a caller that knows the log state the store reports. -/
def step [BuildProfile] (db : Db) (ev : PurgeEvent E) : Option Db :=
  match RocksLogStore.getLogState E db with
  | .error _ => none
  | .ok st => if ev.Disciplined st then some (ev.effect db) else none

/-- When a purge stops, the store holds no entry, or its last one is not below the log id. -/
def Covered (db : Db) : PurgeEvent E → Prop
  | .purgeStopped id => ∀ key value (e : E), (db .logs).last? = some (key, value) →
      Serde.fromSlice value = .ok e → id.index ≤ index e
  | _ => True

end PurgeEvent

/-- The store reports a last log id that is not below the last purged one. -/
def LogStateOrdered (E : Type) [RaftEntry E] [Serde E] [Serde LogId] (db : Db) : Prop :=
  ∃ st, RocksLogStore.getLogState E db = .ok st ∧
    nextIndex st.lastPurgedLogId ≤ nextIndex st.lastLogId

/-! ### The store tracks the log -/

section Tracks

variable [Serde E] [Serde LogId]

open RocksLogStore

section Effects

variable [BuildProfile]

theorem append_run {es : List E} (h : ∀ e ∈ es, Serializes e) (db : Db) :
    (RocksLogStore.append es).run db = (es.map putOf).foldl Db.write db := by
  have hwrites : (RocksLogStore.append es).writes = es.map putOf := append_writes (V := E) h
  rw [Io.run, hwrites]

theorem purge_run {id : LogId} (hser : Serializes id) (hid : id.index < u64Max) (db : Db) :
    (RocksLogStore.purge id).run db =
      (db.write (.put .metadata StoreMeta.lastPurged.key (bytesOf id))).write
        (.deleteRange .logs (idToBin 0) (idToBin (id.index + 1))) := by
  rw [purge_io hser hid]
  rfl

theorem stopped_effect {id : LogId} (hser : Serializes id) (hid : id.index < u64Max) (db : Db) :
    (PurgeEvent.purgeStopped id : PurgeEvent E).effect db =
      db.write (.put .metadata StoreMeta.lastPurged.key (bytesOf id)) := by
  show ((RocksLogStore.purge id).writes.take 1).foldl Db.write db = _
  rw [purge_io hser hid]
  rfl

/-- A purge whose deletion fails leaves the same. -/
theorem purge_runFailing {id : LogId} (hser : Serializes id) (hid : id.index < u64Max) (db : Db)
    (e : IoError) :
    (RocksLogStore.purge id).runFailing 1 e db =
      ((PurgeEvent.purgeStopped id : PurgeEvent E).effect db, .error (.io e)) := by
  rw [stopped_effect hser hid, purge_io hser hid]
  rfl

end Effects

/-- The database holds the log. -/
structure Tracks (db : Db) (a : PurgedLog E) : Prop where
  logs : Holds (db .logs) a.entries
  purged : getMeta db .lastPurged = .ok a.lastPurged

theorem tracks_empty : Tracks Db.empty (PurgedLog.empty : PurgedLog E) := ⟨holds_empty, rfl⟩

/-- After a purge that stops, the entries are those before and the last purged log id is new. -/
theorem Tracks.stopped [BuildProfile] [LawfulSerde LogId] {db : Db} {a : PurgedLog E}
    (h : Tracks db a) {id : LogId} (hser : Serializes id) (hid : id.index < u64Max) :
    Holds ((PurgeEvent.purgeStopped id : PurgeEvent E).effect db .logs) a.entries ∧
      getMeta ((PurgeEvent.purgeStopped id : PurgeEvent E).effect db) .lastPurged =
        .ok (some id) := by
  rw [stopped_effect hser hid]
  constructor
  · rw [Db.write_put_of_ne db (by decide)]
    exact h.logs
  · exact getMeta_put_self db .lastPurged hser

variable [LawfulSerde E]

theorem Tracks.logState {db : Db} {a : PurgedLog E} (h : Tracks db a) :
    getLogState E db = .ok ⟨a.lastPurged, a.lastLogId⟩ := getLogState_of_holds h.logs h.purged

theorem Tracks.ordered {db : Db} {a : PurgedLog E} (h : Tracks db a) : LogStateOrdered E db :=
  ⟨_, h.logState, a.ordered⟩

/-- The last value of the column is the last entry. -/
theorem Tracks.covered_iff {db : Db} {a : PurgedLog E} (h : Tracks db a) (id : LogId) :
    (PurgeEvent.purgeStopped id : PurgeEvent E).Covered db ↔
      ∀ e ∈ a.entries.getLast?, id.index ≤ index e := by
  show (∀ key value (e : E), (db .logs).last? = some (key, value) →
    Serde.fromSlice value = .ok e → id.index ≤ index e) ↔ _
  unfold SortedMap.last?
  rcases getLast?_of_stored h.logs with ⟨hlast, hnone⟩ | ⟨⟨k, v⟩, e, hlast, hsome, hstored⟩
  · rw [hlast, hnone]
    simp
  · have hread : (Serde.fromSlice v : Except String E) = .ok e :=
      LawfulSerde.fromSlice_toVec hstored.2
    rw [hlast, hsome]
    constructor
    · rintro hall _ ⟨⟩
      exact hall k v e rfl hread
    · rintro hall _ _ e' ⟨⟩ hread'
      rw [hread] at hread'
      cases hread'
      exact hall e rfl

variable [BuildProfile]

theorem PurgeEvent.step_eq_some {db db' : Db} {a : PurgedLog E} (h : Tracks db a)
    {ev : PurgeEvent E} (hstep : PurgeEvent.step db ev = some db') :
    ev.Disciplined ⟨a.lastPurged, a.lastLogId⟩ ∧ db' = ev.effect db := by
  unfold PurgeEvent.step at hstep
  rw [h.logState] at hstep
  simp only [Option.ite_none_right_eq_some] at hstep
  obtain ⟨hd, heq⟩ := hstep
  exact ⟨hd, (Option.some.inj heq).symm⟩

variable [LawfulSerde LogId]

/-- **A disciplined call keeps the store on a log**, unless it is a purge that stops and is not
covered. -/
theorem Tracks.step {db : Db} {a : PurgedLog E} (h : Tracks db a) {ev : PurgeEvent E}
    (hd : ev.Disciplined ⟨a.lastPurged, a.lastLogId⟩) (hser : ev.Serializable)
    (hcovered : ev.Covered db) : ∃ a' : PurgedLog E, Tracks (ev.effect db) a' := by
  cases ev with
  | append es =>
    refine ⟨a.append es hd.1 hd.2, ?_, ?_⟩
    · show Holds ((RocksLogStore.append es).run db .logs) (a.entries ++ es)
      rw [append_run hser]
      exact holds_foldl_putOf h.logs hser (a.append es hd.1 hd.2).gapFree.ascending
    · show getMeta ((RocksLogStore.append es).run db) .lastPurged = .ok a.lastPurged
      rw [append_run hser, getMeta_of_eq (foldl_putOf_metadata es db)]
      exact h.purged
  | truncate id =>
    have hrun : (RocksLogStore.truncate id).run db =
        db.write (.deleteRange .logs (idToBin id.index) (idToBin u64Max)) := rfl
    have heq : (a.entries.filter fun e => index e < id.index) =
        a.entries.filter fun e => decide (index e < id.index) || decide (index e = u64Max) :=
      List.filter_congr fun e he => by simp [(a.bounded e he).ne]
    refine ⟨a.truncate id.index hd.1 hd.2, ?_, ?_⟩
    · show Holds ((RocksLogStore.truncate id).run db .logs)
        (a.entries.filter fun e => index e < id.index)
      rw [hrun, Db.write_deleteRange_self, heq]
      exact h.logs.eraseFrom id.index
    · show getMeta ((RocksLogStore.truncate id).run db) .lastPurged = .ok a.lastPurged
      rw [hrun, getMeta_of_eq (Db.write_deleteRange_of_ne db (by decide) _ _)]
      exact h.purged
  | purge id =>
    refine ⟨a.purge id hd.1, ?_, ?_⟩
    · show Holds ((RocksLogStore.purge id).run db .logs)
        (a.entries.filter fun e => id.index < index e)
      rw [purge_run hser hd.2, Db.write_deleteRange_self, Db.write_put_of_ne db (by decide)]
      exact h.logs.eraseUpTo hd.2
    · show getMeta ((RocksLogStore.purge id).run db) .lastPurged = .ok (some id)
      rw [purge_run hser hd.2, getMeta_of_eq (Db.write_deleteRange_of_ne _ (by decide) _ _)]
      exact getMeta_put_self db .lastPurged hser
  | purgeStopped id =>
    obtain ⟨hlogs, hpurged⟩ := h.stopped hser hd.2
    obtain ⟨a', hlast, hentries⟩ := a.exists_purgeStopped id hd.1 ((h.covered_iff id).1 hcovered)
    refine ⟨a', ?_, ?_⟩
    · rw [hentries]
      exact hlogs
    · rw [hlast]
      exact hpurged

/-- A purge that stops and is not covered leaves a log state that is not ordered. -/
theorem Tracks.not_ordered {db : Db} {a : PurgedLog E} (h : Tracks db a) {ev : PurgeEvent E}
    (hd : ev.Disciplined ⟨a.lastPurged, a.lastLogId⟩) (hser : ev.Serializable)
    (hcovered : ¬ ev.Covered db) : ¬ LogStateOrdered E (ev.effect db) := by
  cases ev with
  | append es => exact absurd trivial hcovered
  | truncate id => exact absurd trivial hcovered
  | purge id => exact absurd trivial hcovered
  | purgeStopped id =>
    obtain ⟨hlogs, hpurged⟩ := h.stopped hser hd.2
    rw [h.covered_iff id] at hcovered
    push Not at hcovered
    obtain ⟨e, he, hlt⟩ := hcovered
    rintro ⟨st, hst, hordered⟩
    rw [getLogState_of_holds hlogs hpurged] at hst
    cases hst
    rw [Option.mem_def] at he
    rw [he] at hordered
    simp only [Option.map_some, Option.some_or, nextIndex_some, RaftEntry.index_logId] at hordered
    rw [UInt64.lt_iff_toNat_lt] at hlt
    omega

/-! ### Runs -/

/-- The log state is ordered in every state of the run. -/
def RunOrdered (events : List (PurgeEvent E)) : Prop :=
  ∀ before db, before <+: events → Run.exec PurgeEvent.step Db.empty before = some db →
    LogStateOrdered E db

/-- Every purge of the run that stops is covered by the entries of the state it stops in. -/
def RunCovered (events : List (PurgeEvent E)) : Prop :=
  ∀ before ev db, before ++ [ev] <+: events →
    Run.exec PurgeEvent.step Db.empty before = some db → ev.Covered db

/-- In a run whose stopped purges are covered, the store tracks a log. -/
theorem tracks_of_runCovered {events : List (PurgeEvent E)}
    (hser : ∀ ev ∈ events, ev.Serializable)
    (h : ∀ before ev db, before ++ [ev] <+: events → (∃ a : PurgedLog E, Tracks db a) →
      Run.exec PurgeEvent.step Db.empty before = some db →
      PurgeEvent.step db ev = some (ev.effect db) → ev.Covered db) :
    ∀ before db, Run.exec PurgeEvent.step Db.empty before = some db → before <+: events →
      ∃ a : PurgedLog E, Tracks db a := by
  refine Run.exec_induction ?_ ?_
  · intro _
    exact ⟨_, tracks_empty⟩
  · intro before db ev db' hbefore ih hstep hpre
    obtain ⟨a, ha⟩ := ih ((List.prefix_append before [ev]).trans hpre)
    obtain ⟨hd, rfl⟩ := PurgeEvent.step_eq_some ha hstep
    have hmem : ev ∈ events := hpre.subset (by simp)
    exact ha.step hd (hser ev hmem) (h before ev db hpre ⟨a, ha⟩ hbefore hstep)

/-- **The reported log state is ordered throughout a run exactly when every purge that stops is
covered**: it stops on a store without entries, or not beyond the last entry. -/
theorem logState_ordered_iff {events : List (PurgeEvent E)} {final : Db}
    (hser : ∀ ev ∈ events, ev.Serializable)
    (hrun : Run.exec PurgeEvent.step Db.empty events = some final) :
    RunOrdered events ↔ RunCovered events := by
  constructor
  · intro hordered
    have hcovered : ∀ before ev db, before ++ [ev] <+: events →
        (∃ a : PurgedLog E, Tracks db a) → Run.exec PurgeEvent.step Db.empty before = some db →
        PurgeEvent.step db ev = some (ev.effect db) → ev.Covered db := by
      rintro before ev db hpre ⟨a, ha⟩ hbefore hstep
      by_contra hnot
      obtain ⟨hd, -⟩ := PurgeEvent.step_eq_some ha hstep
      refine ha.not_ordered hd (hser ev (hpre.subset (by simp))) hnot ?_
      exact hordered _ _ hpre (Run.exec_snoc_eq_some.2 ⟨db, hbefore, hstep⟩)
    intro before ev db hpre hbefore
    obtain ⟨a, ha⟩ := tracks_of_runCovered hser hcovered before db hbefore
      ((List.prefix_append before [ev]).trans hpre)
    -- the event is one of a run, so it is enabled
    obtain ⟨rest, hrest⟩ := hpre
    rw [← hrest] at hrun
    obtain ⟨db', hdb', -⟩ := Run.exec_append_eq_some.1 hrun
    obtain ⟨db₁, hdb₁, hstep⟩ := Run.exec_snoc_eq_some.1 hdb'
    rw [hbefore] at hdb₁
    cases hdb₁
    obtain ⟨-, rfl⟩ := PurgeEvent.step_eq_some ha hstep
    exact hcovered before ev db ⟨rest, hrest⟩ ⟨a, ha⟩ hbefore hstep
  · intro hcovered before db hpre hbefore
    obtain ⟨a, ha⟩ := tracks_of_runCovered hser
      (fun before ev db hpre _ hbefore _ => hcovered before ev db hpre hbefore) before db hbefore
      hpre
    exact ha.ordered

end Tracks

/-! ### Runs of the counter -/

section Counter

open scoped Counter

/-- Append the log, and purge up to the second entry; the deletion does not happen. -/
def coveredRun : List (PurgeEvent Pb.Entry) := [.append Counter.entries, .purgeStopped ⟨1, 1⟩]

/-- Append the first entry, and purge up to the third, as after a snapshot; the deletion does not
happen. -/
def uncoveredRun : List (PurgeEvent Pb.Entry) :=
  [.append (Counter.entries.take 1), .purgeStopped ⟨1, 2⟩]

theorem coveredRun_serializable : ∀ ev ∈ coveredRun, ev.Serializable := by
  simp only [coveredRun, List.forall_mem_cons]
  exact ⟨fun e he => exists_toVecIn he, exists_toVecIn (by decide), by simp⟩

/-- The purge stops on a store whose last entry is not below its log id. -/
theorem coveredRun_covered : RunCovered coveredRun := by
  have hser := coveredRun_serializable
  rintro (_ | ⟨ev₁, _ | ⟨ev₂, before⟩⟩) ev db ⟨rest, hrest⟩ hbefore
  · cases hrest
    exact trivial
  · cases hrest
    obtain ⟨db₁, hstep, ⟨⟩⟩ := Run.exec_cons_eq_some.1 hbefore
    obtain ⟨hd, rfl⟩ := PurgeEvent.step_eq_some tracks_empty hstep
    obtain ⟨a, ha⟩ := tracks_empty.step hd (hser _ List.mem_cons_self) trivial
    have hholds : RocksLogStore.Holds
        ((PurgeEvent.append Counter.entries).effect Db.empty .logs) Counter.entries := by
      show RocksLogStore.Holds ((RocksLogStore.append Counter.entries).run Db.empty .logs) _
      rw [append_run (hser _ List.mem_cons_self)]
      exact RocksLogStore.holds_foldl_putOf_empty (hser _ List.mem_cons_self) (by decide +kernel)
    rw [ha.covered_iff, RocksLogStore.holds_unique ha.logs hholds]
    rintro e ⟨⟩
    decide +kernel
  · have hlength := congrArg List.length hrest
    simp [coveredRun] at hlength

/-- The log state is ordered all along. -/
theorem coveredRun_ordered : RunOrdered coveredRun := by
  obtain ⟨final, hfinal⟩ : ∃ final, Run.exec PurgeEvent.step Db.empty coveredRun = some final :=
    Option.isSome_iff_exists.1 (by decide +kernel)
  exact (logState_ordered_iff coveredRun_serializable hfinal).2 coveredRun_covered

/-- The store reports `1-2` as the last purged log id, and `1-0` as the last one. -/
theorem uncoveredRun_not_ordered :
    (∃ db, Run.exec PurgeEvent.step Db.empty uncoveredRun = some db ∧
      RocksLogStore.getLogState Pb.Entry db = .ok ⟨some ⟨1, 2⟩, some ⟨1, 0⟩⟩) ∧
      ¬ RunOrdered uncoveredRun := by
  have hrun : ∃ db, Run.exec PurgeEvent.step Db.empty uncoveredRun = some db ∧
      RocksLogStore.getLogState Pb.Entry db = .ok ⟨some ⟨1, 2⟩, some ⟨1, 0⟩⟩ :=
    Option.map_eq_some_iff.1 (by decide +kernel)
  refine ⟨hrun, ?_⟩
  intro h
  obtain ⟨db, hdb, hstate⟩ := hrun
  obtain ⟨st, hst, hordered⟩ := h uncoveredRun db (List.prefix_refl _) hdb
  rw [hstate] at hst
  cases hst
  exact absurd hordered (by decide)

end Counter

end RaftService
