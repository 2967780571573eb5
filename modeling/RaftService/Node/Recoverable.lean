import RaftService.Store.Refinement
import RaftService.StateMachine.Snapshot

/-!
# Databases a node can recover from

The application state is on disk only inside the snapshot, the entries only above the last purged
log id. A node recovers without a gap when the two fit: `Recoverable A log c` says that in `c`
the snapshot is one of the log, the last purged log id is not above it, and the entries held are
consecutive and start not later than right after it.

* `ReferenceLog.lastAt`, `ReferenceLog.segment`: log ids and entries of a log without gaps, by
  position;
* `Recoverable.putEntry`, `Recoverable.putPurged`, `Recoverable.deleteUpTo`,
  `Recoverable.putSnapshot`: what one write of either store may do;
* `Recoverable.reopens`: what `new_storage` and the readers find.
-/

namespace RaftService

open RaftEntry (index logId)
open RocksLogStore StateMachineStore

variable {σ Req Resp Snap ρ : Type}

/-! ### Positions in a log without gaps -/

/-- The index right after a log id, where a restarted node goes on applying. -/
def firstToApply : Option LogId → UInt64
  | none => 0
  | some l => l.index + 1

namespace ReferenceLog

section Positions

variable [Serde Req] (log : ReferenceLog Req)

/-- The last log id of the first `k` entries. -/
def lastAt (k : ℕ) : Option LogId := lastLogIdOf (log.proposals.take k)

/-- A log id of the log, or none. -/
def Has (l : Option LogId) : Prop := ∃ k ≤ log.entries.length, l = log.lastAt k

/-- The entries at the positions from `i` up to `j`, the latter excluded. -/
def segment (i j : ℕ) : List Pb.Entry := (log.entries.take j).drop i

/-- The indexes of the log are `0`, `1`, and so on, below `u64::MAX`. -/
structure GapFree : Prop where
  contiguous : Contiguous 0 log.entries
  bounded : ∀ e ∈ log.entries, index e < u64Max

variable {log}

/-- The entries of a segment encode the proposals at its positions. -/
theorem encodes_segment (i j : ℕ) :
    List.Forall₂ (fun p e => Pb.Entry.new p.1 p.2 = .ok e) ((log.proposals.take j).drop i)
      (log.segment i j) :=
  List.forall₂_drop i (List.forall₂_take j log.encodes)

/-- The last log id can be read off the entries. -/
theorem lastAt_eq (k : ℕ) : log.lastAt k = (log.entries.take k).getLast?.map logId := by
  have hids : (log.proposals.take k).map Prod.fst = (log.entries.take k).map logId := by
    have h := List.forall₂_take k log.encodes
    generalize log.proposals.take k = ps, log.entries.take k = es at h
    induction h with
    | nil => rfl
    | cons hpe _ ih => rw [List.map_cons, List.map_cons, ih, (Pb.Entry.new_cases hpe).1]
  rw [lastAt, lastLogIdOf, ← List.getLast?_map, hids, List.getLast?_map]

/-- Where the first `k` entries end. -/
theorem GapFree.nextIndex_lastAt (h : log.GapFree) {k : ℕ} (hk : k ≤ log.entries.length) :
    nextIndex (log.lastAt k) = k := by
  rw [lastAt_eq]
  rcases List.eq_nil_or_concat (log.entries.take k) with hnil | ⟨es, e, hes⟩
  · rw [hnil]
    have := congrArg List.length hnil
    rw [List.length_take, List.length_nil] at this
    simp
    omega
  · rw [List.concat_eq_append] at hes
    have hcont := h.contiguous.take k
    rw [hes] at hcont
    have hlen := congrArg List.length hes
    rw [List.length_take, List.length_append, List.length_singleton] at hlen
    have := (contiguous_append.1 hcont).2.1
    rw [hes, List.getLast?_append, List.getLast?_singleton, Option.some_or, Option.map_some,
      nextIndex_some, RaftEntry.index_logId]
    omega

/-- The indexes of log ids of the log are below `u64::MAX`, too. -/
theorem GapFree.index_lt (h : log.GapFree) {l : LogId} (hl : log.Has (some l)) :
    l.index < u64Max := by
  obtain ⟨k, -, hk⟩ := hl
  rw [lastAt_eq, eq_comm, Option.map_eq_some_iff] at hk
  obtain ⟨e, he, rfl⟩ := hk
  exact h.bounded e (List.mem_of_mem_take (List.mem_of_getLast? he))

/-- The log id of the entry at position `k`. -/
theorem lastAt_succ {k : ℕ} {e : Pb.Entry} (he : log.entries[k]? = some e) :
    log.lastAt (k + 1) = some (logId e) := by
  rw [lastAt_eq, List.take_add_one, he, Option.toList_some, List.getLast?_append,
    List.getLast?_singleton, Option.some_or, Option.map_some]

theorem has_of_mem {l : LogId} (hl : l ∈ log.entries.map logId) : log.Has (some l) := by
  obtain ⟨e, he, rfl⟩ := List.mem_map.1 hl
  obtain ⟨k, hk⟩ := List.mem_iff_getElem?.1 he
  exact ⟨k + 1, (List.getElem?_eq_some_iff.1 hk).1, (lastAt_succ hk).symm⟩

theorem lastAt_mono {k k' : ℕ} (h : k ≤ k') : log.lastAt k ≤ log.lastAt k' := by
  obtain ⟨qs, hqs⟩ := List.take_prefix_take_left (l := log.proposals) h
  rw [lastAt, lastAt, ← hqs]
  exact lastLogIdOf_le (hqs ▸ List.take_prefix k' log.proposals)

/-- Log ids of the log compare as their indexes do. -/
theorem GapFree.le_iff (h : log.GapFree) {l l' : Option LogId} (hl : log.Has l)
    (hl' : log.Has l') : l ≤ l' ↔ nextIndex l ≤ nextIndex l' := by
  obtain ⟨k, hk, rfl⟩ := hl
  obtain ⟨k', hk', rfl⟩ := hl'
  rw [h.nextIndex_lastAt hk, h.nextIndex_lastAt hk']
  refine ⟨fun hle => ?_, lastAt_mono⟩
  by_contra hlt
  have heq := le_antisymm hle (lastAt_mono (le_of_not_ge hlt))
  have := congrArg nextIndex heq
  rw [h.nextIndex_lastAt hk, h.nextIndex_lastAt hk'] at this
  omega

/-- A state at the log is the replay of the first entries. -/
theorem exists_replay {A : ApplicationStateMachine σ Req Resp Snap} {sm : StateMachineData σ}
    (h : AtLog A log sm) :
    ∃ k ≤ log.entries.length, sm = replay A (log.proposals.take k) := by
  obtain ⟨ps, hps, rfl⟩ := atLog_iff.1 h
  refine ⟨ps.length, log.encodes.length_eq ▸ hps.length_le, ?_⟩
  rw [← List.prefix_iff_eq_take.1 hps]

/-- The last applied log id of a state at the log is one of the log. -/
theorem has_of_atLog {A : ApplicationStateMachine σ Req Resp Snap} {sm : StateMachineData σ}
    (h : AtLog A log sm) : log.Has sm.lastAppliedLog := by
  obtain ⟨k, hk, rfl⟩ := exists_replay h
  exact ⟨k, hk, rfl⟩

/-! ### Segments -/

theorem contiguous_segment (h : log.GapFree) (i j : ℕ) : Contiguous i (log.segment i j) := by
  rcases Nat.lt_or_ge (log.entries.take j).length i with hlt | hle
  · rw [segment, List.drop_eq_nil_of_le hlt.le]
    trivial
  · have := (h.contiguous.take j).drop hle
    rwa [Nat.zero_add] at this

theorem segment_eq_nil {i j : ℕ} (h : j ≤ i) : log.segment i j = [] :=
  List.drop_eq_nil_of_le ((List.length_take_le j _).trans h)

/-- One more entry. -/
theorem segment_snoc {i j : ℕ} (hij : i ≤ j) {e : Pb.Entry} (he : log.entries[j]? = some e) :
    log.segment i (j + 1) = log.segment i j ++ [e] := by
  have hj := (List.getElem?_eq_some_iff.1 he).1
  rw [segment, segment, List.take_add_one, he, Option.toList_some, List.drop_append_of_le_length]
  rw [List.length_take]
  omega

/-- The entries of a segment from an index on. -/
theorem GapFree.filter_ge_segment (h : log.GapFree) (i j m : ℕ) :
    ((log.segment i j).filter fun e => m ≤ (index e).toNat) = log.segment (max i m) j := by
  rw [(contiguous_segment h i j).filter_ge_eq_drop, segment, segment, List.drop_drop]
  congr 1
  omega

/-- The entries of a segment below an index. -/
theorem GapFree.filter_lt_segment (h : log.GapFree) (i j n : ℕ) :
    ((log.segment i j).filter fun e => (index e).toNat < n) = log.segment i (min j n) := by
  rw [(contiguous_segment h i j).filter_lt_eq_take, segment, segment, List.take_drop,
    List.take_take]
  rcases Nat.lt_or_ge n i with hlt | hle
  · rw [List.drop_eq_nil_of_le, List.drop_eq_nil_of_le] <;> rw [List.length_take] <;> omega
  · congr 2
    omega

theorem GapFree.toNat_firstToApply (h : log.GapFree) {l : Option LogId} (hl : log.Has l) :
    (firstToApply l).toNat = nextIndex l := by
  cases l with
  | none => rfl
  | some l => exact toNat_add_one (h.index_lt hl)

/-- The entries of a segment from right after a log id up to and including an index. -/
theorem GapFree.filter_contains_segment (h : log.GapFree) {l : Option LogId} (hl : log.Has l)
    (i j : ℕ) (n : UInt64) :
    ((log.segment i j).filter fun e =>
      RangeBounds.contains ⟨.included (firstToApply l), .included n⟩ (index e)) =
      log.segment (max i (nextIndex l)) (min j (n.toNat + 1)) := by
  rw [← h.filter_ge_segment, ← h.filter_lt_segment, List.filter_filter]
  refine List.filter_congr fun e _ => ?_
  rw [Bool.eq_iff_iff]
  simp [RangeBounds.contains, Bound.afterStart, Bound.beforeEnd, UInt64.le_iff_toNat_le,
    h.toNat_firstToApply hl]

/-- Where a segment that is not empty ends. -/
theorem GapFree.nextIndex_getLast?_segment (h : log.GapFree) {i j : ℕ} (hij : i < j)
    (hj : j ≤ log.entries.length) (lp : Option LogId) :
    nextIndex (((log.segment i j).getLast?.map logId).or lp) = j := by
  have hlast : (log.segment i j).getLast?.map logId = log.lastAt j := by
    rw [lastAt_eq, segment, List.getLast?_drop, if_neg]
    rw [List.length_take]
    omega
  have hnext := h.nextIndex_lastAt hj
  rw [hlast]
  cases hl : log.lastAt j with
  | none => rw [hl, nextIndex_none] at hnext; omega
  | some l => rw [Option.some_or, ← hl, hnext]

end Positions

end ReferenceLog

/-! ### Recoverable databases -/

section Recoverable

variable [Serde Req] [Serde Snap] [Serde StoredSnapshot]

theorem HoldsExact.has_snapshotLogId {A : ApplicationStateMachine σ Req Resp Snap}
    {log : ReferenceLog Req} {c : Db} (h : HoldsExact A log c) : log.Has (snapshotLogId c) := by
  obtain ⟨s, -, hat, hlast⟩ := new_of_holdsExact h
  rw [← hlast]
  exact ReferenceLog.has_of_atLog hat

variable [Serde Pb.Entry] [Serde LogId]

/-- The snapshot is one of the log, the last purged log id is not above it, and the entries held
are consecutive and start not later than right after it. -/
structure Recoverable (A : ApplicationStateMachine σ Req Resp Snap) (log : ReferenceLog Req)
    (c : Db) : Prop where
  exact : HoldsExact A log c
  purged : ∃ lp, getMeta c .lastPurged = .ok lp ∧ log.Has lp ∧ lp ≤ snapshotLogId c
  logs : ∃ i j, j ≤ log.entries.length ∧ (i < j → i ≤ nextIndex (snapshotLogId c)) ∧
    Holds (c .logs) (log.segment i j)

variable {A : ApplicationStateMachine σ Req Resp Snap} {log : ReferenceLog Req} {c : Db}

theorem recoverable_empty : Recoverable A log Db.empty where
  exact := holdsExact_empty
  purged := ⟨none, rfl, ⟨0, Nat.zero_le _, rfl⟩, le_rfl⟩
  logs := ⟨0, 0, Nat.zero_le _, by simp, holds_empty⟩

/-! ### Writes -/

/-- `append` puts the next entry, after entries that start not later than right after the
snapshot. -/
theorem Recoverable.putEntry (h : Recoverable A log c) {i j : ℕ} {e : Pb.Entry} (hlog : log.GapFree)
    (hij : i ≤ j) (hi : i ≤ nextIndex (snapshotLogId c))
    (hholds : Holds (c .logs) (log.segment i j)) (he : log.entries[j]? = some e)
    (hser : Serializes e) :
    Recoverable A log (c.write (putOf e)) ∧
      Holds (c.write (putOf e) .logs) (log.segment i (j + 1)) := by
  have hstore : c.write (putOf e) .store = c .store := Db.write_put_of_ne c (by decide) ..
  have hmeta : c.write (putOf e) .metadata = c .metadata := Db.write_put_of_ne c (by decide) ..
  have hnew : Holds (c.write (putOf e) .logs) (log.segment i (j + 1)) := by
    have hasc := (ReferenceLog.contiguous_segment hlog i (j + 1)).ascending
    rw [ReferenceLog.segment_snoc hij he] at hasc ⊢
    rw [putOf, Db.write_put_self]
    exact hholds.insert_last hser.toVec_eq fun a ha =>
      (List.pairwise_append.1 hasc).2.2 a ha e (List.mem_singleton_self e)
  refine ⟨⟨h.exact.of_eq hstore, ?_, i, j + 1, ?_, fun _ => ?_, hnew⟩, hnew⟩
  · rw [getMeta_of_eq hmeta, snapshotLogId_of_eq hstore]
    exact h.purged
  · exact (List.getElem?_eq_some_iff.1 he).1
  · rw [snapshotLogId_of_eq hstore]
    exact hi

/-- `purge` writes a log id that is not above the snapshot. -/
theorem Recoverable.putPurged [LawfulSerde LogId] (h : Recoverable A log c) {x : LogId}
    (hx : log.Has (some x)) (hle : some x ≤ snapshotLogId c) (hser : Serializes x) :
    Recoverable A log (c.write (.put .metadata StoreMeta.lastPurged.key (bytesOf x))) := by
  have hstore := Db.write_put_of_ne c (show Column.store ≠ .metadata by decide)
    StoreMeta.lastPurged.key (bytesOf x)
  refine ⟨h.exact.of_eq hstore, ⟨some x, getMeta_put_self c .lastPurged hser, hx, ?_⟩, ?_⟩
  · rw [snapshotLogId_of_eq hstore]
    exact hle
  · rw [snapshotLogId_of_eq hstore, Db.write_put_of_ne c (by decide)]
    exact h.logs

/-- `purge` deletes the entries up to a log id that is not above the snapshot. -/
theorem Recoverable.deleteUpTo (h : Recoverable A log c) {x : LogId} (hlog : log.GapFree)
    (hx : log.Has (some x)) (hle : some x ≤ snapshotLogId c) (hmax : x.index < u64Max) :
    Recoverable A log (c.write (.deleteRange .logs (idToBin 0) (idToBin (x.index + 1)))) := by
  have hstore := Db.write_deleteRange_of_ne c (show Column.store ≠ .logs by decide)
    (idToBin 0) (idToBin (x.index + 1))
  have hmeta := Db.write_deleteRange_of_ne c (show Column.metadata ≠ .logs by decide)
    (idToBin 0) (idToBin (x.index + 1))
  have hnext : x.index.toNat + 1 ≤ nextIndex (snapshotLogId c) :=
    (hlog.le_iff hx h.exact.has_snapshotLogId).1 hle
  refine ⟨h.exact.of_eq hstore, ?_, ?_⟩
  · rw [getMeta_of_eq hmeta, snapshotLogId_of_eq hstore]
    exact h.purged
  · obtain ⟨i, j, hj, hi, hholds⟩ := h.logs
    refine ⟨max i (x.index.toNat + 1), j, hj, fun hlt => ?_, ?_⟩
    · rw [snapshotLogId_of_eq hstore]
      exact max_le (hi ((le_max_left _ _).trans_lt hlt)) hnext
    · -- what the range delete leaves are the entries from `x.index + 1` on
      rw [Db.write_deleteRange_self, ← hlog.filter_ge_segment]
      have heq : ((log.segment i j).filter fun e => x.index.toNat + 1 ≤ (index e).toNat) =
          (log.segment i j).filter fun e =>
            !(decide (0 ≤ index e) && decide (index e < x.index + 1)) := by
        refine List.filter_congr fun e _ => ?_
        have h0 : (0 : UInt64) ≤ index e := UInt64.le_iff_toNat_le.2 (Nat.zero_le _)
        rw [Bool.eq_iff_iff]
        simp [h0, lt_add_one_iff hmax, UInt64.lt_iff_toNat_lt]
      rw [heq]
      exact hholds.eraseRange 0 (x.index + 1)

/-- A snapshot that is not older than the stored one takes its place. -/
theorem Recoverable.putSnapshot [LawfulSerde StoredSnapshot] (h : Recoverable A log c)
    {snap : StoredSnapshot} (hlog : log.GapFree) (hser : Serializes snap)
    (hexact : snap.Exact A log) (hle : snapshotLogId c ≤ snap.snapshotMeta.lastLogId) :
    Recoverable A log (c.write (putSnapshot snap)) := by
  have hnew := snapshotLogId_putSnapshot c hser
  have hother : ∀ cf ≠ Column.store, c.write (RaftService.putSnapshot snap) cf = c cf :=
    fun cf hcf => Db.write_put_of_ne c hcf ..
  have hex := holdsExact_putSnapshot c hser hexact
  have hnext := (hlog.le_iff h.exact.has_snapshotLogId (hnew ▸ hex.has_snapshotLogId)).1 hle
  obtain ⟨lp, hlp, hhas, hpurged⟩ := h.purged
  obtain ⟨i, j, hj, hi, hholds⟩ := h.logs
  refine ⟨hex, ⟨lp, ?_, hhas, hnew ▸ hpurged.trans hle⟩, i, j, hj, fun hij => ?_, ?_⟩
  · rw [getMeta_of_eq (hother .metadata (by decide))]
    exact hlp
  · rw [hnew]
    exact (hi hij).trans hnext
  · rw [hother .logs (by decide)]
    exact hholds

/-! ### Reopening -/

variable [LawfulSerde Req] [LawfulSerde Pb.Entry] [Openraft] [LawfulOpenraft] [BuildProfile]

/-- **What a node finds when it opens a recoverable database.** Opening succeeds. The last purged
log id is not above the last applied one, and every entry after the last applied one, up to any
`n` not beyond the last entry held, is read back; applying them gives the state of the log up to
`n`. -/
theorem Recoverable.reopens (h : Recoverable A log c) (hlog : log.GapFree) :
    ∃ st lp ls, newStorage A c = .ok st ∧ getMeta c .lastPurged = .ok lp ∧
      getLogState Pb.Entry c = .ok ls ∧ lp ≤ (appliedState st).1 ∧
      ∀ n : UInt64, nextIndex (appliedState st).1 ≤ n.toNat → n.toNat < nextIndex ls.lastLogId →
        n.toNat < log.entries.length ∧
        tryGetLogEntries c ⟨.included (firstToApply (appliedState st).1), .included n⟩ =
          .ok (log.segment (nextIndex (appliedState st).1) (n.toNat + 1)) ∧
        (Accepts A log →
          apply A st.stateMachine
              (unanswered ρ (log.segment (nextIndex (appliedState st).1) (n.toNat + 1))) =
            ⟨replay A (log.proposals.take (n.toNat + 1)), [], .ok ()⟩) := by
  obtain ⟨st, hst, hat, hlast⟩ := new_of_holdsExact h.exact
  obtain ⟨q, hq, hsm⟩ := ReferenceLog.exists_replay hat
  obtain ⟨lp, hlp, hhas, hpurged⟩ := h.purged
  obtain ⟨i, j, hj, hi, hholds⟩ := h.logs
  have happlied : (appliedState st).1 = log.lastAt q := by rw [appliedState, hsm]; rfl
  have hnext : nextIndex (log.lastAt q) = q := hlog.nextIndex_lastAt hq
  have hsnap : snapshotLogId c = log.lastAt q := hlast ▸ happlied
  rw [hsnap] at hpurged hi
  rw [hnext] at hi
  refine ⟨st, lp, _, hst, hlp, getLogState_of_holds hholds hlp, happlied ▸ hpurged,
    fun n hqn hn => ?_⟩
  rw [happlied, hnext] at hqn ⊢
  -- an entry above the snapshot is held, so the entries held reach down to the snapshot
  have hij : i < j := by
    by_contra hle
    have hpq := (hlog.le_iff hhas ⟨q, hq, rfl⟩).1 hpurged
    simp only [ReferenceLog.segment_eq_nil (not_lt.1 hle), List.getLast?_nil, Option.map_none,
      Option.none_or] at hn
    omega
  rw [hlog.nextIndex_getLast?_segment hij hj] at hn
  refine ⟨hn.trans_le hj, ?_, fun hacc => ?_⟩
  · rw [tryGetLogEntries_of_holds hholds (fun _ hx => by cases hx),
      hlog.filter_contains_segment ⟨q, hq, rfl⟩, hnext, max_eq_right (hi hij), min_eq_right hn]
  · have htake : log.proposals.take q ++ (log.proposals.take (n.toNat + 1)).drop q =
        log.proposals.take (n.toNat + 1) :=
      calc log.proposals.take q ++ (log.proposals.take (n.toNat + 1)).drop q
          = (log.proposals.take (n.toNat + 1)).take q ++
              (log.proposals.take (n.toNat + 1)).drop q := by
            rw [List.take_take, min_eq_left (by omega)]
        _ = log.proposals.take (n.toNat + 1) := List.take_append_drop ..
    have hprefix : log.proposals.take q ++ (log.proposals.take (n.toNat + 1)).drop q <+:
        log.proposals := by
      rw [htake]
      exact List.take_prefix ..
    rw [hsm, apply_accepted hacc (ReferenceLog.encodes_segment q (n.toNat + 1)) hprefix, htake]

end Recoverable

end RaftService
