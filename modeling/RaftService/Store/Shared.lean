import RaftService.Lib.SharedWal
import RaftService.Store.Crash

/-!
# The log store on a log that it shares

The database of a node is opened once, for both of its stores, so the write-ahead log that the log
store writes to has the writes of the state machine store in it, too, and each store flushes the
writes of both. `LogNode.only` is the log store with its own writes alone. It makes the same steps
(`LogNode.step_only`), and the writes of the other store are no steps of it; a flush of the other
store keeps its invariant (`LogNode.Inv.syncWal`).
-/

namespace RaftService

open RaftEntry (index logId)
open RocksLogStore

variable {E V : Type}

/-! ### Columns -/

/-- The column that a write changes. -/
def Write.column : Write → Column
  | .put cf _ _ | .deleteRange cf _ _ => cf

/-- The column of the state machine store. -/
def Column.ofStore (cf : Column) : Bool := decide (cf = .store)

/-- Some of the columns, with the others empty. -/
def Db.only (p : Column → Bool) (db : Db) : Db :=
  fun cf => if p cf then db cf else SortedMap.empty

theorem Db.only_apply {p : Column → Bool} {cf : Column} (h : p cf = true) (db : Db) :
    db.only p cf = db cf := if_pos h

theorem Db.only_ofStore_store (db : Db) : db.only Column.ofStore .store = db .store := rfl

theorem Db.write_of_ne {w : Write} {cf : Column} (h : cf ≠ w.column) (db : Db) :
    db.write w cf = db cf := by
  cases w with
  | put cf' k v => exact Db.write_put_of_ne db h ..
  | deleteRange cf' lo hi => exact Db.write_deleteRange_of_ne db h ..

/-- A write to one of the columns. -/
theorem Db.only_write_of_pos {p : Column → Bool} {w : Write} (h : p w.column = true) (db : Db) :
    (db.write w).only p = (db.only p).write w := by
  funext cf
  by_cases hcf : cf = w.column
  · subst hcf
    rw [Db.only_apply h]
    cases w with
    | put cf k v =>
      have hcf : db.only p cf = db cf := Db.only_apply h db
      simp [Write.column, hcf]
    | deleteRange cf lo hi =>
      have hcf : db.only p cf = db cf := Db.only_apply h db
      simp [Write.column, hcf]
  · rw [Db.write_of_ne hcf, Db.only, Db.only, Db.write_of_ne hcf]

/-- A write to another column. -/
theorem Db.only_write_of_neg {p : Column → Bool} {w : Write} (h : p w.column = false) (db : Db) :
    (db.write w).only p = db.only p := by
  funext cf
  by_cases hcf : cf = w.column
  · subst hcf
    simp [Db.only, h]
  · rw [Db.only, Db.only, Db.write_of_ne hcf]

/-- The writes in some of the columns are seen there, the others are not. -/
theorem Db.sees_only (p : Column → Bool) :
    Wal.Sees (fun w => p w.column) (Db.only p) Db.write Db.write := by
  intro db w
  cases hp : p w.column with
  | false => simpa [hp] using Db.only_write_of_neg hp db
  | true => simpa [hp] using Db.only_write_of_pos hp db

/-! ### The columns of the log store -/

/-- The columns of the log store, without the keys below that of `first`. -/
def Db.ofLog (first : UInt64) (db : Db) : Db
  | .store => SortedMap.empty
  | .metadata => db .metadata
  | .logs => (db .logs).filter fun k => decide (idToBin first ≤ k)

/-- The writes that show there. -/
def Write.ofLog (first : UInt64) : Write → Bool
  | .put .logs k _ => decide (idToBin first ≤ k)
  | w => decide (w.column ≠ .store)

theorem Db.ofLog_logs (first : UInt64) (db : Db) :
    db.ofLog first .logs = (db .logs).filter fun k => decide (idToBin first ≤ k) := rfl

/-- A write that shows is to a column of the log store. -/
theorem Write.column_ne_store {first : UInt64} {w : Write} (h : w.ofLog first = true) :
    .store ≠ w.column := by
  intro hstore
  cases w with
  | put cf k v => obtain rfl : .store = cf := hstore; cases h
  | deleteRange cf lo hi => obtain rfl : .store = cf := hstore; cases h

theorem Db.ofLog_write_metadata (first : UInt64) (db : Db) {w : Write}
    (hw : w.column = .metadata) :
    (db.write w).ofLog first .metadata =
      (if w.ofLog first then (db.ofLog first).write w else db.ofLog first) .metadata := by
  cases w with
  | put cf k v => obtain rfl : cf = .metadata := hw; rfl
  | deleteRange cf lo hi => obtain rfl : cf = .metadata := hw; rfl

theorem Db.ofLog_write_logs (first : UInt64) (db : Db) {w : Write} (hw : w.column = .logs) :
    (db.write w).ofLog first .logs =
      (if w.ofLog first then (db.ofLog first).write w else db.ofLog first) .logs := by
  cases w with
  | put cf k v =>
    obtain rfl : cf = .logs := hw
    by_cases hk : idToBin first ≤ k
    · have hshows : Write.ofLog first (.put .logs k v) = true := decide_eq_true hk
      rw [if_pos hshows, Db.ofLog_logs, Db.write_put_self, Db.write_put_self, Db.ofLog_logs,
        SortedMap.filter_insert_of_pos _ (by simpa using hk)]
    · have hhidden : ¬ Write.ofLog first (.put .logs k v) = true := by simpa [Write.ofLog] using hk
      rw [if_neg hhidden, Db.ofLog_logs, Db.write_put_self, Db.ofLog_logs,
        SortedMap.filter_insert_of_neg _ (by simpa using hk)]
  | deleteRange cf lo hi =>
    obtain rfl : cf = .logs := hw
    have hshows : Write.ofLog first (.deleteRange .logs lo hi) = true := rfl
    rw [if_pos hshows, Db.ofLog_logs, Db.write_deleteRange_self, Db.write_deleteRange_self,
      Db.ofLog_logs, SortedMap.filter_eraseRange]

/-- The writes to these keys are seen there, the others are not. -/
theorem Db.sees_ofLog (first : UInt64) :
    Wal.Sees (Write.ofLog first) (Db.ofLog first) Db.write Db.write := by
  intro db w
  -- a write to another column changes neither side
  have hother : ∀ {cf : Column}, cf ≠ w.column → db.ofLog first cf =
      (if w.ofLog first then (db.ofLog first).write w else db.ofLog first) cf := by
    intro cf hcf
    split_ifs
    · exact (Db.write_of_ne hcf _).symm
    · rfl
  funext cf
  cases cf with
  | store =>
    split_ifs with hw
    · exact (Db.write_of_ne (Write.column_ne_store hw) (db.ofLog first)).symm
    · rfl
  | metadata =>
    by_cases hw : w.column = .metadata
    · exact Db.ofLog_write_metadata first db hw
    · rw [← hother (Ne.symm hw)]
      exact Db.write_of_ne (Ne.symm hw) db
  | logs =>
    by_cases hw : w.column = .logs
    · exact Db.ofLog_write_logs first db hw
    · rw [← hother (Ne.symm hw), Db.ofLog_logs, Db.write_of_ne (Ne.symm hw)]
      rfl

/-! ### The log store on a shared log -/

namespace LogNode

variable [RaftEntry E]

/-- The log store with its own writes only. -/
def only (p : Write → Bool) (l : LogNode E V) : LogNode E V :=
  { l with
    wal := l.wal.only p
    flushes := l.flushes.map fun f => { f with mark := f.mark.map (l.wal.among p) } }

/-- The flushes in the background have started at writes that are issued. -/
def Marked (l : LogNode E V) : Prop :=
  ∀ f ∈ l.flushes, ∀ n, f.mark = some n → n ≤ l.wal.log.length

/-- The flushes of the log store when the log grows. -/
theorem Marked.map_among_write {p : Write → Bool} {l : LogNode E V} (h : l.Marked) (w : Write) :
    (l.flushes.map fun f => { f with mark := f.mark.map ((l.wal.write w).among p) }) =
      l.flushes.map fun f => { f with mark := f.mark.map (l.wal.among p) } := by
  refine List.map_congr_left fun f hf => ?_
  cases hmark : f.mark with
  | none => rfl
  | some n => rw [Option.map_some, Option.map_some, Wal.among_write_of_le (h f hf n hmark)]

/-- Another store writes. -/
theorem only_write_of_neg {p : Write → Bool} {l : LogNode E V} {w : Write} (hw : p w = false)
    (hsync : l.wal.synced ≤ l.wal.log.length) (h : l.Marked) :
    ({ l with wal := l.wal.write w } : LogNode E V).only p = l.only p := by
  simp only [only, Wal.only_write_of_neg hw hsync, h.map_among_write]

/-- A flush of another store. -/
theorem only_sync {p : Write → Bool} {l : LogNode E V} (n : ℕ) :
    ({ l with wal := l.wal.sync n } : LogNode E V).only p =
      { l.only p with wal := (l.only p).wal.sync (l.wal.among p n) } := by
  simp only [only, Wal.only_sync]
  rfl

variable [Serde E] [Serde V] [Serde LogId] [BuildProfile]

/-- **On a shared log, the log store steps as it does on its own.** -/
theorem step_only {p : Write → Bool} {l l' : LogNode E V} {e : Event E V}
    (hsync : l.wal.synced ≤ l.wal.log.length) (hmarked : l.Marked)
    (hwrites : ∀ op w rest, l.running = some (op, .write w :: rest) → p w = true)
    (hstep : l.step e = some l') : (l.only p).step e = some (l'.only p) := by
  cases e with
  | call op =>
    simp only [step] at hstep ⊢
    split at hstep
    · next a hrun hlog =>
      simp only [Option.ite_none_right_eq_some, Option.some.injEq] at hstep
      obtain ⟨hterms, rfl⟩ := hstep
      simp only [only, hrun, hlog]
      exact if_pos hterms
    · cases hstep
  | next =>
    simp only [step] at hstep ⊢
    split at hstep
    · next op w rest hrun =>
      cases hstep
      simp only [only, hrun, Wal.only_write_of_pos (hwrites op w rest hrun) hsync,
        hmarked.map_among_write]
    · next op rest hrun =>
      cases hstep
      simp only [only, hrun, Wal.only_sync, ← Wal.among_length]
      rfl
    · next op rest hrun =>
      cases hstep
      simp [only, hrun]
    · cases hstep
  | ret =>
    simp only [step] at hstep ⊢
    split at hstep
    · next op hrun =>
      cases hstep
      simp only [only, hrun]
    · cases hstep
  | flushStart k =>
    simp only [step] at hstep ⊢
    split at hstep
    · next op hk =>
      cases hstep
      simp [only, hk, List.map_set, Wal.among_length]
    · cases hstep
  | flushDone k =>
    simp only [step] at hstep ⊢
    split at hstep
    · next op n hk =>
      cases hstep
      simp only [only, List.getElem?_map, hk, Option.map_some, Wal.only_sync, ← List.eraseIdx_map]
      rfl
    · cases hstep
  | flushFailed k =>
    simp only [step] at hstep ⊢
    split at hstep
    · next f hk =>
      cases hstep
      simp [only, hk, List.eraseIdx_map]
    · cases hstep

/-- What a step does to the shared log: nothing, the next write, or a flush. -/
theorem wal_of_step {l l' : LogNode E V} {e : Event E V} (hmarked : l.Marked)
    (hstep : l.step e = some l') :
    l'.Marked ∧ (l'.wal = l.wal ∨
      (∃ op w rest, l.running = some (op, .write w :: rest) ∧ l'.wal = l.wal.write w) ∨
      ∃ n ≤ l.wal.log.length, l'.wal = l.wal.sync n) := by
  cases e with
  | call op =>
    simp only [step] at hstep
    split at hstep
    · simp only [Option.ite_none_right_eq_some, Option.some.injEq] at hstep
      obtain ⟨-, rfl⟩ := hstep
      exact ⟨hmarked, Or.inl rfl⟩
    · cases hstep
  | next =>
    simp only [step] at hstep
    split at hstep
    · next op w rest hrun =>
      cases hstep
      refine ⟨fun f hf n hn => (hmarked f hf n hn).trans ?_,
        Or.inr (Or.inl ⟨op, w, rest, hrun, rfl⟩)⟩
      simp
    · cases hstep
      exact ⟨hmarked, Or.inr (Or.inr ⟨_, le_rfl, rfl⟩)⟩
    · cases hstep
      refine ⟨fun f hf n hn => ?_, Or.inl rfl⟩
      rcases List.mem_append.1 hf with hf | hf
      · exact hmarked f hf n hn
      · rw [List.mem_singleton.1 hf] at hn
        cases hn
    · cases hstep
  | ret =>
    simp only [step] at hstep
    split at hstep
    · cases hstep
      exact ⟨hmarked, Or.inl rfl⟩
    · cases hstep
  | flushStart k =>
    simp only [step] at hstep
    split at hstep
    · cases hstep
      refine ⟨fun f hf n hn => ?_, Or.inl rfl⟩
      rcases List.mem_or_eq_of_mem_set hf with hf | rfl
      · exact hmarked f hf n hn
      · exact (Option.some.inj hn).ge
    · cases hstep
  | flushDone k =>
    simp only [step] at hstep
    split at hstep
    · next op n hk =>
      cases hstep
      refine ⟨fun f hf m hm => hmarked f (List.eraseIdx_subset hf) m hm,
        Or.inr (Or.inr ⟨n, ?_, rfl⟩)⟩
      exact hmarked _ (List.mem_of_getElem? hk) n rfl
    · cases hstep
  | flushFailed k =>
    simp only [step] at hstep
    split at hstep
    · cases hstep
      exact ⟨fun f hf m hm => hmarked f (List.eraseIdx_subset hf) m hm, Or.inl rfl⟩
    · cases hstep

/-- What a step adds to the record of the operations: a call, a return, a report, or nothing. -/
theorem record_of_step {l l' : LogNode E V} {e : Event E V} (hstep : l.step e = some l') :
    (∃ op, e = .call op ∧ l.running = none ∧ l.log.step op = some l'.log ∧
      l'.history = l.history ++ [op] ∧ l'.returned = l.returned ∧ l'.acked = l.acked) ∨
    (∃ op, e = .ret ∧ l.running = some (op, []) ∧ l'.log = l.log ∧ l'.history = l.history ∧
      l'.returned = l.returned + 1 ∧ l'.acked = l.acked) ∨
    (∃ k i n, e = .flushDone k ∧ l.flushes[k]? = some ⟨i, some n⟩ ∧ l'.log = l.log ∧
      l'.history = l.history ∧ l'.returned = l.returned ∧ l'.acked = i :: l.acked) ∨
    ((e = .next ∨ (∃ k, e = .flushStart k) ∨ ∃ k, e = .flushFailed k) ∧ l'.log = l.log ∧
      l'.history = l.history ∧ l'.returned = l.returned ∧ l'.acked = l.acked) := by
  cases e with
  | call op =>
    simp only [step] at hstep
    split at hstep
    · next a hrun hlog =>
      simp only [Option.ite_none_right_eq_some, Option.some.injEq] at hstep
      obtain ⟨-, rfl⟩ := hstep
      exact Or.inl ⟨op, rfl, hrun, hlog, rfl, rfl, rfl⟩
    · cases hstep
  | next =>
    simp only [step] at hstep
    split at hstep <;> cases hstep
    all_goals exact Or.inr (Or.inr (Or.inr ⟨Or.inl rfl, rfl, rfl, rfl, rfl⟩))
  | ret =>
    simp only [step] at hstep
    split at hstep
    · next op hrun =>
      cases hstep
      exact Or.inr (Or.inl ⟨op, rfl, hrun, rfl, rfl, rfl, rfl⟩)
    · cases hstep
  | flushStart k =>
    simp only [step] at hstep
    split at hstep <;> cases hstep
    exact Or.inr (Or.inr (Or.inr ⟨Or.inr (Or.inl ⟨k, rfl⟩), rfl, rfl, rfl, rfl⟩))
  | flushDone k =>
    simp only [step] at hstep
    split at hstep
    · next i n hk =>
      cases hstep
      exact Or.inr (Or.inr (Or.inl ⟨k, i, n, rfl, hk, rfl, rfl, rfl, rfl⟩))
    · cases hstep
  | flushFailed k =>
    simp only [step] at hstep
    split at hstep <;> cases hstep
    exact Or.inr (Or.inr (Or.inr ⟨Or.inr (Or.inr ⟨k, rfl⟩), rfl, rfl, rfl, rfl⟩))

/-- Another store flushes the shared log. -/
theorem Inv.syncWal {db₀ : Db} {v₀ : Option V} {l : LogNode E V} {a : RaftLog E V} {db : Db}
    {dn : List Call} {mark : ℕ → ℕ} (h : Inv db₀ v₀ l a db dn mark) {n : ℕ}
    (hn : n ≤ l.wal.log.length) :
    Inv db₀ v₀ { l with wal := l.wal.sync n } a db dn mark := by
  have hsynced : (l.wal.sync n).synced ≤ l.wal.log.length := max_le h.synced_le hn
  refine ⟨h.sim, h.terms, ?_, hsynced, h.good.sync, ?_, h.inLog, h.flushes, ?_, h.voteNow, ?_⟩
  · have hcur := h.current
    unfold Current at hcur ⊢
    cases hrun : l.running with
    | none =>
      rw [hrun] at hcur
      exact hcur
    | some r =>
      rw [hrun] at hcur
      obtain ⟨hs, hser, hterms, hcalls, hcont, hlen, hop, hsync⟩ := hcur
      refine ⟨hs, hser, hterms, hcalls, hcont, hlen, hop, fun hx => ?_⟩
      exact le_antisymm hsynced ((hsync hx).ge.trans (le_max_left _ _))
  · exact fun i es e hi hw he hunc => (h.present i es e hi hw he hunc).sync
  · intro i hi
    obtain ⟨hw, hmark⟩ := h.acked i hi
    exact ⟨hw, hmark.trans (le_max_left _ _)⟩
  · obtain ⟨j, hj, hsince⟩ := h.vote
    exact ⟨j, hj.trans (le_max_left _ _), hsince.sync⟩

/-- The operation in progress, and the write it makes next. -/
theorem Inv.write_mem {db₀ : Db} {v₀ : Option V} {l : LogNode E V} {a : RaftLog E V} {db : Db}
    {dn : List Call} {mark : ℕ → ℕ} (h : Inv db₀ v₀ l a db dn mark) {op : LogOp E V} {w : Write}
    {rest : List Call} (hrun : l.running = some (op, .write w :: rest)) :
    op ∈ l.history ∧ op.Serializable ∧ .write w ∈ op.io.calls ∧ a.step op = some l.log := by
  have hcur := h.current
  rw [Current, hrun] at hcur
  obtain ⟨hs, hser, -, hcalls, -, -, hop, -⟩ := hcur
  exact ⟨List.mem_of_getElem? hop, hser, by simp [hcalls], hs⟩

end LogNode

/-- A write of the log store puts an entry above the last purged log id, deletes entries, or puts
the vote or, in a `purge`, the last purged log id. -/
theorem LogOp.write_cases [RaftEntry E] [Serde E] [Serde V] [Serde LogId] [BuildProfile]
    {a a' : RaftLog E V} {op : LogOp E V} (hstep : a.step op = some a') (hser : op.Serializable)
    {w : Write} (hw : .write w ∈ op.io.calls) :
    (∃ e : E, w = putOf e ∧ Serializes e ∧ nextIndex a'.lastPurged ≤ (index e).toNat ∧
      index e < u64Max) ∨
      (∃ lo hi, w = .deleteRange .logs lo hi) ∨
      (∃ v : V, w = .put .metadata (StoreMeta.vote (V := V)).key (bytesOf v)) ∨
      ∃ x, op = .purge x ∧ a'.lastPurged = some x ∧ Serializes x ∧
        w = .put .metadata StoreMeta.lastPurged.key (bytesOf x) := by
  rcases RaftLog.step_cases hstep with ⟨es, rfl, hes, hlt, -, hlp, -⟩ | ⟨id, rfl, -, -, -, -, -⟩ |
    ⟨id, rfl, -, hid, -, hlp, -⟩ | ⟨v, rfl, -, -, -⟩
  · rw [LogOp.io, append_io hser] at hw
    simp only [List.mem_append, List.mem_map, List.mem_singleton, reduceCtorEq, or_false,
      Call.write.injEq] at hw
    obtain ⟨e, he, rfl⟩ := hw
    refine Or.inl ⟨e, rfl, hser e he, ?_, hlt e he⟩
    rw [hlp]
    exact (a.nextIndex_lastLogId ▸ Nat.le_add_right ..).trans (hes.mem he).1
  · simp only [LogOp.io, RocksLogStore.truncate, Io.deleteRangeCf, List.mem_singleton,
      Call.write.injEq] at hw
    exact Or.inr (Or.inl ⟨_, _, hw⟩)
  · rw [LogOp.io, purge_io hser hid] at hw
    simp only [List.mem_cons, Call.write.injEq, List.not_mem_nil, or_false] at hw
    rcases hw with rfl | rfl
    · exact Or.inr (Or.inr (Or.inr ⟨id, rfl, hlp, hser, rfl⟩))
    · exact Or.inr (Or.inl ⟨_, _, rfl⟩)
  · rw [LogOp.io, saveVote_io hser] at hw
    simp only [List.mem_cons, Call.write.injEq, reduceCtorEq, List.not_mem_nil, or_false] at hw
    exact Or.inr (Or.inr (Or.inl ⟨v, hw⟩))

end RaftService
