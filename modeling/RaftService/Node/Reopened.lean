import RaftService.Node.Recoverable
import RaftService.Store.Shared

/-!
# The log store opened again

A crash in the middle of a purge leaves entries below the new last purged log id, and nothing
deletes them when the store is opened again. `get_log_state` may report one of them as the last one
(`Reopens.lastLogId` says when it does not), but no read from right after the last purged log id on
reaches them (`tryGetLogEntries_ofLog`). So what is left is opened as if it held the log above them
only (`Reopens`).

What openraft does when it starts is not part of the crate. All that is said of the log it goes on
from is that the store answers it: the last purged log id, the vote and the entries after that log
id are those read from the database (`RaftLog.ReadBack`). There is one such log
(`Reopens.readBack`, `RaftLog.ReadBack.unique`), and with it the log store has its invariant again,
where the entries found count as appended and reported (`LogNode.found`).
-/

namespace RaftService

open RaftEntry (index logId)
open RocksLogStore

variable {E V : Type} [RaftEntry E]

/-! ### Columns of entries -/

section Entries

variable [Serde E]

/-- The bindings of the log column are entries, with indexes below `u64::MAX`. -/
def Db.OfEntries (E : Type) [RaftEntry E] [Serde E] (c : Db) : Prop :=
  ∀ b ∈ (c .logs).toList, ∃ e : E, Stored b e ∧ index e < u64Max

theorem Db.OfEntries.of_eq {c c' : Db} (h : c.OfEntries E) (heq : c' .logs = c .logs) :
    c'.OfEntries E := by
  unfold Db.OfEntries
  rw [heq]
  exact h

theorem Db.OfEntries.put {c : Db} (h : c.OfEntries E) {e : E} (hser : Serializes e)
    (he : index e < u64Max) : (c.write (putOf e)).OfEntries E := by
  intro b hb
  rw [putOf, Db.write_put_self] at hb
  rcases SortedMap.mem_insertList hb with rfl | hb
  · exact ⟨e, ⟨rfl, hser.toVec_eq⟩, he⟩
  · exact h b hb

theorem Db.OfEntries.deleteRange {c : Db} (h : c.OfEntries E) (lo hi : Bytes) :
    (c.write (.deleteRange .logs lo hi)).OfEntries E := by
  intro b hb
  rw [Db.write_deleteRange_self] at hb
  exact h b (List.mem_filter.1 hb).1

/-- The column holds entries. -/
theorem Db.OfEntries.holds {c : Db} (h : c.OfEntries E) : ∃ es : List E, Holds (c .logs) es := by
  have hall : ∀ l : List (Bytes × Bytes), (∀ b ∈ l, ∃ e : E, Stored b e) →
      ∃ es : List E, List.Forall₂ Stored l es := by
    intro l hl
    induction l with
    | nil => exact ⟨[], .nil⟩
    | cons b l ih =>
      obtain ⟨e, he⟩ := hl b List.mem_cons_self
      obtain ⟨es, hes⟩ := ih fun b hb => hl b (List.mem_cons_of_mem _ hb)
      exact ⟨e :: es, .cons he hes⟩
  exact hall _ fun b hb => (h b hb).imp fun _ he => he.1

theorem RocksLogStore.Holds.exists_entry {m : SortedMap Bytes Bytes} {es : List E} (h : Holds m es)
    {b : Bytes × Bytes} (hb : b ∈ m.toList) : ∃ e ∈ es, Stored b e := by
  obtain ⟨i, hi, rfl⟩ := List.mem_iff_getElem.1 hb
  have hlt : i < es.length := h.length_eq ▸ hi
  exact ⟨es[i], List.getElem_mem hlt, List.forall₂_iff_get.1 h |>.2 i hi hlt⟩

end Entries

/-! ### The log that is found -/

section Found

variable [Serde E] [Serde V] [Serde LogId]

/-- The log that openraft goes on from is the one that the store answers: `get_log_state` its last
purged log id, `read_vote` its vote, and `try_get_log_entries` its entries. -/
def RaftLog.ReadBack [BuildProfile] (c : Db) (a : RaftLog E V) : Prop :=
  (getLogState E c).map LogState.lastPurgedLogId = .ok a.lastPurged ∧ readVote c = .ok a.vote ∧
    tryGetLogEntries c ⟨.included (firstToApply a.lastPurged), .unbounded⟩ = .ok a.entries

instance [BuildProfile] [DecidableEq E] [DecidableEq V] (c : Db) (a : RaftLog E V) :
    Decidable (a.ReadBack c) :=
  inferInstanceAs (Decidable (_ ∧ _ ∧ _))

/-- There is one such log. -/
theorem RaftLog.ReadBack.unique [BuildProfile] {c : Db} {a a' : RaftLog E V} (h : a.ReadBack c)
    (h' : a'.ReadBack c) : a = a' := by
  obtain ⟨hlp, hvote, hes⟩ := h
  obtain ⟨hlp', hvote', hes'⟩ := h'
  obtain ⟨v, lp, es, hgap, hbound⟩ := a
  obtain ⟨v', lp', es', hgap', hbound'⟩ := a'
  cases hlp.symm.trans hlp'
  cases hvote.symm.trans hvote'
  cases hes.symm.trans hes'
  rfl

omit [Serde V] [Serde LogId] in
/-- Selecting the keys from that of an index on selects the entries. -/
theorem RocksLogStore.Holds.filter_ge {m : SortedMap Bytes Bytes} {es : List E} (h : Holds m es)
    (i : UInt64) :
    Holds (m.filter fun k => decide (idToBin i ≤ k)) (es.filter fun e => decide (i ≤ index e)) := by
  refine List.rel_filter (R := Stored) (fun b e hb => ?_) h
  simp only [hb.1, idToBin_le_iff]

omit [Serde V] [Serde LogId] in
/-- The entries that such a column holds have such indexes. -/
theorem Db.OfEntries.index_lt {c : Db} (h : c.OfEntries E) {first : UInt64} {es : List E}
    (hholds : Holds (c.ofLog first .logs) es) {e : E} (he : e ∈ es) : index e < u64Max := by
  have hmem := List.mem_map_of_mem (f := fun e => idToBin (index e)) he
  rw [← keys_of_stored hholds] at hmem
  obtain ⟨b, hb, hkey⟩ := List.mem_map.1 hmem
  obtain ⟨e', ⟨hkey', -⟩, hlt⟩ := h b (List.mem_filter.1 hb).1
  rwa [idToBin_inj.1 (hkey.symm.trans hkey')]

omit [Serde V] [Serde LogId] in
/-- A read does not reach what is below its start. -/
theorem tryGetLogEntries_ofLog [BuildProfile] (c : Db) {first x : UInt64} (hx : first ≤ x)
    (hi : Bound) :
    (tryGetLogEntries (c.ofLog first) ⟨.included x, hi⟩ : Except Fault (List E)) =
      tryGetLogEntries c ⟨.included x, hi⟩ := by
  have hseek : ((c .logs).filter fun k => decide (idToBin first ≤ k)).seek (idToBin x) =
      (c .logs).seek (idToBin x) :=
    SortedMap.seek_filter _ fun k hk => decide_eq_true ((idToBin_le_iff.2 hx).trans hk)
  simp only [tryGetLogEntries, seekKey, Db.ofLog_logs, bind, Except.bind, hseek]

/-- The log store can be opened on the contents `c`, with the log `a`. -/
structure Reopens (c : Db) (a : RaftLog E V) : Prop where
  sim : Sim (c.ofLog (firstToApply a.lastPurged)) a
  terms : TermsAscend a.entries
  entries : c.OfEntries E
  first : (firstToApply a.lastPurged).toNat = nextIndex a.lastPurged

/-- The entries above the last purged log id are the log, whatever else a purge has left. -/
theorem reopens_of_contents {c : Db} {a : RaftLog E V} {first : UInt64} {es : List E}
    (hcont : LogContents (c.ofLog first) es a.lastPurged a.vote)
    (hlive : a.entries = live a.lastPurged es) (hterms : TermsAscend a.entries)
    (hbounded : c.OfEntries E)
    (hnext : (firstToApply a.lastPurged).toNat = nextIndex a.lastPurged)
    (hfirst : first.toNat ≤ nextIndex a.lastPurged) : Reopens c a := by
  refine ⟨⟨?_, hcont.purged, hcont.readVote⟩, hterms, hbounded, hnext⟩
  have hle : first ≤ firstToApply a.lastPurged := by
    rw [UInt64.le_iff_toNat_le, hnext]
    exact hfirst
  have hfilter := hcont.holds.filter_ge (firstToApply a.lastPurged)
  have hentries : (es.filter fun e => decide (firstToApply a.lastPurged ≤ index e)) =
      a.entries := by
    rw [hlive, live]
    refine List.filter_congr fun e _ => ?_
    rw [Bool.eq_iff_iff, decide_eq_true_eq, decide_eq_true_eq, UInt64.le_iff_toNat_le, hnext]
  have hkeys : (c.ofLog first .logs).filter
      (fun k => decide (idToBin (firstToApply a.lastPurged) ≤ k)) =
      c.ofLog (firstToApply a.lastPurged) .logs := by
    rw [Db.ofLog_logs, Db.ofLog_logs]
    refine SortedMap.filter_filter_of_imp (c .logs) ?_
    exact fun k hk => decide_eq_true ((idToBin_le_iff.2 hle).trans (of_decide_eq_true hk))
  rwa [hentries, hkeys] at hfilter

/-- A store that holds a log and nothing else. -/
theorem reopens_of_sim {c : Db} {a : RaftLog E V} (h : Sim c a) (hterms : TermsAscend a.entries)
    (hnext : (firstToApply a.lastPurged).toNat = nextIndex a.lastPurged) : Reopens c a := by
  have hall : (a.entries.filter fun e => decide (0 ≤ index e)) = a.entries :=
    List.filter_eq_self.2 fun e _ => decide_eq_true (UInt64.le_iff_toNat_le.2 (Nat.zero_le _))
  have hholds := h.logs.filter_ge 0
  rw [hall] at hholds
  have hcont : LogContents (c.ofLog 0) a.entries a.lastPurged a.vote := ⟨hholds, h.purged, h.vote⟩
  refine reopens_of_contents hcont (live_of_contiguous a.gapFree).symm hterms (fun b hb => ?_) hnext
    (Nat.zero_le _)
  obtain ⟨e, he, hstored⟩ := h.logs.exists_entry hb
  exact ⟨e, hstored, a.bounded e he⟩

variable [BuildProfile] [LawfulSerde E]

/-- What is read from an index on that is not below the first one. -/
theorem Reopens.read {c : Db} {a : RaftLog E V} (h : Reopens c a) {x : UInt64}
    (hx : firstToApply a.lastPurged ≤ x) :
    tryGetLogEntries c ⟨.included x, .unbounded⟩ =
      .ok (a.entries.filter fun e => decide (x ≤ index e)) := by
  rw [← tryGetLogEntries_ofLog c hx, tryGetLogEntries_of_holds h.sim.logs fun _ hx => by cases hx]
  simp only [RangeBounds.contains, Bound.afterStart, Bound.beforeEnd, Bool.and_true]

omit [BuildProfile] in
/-- The log state that is reported. -/
theorem Reopens.getLogState {c : Db} {a : RaftLog E V} (h : Reopens c a) :
    ∃ ls, RocksLogStore.getLogState E c = .ok ls ∧ ls.lastPurgedLogId = a.lastPurged ∧
      (a.entries ≠ [] → ls.lastLogId = a.lastLogId) := by
  obtain ⟨es, hes⟩ := h.entries.holds
  have hlp : getMeta c .lastPurged = .ok a.lastPurged := h.sim.purged
  refine ⟨_, getLogState_of_holds hes hlp, rfl, fun hne => ?_⟩
  -- the entries of the log are the last ones of the column
  have hentries : a.entries =
      es.filter fun e => decide (firstToApply a.lastPurged ≤ index e) :=
    holds_unique h.sim.logs (hes.filter_ge _)
  have hlast : a.entries.getLast? = es.getLast? := by
    rcases List.eq_nil_or_concat es with rfl | ⟨init, e, rfl⟩
    · exact absurd hentries hne
    · obtain ⟨x, hx⟩ := List.exists_mem_of_ne_nil _ hne
      have hxle : firstToApply a.lastPurged ≤ index e := by
        rw [hentries] at hx
        obtain ⟨hmem, hle⟩ := List.mem_filter.1 hx
        rcases List.mem_append.1 (List.concat_eq_append ▸ hmem) with hmem | hmem
        · have hasc := hes.ascending
          rw [List.concat_eq_append, List.pairwise_append] at hasc
          exact (of_decide_eq_true hle).trans
            (hasc.2.2 x hmem e (List.mem_singleton_self e)).le
        · rw [← List.mem_singleton.1 hmem]
          exact of_decide_eq_true hle
      rw [hentries, List.concat_eq_append, List.filter_append]
      simp [hxle]
  simp only [RaftLog.lastLogId, hlast]

/-- **That log is read back.** -/
theorem Reopens.readBack {c : Db} {a : RaftLog E V} (h : Reopens c a) : a.ReadBack c := by
  have hall : (a.entries.filter fun e => decide (firstToApply a.lastPurged ≤ index e)) =
      a.entries := by
    refine List.filter_eq_self.2 fun e he => decide_eq_true ?_
    rw [UInt64.le_iff_toNat_le, h.first]
    exact (a.gapFree.mem he).1
  have hread := h.read le_rfl
  rw [hall] at hread
  obtain ⟨ls, hls, hlp, -⟩ := h.getLogState
  refine ⟨?_, h.sim.vote, hread⟩
  rw [hls, ← hlp]
  rfl

end Found

/-- The operation does not truncate the entry. -/
def LogOp.keeps : LogOp E V → E → Bool
  | .truncate id, e => index e < id.index
  | _, _ => true

/-- A purge does not take back another one. -/
theorem RaftLog.nextIndex_lastPurged_le {a a' : RaftLog E V} {op : LogOp E V}
    (h : a.step op = some a') : nextIndex a.lastPurged ≤ nextIndex a'.lastPurged := by
  rcases RaftLog.step_cases h with ⟨es, -, -, -, -, hlp, -⟩ | ⟨id, -, -, -, -, hlp, -⟩ |
    ⟨id, -, hle, -, -, hlp, -⟩ | ⟨v, -, -, hlp, -⟩
  · rw [hlp]
  · rw [hlp]
  · rw [hlp]
    exact hle
  · rw [hlp]

namespace LogNode

/-! ### The record of the operations -/

/-- The log store opened on a log. The entries found count as appended, and reported as written. -/
def found (a : RaftLog E V) : LogNode E V :=
  ⟨Wal.empty, none, [.append a.entries], 1, [], [0], a⟩

/-- No operation after the `i`-th truncates the entry. -/
def Untruncated (history : List (LogOp E V)) (i : ℕ) (e : E) : Prop :=
  ∀ op ∈ history.drop (i + 1), op.keeps e = true

instance (history : List (LogOp E V)) (i : ℕ) (e : E) : Decidable (Untruncated history i e) :=
  inferInstanceAs (Decidable (∀ op ∈ _, _))

/-- The entries of the `append` whose flush is the `k`-th, less those truncated since. -/
def flushed (l : LogNode E V) (k : ℕ) : List E :=
  match l.flushes[k]? with
  | some f =>
    match l.history[f.op]? with
    | some (.append es) => es.filter fun e => decide (Untruncated l.history f.op e)
    | _ => []
  | none => []

theorem mem_flushed {l : LogNode E V} {k i : ℕ} {m : Option ℕ} (hk : l.flushes[k]? = some ⟨i, m⟩)
    {e : E} (he : e ∈ l.flushed k) :
    ∃ es, l.history[i]? = some (.append es) ∧ e ∈ es ∧ Untruncated l.history i e := by
  simp only [flushed, hk] at he
  split at he
  · next es hes =>
    obtain ⟨hmem, hun⟩ := List.mem_filter.1 he
    exact ⟨es, hes, hmem, of_decide_eq_true hun⟩
  · exact absurd he List.not_mem_nil

/-- A further operation. -/
theorem Untruncated.snoc {history : List (LogOp E V)} {i : ℕ} {e : E}
    (h : Untruncated history i e) (hi : i < history.length) {op : LogOp E V}
    (hop : op.keeps e = true) : Untruncated (history ++ [op]) i e := by
  intro op' hop'
  rw [List.drop_append_of_le_length hi, List.mem_append, List.mem_singleton] at hop'
  rcases hop' with hop' | rfl
  · exact h op' hop'
  · exact hop

/-- Entries are deleted by a truncation or by a purge. -/
theorem Untruncated.uncovered {history : List (LogOp E V)} {i : ℕ} {e : E}
    (h : Untruncated history i e) :
    Uncovered history i e ∨ ∃ x, .purge x ∈ history ∧ index e ≤ x.index := by
  by_cases hpurged : ∃ x, .purge x ∈ history ∧ index e ≤ x.index
  · exact Or.inr hpurged
  · refine Or.inl fun j op hij hop => ?_
    have hmem : op ∈ history.drop (i + 1) := by
      refine List.mem_of_getElem? (i := j - (i + 1)) ?_
      rw [List.getElem?_drop, Nat.add_sub_cancel' hij]
      exact hop
    cases op with
    | append es => exact id
    | truncate x => exact not_le.2 (of_decide_eq_true (h _ hmem))
    | purge x => exact fun hcov => hpurged ⟨x, List.mem_of_getElem? hop, hcov⟩
    | saveVote v => exact id

omit [RaftEntry E] in
/-- A call adds its own vote to those that may be found. -/
theorem VoteOk.of_snoc {v₀ v : Option V} {history : List (LogOp E V)} {r : ℕ} {op : LogOp E V}
    (h : VoteOk v₀ (history ++ [op]) r v) :
    VoteOk v₀ history r v ∨ ∃ w, op = .saveVote w ∧ v = some w := by
  have hlift : ∀ {j : ℕ} {w : V}, history[j]? = some (.saveVote w) →
      (history ++ [op])[j]? = some (.saveVote w) := by
    intro j w hw
    rw [List.getElem?_append_left (List.getElem?_eq_some_iff.1 hw).1]
    exact hw
  rcases h with ⟨hv, hnone⟩ | ⟨k, w, hk, hv, hlast⟩
  · exact Or.inl (Or.inl ⟨hv, fun j w hw => hnone j w (hlift hw)⟩)
  · rcases Nat.lt_or_ge k history.length with hlt | hge
    · rw [List.getElem?_append_left hlt] at hk
      exact Or.inl (Or.inr ⟨k, w, hk, hv, fun j w' hw' => hlast j w' (hlift hw')⟩)
    · rw [List.getElem?_append_right hge] at hk
      have hop : op = .saveVote w := by
        have := List.mem_of_getElem? hk
        exact (List.mem_singleton.1 this).symm
      exact Or.inr ⟨w, hop, hv⟩

omit [RaftEntry E] in
/-- A return drops the votes of earlier operations. -/
theorem VoteOk.of_ret {v₀ v : Option V} {history : List (LogOp E V)} {r : ℕ}
    (h : VoteOk v₀ history (r + 1) v) : VoteOk v₀ history r v := by
  rcases h with ⟨hv, hnone⟩ | ⟨k, w, hk, hv, hlast⟩
  · exact Or.inl ⟨hv, fun j w hw => (Nat.le_succ r).trans (hnone j w hw)⟩
  · exact Or.inr ⟨k, w, hk, hv, fun j w' hw' hj => hlast j w' hw' (hj.trans (Nat.lt_succ_self r))⟩

omit [RaftEntry E] in
/-- When the last operation is a `save_vote` that has returned, the vote is that one. -/
theorem VoteOk.eq_of_ret {v₀ v : Option V} {history : List (LogOp E V)} {r : ℕ} {w : V}
    (h : VoteOk v₀ history (r + 1) v) (hlen : history.length = r + 1)
    (hop : history[r]? = some (.saveVote w)) : v = some w := by
  rcases h with ⟨-, hnone⟩ | ⟨k, w', hk, hv, hlast⟩
  · exact absurd (hnone r w hop) (Nat.not_succ_le_self r)
  · have hle := hlast r w hop (Nat.lt_succ_self r)
    have hlt := (List.getElem?_eq_some_iff.1 hk).1
    obtain rfl : k = r := by omega
    rw [hop] at hk
    cases hk
    exact hv

/-! ### The invariant of a store just opened -/

variable [Serde E] [Serde V] [Serde LogId] [BuildProfile]

theorem inv_found {db₀ : Db} {a : RaftLog E V} (h : Sim db₀ a) (hterms : TermsAscend a.entries) :
    Inv db₀ a.vote (found a) a db₀ [] fun _ => 0 := by
  have hgood : Wal.Since Db.write db₀ Wal.empty 0 (Good E V) := (inv_start h hterms).good
  have hvote : VoteOk a.vote (found a).history 1 a.vote := by
    refine Or.inl ⟨rfl, fun j w hw => ?_⟩
    have := List.mem_of_getElem? hw
    simp [found] at this
  -- the one operation is the `append` of the entries found
  have hone : ∀ {i : ℕ} {es : List E}, (found a).history[i]? = some (LogOp.append es) →
      es = a.entries := by
    intro i es hi
    have := List.mem_of_getElem? hi
    simp only [found, List.mem_singleton, LogOp.append.injEq] at this
    exact this
  refine ⟨h, hterms, ⟨rfl, rfl, rfl, rfl⟩, le_rfl, hgood, fun i es e hi _ he _ => ?_,
    fun i es e hi _ he _ => ?_, by simp [found], fun i hi => ?_, hvote,
    0, le_rfl, Wal.since_here ⟨_, h.vote, hvote⟩⟩
  · refine Wal.since_here ⟨_, _, _, h.contents, ?_⟩
    rw [live_of_contiguous a.gapFree]
    exact hone hi ▸ he
  · exact hone hi ▸ he
  · rw [List.mem_singleton.1 hi]
    exact ⟨Or.inl Nat.one_pos, le_rfl⟩

end LogNode

end RaftService
