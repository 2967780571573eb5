import RaftService.Store.Refinement

/-!
# The log store between two writes of an operation

An operation of the log store is several primitive writes, and a crash can fall between any two
of them. `Stage a op db es lp v` says what the columns hold after some of the writes of `op` on
the abstract log `a`: the entries above the last purged log id are gap-free, they come from `a`
and from what `op` appends, and those that `op` does not cover are still there.

`stage_of_calls`: after every prefix of the writes of a disciplined operation, the database is at
a stage of it. A part of `append` is an `append` of fewer entries; only `purge` has a state in
between of its own, where the last purged log id is written and the entries are not deleted yet.
-/

namespace RaftService

open RaftEntry (index logId)
open RocksLogStore

theorem prefix_singleton {α : Type} {l : List α} {x : α} (h : l <+: [x]) : l = [] ∨ l = [x] := by
  rcases l with - | ⟨y, l⟩
  · exact Or.inl rfl
  · obtain ⟨rfl, hl⟩ := List.cons_prefix_cons.1 h
    rw [List.prefix_nil.1 hl]
    exact Or.inr rfl

variable {E V : Type} [RaftEntry E]

/-- The entries above the last purged log id. -/
def live (lp : Option LogId) (es : List E) : List E :=
  es.filter fun e => nextIndex lp ≤ (index e).toNat

theorem mem_live {lp : Option LogId} {es : List E} {e : E} :
    e ∈ live lp es ↔ e ∈ es ∧ nextIndex lp ≤ (index e).toNat := by
  simp [live]

/-- Entries that start after the last purged log id are all above it. -/
theorem live_of_contiguous {lp : Option LogId} {es : List E}
    (h : Contiguous (nextIndex lp) es) : live lp es = es :=
  List.filter_eq_self.2 fun e he => by simpa using (h.mem he).1

/-- The entries above the log id of a purge. -/
theorem live_purge (id : LogId) (es : List E) :
    live (some id) es = es.filter fun e => id.index < index e := by
  refine List.filter_congr fun e _ => ?_
  rw [Bool.eq_iff_iff, decide_eq_true_eq, decide_eq_true_eq, nextIndex_some, Nat.succ_le_iff,
    UInt64.lt_iff_toNat_lt]

/-- What an operation appends. -/
def LogOp.appended : LogOp E V → List E
  | .append es => es
  | _ => []

/-- The operation is to delete the entry. -/
def LogOp.Covers : LogOp E V → E → Prop
  | .append _, _ => False
  | .truncate id, e => id.index ≤ index e
  | .purge id, e => index e ≤ id.index
  | .saveVote _, _ => False

/-- What an operation leaves of the entries, and what it appends. -/
theorem mem_entries_of_step {a a' : RaftLog E V} {op : LogOp E V} (h : a.step op = some a')
    {e : E} (he : e ∈ a.entries) (hnot : ¬ op.Covers e) : e ∈ a'.entries := by
  rcases RaftLog.step_cases h with ⟨es, rfl, -, -, -, -, hes⟩ | ⟨id, rfl, -, -, -, -, hes⟩ |
    ⟨id, rfl, -, -, -, -, hes⟩ | ⟨v, rfl, -, -, hes⟩
  · rw [hes]; exact List.mem_append_left es he
  · rw [hes]; exact List.mem_filter.2 ⟨he, by simpa [LogOp.Covers] using hnot⟩
  · rw [hes]; exact List.mem_filter.2 ⟨he, by simpa [LogOp.Covers] using hnot⟩
  · rw [hes]; exact he

theorem appended_subset_of_step {a a' : RaftLog E V} {op : LogOp E V} (h : a.step op = some a')
    {e : E} (he : e ∈ op.appended) : e ∈ a'.entries := by
  rcases RaftLog.step_cases h with ⟨es, rfl, -, -, -, -, hes⟩ | ⟨id, rfl, -, -, -, -, -⟩ |
    ⟨id, rfl, -, -, -, -, -⟩ | ⟨v, rfl, -, -, -⟩
  · rw [hes]; exact List.mem_append_right _ he
  all_goals exact absurd he List.not_mem_nil

theorem entries_sublist_of_step {a a' : RaftLog E V} {op : LogOp E V} (h : a.step op = some a') :
    a'.entries.Sublist (a.entries ++ op.appended) := by
  rcases RaftLog.step_cases h with ⟨es, rfl, -, -, -, -, hes⟩ | ⟨id, rfl, -, -, -, -, hes⟩ |
    ⟨id, rfl, -, -, -, -, hes⟩ | ⟨v, rfl, -, -, hes⟩
  · rw [hes]; exact List.Sublist.refl _
  · rw [hes]; exact List.filter_sublist.trans (List.sublist_append_left ..)
  · rw [hes]; exact List.filter_sublist.trans (List.sublist_append_left ..)
  · rw [hes]; exact List.sublist_append_left ..

theorem vote_of_step {a a' : RaftLog E V} {op : LogOp E V} (h : a.step op = some a') :
    (a'.vote = a.vote ∧ ∀ v, op ≠ .saveVote v) ∨ ∃ v, op = .saveVote v ∧ a'.vote = some v := by
  rcases RaftLog.step_cases h with ⟨es, rfl, -, -, hv, -, -⟩ | ⟨id, rfl, -, -, hv, -, -⟩ |
    ⟨id, rfl, -, -, hv, -, -⟩ | ⟨v, rfl, hv, -, -⟩
  · exact Or.inl ⟨hv, by simp⟩
  · exact Or.inl ⟨hv, by simp⟩
  · exact Or.inl ⟨hv, by simp⟩
  · exact Or.inr ⟨v, rfl, hv⟩

variable [Serde E] [Serde V] [Serde LogId]

/-- What the columns hold. -/
structure LogContents (db : Db) (es : List E) (lp : Option LogId) (v : Option V) : Prop where
  holds : Holds (db .logs) es
  purged : getMeta db .lastPurged = .ok lp
  readVote : RocksLogStore.readVote db = .ok v

theorem Sim.contents {db : Db} {a : RaftLog E V} (h : Sim db a) :
    LogContents db a.entries a.lastPurged a.vote :=
  ⟨h.logs, h.purged, h.vote⟩

/-- The database is somewhere within the operation `op` on the abstract log `a`. -/
structure Stage (a : RaftLog E V) (op : LogOp E V) (db : Db) (es : List E) (lp : Option LogId)
    (v : Option V) : Prop extends LogContents db es lp v where
  gapFree : Contiguous (nextIndex lp) (live lp es)
  sublist : (live lp es).Sublist (a.entries ++ op.appended)
  kept : ∀ e ∈ a.entries, ¬ op.Covers e → e ∈ live lp es
  vote : v = a.vote ∨ ∃ w, op = .saveVote w ∧ v = some w

/-- Before the first write. -/
theorem stage_start {db : Db} {a : RaftLog E V} (h : Sim db a) (op : LogOp E V) :
    Stage a op db a.entries a.lastPurged a.vote where
  toLogContents := h.contents
  gapFree := by rw [live_of_contiguous a.gapFree]; exact a.gapFree
  sublist := by rw [live_of_contiguous a.gapFree]; exact List.sublist_append_left ..
  kept e he _ := by rw [live_of_contiguous a.gapFree]; exact he
  vote := Or.inl rfl

/-- After the last write. -/
theorem stage_done {db : Db} {a a' : RaftLog E V} {op : LogOp E V} (h : Sim db a')
    (hstep : a.step op = some a') : Stage a op db a'.entries a'.lastPurged a'.vote where
  toLogContents := h.contents
  gapFree := by rw [live_of_contiguous a'.gapFree]; exact a'.gapFree
  sublist := by rw [live_of_contiguous a'.gapFree]; exact entries_sublist_of_step hstep
  kept e he hnot := by
    rw [live_of_contiguous a'.gapFree]; exact mem_entries_of_step hstep he hnot
  vote := (vote_of_step hstep).imp And.left id

variable [BuildProfile]

/-- All calls of an operation but the last are writes; a flush is spawned by `append` alone, and
awaited by `save_vote` alone. -/
theorem calls_of_step {a a' : RaftLog E V} {op : LogOp E V} (hstep : a.step op = some a')
    (hser : op.Serializable) :
    (∀ x ∈ op.io.calls.dropLast, ∃ w, x = .write w) ∧
      (.spawnFlush ∈ op.io.calls ↔ ∃ es, op = .append es) ∧
      (.flushWal ∈ op.io.calls ↔ ∃ v, op = .saveVote v) := by
  rcases RaftLog.step_cases hstep with ⟨es, rfl, -, -, -, -, -⟩ | ⟨id, rfl, -, -, -, -, -⟩ |
    ⟨id, rfl, -, hid, -, -, -⟩ | ⟨v, rfl, -, -, -⟩
  · rw [LogOp.io, append_io hser]
    refine ⟨fun x hx => ?_, by simp, by simp⟩
    rw [List.dropLast_concat] at hx
    obtain ⟨e, -, rfl⟩ := List.mem_map.1 hx
    exact ⟨_, rfl⟩
  · simp [LogOp.io, truncate, Io.deleteRangeCf]
  · rw [LogOp.io, purge_io hser hid]
    simp
  · rw [LogOp.io, saveVote_io hser]
    simp

variable [LawfulSerde V] [LawfulSerde LogId]

/-- **After every prefix of the writes of a disciplined operation, the database is at a stage of
it.** -/
theorem stage_of_calls {db : Db} {a a' : RaftLog E V} {op : LogOp E V} (h : Sim db a)
    (hstep : a.step op = some a') (hser : op.Serializable) {ws : List Write}
    (hws : ws <+: op.io.writes) : ∃ es lp v, Stage a op (ws.foldl Db.write db) es lp v := by
  have hdone : ws = op.io.writes → ∃ es lp v, Stage a op (ws.foldl Db.write db) es lp v := by
    rintro rfl
    exact ⟨_, _, _, stage_done (sim_step h hstep hser).2 hstep⟩
  have hstart : ws = [] → ∃ es lp v, Stage a op (ws.foldl Db.write db) es lp v := by
    rintro rfl
    exact ⟨_, _, _, stage_start h op⟩
  rcases RaftLog.step_cases hstep with ⟨es, rfl, hes, hlt, -, -, -⟩ | ⟨id, rfl, -, -, -, -, -⟩ |
    ⟨id, rfl, hle, hid, -, -, -⟩ | ⟨v, rfl, -, -, -⟩
  · -- the part of `append` done so far is an `append` of fewer entries
    rw [append_writes hser] at hws
    have htake : ws = (es.take ws.length).map putOf := by
      rw [List.map_take]
      exact List.prefix_iff_eq_take.1 hws
    have hser' : (LogOp.append (es.take ws.length) : LogOp E V).Serializable := fun e he =>
      hser e (List.mem_of_mem_take he)
    obtain ⟨a₁, ha₁⟩ : ∃ a₁, a.step (.append (es.take ws.length)) = some a₁ := by
      refine ⟨_, dif_pos ⟨?_, fun e he => hlt e (List.mem_of_mem_take he)⟩⟩
      rw [← List.take_append_drop ws.length es] at hes
      exact (contiguous_append.1 hes).1
    have hsim := (sim_step h ha₁ hser').2
    rw [Io.run, append_writes hser', ← htake] at hsim
    have hstage := stage_done hsim ha₁
    refine ⟨_, _, _, hstage.toLogContents, hstage.gapFree, hstage.sublist.trans ?_, hstage.kept, ?_⟩
    · exact List.Sublist.append (List.Sublist.refl _) (List.take_sublist ..)
    · rcases hstage.vote with hv | ⟨w, hw, -⟩
      · exact Or.inl hv
      · cases hw
  · rcases prefix_singleton hws with hnil | hone
    · exact hstart hnil
    · exact hdone hone
  · rw [purge_writes hser hid] at hws
    rcases ws with - | ⟨w, ws⟩
    · exact hstart rfl
    · obtain ⟨rfl, hrest⟩ := List.cons_prefix_cons.1 hws
      rcases prefix_singleton hrest with rfl | rfl
      · -- the log id is written, the entries are still there
        refine ⟨a.entries, some id, a.vote, ⟨?_, ?_, ?_⟩, ?_, ?_, fun e he hnot => ?_, Or.inl rfl⟩
        · rw [List.foldl_cons, List.foldl_nil, Db.write_put_of_ne db (by decide)]
          exact h.logs
        · exact getMeta_put_self db .lastPurged hser
        · rw [readVote, List.foldl_cons, List.foldl_nil, getMeta_put_of_ne db .vote vote_key_ne]
          exact h.vote
        · rw [live_purge]; exact a.gapFree.filter_gt hle
        · rw [live_purge]
          exact List.filter_sublist.trans (List.sublist_append_left ..)
        · rw [live_purge]
          exact List.mem_filter.2 ⟨he, by simpa [LogOp.Covers] using hnot⟩
      · exact hdone (purge_writes hser hid).symm
  · rw [saveVote_writes hser] at hws
    rcases prefix_singleton hws with hnil | hone
    · exact hstart hnil
    · exact hdone (by rw [hone, saveVote_writes hser])

end RaftService
