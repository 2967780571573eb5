import RaftService.Node.Storage

/-!
# The two stores survive crashes together

A crash keeps a prefix of the writes of both stores. What it leaves in the columns of the log store
is what a crash leaves of a log store alone, and so for the column of the snapshots; but it is the
same prefix, so the last purged log id in the one is not above the snapshot in the other. Hence no
entry falls between the two, and the stores can be opened again with all that was promised
(`Inv.reopens`), any number of times.

`storage_survives`: an entry once reported as written is in the snapshot or in the log that a node
finds after any number of crashes, unless it was truncated.
-/

namespace RaftService

open RaftEntry (index logId)
open RocksLogStore StateMachineStore

variable {σ Req Resp Snap ρ : Type}

namespace Storage

section Crashes

variable [BuildProfile] [Serde Req] [Serde Snap] [Serde StoredSnapshot] [Serde Pb.Entry]
  [Serde Pb.Vote] [Serde LogId] {A : ApplicationStateMachine σ Req Resp Snap}
  {log : ReferenceLog Req} {first : UInt64} {v₀ : Option Pb.Vote} {s : Storage σ} {c : Db}

theorem Inv.recovers_store (h : Inv A log first v₀ s)
    (hcrash : s.log.wal.Recovers Db.write s.base c) :
    HoldsExact A log c ∧ ∀ l ∈ s.reported, l ≤ snapshotLogId c := by
  have hstore := Db.only_ofStore_store c
  obtain ⟨hrec, hreported⟩ :=
    h.store.disk.recovers (Wal.Recovers.only (Db.sees_only Column.ofStore) hcrash)
  refine ⟨hrec.exact.of_eq hstore.symm, fun l hl => ?_⟩
  rw [← snapshotLogId_of_eq hstore]
  exact hreported l hl

theorem Inv.recovers_log [LawfulSerde Pb.Entry] (h : Inv A log first v₀ s)
    (hcrash : s.log.wal.Recovers Db.write s.base c) :
    ∃ (es : List Pb.Entry) (lp : Option LogId) (v : Option Pb.Vote),
      LogContents (c.ofLog first) es lp v ∧
      (Contiguous (nextIndex lp) (live lp es) ∧ TermsAscend (live lp es)) ∧
      (∀ i ∈ s.log.acked, ∀ es', s.log.history[i]? = some (.append es') → ∀ e ∈ es',
        LogNode.Uncovered s.log.history i e → e ∈ live lp es) ∧
      LogNode.VoteOk v₀ s.log.history s.log.returned v := by
  obtain ⟨a, db, dn, mark, hinv⟩ := h.logStore
  have halone : (s.log.wal.only (Write.ofLog first)).Recovers Db.write (s.base.ofLog first)
      (c.ofLog first) := Wal.Recovers.only (Db.sees_ofLog first) hcrash
  obtain ⟨es, lp, v, hcont, hgap, hasc⟩ := halone.of_since hinv.good (Nat.zero_le _)
  obtain ⟨j, hj, hsince⟩ := hinv.vote
  obtain ⟨v', hv', hok⟩ := halone.of_since hsince hj
  cases hcont.readVote.symm.trans hv'
  refine ⟨es, lp, v, hcont, ⟨hgap, hasc⟩, fun i hi es' hes' e he hunc => ?_, hok⟩
  obtain ⟨hw, hmark⟩ := hinv.acked i hi
  obtain ⟨es₁, lp₁, v₁, hcont₁, hmem⟩ :=
    halone.of_since (hinv.present i es' e hes' hw he hunc) hmark
  cases hcont.purged.symm.trans hcont₁.purged
  rw [holds_unique hcont.holds hcont₁.holds]
  exact hmem

/-- **What a crash leaves can be opened again**, with a log that is purged no further than the
snapshot. All snapshots reported are kept; the entries promised are in the snapshot or in the log;
and the vote is one that may be the saved one. -/
theorem Inv.reopens [LawfulSerde Pb.Entry] (h : Inv A log first v₀ s) (hlog : log.GapFree)
    (hcrash : s.log.wal.Recovers Db.write s.base c) :
    ∃ a : RaftLog Pb.Entry Pb.Vote, Reopens c a ∧ HoldsExact A log c ∧ log.Has a.lastPurged ∧
      a.lastPurged ≤ snapshotLogId c ∧ (∀ l ∈ s.reported, l ≤ snapshotLogId c) ∧
      (∀ e ∈ s.promised, (index e).toNat < nextIndex (snapshotLogId c) ∨ e ∈ a.entries) ∧
      a.vote ∈ s.saved := by
  obtain ⟨hexact, hreported⟩ := h.recovers_store hcrash
  obtain ⟨es, lp, v, hcont, ⟨hgap, hasc⟩, hacked, hvote⟩ := h.recovers_log hcrash
  obtain ⟨lp', hlp', hhas, hfirst, l, hl, hle⟩ := hcrash.of_since h.purged (Nat.zero_le _)
  have hentries : c.OfEntries Pb.Entry := hcrash.of_since h.entries (Nat.zero_le _)
  have hlp : getMeta c .lastPurged = .ok lp := hcont.purged
  cases hlp.symm.trans hlp'
  have hindex : ∀ e ∈ live lp es, index e < u64Max := fun e he =>
    hentries.index_lt hcont.holds (mem_live.1 he).1
  have hsnap := hexact.has_snapshotLogId
  have hbelow : ∀ {l : Option LogId} {e : Pb.Entry}, log.Has l → l ≤ snapshotLogId c →
      (index e).toNat < nextIndex l → (index e).toNat < nextIndex (snapshotLogId c) :=
    fun hl hle hlt => hlt.trans_le ((hlog.le_iff hl hsnap).1 hle)
  refine ⟨⟨v, lp, live lp es, hgap, hindex⟩, reopens_of_contents hcont rfl hasc hentries
    (hlog.toNat_firstToApply hhas) hfirst, hexact, hhas, hle.trans (hreported l hl), hreported,
    fun e he => ?_, h.saved v hvote⟩
  rcases h.promised e he with ⟨l, hl, hhas', hlt⟩ | ⟨i, hi, es', hes', hmem, hun⟩
  · exact Or.inl (hbelow hhas' (hreported l hl) hlt)
  · rcases hun.uncovered with hunc | ⟨x, hx, hindex⟩
    · exact Or.inr (hacked i hi es' hes' e hmem hunc)
    · -- it was purged, up to a snapshot known to be stored
      obtain ⟨hhas', l, hl, hle'⟩ := h.purges x hx
      refine Or.inl (hbelow hhas' (hle'.trans (hreported l hl)) ?_)
      rw [nextIndex_some]
      exact Nat.lt_succ_of_le (UInt64.le_iff_toNat_le.1 hindex)

end Crashes

section Survival

variable [BuildProfile] [Openraft] [Serde Req] [Serde Snap] [Serde StoredSnapshot] [Serde Pb.Entry]
  [Serde Pb.Vote] [Serde LogId] {A : ApplicationStateMachine σ Req Resp Snap}
  {log : ReferenceLog Req} {s s' : Storage σ} [LawfulOpenraft] [LawfulSerde Req]
  [LawfulSerde Snap] [LawfulSerde StoredSnapshot] [LawfulSerde Pb.Entry] [LawfulSerde Pb.Vote]
  [LawfulSerde LogId]

/-- **Every step keeps the invariant**, a crash that of the stores opened again. -/
theorem Inv.step (hA : A.RoundTrips) (hlog : log.GapFree)
    (hser : ∀ e ∈ log.entries, Serializes e) (hids : ∀ x, log.Has (some x) → Serializes x)
    {first : UInt64} {v₀ : Option Pb.Vote} (h : Inv A log first v₀ s) {e : Event ρ}
    (hops : ∀ op, e = .log (.call op) → op.Serializable)
    (hinst : ∀ md data, e = .store (.install md data) → (StoredSnapshot.mk md data).Exact A log)
    (hstep : Storage.step A log s e = some s') : ∃ first v₀, Inv A log first v₀ s' := by
  cases e with
  | log e => exact ⟨_, _, h.logStep (fun op he => hops op (by rw [he])) hstep⟩
  | store e =>
    exact ⟨_, _, h.storeStep hA hlog hser hids (fun md data he => hinst md data (by rw [he])) hstep⟩
  | crash k a' =>
    simp only [Storage.step, Option.ite_none_right_eq_some] at hstep
    obtain ⟨⟨hsync, hlen, hback⟩, hstep⟩ := hstep
    obtain ⟨a, hre, hexact, hhas, hle, hreported, hpromised, -⟩ :=
      h.reopens hlog ⟨k, hsync, hlen, rfl⟩
    obtain rfl : a' = a := hback.unique hre.readBack
    split at hstep
    · next store hnew =>
      cases hstep
      exact ⟨_, _, inv_opened hre hexact hhas hle hnew hreported hpromised⟩
    · cases hstep

/-- **Every state of a run satisfies the invariant.** -/
theorem inv_of_run (hA : A.RoundTrips) (hlog : log.GapFree)
    (hser : ∀ e ∈ log.entries, Serializes e) (hids : ∀ x, log.Has (some x) → Serializes x)
    {s₀ : Storage σ} (h₀ : ∃ first v₀, Inv A log first v₀ s₀) {tr : List (Event ρ)}
    (hops : ∀ op, .log (.call op) ∈ tr → op.Serializable)
    (hinst : ∀ md data, .store (.install md data) ∈ tr → (StoredSnapshot.mk md data).Exact A log)
    (hrun : Run.exec (Storage.step A log) s₀ tr = some s) : ∃ first v₀, Inv A log first v₀ s := by
  refine Run.exec_induction
    (motive := fun tr s => (∀ op, .log (.call op) ∈ tr → op.Serializable) →
      (∀ md data, .store (.install md data) ∈ tr → (StoredSnapshot.mk md data).Exact A log) →
        ∃ first v₀, Inv A log first v₀ s)
    (fun _ _ => h₀) (fun tr s e s' _ ih hstep hops hinst => ?_) tr s hrun hops hinst
  obtain ⟨first, v₀, h⟩ := ih (fun op hop => hops op (List.mem_append_left _ hop))
    (fun md data hmem => hinst md data (List.mem_append_left _ hmem))
  exact h.step hA hlog hser hids (fun op he => hops op (by simp [he]))
    (fun md data he => hinst md data (by simp [he])) hstep

/-- **The two stores survive crashes together.** They are opened on a database that holds a log,
and a snapshot that is not behind the last purged log id. In any interleaving of their operations
and of the flushes in the background, with any number of crashes after each of which they are
opened again, whatever a further crash leaves:
* it is opened, its state is one of the log, and that is not behind any snapshot known to be stored;
* `get_log_state` answers, with a last purged log id that is not ahead of the state, and with the
  last entry's log id if there is an entry after the last purged one;
* there is a log to go on from, the one that the store answers;
* the entries right after that state are read back, with no gap and ascending terms;
* every entry that was ever reported as written, or found when the stores were opened, and was not
  truncated after that, has an index that the state includes, or is read back;
* the vote is that of the last `save_vote` that returned or the one found after that, or that of a
  `save_vote` called later. -/
theorem storage_survives (hA : A.RoundTrips) (hlog : log.GapFree)
    (hser : ∀ e ∈ log.entries, Serializes e) (hids : ∀ x, log.Has (some x) → Serializes x)
    {db₀ : Db} {a₀ : RaftLog Pb.Entry Pb.Vote} (hsim : Sim db₀ a₀)
    (hterms : TermsAscend a₀.entries) (hexact : HoldsExact A log db₀)
    (hhas : log.Has a₀.lastPurged) (hle : a₀.lastPurged ≤ snapshotLogId db₀)
    {st₀ : StateMachineStore σ} (hnew : newStorage A db₀ = .ok st₀) {tr : List (Event ρ)}
    (hops : ∀ op, .log (.call op) ∈ tr → op.Serializable)
    (hinst : ∀ md data, .store (.install md data) ∈ tr → (StoredSnapshot.mk md data).Exact A log)
    (hrun : Run.exec (Storage.step A log) (opened db₀ a₀ st₀ [] []) tr = some s) {c : Db}
    (hcrash : s.log.wal.Recovers Db.write s.base c) :
    ∃ (st : StateMachineStore σ) (ls : LogState) (a : RaftLog Pb.Entry Pb.Vote)
      (es : List Pb.Entry) (v : Option Pb.Vote),
      newStorage A c = .ok st ∧ AtLog A log st.stateMachine ∧
      (∀ l ∈ s.reported, l ≤ (appliedState st).1) ∧
      getLogState Pb.Entry c = .ok ls ∧ ls.lastPurgedLogId ≤ (appliedState st).1 ∧
      (a.entries ≠ [] → ls.lastLogId = a.lastLogId) ∧ a.ReadBack c ∧
      tryGetLogEntries c ⟨.included (firstToApply (appliedState st).1), .unbounded⟩ = .ok es ∧
      (Contiguous (nextIndex (appliedState st).1) es ∧ TermsAscend es) ∧
      (∀ e ∈ s.promised, (index e).toNat < nextIndex (appliedState st).1 ∨ e ∈ es) ∧
      readVote c = .ok v ∧ v ∈ s.saved := by
  have hre₀ := reopens_of_sim hsim hterms (hlog.toNat_firstToApply hhas)
  obtain ⟨first, v₀, h⟩ := inv_of_run hA hlog hser hids
    ⟨_, _, inv_opened hre₀ hexact hhas hle hnew (fun l hl => absurd hl List.not_mem_nil)
      (fun e he => absurd he List.not_mem_nil)⟩ hops hinst hrun
  obtain ⟨a, hre, hexact', hhas', hle', hreported, hpromised, hsaved⟩ := h.reopens hlog hcrash
  obtain ⟨st, hst, hat, hlast⟩ := new_of_holdsExact hexact'
  have happlied : (appliedState st).1 = snapshotLogId c := hlast
  have hhasc := hexact'.has_snapshotLogId
  have hlp : nextIndex a.lastPurged ≤ nextIndex (snapshotLogId c) :=
    (hlog.le_iff hhas' hhasc).1 hle'
  have hfirst := hlog.toNat_firstToApply hhasc
  -- what is read back are the entries found that are not applied
  have hread := hre.read (x := firstToApply (snapshotLogId c)) (by
    rw [UInt64.le_iff_toNat_le, hre.first, hfirst]
    exact hlp)
  have hfilter : (a.entries.filter fun e => decide (firstToApply (snapshotLogId c) ≤ index e)) =
      a.entries.filter fun e => decide (nextIndex (snapshotLogId c) ≤ (index e).toNat) :=
    List.filter_congr fun e _ => by
      rw [Bool.eq_iff_iff, decide_eq_true_eq, decide_eq_true_eq, UInt64.le_iff_toNat_le, hfirst]
  rw [hfilter] at hread
  obtain ⟨ls, hls, hpurged, hlastLogId⟩ := hre.getLogState
  refine ⟨st, ls, a, _, a.vote, hst, hat, happlied ▸ hreported, hls, ?_, hlastLogId, hre.readBack,
    happlied ▸ hread,
    happlied ▸ ⟨a.gapFree.filter_ge hlp, hre.terms.sublist List.filter_sublist⟩, fun e he => ?_,
    hre.sim.vote, hsaved⟩
  · rw [happlied, hpurged]
    exact hle'
  · rw [happlied]
    rcases Nat.lt_or_ge (index e).toNat (nextIndex (snapshotLogId c)) with hlt | hge
    · exact Or.inl hlt
    · refine Or.inr (List.mem_filter.2 ⟨?_, decide_eq_true hge⟩)
      exact (hpromised e he).resolve_left (not_lt.2 hge)

end Survival

end Storage

/-! ### A run of the counter -/

namespace Storage

open scoped Counter

/-- What is left of the log when a purge of the first entry is interrupted. -/
def kept : RaftLog Pb.Entry Pb.Vote where
  vote := some Counter.vote
  lastPurged := some ⟨1, 0⟩
  entries := Counter.entries.drop 1
  gapFree := ⟨rfl, rfl, trivial⟩
  bounded e he := RaftNode.counterLog_gapFree.bounded e (List.mem_of_mem_drop he)

/-- The log is appended, and flushed in the background while a snapshot of the first two entries is
built and a vote is saved; a purge has written its log id when the node crashes; and another one
has done so after the restart. -/
def working : List (Event Unit) :=
  [.log (.call (.append Counter.entries)), .log .next, .log .next, .log .next, .log .next,
    .log .ret, .log (.flushStart 0), .store (.apply (unanswered Unit (Counter.entries.take 2))),
    .store .build, .log (.call (.saveVote Counter.vote)), .store .storeNext, .log .next,
    .log (.flushDone 0), .store .storeNext, .store .storeRet, .log .next, .log .ret,
    .log (.call (.purge ⟨1, 0⟩)), .log .next, .crash 6 kept, .log (.call (.purge ⟨1, 1⟩)),
    .log .next]

set_option maxRecDepth 10000 in
/-- After another crash there, the third entry is read back, and so is the vote. -/
theorem working_survives : ∃ s st ls es,
    Run.exec (step counter Counter.log) (opened Db.empty .empty RaftNode.newCounter [] []) working =
      some s ∧
    newStorage counter s.db = .ok st ∧ (appliedState st).1 = some ⟨1, 1⟩ ∧
    getLogState Pb.Entry s.db = .ok ls ∧ ls.lastPurgedLogId ≤ some ⟨1, 1⟩ ∧
    tryGetLogEntries s.db ⟨.included 2, .unbounded⟩ = .ok es ∧
    (∀ e ∈ Counter.entries, (index e).toNat < 2 ∨ e ∈ es) ∧
    readVote s.db = .ok (some Counter.vote) := by
  have hseen : (Run.exec (step counter Counter.log)
      (opened Db.empty .empty RaftNode.newCounter [] []) working).map (fun s =>
        ((newStorage counter s.db).map fun st => (appliedState st).1,
          decide (Counter.entries ⊆ s.promised ∧ s.saved = [some Counter.vote]),
          decide (s.log.wal.synced ≤ s.log.wal.log.length))) =
      some (.ok (some ⟨1, 1⟩), true, true) := by decide +kernel
  obtain ⟨s, hrun, hs⟩ := Option.map_eq_some_iff.1 hseen
  simp only [Prod.mk.injEq, decide_eq_true_eq] at hs
  obtain ⟨hstore, ⟨hentries, hsaved⟩, hsync⟩ := hs
  have hops : ∀ op, .log (.call op) ∈ working → op.Serializable := by
    simp only [working, List.mem_cons, reduceCtorEq, Event.log.injEq, LogNode.Event.call.injEq,
      false_or, List.not_mem_nil, or_false]
    rintro op (rfl | rfl | rfl | rfl)
    · exact fun e he => exists_toVecIn he
    all_goals exact exists_toVecIn (by decide)
  obtain ⟨st, ls, a, es, v, hst, -, -, hls, hpurged, -, -, hes, -, hpromised, hv, hmem⟩ :=
    storage_survives (c := s.db) counter_roundTrips RaftNode.counterLog_gapFree
      (fun e he => exists_toVecIn he) (fun x => RaftNode.counterLog_ids) sim_empty
      List.Pairwise.nil holdsExact_empty ⟨0, Nat.zero_le _, rfl⟩ le_rfl rfl hops
      (by simp [working]) hrun ⟨_, hsync, le_rfl, (Wal.contentsAt_length s.log.wal).symm⟩
  rw [hst] at hstore
  have happlied : (appliedState st).1 = some ⟨1, 1⟩ := Except.ok.inj hstore
  rw [happlied] at hes hpromised hpurged
  rw [hsaved, List.mem_singleton] at hmem
  exact ⟨s, st, ls, es, hrun, hst, happlied, hls, hpurged, hes,
    fun e he => hpromised e (hentries he), hmem ▸ hv⟩

end Storage

end RaftService
