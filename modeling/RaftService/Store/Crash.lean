import RaftService.Counter
import RaftService.Store.Stage

/-!
# Crashes of the log store

A node calls the operations of the log store one after the other, each of them one primitive
write or flush at a time (`LogNode`). The flush that `append` spawns runs in the background: it
starts at any time after that, covers the writes issued before it started, ends at any later
time, and then reports to the callback of its `append`. A crash keeps a prefix of the primitive
writes that contains all that completed flushes cover.

`log_store_crash_consistent`: whatever prefix a crash keeps, the entries above the last purged
log id have no gap and ascending terms, the entries reported as written are there unless a later
operation covers them, and the vote is that of the last `save_vote` that returned, or of a later
one. The invariant says this of every prefix that is still possible, with `Wal.Since`.
-/

namespace RaftService

open RaftEntry (index logId)
open RocksLogStore

variable {E V : Type} [RaftEntry E]

/-- The terms do not go down. -/
def TermsAscend (es : List E) : Prop :=
  es.Pairwise fun a b => (logId a).leaderId ≤ (logId b).leaderId

instance (es : List E) : Decidable (TermsAscend es) :=
  inferInstanceAs (Decidable (es.Pairwise _))

/-- A flush spawned by the operation number `op`; once it has started, the number of writes issued
by then. -/
structure Flush where
  op : ℕ
  mark : Option ℕ

/-- A node's log store: the writes issued, the operation in progress with the calls it still has
to make, the operations called so far with the number of those that have returned, the flushes in
the background, the operations whose callback reported `Ok`, and the log its caller has asked
for. -/
structure LogNode (E V : Type) [RaftEntry E] where
  wal : Wal Write
  running : Option (LogOp E V × List Call)
  history : List (LogOp E V)
  returned : ℕ
  flushes : List Flush
  acked : List ℕ
  log : RaftLog E V

namespace LogNode

/-! ### Histories -/

section Histories

variable {E V : Type}

/-- The vote is that of a `save_vote` that no returned one comes after; the vote `v₀` of the
beginning, if none has returned. -/
def VoteOk (v₀ : Option V) (history : List (LogOp E V)) (returned : ℕ) (v : Option V) : Prop :=
  (v = v₀ ∧ ∀ j w, history[j]? = some (.saveVote w) → returned ≤ j) ∨
    ∃ k w, history[k]? = some (.saveVote w) ∧ v = some w ∧
      ∀ j w', history[j]? = some (.saveVote w') → j < returned → j ≤ k

/-- A further call leaves the vote as it should be. -/
theorem VoteOk.snoc {v₀ v : Option V} {history : List (LogOp E V)} {r : ℕ}
    (h : VoteOk v₀ history r v) (hr : r ≤ history.length) (op : LogOp E V) :
    VoteOk v₀ (history ++ [op]) r v := by
  have hold : ∀ {j : ℕ} {w : V}, j < r → (history ++ [op])[j]? = some (.saveVote w) →
      history[j]? = some (.saveVote w) := by
    intro j w hj hw
    rwa [List.getElem?_append_left (by omega)] at hw
  rcases h with ⟨hv, hnone⟩ | ⟨k, w, hk, hv, hlast⟩
  · refine Or.inl ⟨hv, fun j w hw => ?_⟩
    by_contra hj
    exact hj (hnone j w (hold (by omega) hw))
  · refine Or.inr ⟨k, w, ?_, hv, fun j w' hw' hj => hlast j w' (hold hj hw') hj⟩
    rw [List.getElem?_append_left (List.getElem?_eq_some_iff.1 hk).1]
    exact hk

theorem VoteOk.ret {v₀ v : Option V} {history : List (LogOp E V)} {r : ℕ} {op : LogOp E V}
    (h : VoteOk v₀ history r v) (hop : history[r]? = some op) (hnot : ∀ w, op ≠ .saveVote w) :
    VoteOk v₀ history (r + 1) v := by
  have hne : ∀ {j : ℕ} {w : V}, history[j]? = some (.saveVote w) → j ≠ r := by
    rintro j w hw rfl
    rw [hop] at hw
    exact hnot w (Option.some.inj hw)
  rcases h with ⟨hv, hnone⟩ | ⟨k, w, hk, hv, hlast⟩
  · refine Or.inl ⟨hv, fun j w hw => ?_⟩
    have := hnone j w hw
    have := hne hw
    omega
  · refine Or.inr ⟨k, w, hk, hv, fun j w' hw' hj => hlast j w' hw' ?_⟩
    have := hne hw'
    omega

/-- The vote of the operation called last is as it should be, whether it has returned or not. -/
theorem voteOk_last {v₀ : Option V} {history : List (LogOp E V)} {r r' : ℕ} {w : V}
    (hop : history[r]? = some (.saveVote w)) (hlen : history.length = r + 1) :
    VoteOk v₀ history r' (some w) := by
  refine Or.inr ⟨r, w, hop, rfl, fun j w' hw' _ => ?_⟩
  have := (List.getElem?_eq_some_iff.1 hw').1
  omega

variable [RaftEntry E]

/-- No operation after the `i`-th is to delete the entry. -/
def Uncovered (history : List (LogOp E V)) (i : ℕ) (e : E) : Prop :=
  ∀ j op, i < j → history[j]? = some op → ¬ op.Covers e

theorem Uncovered.of_snoc {history : List (LogOp E V)} {op : LogOp E V} {i : ℕ} {e : E}
    (h : Uncovered (history ++ [op]) i e) : Uncovered history i e := by
  intro j op' hij hj
  refine h j op' hij ?_
  rw [List.getElem?_append_left (List.getElem?_eq_some_iff.1 hj).1]
  exact hj

end Histories

/-! ### The machine -/

/-- The steps of a node. -/
inductive Event (E V : Type)
  | call (op : LogOp E V)
  | next
  | ret
  | flushStart (k : ℕ)
  | flushDone (k : ℕ)
  | flushFailed (k : ℕ)

/-- A node just opened. -/
def start (a : RaftLog E V) : LogNode E V := ⟨Wal.empty, none, [], 0, [], [], a⟩

variable [Serde E] [Serde V] [Serde LogId] [BuildProfile]

/-- One step; a call breaks no rule of the discipline. -/
def step (s : LogNode E V) : Event E V → Option (LogNode E V)
  | .call op =>
    match s.running, s.log.step op with
    | none, some a =>
      if TermsAscend (s.log.entries ++ op.appended) then
        some { s with
          running := some (op, op.io.calls)
          history := s.history ++ [op]
          log := a }
      else none
    | _, _ => none
  | .next =>
    match s.running with
    | some (op, .write w :: rest) =>
      some { s with wal := s.wal.write w, running := some (op, rest) }
    | some (op, .flushWal :: rest) =>
      some { s with wal := s.wal.sync s.wal.log.length, running := some (op, rest) }
    | some (op, .spawnFlush :: rest) =>
      some { s with flushes := s.flushes ++ [⟨s.returned, none⟩], running := some (op, rest) }
    | _ => none
  | .ret =>
    match s.running with
    | some (_, []) => some { s with running := none, returned := s.returned + 1 }
    | _ => none
  | .flushStart k =>
    match s.flushes[k]? with
    | some ⟨op, none⟩ => some { s with flushes := s.flushes.set k ⟨op, some s.wal.log.length⟩ }
    | _ => none
  | .flushDone k =>
    match s.flushes[k]? with
    | some ⟨op, some n⟩ =>
      some { s with
        wal := s.wal.sync n
        flushes := s.flushes.eraseIdx k
        acked := op :: s.acked }
    | _ => none
  | .flushFailed k =>
    match s.flushes[k]? with
    | some _ => some { s with flushes := s.flushes.eraseIdx k }
    | none => none

/-! ### What a crash must not lose -/

/-- The live entries have no gap, and their terms ascend. -/
def Good (E V : Type) [RaftEntry E] [Serde E] [Serde V] (c : Db) : Prop :=
  ∃ (es : List E) (lp : Option LogId) (v : Option V), LogContents c es lp v ∧
    Contiguous (nextIndex lp) (live lp es) ∧ TermsAscend (live lp es)

/-- The entry is among the live ones. -/
def Present (V : Type) [Serde V] (e : E) (c : Db) : Prop :=
  ∃ (es : List E) (lp : Option LogId) (v : Option V), LogContents c es lp v ∧ e ∈ live lp es

/-- The vote read back is as it should be. -/
def HoldsVote (v₀ : Option V) (history : List (LogOp E V)) (returned : ℕ) (c : Db) : Prop :=
  ∃ v, readVote c = .ok v ∧ VoteOk v₀ history returned v

/-- The writes of the `i`-th operation are all issued and its flush is spawned, where the calls
`dn` of the operation in progress are made. -/
def Written (s : LogNode E V) (dn : List Call) (i : ℕ) : Prop :=
  i < s.returned ∨ i = s.returned ∧ .spawnFlush ∈ dn

/-- Where the node stands: between two operations, or in an operation called on the log `a`
and the database `db`, with the calls `dn` made. -/
def Current (db₀ : Db) (s : LogNode E V) (a : RaftLog E V) (db : Db) (dn : List Call) : Prop :=
  match s.running with
  | none =>
    s.log = a ∧ s.wal.contents Db.write db₀ = db ∧ s.history.length = s.returned ∧ dn = []
  | some (op, rest) =>
    a.step op = some s.log ∧ op.Serializable ∧ TermsAscend (a.entries ++ op.appended) ∧
      op.io.calls = dn ++ rest ∧
      s.wal.contents Db.write db₀ = (dn.filterMap Call.write?).foldl Db.write db ∧
      s.history.length = s.returned + 1 ∧ s.history[s.returned]? = some op ∧
      (.flushWal ∈ dn → s.wal.synced = s.wal.log.length)

/-- The invariant, with the operation in progress as in `Current`, and for each operation written
the number of writes issued by then. -/
structure Inv (db₀ : Db) (v₀ : Option V) (s : LogNode E V) (a : RaftLog E V) (db : Db)
    (dn : List Call) (mark : ℕ → ℕ) : Prop where
  sim : Sim db a
  terms : TermsAscend a.entries
  current : Current db₀ s a db dn
  synced_le : s.wal.synced ≤ s.wal.log.length
  good : Wal.Since Db.write db₀ s.wal 0 (Good E V)
  present : ∀ i es e, s.history[i]? = some (.append es) → Written s dn i → e ∈ es →
    Uncovered s.history i e → Wal.Since Db.write db₀ s.wal (mark i) (Present V e)
  inLog : ∀ i es e, s.history[i]? = some (.append es) → i < s.returned → e ∈ es →
    Uncovered s.history i e → e ∈ a.entries
  flushes : ∀ f ∈ s.flushes, Written s dn f.op ∧ mark f.op ≤ s.wal.log.length ∧
    ∀ n, f.mark = some n → n ≤ s.wal.log.length ∧ mark f.op ≤ n
  acked : ∀ i ∈ s.acked, Written s dn i ∧ mark i ≤ s.wal.synced
  voteNow : VoteOk v₀ s.history s.returned a.vote
  vote : ∃ j ≤ s.wal.synced, Wal.Since Db.write db₀ s.wal j (HoldsVote v₀ s.history s.returned)

/-! ### The steps -/

section Steps

variable {db₀ : Db} {v₀ : Option V} {s s' : LogNode E V} {a : RaftLog E V} {db : Db}
  {dn : List Call}
  {mark : ℕ → ℕ}

omit [Serde E] [Serde V] [Serde LogId] [BuildProfile] in
theorem Written.snoc {i : ℕ} (h : Written s dn i) (c : Call) : Written s (dn ++ [c]) i := by
  rcases h with hi | ⟨hi, hmem⟩
  · exact Or.inl hi
  · exact Or.inr ⟨hi, List.mem_append_left _ hmem⟩

omit [Serde E] [Serde V] [Serde LogId] [BuildProfile] in
/-- Only the spawned flush makes an operation written before it returns. -/
theorem Written.of_snoc {i : ℕ} {c : Call} (h : Written s (dn ++ [c]) i) (hc : c ≠ .spawnFlush) :
    Written s dn i := by
  rcases h with hi | ⟨hi, hmem⟩
  · exact Or.inl hi
  · refine Or.inr ⟨hi, (List.mem_append.1 hmem).resolve_right fun hmem => hc ?_⟩
    exact (List.mem_singleton.1 hmem).symm

omit [Serde E] [Serde V] [Serde LogId] [BuildProfile] in
theorem Written.lt_returned {i : ℕ} (h : Written s dn i) (hdn : .spawnFlush ∉ dn) :
    i < s.returned := by
  rcases h with hi | ⟨-, hmem⟩
  · exact hi
  · exact absurd hmem hdn

/-- A call that more calls follow is a write. -/
theorem not_mem_of_calls {op : LogOp E V} {a' : RaftLog E V} (hstep : a.step op = some a')
    (hser : op.Serializable) {c : Call} {rest : List Call} (hcalls : op.io.calls = dn ++ c :: rest)
    {x : Call} (hx : ∀ w, x ≠ .write w) : x ∉ dn := by
  intro hmem
  obtain ⟨w, hw⟩ := (calls_of_step hstep hser).1 x (by
    rw [hcalls, List.dropLast_append_of_ne_nil (by simp)]
    exact List.mem_append_left _ hmem)
  exact hx w hw

/-- What the invariant says of the stage that the next write reaches. -/
theorem Inv.of_stage (h : Inv db₀ v₀ s a db dn mark) {op : LogOp E V} {rest : List Call}
    (hrun : s.running = some (op, rest)) {c : Db}
    (hstage : ∃ es lp v, Stage a op c es lp v) :
    Good E V c ∧ HoldsVote v₀ s.history s.returned c ∧
      ∀ i es e, s.history[i]? = some (.append es) → i < s.returned → e ∈ es →
        Uncovered s.history i e → Present V e c := by
  have hcur := h.current
  rw [Current, hrun] at hcur
  obtain ⟨-, -, hterms, -, -, hlen, hop, -⟩ := hcur
  obtain ⟨es, lp, v, hst⟩ := hstage
  refine ⟨⟨es, lp, v, hst.toLogContents, hst.gapFree, hterms.sublist hst.sublist⟩,
    ⟨v, hst.readVote, ?_⟩, fun i es' e hi hlt he hunc => ⟨es, lp, v, hst.toLogContents, ?_⟩⟩
  · rcases hst.vote with hv | ⟨w, rfl, hv⟩
    · rw [hv]; exact h.voteNow
    · rw [hv]; exact voteOk_last hop hlen
  · exact hst.kept e (h.inLog i es' e hi hlt he hunc) (hunc s.returned op hlt hop)

theorem Inv.call (h : Inv db₀ v₀ s a db dn mark) {op : LogOp E V} (hser : op.Serializable)
    (hstep : step s (.call op) = some s') : ∃ a db dn mark, Inv db₀ v₀ s' a db dn mark := by
  simp only [step] at hstep
  split at hstep
  · next a' hrun hlog =>
    simp only [Option.ite_none_right_eq_some, Option.some.injEq] at hstep
    obtain ⟨hterms, rfl⟩ := hstep
    have hcur := h.current
    rw [Current, hrun] at hcur
    obtain ⟨rfl, hdb, hlen, rfl⟩ := hcur
    -- the operations written are those that have returned, all of them before the new one
    have hwritten : ∀ {i}, Written s [] i → i < s.history.length := by
      rintro i (hi | ⟨-, hi⟩)
      · rw [hlen]; exact hi
      · exact absurd hi List.not_mem_nil
    have hold : ∀ {i o}, i < s.history.length → (s.history ++ [op])[i]? = some o →
        s.history[i]? = some o := by
      intro i o hi ho
      rwa [List.getElem?_append_left hi] at ho
    refine ⟨s.log, db, [], mark, h.sim, h.terms, ?_, h.synced_le, h.good, ?_, ?_,
      h.flushes, h.acked, ?_, ?_⟩
    · refine ⟨hlog, hser, hterms, rfl, hdb, by simp [hlen], ?_, by simp⟩
      rw [← hlen]
      simp
    · exact fun i es e hi hw he hunc =>
        h.present i es e (hold (hwritten hw) hi) hw he hunc.of_snoc
    · exact fun i es e hi hlt he hunc =>
        h.inLog i es e (hold (hlen ▸ hlt) hi) hlt he hunc.of_snoc
    · exact h.voteNow.snoc hlen.ge op
    · obtain ⟨j, hj, hvote⟩ := h.vote
      refine ⟨j, hj, hvote.mono le_rfl fun c hc => ?_⟩
      obtain ⟨v, hv, hok⟩ := hc
      exact ⟨v, hv, hok.snoc hlen.ge op⟩
  · cases hstep

/-- The flush that `save_vote` awaits is its last call, and makes every write durable. -/
theorem Inv.flushWal (h : Inv db₀ v₀ s a db dn mark) {op : LogOp E V} {rest : List Call}
    (hrun : s.running = some (op, .flushWal :: rest)) :
    Inv db₀ v₀ { s with wal := s.wal.sync s.wal.log.length, running := some (op, rest) } a db
      (dn ++ [.flushWal]) mark := by
  have hcur := h.current
  rw [Current, hrun] at hcur
  obtain ⟨hstep, hser, hterms, hcalls, hcont, hlen, hop, -⟩ := hcur
  have hsynced : (s.wal.sync s.wal.log.length).synced = s.wal.log.length := by
    simp [h.synced_le]
  refine ⟨h.sim, h.terms, ?_, hsynced.le, h.good.sync, ?_, h.inLog,
    fun f hf => ⟨(h.flushes f hf).1.snoc _, (h.flushes f hf).2⟩, ?_, h.voteNow, ?_⟩
  · refine ⟨hstep, hser, hterms, by rw [hcalls]; simp, ?_, hlen, hop, fun _ => hsynced⟩
    rw [Wal.contents_sync, hcont]
    simp [Call.write?, List.filterMap_cons]
  · exact fun i es e hi hw he hunc => (h.present i es e hi (hw.of_snoc (by simp)) he hunc).sync
  · intro i hi
    obtain ⟨hw, hmark⟩ := h.acked i hi
    exact ⟨hw.snoc _, hmark.trans (le_max_left _ _)⟩
  · obtain ⟨j, hj, hsince⟩ := h.vote
    exact ⟨j, hj.trans (le_max_left _ _), hsince.sync⟩

variable [LawfulSerde V] [LawfulSerde LogId]

/-- A write: the contents reach the next stage of the operation. -/
theorem Inv.write (h : Inv db₀ v₀ s a db dn mark) {op : LogOp E V} {w : Write} {rest : List Call}
    (hrun : s.running = some (op, .write w :: rest)) :
    Inv db₀ v₀ { s with wal := s.wal.write w, running := some (op, rest) } a db
      (dn ++ [.write w]) mark := by
  have hcur := h.current
  rw [Current, hrun] at hcur
  obtain ⟨hstep, hser, hterms, hcalls, hcont, hlen, hop, -⟩ := hcur
  have hspawn : Call.spawnFlush ∉ dn := not_mem_of_calls hstep hser hcalls (by simp)
  have hflush : Call.flushWal ∉ dn := not_mem_of_calls hstep hser hcalls (by simp)
  have hcont' : (s.wal.write w).contents Db.write db₀ =
      ((dn ++ [Call.write w]).filterMap Call.write?).foldl Db.write db := by
    rw [Wal.contents_write, hcont]
    simp [Call.write?]
  have hprefix : (dn ++ [Call.write w]).filterMap Call.write? <+: op.io.writes := by
    refine List.IsPrefix.filterMap Call.write? ⟨rest, ?_⟩
    rw [hcalls]
    simp
  obtain ⟨hgood, hvote, hpresent⟩ := h.of_stage hrun (stage_of_calls h.sim hstep hser hprefix)
  rw [← hcont', Wal.contents_write] at hgood hvote hpresent
  have hlog : s.wal.log.length ≤ (s.wal.write w).log.length := by simp
  refine ⟨h.sim, h.terms, ?_, h.synced_le.trans hlog, h.good.write hgood, ?_, h.inLog, ?_, ?_,
    h.voteNow, ?_⟩
  · exact ⟨hstep, hser, hterms, by rw [hcalls]; simp, hcont', hlen, hop, by simp [hflush]⟩
  · intro i es e hi hw he hunc
    have hlt := (hw.of_snoc (by simp)).lt_returned hspawn
    refine (h.present i es e hi (Or.inl hlt) he hunc).write ?_
    exact hpresent i es e hi hlt he hunc
  · intro f hf
    obtain ⟨hw, hle, hmark⟩ := h.flushes f hf
    exact ⟨hw.snoc _, hle.trans hlog, fun n hn => ⟨((hmark n hn).1).trans hlog, (hmark n hn).2⟩⟩
  · intro i hi
    obtain ⟨hw, hmark⟩ := h.acked i hi
    exact ⟨hw.snoc _, hmark⟩
  · obtain ⟨j, hj, hsince⟩ := h.vote
    exact ⟨j, hj, hsince.write hvote⟩

/-- The spawned flush is the last call of `append`: its entries are all written now. -/
theorem Inv.spawnFlush (h : Inv db₀ v₀ s a db dn mark) {op : LogOp E V} {rest : List Call}
    (hrun : s.running = some (op, .spawnFlush :: rest)) :
    ∃ mark, Inv db₀ v₀
      { s with flushes := s.flushes ++ [⟨s.returned, none⟩], running := some (op, rest) } a db
      (dn ++ [.spawnFlush]) mark := by
  have hcur := h.current
  rw [Current, hrun] at hcur
  obtain ⟨hstep, hser, hterms, hcalls, hcont, hlen, hop, hsync⟩ := hcur
  obtain ⟨hfirst, hspawn, hflush⟩ := calls_of_step hstep hser
  have hnone : Call.spawnFlush ∉ dn := not_mem_of_calls hstep hser hcalls (by simp)
  -- nothing comes after it, so the contents are those after the whole operation
  have hrest : rest = [] := by
    by_contra hne
    obtain ⟨w, hw⟩ := hfirst .spawnFlush (by
      rw [hcalls, List.dropLast_append_of_ne_nil (by simp), List.dropLast_cons_of_ne_nil hne]
      simp)
    cases hw
  have hdone : s.wal.contents Db.write db₀ = op.io.run db := by
    rw [hcont, Io.run, Io.writes, hcalls, hrest]
    simp [Call.write?, List.filterMap_cons]
  have hsim := (sim_step h.sim hstep hser).2
  rw [← hdone] at hsim
  have hstage := stage_done hsim hstep
  -- the operations written before keep their marks, this one gets the present length
  have hold : ∀ {i}, i < s.returned →
      Function.update mark s.returned s.wal.log.length i = mark i := fun hi =>
    Function.update_of_ne (ne_of_lt hi) ..
  have hnew : Function.update mark s.returned s.wal.log.length s.returned = s.wal.log.length :=
    Function.update_self ..
  refine ⟨Function.update mark s.returned s.wal.log.length, h.sim, h.terms, ?_, h.synced_le, h.good,
    ?_, h.inLog, ?_, ?_, h.voteNow, h.vote⟩
  · refine ⟨hstep, hser, hterms, by rw [hcalls]; simp, ?_, hlen, hop, fun hx => hsync ?_⟩
    · rw [hcont]; simp [Call.write?, List.filterMap_cons]
    · simpa using hx
  · rintro i es e hi (hlt | ⟨rfl, -⟩) he hunc
    · rw [hold hlt]
      exact h.present i es e hi (Or.inl hlt) he hunc
    · rw [hnew]
      rw [hop] at hi
      cases hi
      refine Wal.since_here ⟨_, _, _, hstage.toLogContents, ?_⟩
      rw [live_of_contiguous s.log.gapFree]
      exact appended_subset_of_step hstep he
  · intro f hf
    rcases List.mem_append.1 hf with hf | hf
    · obtain ⟨hw, hmark⟩ := h.flushes f hf
      have hlt := hw.lt_returned hnone
      rw [hold hlt]
      exact ⟨Or.inl hlt, hmark⟩
    · rw [List.mem_singleton.1 hf]
      exact ⟨Or.inr ⟨rfl, by simp⟩, hnew.le, by simp⟩
  · intro i hi
    obtain ⟨hw, hmark⟩ := h.acked i hi
    have hlt := hw.lt_returned hnone
    refine ⟨Or.inl hlt, ?_⟩
    rw [hold hlt]
    exact hmark

theorem Inv.ret (h : Inv db₀ v₀ s a db dn mark) {op : LogOp E V}
    (hrun : s.running = some (op, [])) :
    Inv db₀ v₀ { s with running := none, returned := s.returned + 1 } s.log
      (s.wal.contents Db.write db₀) [] mark := by
  have hcur := h.current
  rw [Current, hrun] at hcur
  obtain ⟨hstep, hser, hterms, hcalls, hcont, hlen, hop, hsync⟩ := hcur
  rw [List.append_nil] at hcalls
  obtain ⟨-, hspawn, hflush⟩ := calls_of_step hstep hser
  have hdone : s.wal.contents Db.write db₀ = op.io.run db := by
    rw [hcont, Io.run, Io.writes, hcalls]
  have hsim := (sim_step h.sim hstep hser).2
  rw [← hdone] at hsim
  -- what was written before, or by this operation, has now returned
  have hwritten : ∀ {i es}, s.history[i]? = some (.append es) → i < s.returned + 1 →
      Written s dn i := by
    intro i es hi hlt
    rcases Nat.lt_succ_iff_lt_or_eq.1 hlt with hlt | rfl
    · exact Or.inl hlt
    · rw [hop] at hi
      exact Or.inr ⟨rfl, by rw [← hcalls]; exact hspawn.2 ⟨es, Option.some.inj hi⟩⟩
  have hreturned : ∀ {i}, Written s dn i → i < s.returned + 1 := by
    rintro i (hi | ⟨rfl, -⟩)
    · exact hi.trans (Nat.lt_succ_self _)
    · exact Nat.lt_succ_self _
  refine ⟨hsim, hterms.sublist (entries_sublist_of_step hstep), ?_, h.synced_le, h.good, ?_, ?_,
    ?_, ?_, ?_, ?_⟩
  · exact ⟨rfl, rfl, hlen, rfl⟩
  · rintro i es e hi (hlt | ⟨-, hx⟩) he hunc
    · exact h.present i es e hi (hwritten hi hlt) he hunc
    · exact absurd hx List.not_mem_nil
  · intro i es e hi hlt he hunc
    rcases Nat.lt_succ_iff_lt_or_eq.1 hlt with hlt | rfl
    · exact mem_entries_of_step hstep (h.inLog i es e hi hlt he hunc) (hunc _ op hlt hop)
    · rw [hop] at hi
      cases hi
      exact appended_subset_of_step hstep he
  · intro f hf
    obtain ⟨hw, hmark⟩ := h.flushes f hf
    exact ⟨Or.inl (hreturned hw), hmark⟩
  · intro i hi
    obtain ⟨hw, hmark⟩ := h.acked i hi
    exact ⟨Or.inl (hreturned hw), hmark⟩
  · rcases vote_of_step hstep with ⟨hv, hnot⟩ | ⟨v, rfl, hv⟩
    · rw [hv]; exact h.voteNow.ret hop hnot
    · rw [hv]; exact voteOk_last hop hlen
  · rcases vote_of_step hstep with ⟨hv, hnot⟩ | ⟨v, rfl, hv⟩
    · obtain ⟨j, hj, hsince⟩ := h.vote
      refine ⟨j, hj, hsince.mono le_rfl fun c hc => ?_⟩
      obtain ⟨v, hv, hok⟩ := hc
      exact ⟨v, hv, hok.ret hop hnot⟩
    · -- the vote is durable since the flush
      have hdurable := hsync (by rw [← hcalls]; exact hflush.2 ⟨v, rfl⟩)
      refine ⟨s.wal.log.length, hdurable.ge, Wal.since_here ⟨some v, ?_, voteOk_last hop hlen⟩⟩
      rw [← hv]
      exact hsim.vote

end Steps

section Flushes

variable {db₀ : Db} {v₀ : Option V} {s s' : LogNode E V} {a : RaftLog E V} {db : Db}
  {dn : List Call} {mark : ℕ → ℕ}

theorem Inv.setFlushes (h : Inv db₀ v₀ s a db dn mark) {fs : List Flush}
    (hfs : ∀ f ∈ fs, Written s dn f.op ∧ mark f.op ≤ s.wal.log.length ∧
      ∀ n, f.mark = some n → n ≤ s.wal.log.length ∧ mark f.op ≤ n) :
    Inv db₀ v₀ { s with flushes := fs } a db dn mark :=
  ⟨h.sim, h.terms, h.current, h.synced_le, h.good, h.present, h.inLog, hfs, h.acked, h.voteNow,
    h.vote⟩

/-- A flush starts: it covers all writes issued so far. -/
theorem Inv.flushStart (h : Inv db₀ v₀ s a db dn mark) {k : ℕ}
    (hstep : step s (.flushStart k) = some s') : Inv db₀ v₀ s' a db dn mark := by
  simp only [step] at hstep
  split at hstep
  · next op hk =>
    cases hstep
    refine h.setFlushes fun f hf => ?_
    rcases List.mem_or_eq_of_mem_set hf with hf | rfl
    · exact h.flushes f hf
    · obtain ⟨hw, hle, -⟩ := h.flushes _ (List.mem_of_getElem? hk)
      refine ⟨hw, hle, fun n hn => ?_⟩
      cases hn
      exact ⟨le_rfl, hle⟩
  · cases hstep

/-- A flush ends: what it covers is durable, and its `append` is reported as written. -/
theorem Inv.flushDone (h : Inv db₀ v₀ s a db dn mark) {k : ℕ}
    (hstep : step s (.flushDone k) = some s') : Inv db₀ v₀ s' a db dn mark := by
  simp only [step] at hstep
  split at hstep
  · next op n hk =>
    cases hstep
    obtain ⟨hw, -, hmark⟩ := h.flushes _ (List.mem_of_getElem? hk)
    obtain ⟨hn, hle⟩ := hmark n rfl
    have hsynced : (s.wal.sync n).synced ≤ s.wal.log.length := max_le h.synced_le hn
    refine ⟨h.sim, h.terms, ?_, hsynced, h.good.sync, ?_, h.inLog, ?_, ?_, h.voteNow, ?_⟩
    · have hcur := h.current
      unfold Current at hcur ⊢
      cases hrun : s.running with
      | none => rw [hrun] at hcur; exact hcur
      | some r =>
        rw [hrun] at hcur
        obtain ⟨hs, hser, hterms, hcalls, hcont, hlen, hop, hsync⟩ := hcur
        refine ⟨hs, hser, hterms, hcalls, hcont, hlen, hop, fun hx => ?_⟩
        exact le_antisymm hsynced ((hsync hx).ge.trans (le_max_left _ _))
    · exact fun i es e hi hwi he hunc => (h.present i es e hi hwi he hunc).sync
    · exact fun f hf => h.flushes f (List.eraseIdx_subset hf)
    · intro i hi
      rcases List.mem_cons.1 hi with rfl | hi
      · exact ⟨hw, hle.trans (le_max_right _ _)⟩
      · exact ⟨(h.acked i hi).1, ((h.acked i hi).2).trans (le_max_left _ _)⟩
    · obtain ⟨j, hj, hsince⟩ := h.vote
      exact ⟨j, hj.trans (le_max_left _ _), hsince.sync⟩
  · cases hstep

theorem Inv.flushFailed (h : Inv db₀ v₀ s a db dn mark) {k : ℕ}
    (hstep : step s (.flushFailed k) = some s') : Inv db₀ v₀ s' a db dn mark := by
  simp only [step] at hstep
  split at hstep
  · cases hstep
    exact h.setFlushes fun f hf => h.flushes f (List.eraseIdx_subset hf)
  · cases hstep

theorem inv_start {a₀ : RaftLog E V} (h : Sim db₀ a₀) (hterms : TermsAscend a₀.entries) :
    Inv db₀ a₀.vote (start a₀) a₀ db₀ [] fun _ => 0 := by
  have hgood : Good E V db₀ := by
    refine ⟨a₀.entries, a₀.lastPurged, a₀.vote, h.contents, ?_, ?_⟩
    · rw [live_of_contiguous a₀.gapFree]; exact a₀.gapFree
    · rw [live_of_contiguous a₀.gapFree]; exact hterms
  have hvote : VoteOk a₀.vote ([] : List (LogOp E V)) 0 a₀.vote := Or.inl ⟨rfl, by simp⟩
  refine ⟨h, hterms, ⟨rfl, rfl, rfl, rfl⟩, le_rfl, Wal.since_here hgood, ?_, ?_, ?_, ?_, hvote,
    0, le_rfl, Wal.since_here ⟨_, h.vote, hvote⟩⟩
  all_goals simp [start]

end Flushes

/-! ### Crashes -/

section Crashes

variable [LawfulSerde V] [LawfulSerde LogId] {db₀ : Db} {a₀ : RaftLog E V} {s s' : LogNode E V}

/-- **Every step keeps the invariant.** -/
theorem Inv.step {v₀ : Option V} {a : RaftLog E V} {db : Db} {dn : List Call} {mark : ℕ → ℕ}
    (h : Inv db₀ v₀ s a db dn mark) {e : Event E V} (hser : ∀ op, e = .call op → op.Serializable)
    (hstep : LogNode.step s e = some s') : ∃ a db dn mark, Inv db₀ v₀ s' a db dn mark := by
  cases e with
  | call op => exact h.call (hser op rfl) hstep
  | next =>
    simp only [LogNode.step] at hstep
    split at hstep
    · next op w rest hrun => cases hstep; exact ⟨_, _, _, _, h.write hrun⟩
    · next op rest hrun => cases hstep; exact ⟨_, _, _, _, h.flushWal hrun⟩
    · next op rest hrun =>
      cases hstep
      obtain ⟨mark', h'⟩ := h.spawnFlush hrun
      exact ⟨_, _, _, mark', h'⟩
    · cases hstep
  | ret =>
    simp only [LogNode.step] at hstep
    split at hstep
    · next op hrun => cases hstep; exact ⟨_, _, _, _, h.ret hrun⟩
    · cases hstep
  | flushStart k => exact ⟨_, _, _, _, h.flushStart hstep⟩
  | flushDone k => exact ⟨_, _, _, _, h.flushDone hstep⟩
  | flushFailed k => exact ⟨_, _, _, _, h.flushFailed hstep⟩

/-- **The log store survives crashes.** A node starts on a database that holds a log, and makes
disciplined calls; its background flushes start, end and fail at any times; then it crashes.
What the recovered store returns satisfies:
* the entries above the last purged log id have no gap and ascending terms;
* every entry of an `append` reported as written is among them, unless an operation called later
  is to delete it;
* the vote is that of the last `save_vote` that returned, or of one called later. -/
theorem log_store_crash_consistent [LawfulSerde E] (h₀ : Sim db₀ a₀)
    (hterms : TermsAscend a₀.entries) {tr : List (Event E V)}
    (hser : ∀ op, .call op ∈ tr → op.Serializable)
    (hrun : Run.exec LogNode.step (start a₀) tr = some s) {c : Db}
    (hcrash : s.wal.Recovers Db.write db₀ c) :
    ∃ (es : List E) (lp : Option LogId) (v : Option V),
      tryGetLogEntries c ⟨.unbounded, .unbounded⟩ = .ok es ∧ getMeta c .lastPurged = .ok lp ∧
      readVote c = .ok v ∧
      (Contiguous (nextIndex lp) (live lp es) ∧ TermsAscend (live lp es)) ∧
      (∀ i ∈ s.acked, ∀ es', s.history[i]? = some (.append es') → ∀ e ∈ es',
        Uncovered s.history i e → e ∈ live lp es) ∧
      VoteOk a₀.vote s.history s.returned v := by
  have hinv : ∃ a db dn mark, Inv db₀ a₀.vote s a db dn mark := by
    refine Run.exec_induction
      (motive := fun tr s => (∀ op, .call op ∈ tr → op.Serializable) →
        ∃ a db dn mark, Inv db₀ a₀.vote s a db dn mark)
      (fun _ => ⟨_, _, _, _, inv_start h₀ hterms⟩) (fun tr s e s' _ ih hstep hser => ?_) tr s hrun
      hser
    obtain ⟨a, db, dn, mark, h⟩ := ih fun op hop => hser op (List.mem_append_left _ hop)
    exact h.step (fun op he => hser op (by simp [he])) hstep
  obtain ⟨a, db, dn, mark, h⟩ := hinv
  obtain ⟨es, lp, v, hcont, hgap, hasc⟩ := hcrash.of_since h.good (Nat.zero_le _)
  obtain ⟨j, hj, hsince⟩ := h.vote
  obtain ⟨v', hv', hok⟩ := hcrash.of_since hsince hj
  cases hcont.readVote.symm.trans hv'
  refine ⟨es, lp, v, ?_, hcont.purged, hcont.readVote, ⟨hgap, hasc⟩,
    fun i hi es' hes' e he hunc => ?_, hok⟩
  · rw [tryGetLogEntries_of_holds hcont.holds (fun _ hx => by cases hx)]
    congr 1
    exact List.filter_eq_self.2 fun e _ => rfl
  · obtain ⟨hw, hmark⟩ := h.acked i hi
    obtain ⟨es₁, lp₁, v₁, hcont₁, hmem⟩ :=
      hcrash.of_since (h.present i es' e hes' hw he hunc) hmark
    cases hcont.purged.symm.trans hcont₁.purged
    rw [holds_unique hcont.holds hcont₁.holds]
    exact hmem

end Crashes

end LogNode

/-! ### A run of the counter's log -/

namespace LogNode

open scoped Counter

/-- The log is appended and flushed, a vote is saved, and a truncation has deleted the last entry
when the node crashes. -/
def truncating : List (Event Pb.Entry Pb.Vote) :=
  [.call (.append Counter.entries), .next, .next, .next, .next, .ret, .flushStart 0, .flushDone 0,
    .call (.saveVote Counter.vote), .next, .next, .ret, .call (.truncate ⟨1, 2⟩), .next]

/-- The first two entries and the vote are recovered. -/
theorem truncating_recovers :
    ∃ s es, Run.exec LogNode.step (start RaftLog.empty) truncating = some s ∧
      tryGetLogEntries (s.wal.contents Db.write Db.empty) ⟨.unbounded, .unbounded⟩ = .ok es ∧
      (∀ e ∈ Counter.entries.take 2, e ∈ es) ∧
      readVote (s.wal.contents Db.write Db.empty) = .ok (some Counter.vote) := by
  have hser : ∀ op, .call op ∈ truncating → op.Serializable := by
    simp only [truncating, List.mem_cons, reduceCtorEq, Event.call.injEq, false_or,
      List.not_mem_nil, or_false]
    rintro op (rfl | rfl | rfl)
    · exact fun e he => exists_toVecIn he
    · exact exists_toVecIn (by decide)
    · trivial
  have hrun : ∃ s, Run.exec LogNode.step (start RaftLog.empty) truncating = some s ∧
      s.wal.synced = 4 ∧ s.wal.log.length = 5 ∧ s.acked = [0] ∧ s.returned = 2 ∧
      s.history = [.append Counter.entries, .saveVote Counter.vote, .truncate ⟨1, 2⟩] :=
    ⟨_, rfl, rfl, rfl, rfl, rfl, rfl⟩
  obtain ⟨s, hrun, hsynced, hlen, hacked, hreturned, hhistory⟩ := hrun
  obtain ⟨es, lp, v, hes, -, hv, -, hpresent, hvote⟩ := log_store_crash_consistent sim_empty
    List.Pairwise.nil hser hrun (c := s.wal.contents Db.write Db.empty)
    ⟨5, by omega, by omega, by rw [← hlen, Wal.contentsAt_length]⟩
  refine ⟨s, es, hrun, hes, fun e he => ?_, ?_⟩
  · refine (mem_live.1 (hpresent 0 (by simp [hacked]) Counter.entries (by simp [hhistory]) e
      (List.mem_of_mem_take he) fun j op hj hop => ?_)).1
    rw [hhistory] at hop
    have hindex : index e < 2 := by revert e; decide
    rcases j with _ | _ | _ | j
    · cases hj
    · cases hop; exact id
    · cases hop; exact not_le.2 hindex
    · cases hop
  · rw [hv]
    rw [hhistory, hreturned] at hvote
    rcases hvote with ⟨-, hnone⟩ | ⟨k, w, hk, rfl, -⟩
    · exact absurd (hnone 1 _ rfl) (by decide)
    · rcases k with _ | _ | _ | k <;> cases hk
      rfl

end LogNode

end RaftService
