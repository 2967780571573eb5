import RaftService.Store.Crash

/-!
# Readers beside the writer of the log store

`get_log_reader` clones the store: the replication tasks of a node read the database while its
main task writes it, one primitive write at a time. `ReadLog` is a `LogNode` with the answers that
its readers got, each with the operations that had been called, and had returned, at that moment. An
iterator of the database sees the contents of the moment at which it was made.

`append` is no atomic operation for a reader: it may see the first entries of a batch only. So the
operations are cut into their parts (`LogOp.parts`), an `append` into one for each entry. The other
operations change what a reader sees all at once: the one of `purge` is its second write.

`readers_linearizable`: every answer is that of the abstract log after a number of the parts called
so far, with all parts of the operations that have returned, and a later answer is never of fewer
parts than an earlier one.
-/

namespace RaftService

open RaftEntry (index logId)
open RocksLogStore

variable {E V : Type}

/-- An operation as the readers see it. -/
def LogOp.parts : LogOp E V → List (LogOp E V)
  | .append es => es.map fun e => .append [e]
  | op => [op]

variable [RaftEntry E]

/-! ### The abstract log, part by part -/

namespace RaftLog

/-- A batch may be appended without its last entries. -/
theorem step_append_take {a a' : RaftLog E V} {es : List E} (h : a.step (.append es) = some a')
    (k : ℕ) : ∃ b, a.step (.append (es.take k)) = some b := by
  simp only [step, Option.dite_none_right_eq_some] at h
  obtain ⟨⟨hes, hlt⟩, -⟩ := h
  exact ⟨_, dif_pos ⟨hes.take k, fun e he => hlt e (List.mem_of_mem_take he)⟩⟩

/-- The first entry of a batch may be appended alone, and the others after it. -/
theorem step_append_cons {a a' : RaftLog E V} {e : E} {es : List E}
    (h : a.step (.append (e :: es)) = some a') :
    ∃ b, a.step (.append [e]) = some b ∧ b.step (.append es) = some a' := by
  simp only [step, Option.dite_none_right_eq_some] at h
  obtain ⟨⟨⟨he, hes⟩, hlt⟩, h⟩ := h
  cases h
  have hfirst : ∀ x ∈ [e], index x < u64Max := fun x hx =>
    hlt x (List.mem_singleton.1 hx ▸ List.mem_cons_self)
  refine ⟨_, dif_pos ⟨⟨he, trivial⟩, hfirst⟩, ?_⟩
  rw [step, dif_pos]
  · simp
  · refine ⟨?_, fun x hx => hlt x (List.mem_cons_of_mem e hx)⟩
    simp only [lastLogId, List.getLast?_append, List.getLast?_singleton, Option.some_or,
      Option.map_some, nextIndex_some, RaftEntry.index_logId, he]
    exact hes

theorem exec_parts {a a' : RaftLog E V} {op : LogOp E V} (h : a.step op = some a') :
    Run.exec RaftLog.step a op.parts = some a' := by
  cases op with
  | append es =>
    induction es generalizing a with
    | nil =>
      simp only [step, Option.dite_none_right_eq_some] at h
      obtain ⟨hes, h⟩ := h
      cases h
      simp [LogOp.parts]
    | cons e es ih =>
      obtain ⟨b, hb, h⟩ := step_append_cons h
      show Run.exec RaftLog.step a (.append [e] :: LogOp.parts (.append es)) = some a'
      rw [Run.exec_cons, hb]
      exact ih h
  | truncate id => simpa [LogOp.parts, Run.exec_cons] using h
  | purge id => simpa [LogOp.parts, Run.exec_cons] using h
  | saveVote v => simpa [LogOp.parts, Run.exec_cons] using h

end RaftLog

/-! ### What a reader sees -/

section View

variable [Serde E] [Serde V]

/-- A reader of the database sees the abstract log. -/
structure View (db : Db) (a : RaftLog E V) : Prop where
  logs : Holds (db .logs) a.entries
  vote : readVote db = .ok a.vote

variable [Serde LogId]

theorem Sim.view {db : Db} {a : RaftLog E V} (h : Sim db a) : View db a := ⟨h.logs, h.vote⟩

variable [BuildProfile] [LawfulSerde V] [LawfulSerde LogId]

/-- **After every call of an operation, a reader sees the parts whose writes are all made.** -/
theorem view_of_calls {db : Db} {a a' : RaftLog E V} {op : LogOp E V} (h : Sim db a)
    (hstep : a.step op = some a') (hser : op.Serializable) {dn rest : List Call}
    (hcalls : op.io.calls = dn ++ rest) :
    ∃ b, Run.exec RaftLog.step a
        (op.parts.take (op.parts.length - (rest.filterMap Call.write?).length)) = some b ∧
      View ((dn.filterMap Call.write?).foldl Db.write db) b := by
  generalize hws : dn.filterMap Call.write? = ws
  generalize hrs : rest.filterMap Call.write? = rs
  have hwrites : op.io.writes = ws ++ rs := by
    rw [Io.writes, hcalls, List.filterMap_append, hws, hrs]
  by_cases hnil : rs = []
  · -- no write is left, and all parts are made
    subst hnil
    refine ⟨a', ?_, ?_⟩
    · rw [List.length_nil, Nat.sub_zero, List.take_length]
      exact RaftLog.exec_parts hstep
    · have hsim := (sim_step h hstep hser).2
      rw [Io.run, hwrites, List.append_nil] at hsim
      exact hsim.view
  have hpos : 0 < rs.length := List.length_pos_iff.2 hnil
  have hbefore : ws <+: op.io.writes.dropLast := by
    rw [hwrites, List.dropLast_append_of_ne_nil hnil]
    exact List.prefix_append ..
  -- an operation of one part has made none before its last write
  have hnone : op.parts.length = 1 → View (ws.foldl Db.write db) a →
      ∃ b, Run.exec RaftLog.step a (op.parts.take (op.parts.length - rs.length)) = some b ∧
        View (ws.foldl Db.write db) b := by
    intro hone hview
    refine ⟨a, ?_, hview⟩
    rw [hone, Nat.sub_eq_zero_of_le hpos, List.take_zero, Run.exec_nil]
  rcases RaftLog.step_cases hstep with ⟨es, rfl, -, -, -, -, -⟩ | ⟨id, rfl, -, -, -, -, -⟩ |
    ⟨id, rfl, -, hid, -, -, -⟩ | ⟨v, rfl, -, -, -⟩
  · -- the entries written so far are a shorter batch
    rw [append_writes hser] at hwrites
    have hlen : es.length = ws.length + rs.length := by
      rw [← List.length_append, ← hwrites, List.length_map]
    have hk : (LogOp.append es : LogOp E V).parts.length - rs.length = ws.length := by
      simp only [LogOp.parts, List.length_map]
      omega
    have htake : ws = (es.take ws.length).map putOf := by
      rw [List.map_take, hwrites, List.take_left]
    have hser' : (LogOp.append (es.take ws.length) : LogOp E V).Serializable := fun e he =>
      hser e (List.mem_of_mem_take he)
    obtain ⟨b, hb⟩ := RaftLog.step_append_take hstep ws.length
    refine ⟨b, ?_, ?_⟩
    · rw [hk]
      have hparts := RaftLog.exec_parts hb
      simpa only [LogOp.parts, List.map_take] using hparts
    · have hsim := (sim_step h hb hser').2
      rw [Io.run, append_writes hser', ← htake] at hsim
      exact hsim.view
  · obtain rfl : ws = [] := List.prefix_nil.1 hbefore
    exact hnone rfl h.view
  · rw [purge_writes hser hid] at hbefore
    refine hnone rfl ?_
    rcases prefix_singleton hbefore with rfl | rfl
    · exact h.view
    · -- the last purged log id is written, and no reader looks at it
      refine ⟨?_, ?_⟩
      · rw [List.foldl_cons, List.foldl_nil, Db.write_put_of_ne db (by decide)]
        exact h.logs
      · rw [readVote, List.foldl_cons, List.foldl_nil, getMeta_put_of_ne db .vote vote_key_ne]
        exact h.vote
  · rw [saveVote_writes hser] at hbefore
    obtain rfl : ws = [] := List.prefix_nil.1 hbefore
    exact hnone rfl h.view

end View

/-! ### The machine -/

/-- What a reader can ask for, the functions of `RaftLogReader`. -/
inductive LogRead
  | tryGetLogEntries (range : RangeBounds)
  | readVote

/-- What the abstract log answers. -/
def RaftLog.read (a : RaftLog E V) : LogRead → LogReply E V
  | .tryGetLogEntries range => .entries (a.entries.filter fun e => range.contains (index e))
  | .readVote => .vote a.vote

/-- An answer of the store, with the numbers of operations called and returned before. -/
structure Answer (E V : Type) where
  called : ℕ
  returned : ℕ
  request : LogRead
  reply : Except Fault (LogReply E V)

/-- A node's log store with its readers. -/
structure ReadLog (E V : Type) [RaftEntry E] where
  node : LogNode E V
  answers : List (Answer E V)

/-- The start of the range can be computed. -/
def LogRead.Seekable [BuildProfile] : LogRead → Prop
  | .tryGetLogEntries range => RangeBounds.Seekable range
  | .readVote => True

section Machine

variable [Serde E] [Serde V] [BuildProfile]

/-- What the store answers. -/
def RocksLogStore.read (db : Db) : LogRead → Except Fault (LogReply E V)
  | .tryGetLogEntries range => do
    let es ← RocksLogStore.tryGetLogEntries db range
    .ok (.entries es)
  | .readVote => do
    let v ← RocksLogStore.readVote db
    .ok (.vote v)

theorem View.read [LawfulSerde E] {db : Db} {a : RaftLog E V} (h : View db a) {r : LogRead}
    (hr : r.Seekable) : RocksLogStore.read db r = .ok (a.read r) := by
  cases r with
  | tryGetLogEntries range =>
    rw [RocksLogStore.read, tryGetLogEntries_of_holds h.logs hr]
    rfl
  | readVote =>
    rw [RocksLogStore.read, h.vote]
    rfl

variable [Serde LogId]

namespace ReadLog

/-- A step of the node, or an answer to a reader. -/
inductive Event (E V : Type)
  | node (e : LogNode.Event E V)
  | read (r : LogRead)

/-- One step, on the database `db₀` and the writes issued since. -/
def step (db₀ : Db) (s : ReadLog E V) : Event E V → Option (ReadLog E V)
  | .node e => (s.node.step e).map fun node => { s with node := node }
  | .read r =>
    let reply := RocksLogStore.read (s.node.wal.contents Db.write db₀) r
    some { s with
      answers := s.answers ++ [⟨s.node.history.length, s.node.returned, r, reply⟩] }

/-- No reader has asked yet. -/
def start (a : RaftLog E V) : ReadLog E V := ⟨LogNode.start a, []⟩

end ReadLog

end Machine

/-! ### The parts made so far -/

namespace LogNode

/-- The number of parts that are made: those of the operations that have returned, and those of the
operation in progress whose writes are issued. -/
def made (s : LogNode E V) : ℕ :=
  match s.running with
  | none => (s.history.flatMap LogOp.parts).length
  | some (op, rest) =>
    ((s.history.take s.returned).flatMap LogOp.parts).length +
      (op.parts.length - (rest.filterMap Call.write?).length)

omit [RaftEntry E] in
theorem flatMap_parts {history : List (LogOp E V)} {r : ℕ} {op : LogOp E V}
    (h : history = history.take r ++ [op]) :
    history.flatMap LogOp.parts = (history.take r).flatMap LogOp.parts ++ op.parts := by
  calc history.flatMap LogOp.parts = (history.take r ++ [op]).flatMap LogOp.parts := by rw [← h]
    _ = (history.take r).flatMap LogOp.parts ++ op.parts := by
      rw [List.flatMap_append, List.flatMap_singleton]

variable [Serde E] [Serde V] [Serde LogId] [BuildProfile]

/-- The database is that of the parts made so far: between two operations it holds their abstract
log, and within one it holds the abstract log from before, changed by the calls made. -/
def MadeInv (db₀ : Db) (a₀ : RaftLog E V) (s : LogNode E V) : Prop :=
  match s.running with
  | none =>
    s.history.length = s.returned ∧
      Run.exec RaftLog.step a₀ (s.history.flatMap LogOp.parts) = some s.log ∧
      Sim (s.wal.contents Db.write db₀) s.log
  | some (op, rest) =>
    s.history.length = s.returned + 1 ∧ s.history = s.history.take s.returned ++ [op] ∧
      op.Serializable ∧ ∃ a db dn,
        Run.exec RaftLog.step a₀ ((s.history.take s.returned).flatMap LogOp.parts) = some a ∧
        Sim db a ∧ a.step op = some s.log ∧ op.io.calls = dn ++ rest ∧
        s.wal.contents Db.write db₀ = (dn.filterMap Call.write?).foldl Db.write db

variable {db₀ : Db} {a₀ : RaftLog E V} {s s' : LogNode E V}

/-- The parts made are between those of the operations returned and those of the ones called. -/
theorem MadeInv.bounds (h : MadeInv db₀ a₀ s) :
    s.returned ≤ s.history.length ∧
      ((s.history.take s.returned).flatMap LogOp.parts).length ≤ s.made ∧
      s.made ≤ (s.history.flatMap LogOp.parts).length := by
  unfold MadeInv at h
  unfold made
  cases hrun : s.running with
  | none =>
    rw [hrun] at h
    obtain ⟨hlen, -, -⟩ := h
    rw [← hlen, List.take_length]
    exact ⟨le_rfl, le_rfl, le_rfl⟩
  | some r =>
    obtain ⟨op, rest⟩ := r
    rw [hrun] at h
    obtain ⟨hlen, hop, -⟩ := h
    refine ⟨by omega, Nat.le_add_right .., ?_⟩
    rw [flatMap_parts hop, List.length_append]
    exact Nat.add_le_add_left (Nat.sub_le ..) _

/-- **A reader sees the abstract log after the parts made so far.** -/
theorem MadeInv.view [LawfulSerde V] [LawfulSerde LogId] (h : MadeInv db₀ a₀ s) :
    ∃ b, Run.exec RaftLog.step a₀ ((s.history.flatMap LogOp.parts).take s.made) = some b ∧
      View (s.wal.contents Db.write db₀) b := by
  unfold MadeInv at h
  unfold made
  cases hrun : s.running with
  | none =>
    rw [hrun] at h
    obtain ⟨-, hexec, hsim⟩ := h
    refine ⟨s.log, ?_, hsim.view⟩
    rw [List.take_length]
    exact hexec
  | some r =>
    obtain ⟨op, rest⟩ := r
    rw [hrun] at h
    obtain ⟨-, hop, hser, a, db, dn, hexec, hsim, hstep, hcalls, hcont⟩ := h
    obtain ⟨b, hb, hview⟩ := view_of_calls hsim hstep hser hcalls
    refine ⟨b, ?_, hcont ▸ hview⟩
    rw [flatMap_parts hop, List.take_length_add_append, Run.exec_append, hexec]
    exact hb

theorem madeInv_start (h : Sim db₀ a₀) : MadeInv db₀ a₀ (start a₀) := ⟨rfl, rfl, h⟩

theorem MadeInv.call (h : MadeInv db₀ a₀ s) {op : LogOp E V} (hser : op.Serializable)
    (hstep : step s (.call op) = some s') :
    MadeInv db₀ a₀ s' ∧ s.made ≤ s'.made ∧ s.history <+: s'.history := by
  simp only [step] at hstep
  split at hstep
  · next a' hrun hlog =>
    simp only [Option.ite_none_right_eq_some, Option.some.injEq] at hstep
    obtain ⟨-, rfl⟩ := hstep
    rw [MadeInv, hrun] at h
    obtain ⟨hlen, hexec, hsim⟩ := h
    have htake : (s.history ++ [op]).take s.returned = s.history := by rw [← hlen, List.take_left]
    refine ⟨⟨by simp [hlen], by simp only [htake], hser, s.log, _, [], ?_, hsim, hlog, rfl, rfl⟩,
      ?_, List.prefix_append ..⟩
    · simp only [htake]
      exact hexec
    · simp only [made, hrun, htake]
      exact Nat.le_add_right ..
  · cases hstep

/-- A call of the operation on the database: a part may be made. -/
theorem MadeInv.next (h : MadeInv db₀ a₀ s) {op : LogOp E V} {c : Call} {rest : List Call}
    (hrun : s.running = some (op, c :: rest)) {w : Wal Write} {f : List Flush}
    (hw : w.contents Db.write db₀ =
      ([c].filterMap Call.write?).foldl Db.write (s.wal.contents Db.write db₀)) :
    MadeInv db₀ a₀ { s with wal := w, flushes := f, running := some (op, rest) } ∧
      s.made ≤ made { s with wal := w, flushes := f, running := some (op, rest) } := by
  rw [MadeInv, hrun] at h
  obtain ⟨hlen, hop, hser, a, db, dn, hexec, hsim, hstep, hcalls, hcont⟩ := h
  refine ⟨⟨hlen, hop, hser, a, db, dn ++ [c], hexec, hsim, hstep, by simp [hcalls], ?_⟩, ?_⟩
  · rw [hw, hcont, List.filterMap_append, List.foldl_append]
  · simp only [made, hrun]
    have hle : (rest.filterMap Call.write?).length ≤
        ((c :: rest).filterMap Call.write?).length :=
      ((List.sublist_cons_self c rest).filterMap _).length_le
    omega

theorem MadeInv.ret [LawfulSerde V] [LawfulSerde LogId] (h : MadeInv db₀ a₀ s) {op : LogOp E V}
    (hrun : s.running = some (op, [])) :
    MadeInv db₀ a₀ { s with running := none, returned := s.returned + 1 } ∧
      s.made ≤ made { s with running := none, returned := s.returned + 1 } := by
  have hbound := h.bounds.2.2
  rw [MadeInv, hrun] at h
  obtain ⟨hlen, hop, hser, a, db, dn, hexec, hsim, hstep, hcalls, hcont⟩ := h
  refine ⟨⟨hlen, ?_, ?_⟩, hbound⟩
  · rw [flatMap_parts hop, Run.exec_append, hexec]
    exact RaftLog.exec_parts hstep
  · rw [List.append_nil] at hcalls
    show Sim (s.wal.contents Db.write db₀) s.log
    rw [hcont, ← hcalls]
    exact (sim_step hsim hstep hser).2

/-- **Every step of the node keeps the invariant**, and takes back no part and no operation. -/
theorem MadeInv.step [LawfulSerde V] [LawfulSerde LogId] (h : MadeInv db₀ a₀ s) {e : Event E V}
    (hser : ∀ op, e = .call op → op.Serializable) (hstep : LogNode.step s e = some s') :
    MadeInv db₀ a₀ s' ∧ s.made ≤ s'.made ∧ s.history <+: s'.history := by
  cases e with
  | call op => exact h.call (hser op rfl) hstep
  | next =>
    simp only [LogNode.step] at hstep
    split at hstep
    · next op w rest hrun =>
      cases hstep
      obtain ⟨h', hle⟩ := h.next hrun (w := s.wal.write w) (f := s.flushes)
        (by simp [Call.write?])
      exact ⟨h', hle, List.prefix_refl _⟩
    · next op rest hrun =>
      cases hstep
      obtain ⟨h', hle⟩ := h.next hrun (w := s.wal.sync s.wal.log.length) (f := s.flushes) rfl
      exact ⟨h', hle, List.prefix_refl _⟩
    · next op rest hrun =>
      cases hstep
      obtain ⟨h', hle⟩ := h.next hrun (w := s.wal) (f := s.flushes ++ [⟨s.returned, none⟩])
        rfl
      exact ⟨h', hle, List.prefix_refl _⟩
    · cases hstep
  | ret =>
    simp only [LogNode.step] at hstep
    split at hstep
    · next op hrun =>
      cases hstep
      obtain ⟨h', hle⟩ := h.ret hrun
      exact ⟨h', hle, List.prefix_refl _⟩
    · cases hstep
  | flushStart k =>
    simp only [LogNode.step] at hstep
    split at hstep
    · cases hstep; exact ⟨h, le_rfl, List.prefix_refl _⟩
    · cases hstep
  | flushDone k =>
    simp only [LogNode.step] at hstep
    split at hstep
    · cases hstep; exact ⟨h, le_rfl, List.prefix_refl _⟩
    · cases hstep
  | flushFailed k =>
    simp only [LogNode.step] at hstep
    split at hstep
    · cases hstep; exact ⟨h, le_rfl, List.prefix_refl _⟩
    · cases hstep

end LogNode

/-! ### The answers -/

namespace ReadLog

/-- The answer is that of the first `n` parts, which contain those of all operations that had
returned, and only such of operations that had been called. -/
structure Explains (a₀ : RaftLog E V) (history : List (LogOp E V)) (n : ℕ) (x : Answer E V) :
    Prop where
  called : x.called ≤ history.length
  returned : x.returned ≤ x.called
  after : ((history.take x.returned).flatMap LogOp.parts).length ≤ n
  before : n ≤ ((history.take x.called).flatMap LogOp.parts).length
  answered : ∃ b, Run.exec RaftLog.step a₀ ((history.flatMap LogOp.parts).take n) = some b ∧
    x.reply = .ok (b.read x.request)

theorem Explains.mono {a₀ : RaftLog E V} {history history' : List (LogOp E V)} {n : ℕ}
    {x : Answer E V} (h : Explains a₀ history n x) (hpre : history <+: history') :
    Explains a₀ history' n x := by
  obtain ⟨later, rfl⟩ := hpre
  have hcalled : (history ++ later).take x.called = history.take x.called :=
    List.take_append_of_le_length h.called
  have hreturned : (history ++ later).take x.returned = history.take x.returned :=
    List.take_append_of_le_length (h.returned.trans h.called)
  have hn : n ≤ (history.flatMap LogOp.parts).length :=
    h.before.trans ((List.take_prefix ..).flatMap LogOp.parts).length_le
  obtain ⟨b, hb, hreply⟩ := h.answered
  refine ⟨?_, h.returned, hreturned ▸ h.after, hcalled ▸ h.before, b, ?_, hreply⟩
  · rw [List.length_append]
    exact h.called.trans (Nat.le_add_right ..)
  · rw [List.flatMap_append, List.take_append_of_le_length hn]
    exact hb

variable [Serde E] [Serde V] [Serde LogId] [BuildProfile] [LawfulSerde E] [LawfulSerde V]
  [LawfulSerde LogId] {db₀ : Db} {a₀ : RaftLog E V} {s : ReadLog E V}

/-- **The readers of the log store are linearizable.** In every run, whatever operations the writer
calls in the discipline, and wherever a reader reads between its writes, there is for each answer a
number of parts of the operations called, such that
* the answer is that of the abstract log after the first so many parts;
* all parts of the operations that had returned are among them, and none of an operation that had
  not been called;
* the numbers do not go down from an answer to a later one. -/
theorem readers_linearizable (h₀ : Sim db₀ a₀) {tr : List (Event E V)}
    (hser : ∀ op, .node (.call op) ∈ tr → op.Serializable)
    (hseek : ∀ r, .read r ∈ tr → r.Seekable)
    (hrun : Run.exec (ReadLog.step db₀) (start a₀) tr = some s) :
    ∃ ns : List ℕ, ns.Pairwise (· ≤ ·) ∧
      List.Forall₂ (Explains a₀ s.node.history) ns s.answers := by
  have hinv : s.node.MadeInv db₀ a₀ ∧ ∃ ns : List ℕ, ns.Pairwise (· ≤ ·) ∧
      (∀ n ∈ ns, n ≤ s.node.made) ∧ List.Forall₂ (Explains a₀ s.node.history) ns s.answers := by
    refine Run.exec_induction
      (motive := fun tr s => (∀ op, .node (.call op) ∈ tr → op.Serializable) →
        (∀ r, .read r ∈ tr → r.Seekable) → s.node.MadeInv db₀ a₀ ∧ ∃ ns : List ℕ,
          ns.Pairwise (· ≤ ·) ∧ (∀ n ∈ ns, n ≤ s.node.made) ∧
            List.Forall₂ (Explains a₀ s.node.history) ns s.answers)
      (fun _ _ => ?_) (fun tr s e s' _ ih hstep hser hseek => ?_) tr s hrun hser hseek
    · exact ⟨LogNode.madeInv_start h₀, [], List.Pairwise.nil, by simp, List.Forall₂.nil⟩
    · obtain ⟨h, ns, hasc, hle, hall⟩ := ih (fun op hop => hser op (List.mem_append_left _ hop))
        fun r hr => hseek r (List.mem_append_left _ hr)
      cases e with
      | node e =>
        obtain ⟨node, hnode, rfl⟩ := Option.map_eq_some_iff.1 hstep
        obtain ⟨h', hmade, hpre⟩ := h.step (fun op he => hser op (by simp [he])) hnode
        exact ⟨h', ns, hasc, fun n hn => (hle n hn).trans hmade,
          hall.imp fun _ _ hx => hx.mono hpre⟩
      | read r =>
        cases hstep
        obtain ⟨hreturned, hafter, hbefore⟩ := h.bounds
        obtain ⟨b, hb, hview⟩ := h.view
        refine ⟨h, ns ++ [s.node.made], ?_, ?_, ?_⟩
        · refine List.pairwise_append.2 ⟨hasc, List.pairwise_singleton .., fun n hn m hm => ?_⟩
          rw [List.mem_singleton.1 hm]
          exact hle n hn
        · intro n hn
          rcases List.mem_append.1 hn with hn | hn
          · exact hle n hn
          · exact (List.mem_singleton.1 hn).le
        · refine List.rel_append hall (List.Forall₂.cons ?_ List.Forall₂.nil)
          refine ⟨le_rfl, hreturned, hafter, ?_, b, hb, hview.read (hseek r (by simp))⟩
          show s.node.made ≤
            ((s.node.history.take s.node.history.length).flatMap LogOp.parts).length
          rw [List.take_length]
          exact hbefore
  obtain ⟨-, ns, hasc, -, hall⟩ := hinv
  exact ⟨ns, hasc, hall⟩

end ReadLog

/-! ### A reader of the counter's log -/

namespace ReadLog

open scoped Counter

/-- The log is read after the first entry of a batch is written, and again after the batch. -/
def reading : List (Event Pb.Entry Pb.Vote) :=
  [.node (.call (.append Counter.entries)), .node .next,
    .read (.tryGetLogEntries ⟨.unbounded, .unbounded⟩), .node .next, .node .next, .node .next,
    .node .ret, .read (.tryGetLogEntries ⟨.unbounded, .unbounded⟩)]

/-- The first answer is of one part, the second of all three. -/
theorem reading_answers : ∃ s ns,
    Run.exec (ReadLog.step Db.empty) (start RaftLog.empty) reading = some s ∧
      s.answers.map (fun x => x.reply) =
        [.ok (.entries (Counter.entries.take 1)), .ok (.entries Counter.entries)] ∧
      ns.Pairwise (· ≤ ·) ∧
      List.Forall₂ (Explains RaftLog.empty [.append Counter.entries]) ns s.answers := by
  have hser : ∀ op, .node (.call op) ∈ reading → op.Serializable := by
    simp only [reading, List.mem_cons, reduceCtorEq, Event.node.injEq, LogNode.Event.call.injEq,
      or_false, List.not_mem_nil]
    rintro op rfl
    exact fun e he => exists_toVecIn he
  have hseek : ∀ r, .read r ∈ reading → r.Seekable := by
    simp only [reading, List.mem_cons, reduceCtorEq, Event.read.injEq, false_or, or_false,
      List.not_mem_nil, or_self]
    rintro r rfl
    exact fun _ => by decide
  obtain ⟨s, hrun, hhistory⟩ : ∃ s,
      Run.exec (ReadLog.step Db.empty) (start RaftLog.empty) reading = some s ∧
        s.node.history = [.append Counter.entries] := ⟨_, rfl, rfl⟩
  have hreplies : (Run.exec (ReadLog.step Db.empty) (start RaftLog.empty) reading).map
      (fun s => s.answers.map fun x => x.reply) =
        some [.ok (.entries (Counter.entries.take 1)), .ok (.entries Counter.entries)] := by
    decide +kernel
  rw [hrun, Option.map_some, Option.some.injEq] at hreplies
  obtain ⟨ns, hasc, hall⟩ := readers_linearizable sim_empty hser hseek hrun
  rw [hhistory] at hall
  exact ⟨s, ns, hrun, hreplies, hasc, hall⟩

end ReadLog

end RaftService
