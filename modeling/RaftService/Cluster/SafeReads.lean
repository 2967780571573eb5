import RaftService.StateMachine.Reads

/-!
# `RaftDataClient::read_safe`

`read_safe` awaits `get_read_linearizer`, awaits that the state machine has applied what the
linearizer asks for, and reads under the read lock as `read` does. Here the nodes of one log are put
side by side, each with the owner of its store and its readers, and any number of calls of
`read_safe` on any of them.

openraft is left open, but for what it documents: the owner is given committed entries and
snapshots only; the read log id is not below what was committed when `get_read_linearizer` was
called; and `await_ready` returns `Ok` only when the applied log id that openraft knows of has
reached the read log id. That one is reported after a call of `apply` or `install_snapshot` has
returned, while `last_applied_log` is assigned at its beginning.

A node is a process here: after a crash, another one opens what is on the disk, at any time of the
run.

* `ReadCluster.step`: the machine;
* `ReadNode.Inv`: what holds on each node, and the rules for its moves.
-/

namespace RaftService

open StateMachineStore

variable {N σ Req Resp Snap ρ : Type}

/-- Where a call of `read_safe` is: at the await of `get_read_linearizer`; at that of `await_ready`;
reading as the reader `r`; or it has returned the error of the first await, or has panicked at the
`unwrap` of the second. -/
inductive SafeRead
  | linearizing
  | awaiting (readLogId : Option LogId)
  | reading (readLogId : Option LogId) (r : ℕ)
  | failed
  | panicked

/-- A call of `read_safe`: the node, and what was committed when the call was made. -/
structure ReadCall (N : Type) where
  node : N
  floor : Option LogId
  point : SafeRead

/-- The owner of the store, the readers, and what openraft knows to be applied. A record
`acknowledged` of the readers says that a log id was ready. -/
structure ReadNode (σ Req Resp ρ : Type) where
  owner : Owner σ Req Resp ρ
  readers : Readers.State σ (Option LogId)
  applied : Option LogId

/-- A node that has opened its database. -/
def ReadNode.opened (st : StateMachineStore σ) (db : Db) : ReadNode σ Req Resp ρ :=
  ⟨⟨.idle, st.stateMachine, db⟩, Readers.init, none⟩

/-- What is seen from outside, in the order of time. -/
inductive ReadRecord (N : Type)
  | called (i : ℕ)
  | ended (n : N) (r : ℕ)
  | acknowledged (logId : LogId)

/-- The nodes, what is committed, the calls of `read_safe` and the history. -/
structure ReadCluster (N σ Req Resp ρ : Type) where
  nodes : N → ReadNode σ Req Resp ρ
  committed : Option LogId
  calls : List (ReadCall N)
  history : List (ReadRecord N)

/-- The items of its stream that the owner has still to take. -/
def Task.stream : Task σ Req Resp ρ → List (Except IoError (Pb.Entry × Option ρ))
  | .applying strm | .waiting _ _ _ strm | .writing _ _ _ strm _ | .responding _ _ _ strm => strm
  | _ => []

namespace ReadCluster

/-- The steps. A reader that starts by itself is a call of `RaftDataClient::read`. -/
inductive Event (N σ ρ : Type)
  | commit (logId : Option LogId)
  | new (n : N) (db : Db)
  | owner (n : N) (m : Move σ ρ)
  | report (n : N)
  | reader (n : N) (e : Readers.Event)
  | call (n : N)
  | linearize (i : ℕ) (answer : Except String (Option LogId))
  | awaitReady (i : ℕ) (ok : Bool)

/-- openraft gives the owner what is committed. -/
def allows (committed : Option LogId) : Move σ ρ → Bool
  | .apply strm => (delivered strm).all fun e => decide (some (RaftEntry.logId e) ≤ committed)
  | .install snapshotMeta _ => decide (snapshotMeta.lastLogId ≤ committed)
  | _ => true

/-- The record of the response a move has sent. -/
def acknowledgement : Option (Sent ρ Resp) → List (ReadRecord N)
  | none => []
  | some s => [.acknowledged s.logId]

/-- The record of a step of a reader. -/
def ending (n : N) : Readers.Event → List (ReadRecord N)
  | .finish r => [.ended n r]
  | _ => []

variable [DecidableEq N] [Serde Req] [Serde Snap] [Serde StoredSnapshot] [Openraft]

/-- One step. -/
def step (A : ApplicationStateMachine σ Req Resp Snap) (log : ReferenceLog Req)
    (c : ReadCluster N σ Req Resp ρ) : Event N σ ρ → Option (ReadCluster N σ Req Resp ρ)
  | .commit logId => if c.committed ≤ logId then some { c with committed := logId } else none
  | .new n db =>
    let node := c.nodes n
    match StateMachineStore.new A db with
    | .ok st =>
      -- a process opens its database before it is read from, and finds what has been committed
      if node.readers.reads = 0 ∧ node.readers.history.isEmpty = true ∧
          st.stateMachine.lastAppliedLog ≤ c.committed then
        some { c with nodes := Function.update c.nodes n (.opened st db) }
      else none
    | .error _ => none
  | .owner n m =>
    let node := c.nodes n
    if allows c.committed m = false ∨
        System.takesLock m = true ∧ node.readers.holding ≠ [] then none
    else
      (node.owner.step A log m).map fun (o, sent) =>
        { c with
          nodes := Function.update c.nodes n { node with owner := o }
          history := c.history ++ acknowledgement sent }
  | .report n =>
    let node := c.nodes n
    match node.owner.task with
    | .idle =>
      let node := { node with applied := node.owner.stateMachine.lastAppliedLog }
      some { c with nodes := Function.update c.nodes n node }
    | _ => none
  | .reader n e =>
    let node := c.nodes n
    let data := node.owner.stateMachine.applicationData
    (Readers.step node.owner.task.holdsLock data node.readers e).map fun readers =>
      { c with
        nodes := Function.update c.nodes n { node with readers := readers }
        history := c.history ++ ending n e }
  | .call n =>
    some { c with
      calls := c.calls ++ [⟨n, c.committed, .linearizing⟩]
      history := c.history ++ [.called c.calls.length] }
  | .linearize i answer =>
    match c.calls[i]? with
    | some ⟨n, floor, .linearizing⟩ =>
      match answer with
      | .error _ => some { c with calls := c.calls.set i ⟨n, floor, .failed⟩ }
      | .ok readLogId =>
        if floor ≤ readLogId then
          some { c with calls := c.calls.set i ⟨n, floor, .awaiting readLogId⟩ }
        else none
    | _ => none
  | .awaitReady i ok =>
    match c.calls[i]? with
    | some ⟨n, floor, .awaiting readLogId⟩ =>
      let node := c.nodes n
      let data := node.owner.stateMachine.applicationData
      if ok = false then some { c with calls := c.calls.set i ⟨n, floor, .panicked⟩ }
      else if readLogId ≤ node.applied then
        -- the record says what the reader that starts now may rely on
        (Readers.step node.owner.task.holdsLock data
            (Readers.acknowledge node.readers readLogId) .start).map fun readers =>
          { c with
            nodes := Function.update c.nodes n { node with readers := readers }
            calls := c.calls.set i ⟨n, floor, .reading readLogId node.readers.reads⟩ }
      else none
    | _ => none

end ReadCluster

/-! ### Positions in the log -/

namespace ReferenceLog

variable [Serde Req] {log : ReferenceLog Req}

/-- The number of proposals up to a log id. -/
def position (log : ReferenceLog Req) (last : Option LogId) : ℕ := (log.upTo last).length

theorem position_mono {last last' : Option LogId} (h : last ≤ last') :
    log.position last ≤ log.position last' := by
  unfold position upTo Ascending.upTo
  rw [← List.countP_eq_length_filter, ← List.countP_eq_length_filter]
  exact List.countP_mono_left fun p _ hp => by simpa using (of_decide_eq_true hp).trans h

theorem position_lastLogIdOf {pos : ℕ} (hpos : pos ≤ log.proposals.length) :
    log.position (lastLogIdOf (log.proposals.take pos)) = pos := by
  rw [position, upTo_lastLogIdOf (List.take_prefix pos log.proposals), List.length_take,
    Nat.min_eq_left hpos]

/-- A prefix that is long enough includes every proposal up to the log id. -/
theorem mem_take_of_position_le {last : Option LogId} {pos : ℕ} (hpos : log.position last ≤ pos)
    {p : Proposal Req} (hp : p ∈ log.proposals) (hle : some p.1 ≤ last) :
    p ∈ log.proposals.take pos := by
  have hmem : p ∈ log.upTo last := List.mem_filter.2 ⟨hp, by simpa using hle⟩
  have hpre : log.upTo last <+: log.proposals.take pos := by
    rw [List.prefix_iff_eq_take.1 (log.upTo_prefix last)]
    exact List.take_prefix_take_left hpos
  exact hpre.subset hmem

/-- A proposal of a prefix is not above the last log id of the prefix. -/
theorem le_lastLogIdOf_of_mem {pos : ℕ} {p : Proposal Req} (hp : p ∈ log.proposals.take pos) :
    some p.1 ≤ lastLogIdOf (log.proposals.take pos) := by
  rw [← upTo_lastLogIdOf (List.take_prefix pos log.proposals)] at hp
  simpa using (List.mem_filter.1 hp).2

end ReferenceLog

/-! ### What the owner has been given -/

namespace Owner

variable [Serde Req] {A : ApplicationStateMachine σ Req Resp Snap} {log : ReferenceLog Req}

/-- The prefix that is applied is not above the last applied log id, which is assigned first. -/
theorem lastLogIdOf_le_of_taskOk {pos : ℕ} {task : Task σ Req Resp ρ} {sm : StateMachineData σ}
    (h : TaskOk A log pos task sm) :
    lastLogIdOf (log.proposals.take pos) ≤ sm.lastAppliedLog := by
  have hnext : ∀ {logId : LogId} {req : Req} {strm : List (Except IoError (Pb.Entry × Option ρ))},
      Requested log pos logId req strm →
        lastLogIdOf (log.proposals.take pos) ≤ some logId := by
    intro logId req strm hreq
    have hpre : log.proposals.take pos ++ [(logId, .normal req)] <+: log.proposals := by
      rw [← hreq.take]
      exact List.take_prefix _ _
    have hle := ReferenceLog.lastLogIdOf_le hpre
    rwa [lastLogIdOf_snoc] at hle
  have hlater : ∀ {q : ℕ}, pos ≤ q →
      lastLogIdOf (log.proposals.take pos) ≤ lastLogIdOf (log.proposals.take q) := by
    intro q hq
    obtain ⟨more, hmore⟩ := List.take_prefix_take_left (l := log.proposals) hq
    have hpre : log.proposals.take pos ++ more <+: log.proposals := by
      rw [hmore]
      exact List.take_prefix _ _
    rw [← hmore]
    exact ReferenceLog.lastLogIdOf_le hpre
  cases task with
  | idle => rw [show sm = _ from h]; exact le_rfl
  | applying strm => rw [h.1]; exact le_rfl
  | waiting id req response strm =>
    rw [h.2]
    exact hnext h.1
  | writing id req response strm before =>
    have hid := congrArg StateMachineData.lastAppliedLog h.2
    rw [show sm.lastAppliedLog = some id from hid]
    exact hnext h.1
  | responding id value response strm => rw [h.1]; exact le_rfl
  | installing snap data =>
    obtain ⟨-, q, hq, -, hsm⟩ := h
    have hid := congrArg StateMachineData.lastAppliedLog hsm
    rw [show sm.lastAppliedLog = lastLogIdOf (log.proposals.take q) from hid]
    exact hlater hq
  | replacing snap data =>
    obtain ⟨q, hq, -, hsm⟩ := h
    have hid := congrArg StateMachineData.lastAppliedLog hsm
    rw [show sm.lastAppliedLog = lastLogIdOf (log.proposals.take q) from hid]
    exact hlater hq
  | storing snap => rw [show sm = _ from h]; exact le_rfl

/-- What the owner has taken, and what it has still to take, is committed. -/
structure Within (committed : Option LogId) (o : Owner σ Req Resp ρ) : Prop where
  applied : o.stateMachine.lastAppliedLog ≤ committed
  stream : ∀ e ∈ delivered o.task.stream, some (RaftEntry.logId e) ≤ committed

variable [Serde Snap] [Serde StoredSnapshot] [Openraft] {o o' : Owner σ Req Resp ρ}
  {committed : Option LogId}

theorem Within.step (h : Within committed o) {m : Move σ ρ} {sent : Option (Sent ρ Resp)}
    (hallows : ReadCluster.allows committed m = true) (hstep : o.step A log m = some (o', sent)) :
    Within committed o' := by
  obtain ⟨happlied, hstream⟩ := h
  cases m with
  | respond =>
    obtain ⟨logId, value, response, strm, htask, rfl, -⟩ := respond_eq_some.1 hstep
    rw [htask] at hstream
    exact ⟨happlied, hstream⟩
  | apply strm =>
    obtain ⟨hmove, -⟩ := silent_eq_some.1 hstep
    obtain ⟨-, -, rfl⟩ := beginApply_eq_some.1 hmove
    refine ⟨happlied, fun e he => ?_⟩
    simpa using List.all_eq_true.1 hallows e he
  | install md data =>
    obtain ⟨hmove, -⟩ := silent_eq_some.1 hstep
    obtain ⟨-, -, x, -, rfl⟩ := beginInstall_eq_some.1 hmove
    refine ⟨by simpa [ReadCluster.allows] using hallows, fun e he => ?_⟩
    cases he
  | next =>
    obtain ⟨hmove, -⟩ := silent_eq_some.1 hstep
    rcases next_eq_some.1 hmove with ⟨-, rfl⟩ | ⟨entry, response, strm, htask, htake⟩
    · exact ⟨happlied, fun e he => by cases he⟩
    · rw [htask] at hstream
      have hentry := hstream entry List.mem_cons_self
      have hrest : ∀ e ∈ delivered strm, some (RaftEntry.logId e) ≤ committed :=
        fun e he => hstream e (List.mem_cons_of_mem _ he)
      rcases takeEntry_eq_some.1 htake with ⟨b, req, -, -, rfl⟩ | ⟨pb, mem, -, -, -, rfl⟩ |
        ⟨-, -, rfl⟩
      · exact ⟨hentry, hrest⟩
      · exact ⟨hentry, hrest⟩
      · exact ⟨hentry, hrest⟩
  | lock =>
    obtain ⟨hmove, -⟩ := silent_eq_some.1 hstep
    rcases lock_eq_some.1 hmove with ⟨logId, req, response, strm, htask, rfl⟩ |
      ⟨snap, data, -, rfl⟩
    · rw [htask] at hstream
      exact ⟨happlied, hstream⟩
    · exact ⟨happlied, fun e he => by cases he⟩
  | mutate x =>
    obtain ⟨hmove, -⟩ := silent_eq_some.1 hstep
    obtain ⟨-, rfl⟩ := mutate_eq_some.1 hmove
    exact ⟨happlied, hstream⟩
  | unlock =>
    obtain ⟨hmove, -⟩ := silent_eq_some.1 hstep
    rcases unlock_eq_some.1 hmove with
      ⟨logId, req, response, strm, before, data, value, htask, -, rfl⟩ | ⟨snap, data, -, rfl⟩
    · rw [htask] at hstream
      exact ⟨happlied, hstream⟩
    · exact ⟨happlied, fun e he => by cases he⟩
  | store =>
    obtain ⟨hmove, -⟩ := silent_eq_some.1 hstep
    obtain ⟨snap, -, rfl⟩ := store_eq_some.1 hmove
    exact ⟨happlied, fun e he => by cases he⟩

end Owner

/-! ### One node -/

namespace ReadNode

variable [Serde Req] {A : ApplicationStateMachine σ Req Resp Snap} {log : ReferenceLog Req}
  {committed : Option LogId} {node : ReadNode σ Req Resp ρ} {pos : ℕ} {idx : ℕ → ℕ}

/-- The first `pos` proposals are applied and committed, the write lock excludes the readers, the
readers are in order with respect to the replays of the prefixes, and what openraft knows to be
applied is. -/
structure Inv (A : ApplicationStateMachine σ Req Resp Snap) (log : ReferenceLog Req)
    (committed : Option LogId) (node : ReadNode σ Req Resp ρ) (pos : ℕ) (idx : ℕ → ℕ) : Prop where
  le : pos ≤ log.proposals.length
  task : Owner.TaskOk A log pos node.owner.task node.owner.stateMachine
  within : Owner.Within committed node.owner
  applied : log.position node.applied ≤ pos
  exclusive : node.owner.task.holdsLock = true → node.readers.holding = []
  readers : Readers.Inv (fun n => (Owner.replayAt A log n).applicationData) log.position pos
    node.owner.stateMachine.applicationData idx node.readers

/-- A node that has opened a database with a snapshot of the log, or none. -/
theorem inv_opened [Serde Snap] [Serde StoredSnapshot] {db : Db} (hdb : HoldsExact A log db)
    {st : StateMachineStore σ} (hnew : StateMachineStore.new A db = .ok st)
    (hle : st.stateMachine.lastAppliedLog ≤ committed) :
    ∃ pos, Inv A log committed (.opened st db : ReadNode σ Req Resp ρ) pos fun _ => 0 := by
  obtain ⟨st', hst, hat, -⟩ := new_of_holdsExact hdb
  cases hnew.symm.trans hst
  obtain ⟨pos, hpos, hsm⟩ := Owner.exists_replayAt hat
  refine ⟨pos, hpos, hsm, ⟨hle, fun e he => ?_⟩, ?_, fun hl => ?_, Readers.inv_init⟩
  · cases he
  · exact (ReferenceLog.position_mono Option.none_le).trans
      (ReferenceLog.position_lastLogIdOf hpos).le
  · cases hl

theorem Inv.pos_le (h : Inv A log committed node pos idx) : pos ≤ log.position committed := by
  rw [← ReferenceLog.position_lastLogIdOf h.le]
  exact ReferenceLog.position_mono
    ((Owner.lastLogIdOf_le_of_taskOk h.task).trans h.within.applied)

theorem Inv.commit (h : Inv A log committed node pos idx) {committed' : Option LogId}
    (hle : committed ≤ committed') : Inv A log committed' node pos idx :=
  { h with
    within := ⟨h.within.applied.trans hle, fun e he => (h.within.stream e he).trans hle⟩ }

/-- A call of the owner has returned, and openraft learns what is applied. -/
theorem Inv.report (h : Inv A log committed node pos idx) (hidle : node.owner.task = .idle) :
    Inv A log committed { node with applied := node.owner.stateMachine.lastAppliedLog } pos
      idx := by
  refine { h with applied := ?_ }
  have hsm : node.owner.stateMachine = Owner.replayAt A log pos := by
    have htask := h.task
    rw [hidle] at htask
    exact htask
  show log.position node.owner.stateMachine.lastAppliedLog ≤ pos
  rw [hsm]
  exact (ReferenceLog.position_lastLogIdOf h.le).le

theorem Inv.reader (h : Inv A log committed node pos idx) {e : Readers.Event}
    {readers : Readers.State σ (Option LogId)}
    (hstep : Readers.step node.owner.task.holdsLock node.owner.stateMachine.applicationData
      node.readers e = some readers) :
    ∃ idx', Inv A log committed { node with readers := readers } pos idx' ∧
      ∀ r, node.readers.Locked r → idx' r = idx r := by
  obtain ⟨idx', hinv, hkeeps⟩ := h.readers.step_keeps
    (fun hl => Owner.applicationData_of_taskOk h.task hl) hstep
  refine ⟨idx', { h with exclusive := fun hl => ?_, readers := hinv }, hkeeps⟩
  exact Readers.holding_of_locked hl (h.exclusive hl) hstep

/-- What openraft knows to be applied is ready. -/
theorem Inv.ready (h : Inv A log committed node pos idx) {readLogId : Option LogId}
    (hle : readLogId ≤ node.applied) :
    Inv A log committed { node with readers := Readers.acknowledge node.readers readLogId } pos
      idx :=
  { h with
    exclusive := h.exclusive
    readers := h.readers.acknowledge ((ReferenceLog.position_mono hle).trans h.applied) }

variable [Serde Snap] [Serde StoredSnapshot] [Openraft] [LawfulSerde Req] [LawfulOpenraft]

/-- The owner moves, and what it responds to is committed. -/
theorem Inv.owner (h : Inv A log committed node pos idx) {m : Move σ ρ}
    (hallows : ReadCluster.allows committed m = true)
    (hlock : System.takesLock m = true → node.readers.holding = [])
    (hinst : ∀ md data, m = .install md data → (StoredSnapshot.mk md data).Exact A log)
    {o : Owner σ Req Resp ρ} {sent : Option (Sent ρ Resp)}
    (hstep : node.owner.step A log m = some (o, sent)) :
    (∃ pos', Inv A log committed { node with owner := o } pos' idx) ∧
      ∀ s, sent = some s →
        some s.logId ≤ committed ∧ ∃ p ∈ log.proposals, p.1 = s.logId := by
  obtain ⟨pos', hle, hpos', htask, happ, hexcl, hsent⟩ :=
    Owner.step_advances h.le h.task hinst hstep
  have hwithin := h.within.step hallows hstep
  constructor
  · refine ⟨pos', hpos', htask, hwithin, h.applied.trans hle, fun hl => ?_,
      h.readers.write hle (happ.imp_right h.exclusive)⟩
    rcases hexcl hl with hold | rfl
    · exact h.exclusive hold
    · exact hlock rfl
  · intro s hs
    obtain ⟨p, hp, hid⟩ := (Owner.rank_le_iff hpos').1 (hsent s hs)
    refine ⟨?_, p, List.mem_of_mem_take hp, hid⟩
    rw [← hid]
    exact (ReferenceLog.le_lastLogIdOf_of_mem hp).trans
      ((Owner.lastLogIdOf_le_of_taskOk htask).trans hwithin.applied)

end ReadNode

end RaftService
