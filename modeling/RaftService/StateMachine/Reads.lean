import RaftService.Counter
import RaftService.StateMachine.Owner
import RaftService.Lib.Readers

/-!
# Local reads see prefixes of the log

`RaftDataClient::read` takes the read lock of the application data and runs a closure on it, at
any time beside the owner of the store. The system is the owner, move by move, together with any
number of readers; the write lock is taken only when no reader holds the read lock.

`reads_see_prefixes`: every read sees the state of a prefix of the log, prefixes do not shrink
from one read to a later one, and they include every entry whose response was sent before the
read started. The argument is that of `Readers`, with the replays of the prefixes as versions.
-/

namespace RaftService

variable {σ Req Resp Snap ρ : Type}

open StateMachineStore

namespace Owner

variable [Serde Req] {A : ApplicationStateMachine σ Req Resp Snap} {log : ReferenceLog Req}

/-! ### The prefix of the log that is applied -/

/-- The state after the first `pos` proposals of the log. -/
def replayAt (A : ApplicationStateMachine σ Req Resp Snap) (log : ReferenceLog Req) (pos : ℕ) :
    StateMachineData σ :=
  replay A (log.proposals.take pos)

/-- The proposal after the first `pos` is the request `req`, and the stream goes on after it. -/
structure Requested (log : ReferenceLog Req) (pos : ℕ) (logId : LogId) (req : Req)
    (strm : List (Except IoError (Pb.Entry × Option ρ))) : Prop where
  lt : pos < log.proposals.length
  take : log.proposals.take (pos + 1) = log.proposals.take pos ++ [(logId, .normal req)]
  next : delivered strm <+: log.entriesAfter (some logId)

/-- What is stored while the first `pos` proposals of the log are applied. -/
def TaskOk (A : ApplicationStateMachine σ Req Resp Snap) (log : ReferenceLog Req) (pos : ℕ) :
    Task σ Req Resp ρ → StateMachineData σ → Prop
  | .idle, sm => sm = replayAt A log pos
  | .applying strm, sm =>
    sm = replayAt A log pos ∧ delivered strm <+: log.entriesAfter sm.lastAppliedLog
  | .waiting logId req _ strm, sm =>
    Requested log pos logId req strm ∧ sm = { replayAt A log pos with lastAppliedLog := some logId }
  | .writing logId req _ strm before, sm =>
    Requested log pos logId req strm ∧
      { sm with applicationData := before } =
        { replayAt A log pos with lastAppliedLog := some logId }
  | .responding logId _ _ strm, sm =>
    sm = replayAt A log pos ∧ sm.lastAppliedLog = some logId ∧
      delivered strm <+: log.entriesAfter (some logId)
  | .installing _ data, sm =>
    sm.applicationData = (replayAt A log pos).applicationData ∧
      ∃ q, pos ≤ q ∧ q ≤ log.proposals.length ∧
        { sm with applicationData := data } = replayAt A log q
  | .replacing _ data, sm =>
    ∃ q, pos ≤ q ∧ q ≤ log.proposals.length ∧
      { sm with applicationData := data } = replayAt A log q
  | .storing _, sm => sm = replayAt A log pos

/-- Without the write lock, the state of a prefix is stored. -/
theorem applicationData_of_taskOk {pos : ℕ} {task : Task σ Req Resp ρ} {sm : StateMachineData σ}
    (h : TaskOk A log pos task sm) (hl : task.holdsLock = false) :
    sm.applicationData = (replayAt A log pos).applicationData := by
  cases task with
  | idle => rw [show sm = _ from h]
  | applying strm => rw [h.1]
  | waiting id req response strm => rw [h.2]
  | writing id req response strm before => cases hl
  | responding id value response strm => rw [h.1]
  | installing snap data => exact h.1
  | replacing snap data => cases hl
  | storing snap => rw [show sm = _ from h]

/-- The replays of the first proposals grow with the log id. -/
theorem le_of_lastAppliedLog_le {pos q : ℕ} (hpos : pos ≤ log.proposals.length)
    (hle : (replayAt A log pos).lastAppliedLog ≤ (replayAt A log q).lastAppliedLog) :
    pos ≤ q := by
  by_contra hlt
  have hsplit : log.proposals.take q ++ (log.proposals.take pos).drop q =
      log.proposals.take pos := by
    have := List.take_append_drop q (log.proposals.take pos)
    rwa [List.take_take, Nat.min_eq_left (by omega)] at this
  have hne : (log.proposals.take pos).drop q ≠ [] := by
    intro hnil
    have := congrArg List.length hnil
    simp only [List.length_drop, List.length_take, List.length_nil] at this
    omega
  have hpre : log.proposals.take q ++ (log.proposals.take pos).drop q <+: log.proposals := by
    rw [hsplit]
    exact List.take_prefix ..
  have hlast := ReferenceLog.lastLogIdOf_lt hpre hne
  rw [hsplit] at hlast
  exact absurd hle (not_le.2 hlast)

/-- A state of the log is the replay of some number of its proposals. -/
theorem exists_replayAt {sm : StateMachineData σ} (h : AtLog A log sm) :
    ∃ q, q ≤ log.proposals.length ∧ sm = replayAt A log q := by
  obtain ⟨ps, hps, rfl⟩ := atLog_iff.1 h
  refine ⟨ps.length, hps.length_le, ?_⟩
  rw [replayAt, ← List.prefix_iff_eq_take.1 hps]

/-- The proposal after a replay, from the entry that encodes it. -/
theorem exists_proposal {pos : ℕ} (hpos : pos ≤ log.proposals.length) {e : Pb.Entry}
    {es : List Pb.Entry} (h : e :: es <+: log.entriesAfter (replayAt A log pos).lastAppliedLog) :
    ∃ p, pos < log.proposals.length ∧
      log.proposals.take (pos + 1) = log.proposals.take pos ++ [p] ∧
      Pb.Entry.new p.1 p.2 = .ok e ∧ (∀ m, p.2 = .membership m → m.Valid) ∧
      es <+: log.entriesAfter (some p.1) := by
  obtain ⟨p, hpre, hnew, hes⟩ := ReferenceLog.exists_next (List.take_prefix pos log.proposals) h
  have hlen : (log.proposals.take pos ++ [p]).length = pos + 1 := by
    simp [Nat.min_eq_left hpos]
  have htake := List.prefix_iff_eq_take.1 hpre
  rw [hlen] at htake
  have hlt : pos < log.proposals.length := by
    have := hpre.length_le
    omega
  have hmem : p ∈ log.proposals := hpre.subset (by simp)
  rw [lastLogIdOf_snoc] at hes
  exact ⟨p, hlt, htake.symm, hnew, log.valid p hmem, hes⟩

/-- The number of proposals up to the one a response is for. -/
def rank (log : ReferenceLog Req) (s : Sent ρ Resp) : ℕ :=
  log.proposals.findIdx (fun p => p.1 = s.logId) + 1

/-- A prefix is long enough exactly when it includes the entry. -/
theorem rank_le_iff {pos : ℕ} (hpos : pos ≤ log.proposals.length) {s : Sent ρ Resp} :
    rank log s ≤ pos ↔ ∃ p ∈ log.proposals.take pos, p.1 = s.logId := by
  have htake := @List.findIdx_lt_length _ (fun p => p.1 = s.logId) (log.proposals.take pos)
  rw [List.findIdx_take, List.length_take, Nat.min_eq_left hpos] at htake
  simp only [decide_eq_true_eq] at htake
  rw [← htake, rank]
  omega

/-- What a move leaves: the prefix applied does not shrink, the application data changes only under
the write lock, which only `lock` takes, and what is responded to is in the prefix. -/
def Advances (A : ApplicationStateMachine σ Req Resp Snap) (log : ReferenceLog Req) (pos : ℕ)
    (o : Owner σ Req Resp ρ) (m : Move σ ρ) (o' : Owner σ Req Resp ρ)
    (sent : Option (Sent ρ Resp)) : Prop :=
  ∃ pos', pos ≤ pos' ∧ pos' ≤ log.proposals.length ∧
    TaskOk A log pos' o'.task o'.stateMachine ∧
    (o'.stateMachine.applicationData = o.stateMachine.applicationData ∨
      o.task.holdsLock = true) ∧
    (o'.task.holdsLock = true → o.task.holdsLock = true ∨ m = .lock) ∧
    ∀ s, sent = some s → rank log s ≤ pos'

section Moves

variable {o o' : Owner σ Req Resp ρ} {pos : ℕ}

theorem beginApply_advances (hpos : pos ≤ log.proposals.length)
    (h : TaskOk A log pos o.task o.stateMachine)
    {strm : List (Except IoError (Pb.Entry × Option ρ))}
    (hbegin : o.beginApply log strm = some o') : Advances A log pos o (.apply strm) o' none := by
  obtain ⟨ht, hnext, rfl⟩ := beginApply_eq_some.1 hbegin
  rw [ht] at h
  exact ⟨pos, le_rfl, hpos, ⟨h, hnext⟩, Or.inl rfl, by simp [Task.holdsLock], by simp⟩

theorem lock_advances (hpos : pos ≤ log.proposals.length)
    (h : TaskOk A log pos o.task o.stateMachine) (hlock : o.lock = some o') :
    Advances A log pos o .lock o' none := by
  rcases lock_eq_some.1 hlock with ⟨id, req, response, strm, ht, rfl⟩ | ⟨snap, data, ht, rfl⟩
  · rw [ht] at h
    exact ⟨pos, le_rfl, hpos, h, Or.inl rfl, fun _ => Or.inr rfl, by simp⟩
  · rw [ht] at h
    exact ⟨pos, le_rfl, hpos, h.2, Or.inl rfl, fun _ => Or.inr rfl, by simp⟩

/-- Under the lock the application data may be anything. -/
theorem mutate_advances (hpos : pos ≤ log.proposals.length)
    (h : TaskOk A log pos o.task o.stateMachine) {x : σ} (hmutate : o.mutate x = some o') :
    Advances A log pos o (.mutate x) o' none := by
  obtain ⟨⟨id, req, response, strm, before, ht⟩ | ⟨snap, data, ht⟩, rfl⟩ :=
    mutate_eq_some.1 hmutate
  · rw [ht] at h
    have hl : o.task.holdsLock = true := by rw [ht]; rfl
    refine ⟨pos, le_rfl, hpos, ?_, Or.inr hl, fun _ => Or.inl hl, by simp⟩
    simp only [ht]
    exact h
  · rw [ht] at h
    have hl : o.task.holdsLock = true := by rw [ht]; rfl
    refine ⟨pos, le_rfl, hpos, ?_, Or.inr hl, fun _ => Or.inl hl, by simp⟩
    simp only [ht]
    exact h

/-- When the lock is dropped, a request is applied, or the snapshot is there. -/
theorem unlock_advances (h : TaskOk A log pos o.task o.stateMachine)
    (hunlock : o.unlock A = some o') : Advances A log pos o .unlock o' none := by
  rcases unlock_eq_some.1 hunlock with
    ⟨id, req, response, strm, before, data, value, ht, happ, rfl⟩ | ⟨snap, data, ht, rfl⟩
  · rw [ht] at h
    obtain ⟨hreq, hsm⟩ := h
    have hl : o.task.holdsLock = true := by rw [ht]; rfl
    have hlast := congrArg StateMachineData.lastAppliedLog hsm
    have hmem := congrArg StateMachineData.lastMembership hsm
    have hbefore := congrArg StateMachineData.applicationData hsm
    simp only [replayAt, replay] at hlast hmem hbefore
    -- the request is now applied: one proposal more
    refine ⟨pos + 1, Nat.le_succ pos, hreq.lt, ⟨?_, hlast, hreq.next⟩, Or.inr hl,
      by simp [Task.holdsLock], by simp⟩
    rw [replayAt, hreq.take, replay, lastLogIdOf_snoc, lastMembershipOf_snoc, stateOf_snoc]
    simp only [EntryPayload.membership?, EntryPayload.request?, ← hbefore, happ, ← hlast, ← hmem]
  · rw [ht] at h
    obtain ⟨q, hpq, hq, hreplay⟩ := h
    have hl : o.task.holdsLock = true := by rw [ht]; rfl
    exact ⟨q, hpq, hq, hreplay, Or.inr hl, by simp [Task.holdsLock], by simp⟩

/-- The response is for the last proposal of the prefix. -/
theorem respond_advances (hpos : pos ≤ log.proposals.length)
    (h : TaskOk A log pos o.task o.stateMachine) {sent : Option (Sent ρ Resp)}
    (hrespond : o.respond = some (o', sent)) : Advances A log pos o .respond o' sent := by
  obtain ⟨id, value, response, strm, ht, rfl, rfl⟩ := respond_eq_some.1 hrespond
  rw [ht] at h
  obtain ⟨hsm, hlast, hnext⟩ := h
  refine ⟨pos, le_rfl, hpos, ⟨hsm, by rw [hlast]; exact hnext⟩, Or.inl rfl,
    by simp [Task.holdsLock], fun s hs => ?_⟩
  obtain ⟨r, -, rfl⟩ := Option.map_eq_some_iff.1 hs
  have hid : some id = lastLogIdOf (log.proposals.take pos) := by rw [← hlast, hsm]; rfl
  obtain ⟨p, hp, hpid⟩ := Option.map_eq_some_iff.1 hid.symm
  exact (rank_le_iff hpos).2 ⟨p, List.mem_of_getLast? hp, hpid⟩

/-- The data of the snapshot are a longer prefix. -/
theorem beginInstall_advances [Serde Snap] (hpos : pos ≤ log.proposals.length)
    (h : TaskOk A log pos o.task o.stateMachine) {md : SnapshotMeta} {data : Bytes}
    (hexact : (StoredSnapshot.mk md data).Exact A log)
    (hbegin : o.beginInstall A md data = some o') :
    Advances A log pos o (.install md data) o' none := by
  obtain ⟨ht, hle, x, hx, rfl⟩ := beginInstall_eq_some.1 hbegin
  rw [ht] at h
  obtain ⟨x', hx', hat⟩ := hexact
  cases hx.symm.trans hx'
  obtain ⟨q, hq, hreplay⟩ := exists_replayAt hat
  have hsm : o.stateMachine = replayAt A log pos := h
  have hpq : pos ≤ q := by
    refine le_of_lastAppliedLog_le (A := A) hpos ?_
    rw [← hreplay, ← hsm]
    exact hle
  refine ⟨pos, le_rfl, hpos, ⟨?_, q, hpq, hq, hreplay⟩, Or.inl rfl, by simp [Task.holdsLock],
    by simp⟩
  rw [← hsm]

theorem store_advances [Serde StoredSnapshot] (hpos : pos ≤ log.proposals.length)
    (h : TaskOk A log pos o.task o.stateMachine) (hstore : o.store = some o') :
    Advances A log pos o .store o' none := by
  obtain ⟨snap, ht, rfl⟩ := store_eq_some.1 hstore
  rw [ht] at h
  exact ⟨pos, le_rfl, hpos, h, Or.inl rfl, by simp [Task.holdsLock], by simp⟩

end Moves

section Steps

variable [LawfulSerde Req] [Openraft] [LawfulOpenraft] {o o' : Owner σ Req Resp ρ}

/-- Taking an entry: a request is next, or the entry is applied at once and leaves the
application data alone. -/
theorem taskOk_takeEntry {pos : ℕ} (hpos : pos ≤ log.proposals.length) {entry : Pb.Entry}
    {response : Option ρ} {strm : List (Except IoError (Pb.Entry × Option ρ))}
    (hsm : o.stateMachine = replayAt A log pos)
    (hnext : entry :: delivered strm <+: log.entriesAfter o.stateMachine.lastAppliedLog)
    (h : o.takeEntry entry response strm = some o') :
    ∃ pos', pos ≤ pos' ∧ pos' ≤ log.proposals.length ∧
      TaskOk A log pos' o'.task o'.stateMachine ∧
      o'.stateMachine.applicationData = o.stateMachine.applicationData ∧
      o'.task.holdsLock = false := by
  rw [hsm] at hnext
  obtain ⟨⟨id, payload⟩, hlt, htake, hnew, hvalid, hes⟩ := exists_proposal hpos hnext
  obtain ⟨hid, hcases⟩ := Pb.Entry.new_cases hnew
  simp only at hid hcases hvalid hes
  have hreplay : replayAt A log (pos + 1) = ⟨some id,
      lastMembershipOf (log.proposals.take pos ++ [(id, payload)]),
      stateOf A (log.proposals.take pos ++ [(id, payload)])⟩ := by
    rw [replayAt, htake, replay, lastLogIdOf_snoc]
  rcases takeEntry_eq_some.1 h with ⟨b, req, hb, hreq, rfl⟩ | ⟨pb, m, hb, hpb, hm, rfl⟩ |
    ⟨hb, hpb, rfl⟩
  · rcases hcases with ⟨rfl, happ, -⟩ | ⟨r, b', rfl, hb', happ, -⟩ | ⟨m, rfl, happ, -⟩
    · rw [hb] at happ; cases happ
    · rw [hb] at happ
      cases happ
      rw [LawfulSerde.fromSlice_toVec hb'] at hreq
      cases hreq
      refine ⟨pos, le_rfl, hpos, ⟨⟨hlt, ?_, ?_⟩, ?_⟩, rfl, rfl⟩
      · rw [htake, hid]
      · rw [hid]; exact hes
      · rw [hsm]
    · rw [hb] at happ; cases happ
  · rcases hcases with ⟨rfl, -, hmem⟩ | ⟨r, b', rfl, -, happ, -⟩ | ⟨m', rfl, -, hmem⟩
    · rw [hpb] at hmem; cases hmem
    · rw [hb] at happ; cases happ
    · rw [hpb] at hmem
      cases hmem
      rw [Membership.ofPb_toPb (hvalid m' rfl)] at hm
      cases hm
      refine ⟨pos + 1, Nat.le_succ pos, hlt, ⟨?_, by rw [hid]; exact hes⟩, rfl, rfl⟩
      rw [hreplay, lastMembershipOf_snoc, stateOf_snoc, hid, hsm]
      rfl
  · rcases hcases with ⟨rfl, -, -⟩ | ⟨r, b', rfl, -, happ, -⟩ | ⟨m', rfl, -, hmem⟩
    · refine ⟨pos + 1, Nat.le_succ pos, hlt, ⟨?_, by rw [hid]; exact hes⟩, rfl, rfl⟩
      rw [hreplay, lastMembershipOf_snoc, stateOf_snoc, hid, hsm]
      rfl
    · rw [hb] at happ; cases happ
    · rw [hpb] at hmem; cases hmem

theorem next_advances {pos : ℕ} (hpos : pos ≤ log.proposals.length)
    (h : TaskOk A log pos o.task o.stateMachine) (hnext : o.next = some o') :
    Advances A log pos o .next o' none := by
  rcases next_eq_some.1 hnext with ⟨ht | ⟨e, strm, ht⟩, rfl⟩ | ⟨entry, response, strm, ht, htake⟩
  · rw [ht] at h
    exact ⟨pos, le_rfl, hpos, h.1, Or.inl rfl, by simp [Task.holdsLock], by simp⟩
  · rw [ht] at h
    exact ⟨pos, le_rfl, hpos, h.1, Or.inl rfl, by simp [Task.holdsLock], by simp⟩
  · rw [ht] at h
    obtain ⟨pos', hle, hpos', hok, happ, hl⟩ := taskOk_takeEntry hpos h.1 h.2 htake
    exact ⟨pos', hle, hpos', hok, Or.inl happ, by simp [hl], by simp⟩

variable [Serde Snap] [Serde StoredSnapshot]

/-- **What a move does to the prefix applied.** -/
theorem step_advances {pos : ℕ} (hpos : pos ≤ log.proposals.length)
    (h : TaskOk A log pos o.task o.stateMachine) {m : Move σ ρ} {sent : Option (Sent ρ Resp)}
    (hinst : ∀ md data, m = .install md data → (StoredSnapshot.mk md data).Exact A log)
    (hstep : o.step A log m = some (o', sent)) : Advances A log pos o m o' sent := by
  cases m with
  | respond => exact respond_advances hpos h hstep
  | apply strm =>
    obtain ⟨hmove, rfl⟩ := silent_eq_some.1 hstep
    exact beginApply_advances hpos h hmove
  | install md data =>
    obtain ⟨hmove, rfl⟩ := silent_eq_some.1 hstep
    exact beginInstall_advances hpos h (hinst md data rfl) hmove
  | next =>
    obtain ⟨hmove, rfl⟩ := silent_eq_some.1 hstep
    exact next_advances hpos h hmove
  | lock =>
    obtain ⟨hmove, rfl⟩ := silent_eq_some.1 hstep
    exact lock_advances hpos h hmove
  | mutate x =>
    obtain ⟨hmove, rfl⟩ := silent_eq_some.1 hstep
    exact mutate_advances hpos h hmove
  | unlock =>
    obtain ⟨hmove, rfl⟩ := silent_eq_some.1 hstep
    exact unlock_advances h hmove
  | store =>
    obtain ⟨hmove, rfl⟩ := silent_eq_some.1 hstep
    exact store_advances hpos h hmove

end Steps

end Owner

/-! ### The owner and the readers -/

/-- The owner of the store and the readers of its application data. -/
structure System (σ Req Resp ρ : Type) where
  owner : Owner σ Req Resp ρ
  readers : Readers.State σ (Sent ρ Resp)

namespace System

/-- A move of the owner, or a step of a reader. -/
inductive Event (σ ρ : Type)
  | owner (m : Move σ ρ)
  | reader (e : Readers.Event)

/-- The move takes the write lock. -/
def takesLock : Move σ ρ → Bool
  | .lock => true
  | _ => false

/-- Record the response a move has sent. -/
def record (readers : Readers.State σ (Sent ρ Resp)) :
    Option (Sent ρ Resp) → Readers.State σ (Sent ρ Resp)
  | none => readers
  | some s => Readers.acknowledge readers s

variable [Serde Req]

/-- The system of a store just opened, with no reader. -/
def start (s : StateMachineStore σ) (db : Db) : System σ Req Resp ρ :=
  ⟨⟨.idle, s.stateMachine, db⟩, Readers.init⟩

variable {A : ApplicationStateMachine σ Req Resp Snap} {log : ReferenceLog Req}

/-- The first `pos` proposals are applied, the write lock excludes the readers, and the readers
are in order with respect to the replays of the prefixes. -/
structure Inv (A : ApplicationStateMachine σ Req Resp Snap) (log : ReferenceLog Req)
    (s : System σ Req Resp ρ) (pos : ℕ) (idx : ℕ → ℕ) : Prop where
  le : pos ≤ log.proposals.length
  task : Owner.TaskOk A log pos s.owner.task s.owner.stateMachine
  exclusive : s.owner.task.holdsLock = true → s.readers.holding = []
  readers : Readers.Inv (fun n => (Owner.replayAt A log n).applicationData) (Owner.rank log) pos
    s.owner.stateMachine.applicationData idx s.readers

variable [Serde Snap] [Serde StoredSnapshot]

theorem inv_start {db : Db} (hdb : HoldsExact A log db) {st : StateMachineStore σ}
    (hnew : StateMachineStore.new A db = .ok st) :
    ∃ pos idx, Inv A log (start st db : System σ Req Resp ρ) pos idx := by
  obtain ⟨st', hst, hat, -⟩ := new_of_holdsExact hdb
  cases hnew.symm.trans hst
  obtain ⟨pos, hpos, hsm⟩ := Owner.exists_replayAt hat
  refine ⟨pos, fun _ => 0, hpos, hsm, ?_, Readers.inv_init⟩
  intro hl
  cases hl

variable [Openraft]

/-- One step. The write lock waits for the readers, and the read lock for the owner. -/
def step (A : ApplicationStateMachine σ Req Resp Snap) (log : ReferenceLog Req)
    (s : System σ Req Resp ρ) : Event σ ρ → Option (System σ Req Resp ρ)
  | .owner m =>
    if takesLock m = true ∧ s.readers.holding ≠ [] then none
    else (s.owner.step A log m).map fun (o, sent) => ⟨o, record s.readers sent⟩
  | .reader e =>
    (Readers.step s.owner.task.holdsLock s.owner.stateMachine.applicationData s.readers e).map
      fun readers => { s with readers := readers }

variable [LawfulSerde Req] [LawfulOpenraft]

/-- **Every step keeps the invariant.** -/
theorem inv_step {s s' : System σ Req Resp ρ} {pos : ℕ} {idx : ℕ → ℕ} (h : Inv A log s pos idx)
    {e : Event σ ρ}
    (hinst : ∀ md data, e = .owner (.install md data) → (StoredSnapshot.mk md data).Exact A log)
    (hstep : step A log s e = some s') : ∃ pos' idx', Inv A log s' pos' idx' := by
  cases e with
  | owner m =>
    simp only [step, Option.ite_none_left_eq_some, Option.map_eq_some_iff] at hstep
    obtain ⟨hlock, ⟨o, sent⟩, hmove, rfl⟩ := hstep
    obtain ⟨pos', hle, hpos', htask, happ, hexcl, hsent⟩ :=
      Owner.step_advances h.le h.task (fun md data hm => hinst md data (by rw [hm])) hmove
    have hwrite := h.readers.write hle (happ.imp_right h.exclusive)
    have hholding : (record s.readers sent).holding = s.readers.holding := by
      cases sent <;> rfl
    refine ⟨pos', idx, hpos', htask, fun hl => ?_, ?_⟩
    · simp only [hholding]
      rcases hexcl hl with hold | rfl
      · exact h.exclusive hold
      · by_contra hne
        exact hlock ⟨rfl, hne⟩
    · cases sent with
      | none => exact hwrite
      | some a => exact hwrite.acknowledge (hsent a rfl)
  | reader e =>
    simp only [step, Option.map_eq_some_iff] at hstep
    obtain ⟨readers, hread, rfl⟩ := hstep
    obtain ⟨idx', hinv⟩ := h.readers.step
      (fun hl => Owner.applicationData_of_taskOk h.task hl) hread
    exact ⟨pos, idx', h.le, h.task,
      fun hl => Readers.holding_of_locked hl (h.exclusive hl) hread, hinv⟩

/-- **Local reads see prefixes of the log.** In every run of the owner beside any number of
readers there is a prefix index for every read that looks at the application data, such that
* the read sees exactly the state of that prefix, every time it looks;
* a read that starts after another has ended has no smaller index;
* a read that starts after the response for an entry was sent has that entry in its prefix. -/
theorem reads_see_prefixes {db : Db} (hdb : HoldsExact A log db) {st : StateMachineStore σ}
    (hnew : StateMachineStore.new A db = .ok st) {tr : List (Event σ ρ)}
    (hinst : ∀ md data, .owner (.install md data) ∈ tr → (StoredSnapshot.mk md data).Exact A log)
    {s : System σ Req Resp ρ} (hrun : Run.exec (step A log) (start st db) tr = some s) :
    ∃ idx : ℕ → ℕ,
      (∀ r x, .observed r x ∈ s.readers.history →
        idx r ≤ log.proposals.length ∧ x = stateOf A (log.proposals.take (idx r))) ∧
      (∀ r r' x, Readers.Before (.ended r) (.started r') s.readers.history →
        .observed r' x ∈ s.readers.history → idx r ≤ idx r') ∧
      ∀ a r x, Readers.Before (.acknowledged a) (.started r) s.readers.history →
        .observed r x ∈ s.readers.history →
        ∃ p ∈ log.proposals.take (idx r), p.1 = a.logId := by
  have hinv : ∃ pos idx, Inv A log s pos idx := by
    refine Run.exec_induction
      (motive := fun tr s =>
        (∀ md data, .owner (.install md data) ∈ tr → (StoredSnapshot.mk md data).Exact A log) →
          ∃ pos idx, Inv A log s pos idx)
      (fun _ => inv_start hdb hnew) (fun tr s e s' _ ih hstep hinst => ?_) tr s hrun hinst
    obtain ⟨pos, idx, h⟩ := ih fun md data hmem => hinst md data (List.mem_append_left _ hmem)
    exact inv_step h (fun md data he => hinst md data (by simp [he])) hstep
  obtain ⟨pos, idx, h⟩ := hinv
  obtain ⟨hseen, hended, hack⟩ := h.readers.reads_are_versions
  refine ⟨idx, fun r x hx => ?_, hended, fun a r x hb hx => ?_⟩
  · obtain ⟨hle, hval⟩ := hseen r x hx
    exact ⟨hle.trans h.le, hval⟩
  · have hle := ((hseen r x hx).1).trans h.le
    exact (Owner.rank_le_iff hle).1 (hack a r x hb hx)

end System

/-! ### A run of the counter -/

namespace System

open scoped Counter

/-- A client writes, gets its response, and reads. -/
def writeThenRead : List (Event ℕ Unit) :=
  [.owner (.apply [.ok (⟨1, 0, none, some (Membership.toPb Counter.cluster)⟩, none),
      .ok (⟨1, 1, some (ascii "5"), none⟩, some ())]),
    .owner .next, .owner .next, .owner .lock, .owner (.mutate 3), .owner .unlock, .owner .respond,
    .reader .start, .reader (.lock 0), .reader (.observe 0), .reader (.finish 0)]

/-- The read sees a prefix that contains the write. -/
theorem writeThenRead_sees :
    ∃ s : System ℕ ℕ ℕ Unit, Run.exec (step counter Counter.log)
        (start ⟨⟨none, .default, 0⟩, 0⟩ Db.empty) writeThenRead = some s ∧
      s.readers.history = [.acknowledged ⟨⟨1, 1⟩, (), 5⟩, .started 0, .observed 0 5, .ended 0] ∧
      ∃ n, 5 = stateOf counter (Counter.log.proposals.take n) ∧
        ∃ p ∈ Counter.log.proposals.take n, p.1 = ⟨1, 1⟩ := by
  have hrun : ∃ s : System ℕ ℕ ℕ Unit, Run.exec (step counter Counter.log)
      (start ⟨⟨none, .default, 0⟩, 0⟩ Db.empty) writeThenRead = some s ∧
      s.readers.history =
        [.acknowledged ⟨⟨1, 1⟩, (), 5⟩, .started 0, .observed 0 5, .ended 0] := ⟨_, rfl, rfl⟩
  obtain ⟨s, hrun, hhistory⟩ := hrun
  obtain ⟨idx, hseen, -, hack⟩ := reads_see_prefixes holdsExact_empty rfl
    (by simp [writeThenRead]) hrun
  have hobs : .observed 0 5 ∈ s.readers.history := by simp [hhistory]
  have hbefore : Readers.Before (.acknowledged ⟨⟨1, 1⟩, (), 5⟩) (.started 0)
      s.readers.history := by
    rw [hhistory]
    exact (List.prefix_append _ _).sublist
  exact ⟨s, hrun, hhistory, idx 0, (hseen 0 5 hobs).2, hack _ 0 5 hbefore hobs⟩

end System

end RaftService
