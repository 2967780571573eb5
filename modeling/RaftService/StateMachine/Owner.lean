import RaftService.StateMachine.Snapshot
import RaftService.Lib.Run

/-!
# The owner of the store, move by move

One task owns the store and makes the calls on it. Its calls are cut here at the points where
others can look at the application data: where the write lock is taken, where it is dropped, and
where a response is sent. What the application's `apply` does to the data while the lock is held
is arbitrary (`Move.mutate`) until it is done.

`Owner.apply_of_moves` and `Owner.install_of_moves` put the calls together again: the moves of a
call add up to `StateMachineStore.apply` or `StateMachineStore.installSnapshot`.
-/

namespace RaftService

variable {σ Req Resp Snap ρ : Type}

open StateMachineStore

/-- Where the owner of the store is. -/
inductive Task (σ Req Resp ρ : Type)
  /-- Between two calls. -/
  | idle
  /-- In `apply`, before taking the next item of the stream. -/
  | applying (strm : List (Except IoError (Pb.Entry × Option ρ)))
  /-- In `apply`, waiting for the write lock. -/
  | waiting (logId : LogId) (req : Req) (response : Option ρ)
    (strm : List (Except IoError (Pb.Entry × Option ρ)))
  /-- In the application's `apply`, which found `before` when the lock was taken. -/
  | writing (logId : LogId) (req : Req) (response : Option ρ)
    (strm : List (Except IoError (Pb.Entry × Option ρ))) (before : σ)
  /-- In `apply`, after the lock was dropped. -/
  | responding (logId : LogId) (value : Resp) (response : Option ρ)
    (strm : List (Except IoError (Pb.Entry × Option ρ)))
  /-- In `install_snapshot`, waiting for the write lock, with the data imported. -/
  | installing (snap : StoredSnapshot) (data : σ)
  /-- In `install_snapshot`, replacing the application data. -/
  | replacing (snap : StoredSnapshot) (data : σ)
  /-- In `install_snapshot`, after the lock was dropped. -/
  | storing (snap : StoredSnapshot)

/-- The owner holds the write lock. -/
def Task.holdsLock : Task σ Req Resp ρ → Bool
  | .writing .. => true
  | .replacing .. => true
  | _ => false

/-- A move of the owner. -/
inductive Move (σ ρ : Type)
  | apply (strm : List (Except IoError (Pb.Entry × Option ρ)))
  | install (snapshotMeta : SnapshotMeta) (data : Bytes)
  | next
  | lock
  | mutate (x : σ)
  | unlock
  | respond
  | store

/-- The moves inside a call. -/
def Move.inside : Move σ ρ → Bool
  | .apply _ => false
  | .install .. => false
  | _ => true

/-- A response sent: the entry it is for, the responder and the value. -/
structure Sent (ρ Resp : Type) where
  logId : LogId
  response : ρ
  value : Resp

/-- The store with the task that owns it, and its database. -/
structure Owner (σ Req Resp ρ : Type) where
  task : Task σ Req Resp ρ
  stateMachine : StateMachineData σ
  db : Db

namespace Owner

variable {A : ApplicationStateMachine σ Req Resp Snap} {o o' : Owner σ Req Resp ρ}

/-! ### The moves of the owner -/

/-- The write lock is taken. -/
def lock (o : Owner σ Req Resp ρ) : Option (Owner σ Req Resp ρ) :=
  match o.task with
  | .waiting logId req response strm =>
    some { o with task := .writing logId req response strm o.stateMachine.applicationData }
  | .installing snap data => some { o with task := .replacing snap data }
  | _ => none

theorem lock_eq_some :
    o.lock = some o' ↔
      (∃ logId req response strm, o.task = .waiting logId req response strm ∧
        { o with
          task := .writing logId req response strm o.stateMachine.applicationData } = o') ∨
      ∃ snap data, o.task = .installing snap data ∧
        { o with task := .replacing snap data } = o' := by
  unfold lock
  cases o.task <;> simp

/-- While the lock is held the application data may be anything. -/
def mutate (o : Owner σ Req Resp ρ) (x : σ) : Option (Owner σ Req Resp ρ) :=
  if o.task.holdsLock then some { o with stateMachine.applicationData := x } else none

theorem mutate_eq_some {x : σ} :
    o.mutate x = some o' ↔
      ((∃ logId req response strm before, o.task = .writing logId req response strm before) ∨
        ∃ snap data, o.task = .replacing snap data) ∧
      { o with stateMachine.applicationData := x } = o' := by
  unfold mutate
  cases o.task <;> simp [Task.holdsLock]

/-- The change of the application data is complete, and the lock is dropped. -/
def unlock (A : ApplicationStateMachine σ Req Resp Snap) (o : Owner σ Req Resp ρ) :
    Option (Owner σ Req Resp ρ) :=
  match o.task with
  | .writing logId req response strm before =>
    match A.apply before req with
    | (data, .ok value) =>
      some { o with
        task := .responding logId value response strm
        stateMachine.applicationData := data }
    | (_, .error _) => none
  | .replacing snap data =>
    some { o with task := .storing snap, stateMachine.applicationData := data }
  | _ => none

theorem unlock_eq_some :
    o.unlock A = some o' ↔
      (∃ logId req response strm before data value,
        o.task = .writing logId req response strm before ∧
        A.apply before req = (data, .ok value) ∧
        { o with
          task := .responding logId value response strm
          stateMachine.applicationData := data } = o') ∨
      ∃ snap data, o.task = .replacing snap data ∧
        { o with task := .storing snap, stateMachine.applicationData := data } = o' := by
  unfold unlock
  cases o.task with
  | writing logId req response strm before =>
    rcases happ : A.apply before req with ⟨data, value | value⟩ <;> simp [happ]
  | _ => simp

/-- `apply` sends the response, if there is a responder, and goes on. -/
def respond (o : Owner σ Req Resp ρ) : Option (Owner σ Req Resp ρ × Option (Sent ρ Resp)) :=
  match o.task with
  | .responding logId value response strm =>
    some ({ o with task := .applying strm }, response.map fun r => ⟨logId, r, value⟩)
  | _ => none

theorem respond_eq_some {sent : Option (Sent ρ Resp)} :
    o.respond = some (o', sent) ↔
      ∃ logId value response strm, o.task = .responding logId value response strm ∧
        { o with task := .applying strm } = o' ∧
        (response.map fun r => ⟨logId, r, value⟩) = sent := by
  unfold respond
  cases o.task <;> simp

section Entries

variable [Openraft] [Serde Req] {log : ReferenceLog Req}

/-- `apply` takes an entry from the stream; a request has to wait for the write lock. -/
def takeEntry (o : Owner σ Req Resp ρ) (entry : Pb.Entry) (response : Option ρ)
    (strm : List (Except IoError (Pb.Entry × Option ρ))) : Option (Owner σ Req Resp ρ) :=
  let logId := RaftEntry.logId entry
  let o := { o with stateMachine.lastAppliedLog := some logId }
  match entry.appData with
  | some req =>
    match Serde.fromSlice req with
    | .ok req => some { o with task := .waiting logId req response strm }
    | .error _ => none
  | none =>
    match entry.membership with
    | some membership =>
      match Membership.ofPb membership with
      | .ok membership =>
        some { o with
          task := .applying strm
          stateMachine.lastMembership := ⟨some logId, membership⟩ }
      | .error _ => none
    | none => some { o with task := .applying strm }

theorem takeEntry_eq_some {entry : Pb.Entry} {response : Option ρ}
    {strm : List (Except IoError (Pb.Entry × Option ρ))} :
    o.takeEntry entry response strm = some o' ↔
      (∃ b req, entry.appData = some b ∧ Serde.fromSlice b = .ok req ∧
        { o with
          task := .waiting (RaftEntry.logId entry) req response strm
          stateMachine.lastAppliedLog := some (RaftEntry.logId entry) } = o') ∨
      (∃ pb m, entry.appData = none ∧ entry.membership = some pb ∧ Membership.ofPb pb = .ok m ∧
        { o with
          task := .applying strm
          stateMachine.lastAppliedLog := some (RaftEntry.logId entry)
          stateMachine.lastMembership := ⟨some (RaftEntry.logId entry), m⟩ } = o') ∨
      (entry.appData = none ∧ entry.membership = none ∧
        { o with
          task := .applying strm
          stateMachine.lastAppliedLog := some (RaftEntry.logId entry) } = o') := by
  unfold takeEntry
  cases hd : entry.appData with
  | some b => cases hr : (Serde.fromSlice b : Except String Req) <;> simp [hr]
  | none =>
    cases hm : entry.membership with
    | none => simp
    | some pb => cases hp : Membership.ofPb pb <;> simp [hp]

/-- `apply` asks the stream for the next item; the end of the stream ends it, and so does an
error. -/
def next (o : Owner σ Req Resp ρ) : Option (Owner σ Req Resp ρ) :=
  match o.task with
  | .applying [] => some { o with task := .idle }
  | .applying (.error _ :: _) => some { o with task := .idle }
  | .applying (.ok (entry, response) :: strm) => o.takeEntry entry response strm
  | _ => none

theorem next_eq_some :
    o.next = some o' ↔
      ((o.task = .applying [] ∨ ∃ e strm, o.task = .applying (.error e :: strm)) ∧
        { o with task := .idle } = o') ∨
      ∃ entry response strm, o.task = .applying (.ok (entry, response) :: strm) ∧
        o.takeEntry entry response strm = some o' := by
  unfold next
  split <;> simp_all

end Entries

section Calls

variable [Serde Snap]

/-- `apply` is called on the next entries of the log. -/
def beginApply [Serde Req] (log : ReferenceLog Req) (o : Owner σ Req Resp ρ)
    (strm : List (Except IoError (Pb.Entry × Option ρ))) : Option (Owner σ Req Resp ρ) :=
  match o.task with
  | .idle =>
    if delivered strm <+: log.entriesAfter o.stateMachine.lastAppliedLog then
      some { o with task := .applying strm }
    else none
  | _ => none

theorem beginApply_eq_some [Serde Req] {log : ReferenceLog Req}
    {strm : List (Except IoError (Pb.Entry × Option ρ))} :
    o.beginApply log strm = some o' ↔
      o.task = .idle ∧ delivered strm <+: log.entriesAfter o.stateMachine.lastAppliedLog ∧
        { o with task := .applying strm } = o' := by
  unfold beginApply
  cases o.task <;> simp

/-- `install_snapshot` is called on a snapshot not below the last applied log id: it assigns the
log id and the membership, and imports the data. -/
def beginInstall (A : ApplicationStateMachine σ Req Resp Snap) (o : Owner σ Req Resp ρ)
    (snapshotMeta : SnapshotMeta) (data : Bytes) : Option (Owner σ Req Resp ρ) :=
  match o.task with
  | .idle =>
    if o.stateMachine.lastAppliedLog ≤ snapshotMeta.lastLogId then
      match importData A data with
      | .ok x =>
        some { o with
          task := .installing ⟨snapshotMeta, data⟩ x
          stateMachine.lastAppliedLog := snapshotMeta.lastLogId
          stateMachine.lastMembership := snapshotMeta.lastMembership }
      | .error _ => none
    else none
  | _ => none

theorem beginInstall_eq_some {m : SnapshotMeta} {data : Bytes} :
    o.beginInstall A m data = some o' ↔
      o.task = .idle ∧ o.stateMachine.lastAppliedLog ≤ m.lastLogId ∧
        ∃ x, importData A data = .ok x ∧
          { o with
            task := .installing ⟨m, data⟩ x
            stateMachine.lastAppliedLog := m.lastLogId
            stateMachine.lastMembership := m.lastMembership } = o' := by
  unfold beginInstall
  cases o.task <;> cases importData A data <;> simp

/-- `install_snapshot` stores the snapshot, and is done. -/
def store [Serde StoredSnapshot] (o : Owner σ Req Resp ρ) : Option (Owner σ Req Resp ρ) :=
  match o.task with
  | .storing snap =>
    some { o with task := .idle, db := (setCurrentSnapshot_ snap).run o.db }
  | _ => none

theorem store_eq_some [Serde StoredSnapshot] :
    o.store = some o' ↔
      ∃ snap, o.task = .storing snap ∧
        { o with task := .idle, db := (setCurrentSnapshot_ snap).run o.db } = o' := by
  unfold store
  cases o.task <;> simp

theorem silent_eq_some {next : Option (Owner σ Req Resp ρ)} {sent : Option (Sent ρ Resp)} :
    next.map (·, none) = some (o', sent) ↔ next = some o' ∧ sent = none := by
  cases next <;> simp [eq_comm]

end Calls

variable [Openraft] [Serde Req] [Serde Snap] [Serde StoredSnapshot]

/-- One move, with the response it sends if it sends one. A call that fails has no further
move. -/
def step (A : ApplicationStateMachine σ Req Resp Snap) (log : ReferenceLog Req)
    (o : Owner σ Req Resp ρ) : Move σ ρ → Option (Owner σ Req Resp ρ × Option (Sent ρ Resp))
  | .apply strm => (o.beginApply log strm).map (·, none)
  | .install snapshotMeta data => (o.beginInstall A snapshotMeta data).map (·, none)
  | .next => o.next.map (·, none)
  | .lock => o.lock.map (·, none)
  | .mutate x => (o.mutate x).map (·, none)
  | .unlock => (o.unlock A).map (·, none)
  | .respond => o.respond
  | .store => o.store.map (·, none)

/-! ### The moves of a call add up to the call -/

/-- What a call leaves: the store, the responses it sends from now on, and the database. -/
structure Result (σ ρ Resp : Type) where
  stateMachine : StateMachineData σ
  sent : List (ρ × Resp)
  db : Db

/-- The rest of `apply` from the application's `apply` on. -/
def afterLock (A : ApplicationStateMachine σ Req Resp Snap) (sm : StateMachineData σ) (req : Req)
    (response : Option ρ) (strm : List (Except IoError (Pb.Entry × Option ρ))) :
    StateMachineData σ × List (ρ × Resp) :=
  match A.apply sm.applicationData req with
  | (data, .ok value) =>
    let rest := apply A { sm with applicationData := data } strm
    (rest.stateMachine, StateMachineStore.respond response (some value) ++ rest.sent)
  | (data, .error _) => ({ sm with applicationData := data }, [])

/-- What the call in progress leaves when it is done. -/
def leaves (A : ApplicationStateMachine σ Req Resp Snap) (o : Owner σ Req Resp ρ) :
    Result σ ρ Resp :=
  match o.task with
  | .idle => ⟨o.stateMachine, [], o.db⟩
  | .applying strm =>
    let r := apply A o.stateMachine strm
    ⟨r.stateMachine, r.sent, o.db⟩
  | .waiting _ req response strm =>
    let r := afterLock A o.stateMachine req response strm
    ⟨r.1, r.2, o.db⟩
  | .writing _ req response strm before =>
    let r := afterLock A { o.stateMachine with applicationData := before } req response strm
    ⟨r.1, r.2, o.db⟩
  | .responding _ value response strm =>
    let r := apply A o.stateMachine strm
    ⟨r.stateMachine, StateMachineStore.respond response (some value) ++ r.sent, o.db⟩
  | .installing snap data | .replacing snap data =>
    ⟨{ o.stateMachine with applicationData := data }, [], (setCurrentSnapshot_ snap).run o.db⟩
  | .storing snap => ⟨o.stateMachine, [], (setCurrentSnapshot_ snap).run o.db⟩

/-- The response a move sends, as `apply` reports it. -/
def answers : Option (Sent ρ Resp) → List (ρ × Resp)
  | none => []
  | some s => [(s.response, s.value)]

variable {log : ReferenceLog Req}

/-- **A move inside a call leaves what the call will leave**, less the response it sends. -/
theorem leaves_step {m : Move σ ρ} {sent : Option (Sent ρ Resp)} (hm : m.inside = true)
    (h : o.step A log m = some (o', sent)) :
    leaves A o = ⟨(leaves A o').stateMachine, answers sent ++ (leaves A o').sent,
      (leaves A o').db⟩ := by
  cases m with
  | apply strm => cases hm
  | install snapshotMeta data => cases hm
  | next =>
    obtain ⟨hnext, rfl⟩ := silent_eq_some.1 h
    rcases next_eq_some.1 hnext with ⟨ht | ⟨e, strm, ht⟩, rfl⟩ | ⟨entry, response, strm, ht, htake⟩
    · simp [leaves, ht, apply, answers]
    · simp [leaves, ht, apply, answers]
    · rcases takeEntry_eq_some.1 htake with ⟨b, req, hb, hreq, rfl⟩ | ⟨pb, m, hb, hpb, hm, rfl⟩ |
        ⟨hb, hpb, rfl⟩
      · simp only [leaves, ht, apply, applyEntry, hb, hreq, mapIo_ok, afterLock, answers,
          List.nil_append]
        rcases A.apply o.stateMachine.applicationData req with ⟨data, value | value⟩ <;> rfl
      · simp [leaves, ht, apply, applyEntry, hb, hpb, hm, answers, StateMachineStore.respond]
      · simp [leaves, ht, apply, applyEntry, hb, hpb, answers, StateMachineStore.respond]
  | lock =>
    obtain ⟨hlock, rfl⟩ := silent_eq_some.1 h
    rcases lock_eq_some.1 hlock with ⟨id, req, response, strm, ht, rfl⟩ | ⟨snap, data, ht, rfl⟩
    · simp [leaves, ht, answers]
    · simp [leaves, ht, answers]
  | mutate x =>
    obtain ⟨hmutate, rfl⟩ := silent_eq_some.1 h
    -- what is written under the lock is overwritten before the lock is dropped
    obtain ⟨⟨id, req, response, strm, before, ht⟩ | ⟨snap, data, ht⟩, rfl⟩ :=
      mutate_eq_some.1 hmutate
    · simp [leaves, ht, answers]
    · simp [leaves, ht, answers]
  | unlock =>
    obtain ⟨hunlock, rfl⟩ := silent_eq_some.1 h
    rcases unlock_eq_some.1 hunlock with
      ⟨id, req, response, strm, before, data, value, ht, happ, rfl⟩ | ⟨snap, data, ht, rfl⟩
    · simp [leaves, ht, answers, afterLock, happ]
    · simp [leaves, ht, answers]
  | respond =>
    obtain ⟨id, value, response, strm, ht, rfl, rfl⟩ := respond_eq_some.1 h
    cases response <;> simp [leaves, ht, answers, StateMachineStore.respond]
  | store =>
    obtain ⟨hstore, rfl⟩ := silent_eq_some.1 h
    obtain ⟨snap, ht, rfl⟩ := store_eq_some.1 hstore
    simp [leaves, ht, answers]

/-- The owner with the responses sent so far. -/
def act (A : ApplicationStateMachine σ Req Resp Snap) (log : ReferenceLog Req)
    (s : Owner σ Req Resp ρ × List (ρ × Resp)) (m : Move σ ρ) :
    Option (Owner σ Req Resp ρ × List (ρ × Resp)) :=
  (s.1.step A log m).map fun (o, sent) => (o, s.2 ++ answers sent)

/-- The moves inside a call, to its end, leave what `leaves` says. -/
theorem leaves_of_run {ms : List (Move σ ρ)} (hms : ∀ m ∈ ms, m.inside = true)
    {sent : List (ρ × Resp)} (hrun : Run.exec (act A log) (o, []) ms = some (o', sent))
    (hidle : o'.task = .idle) : leaves A o = ⟨o'.stateMachine, sent, o'.db⟩ := by
  have hinv : leaves A o = ⟨(leaves A o').stateMachine, sent ++ (leaves A o').sent,
      (leaves A o').db⟩ := by
    refine Run.exec_induction
      (motive := fun ms s => (∀ m ∈ ms, m.inside = true) → leaves A o =
        ⟨(leaves A s.1).stateMachine, s.2 ++ (leaves A s.1).sent, (leaves A s.1).db⟩)
      (fun _ => by simp) (fun ms s m s' _ ih hstep hms => ?_) ms (o', sent) hrun hms
    simp only [act, Option.map_eq_some_iff] at hstep
    obtain ⟨⟨o₁, r⟩, hstep, rfl⟩ := hstep
    rw [ih fun m hm => hms m (List.mem_append_left _ hm),
      leaves_step (hms m (by simp)) hstep]
    simp
  rw [hinv]
  simp [leaves, hidle]

/-- **The moves of `apply` add up to `StateMachineStore.apply`**, whatever the data was in
between. -/
theorem apply_of_moves {strm : List (Except IoError (Pb.Entry × Option ρ))}
    {ms : List (Move σ ρ)} (hms : ∀ m ∈ ms, m.inside = true) {sent : List (ρ × Resp)}
    (hrun : Run.exec (act A log) (o, []) (.apply strm :: ms) = some (o', sent))
    (hidle : o'.task = .idle) :
    o'.stateMachine = (apply A o.stateMachine strm).stateMachine ∧
      sent = (apply A o.stateMachine strm).sent ∧ o'.db = o.db := by
  obtain ⟨s, hstep, hrun⟩ := Run.exec_cons_eq_some.1 hrun
  simp only [act, step, Option.map_map, Option.map_eq_some_iff] at hstep
  obtain ⟨o₁, hbegin, rfl⟩ := hstep
  obtain ⟨-, -, rfl⟩ := beginApply_eq_some.1 hbegin
  have hres := leaves_of_run hms hrun hidle
  simp only [leaves, Result.mk.injEq] at hres
  exact ⟨hres.1.symm, hres.2.1.symm, hres.2.2.symm⟩

/-- **The moves of `install_snapshot` add up to `StateMachineStore.installSnapshot`.** -/
theorem install_of_moves {m : SnapshotMeta} {data : Bytes} {ms : List (Move σ ρ)}
    (hms : ∀ m ∈ ms, m.inside = true) {sent : List (ρ × Resp)}
    (hrun : Run.exec (act A log) (o, []) (.install m data :: ms) = some (o', sent))
    (hidle : o'.task = .idle) (idx : UInt64) :
    (⟨o'.stateMachine, idx⟩ : StateMachineStore σ) =
        (installSnapshot A ⟨o.stateMachine, idx⟩ m data).1 ∧
      o'.db = (installSnapshot A ⟨o.stateMachine, idx⟩ m data).2.run o.db ∧ sent = [] := by
  obtain ⟨s, hstep, hrun⟩ := Run.exec_cons_eq_some.1 hrun
  simp only [act, step, Option.map_map, Option.map_eq_some_iff] at hstep
  obtain ⟨o₁, hbegin, rfl⟩ := hstep
  obtain ⟨-, -, x, hx, rfl⟩ := beginInstall_eq_some.1 hbegin
  have hres := leaves_of_run hms hrun hidle
  simp only [leaves, Result.mk.injEq] at hres
  rw [installSnapshot_of_import hx]
  exact ⟨by rw [← hres.1], hres.2.2.symm, hres.2.1.symm⟩

end Owner

end RaftService
