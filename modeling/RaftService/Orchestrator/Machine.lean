import RaftService.Lib.Run
import RaftService.Lib.SortedMap

/-!
# `RaftOrchestrator::run`

The shutdown sequence of `run`, beside the watcher task in which openraft calls the two callbacks
of `on_leader_change`, and the leader services that the start callback spawns. The two tasks share
an `Option` behind a mutex (`slot`, `guard`): the start callback puts a cancellation token and the
handles of a generation of services there, `leader_services_shutdown` takes them out.

A step of a task goes up to its next await, so the start callback spawns its services before it
awaits the lock, and the guard that `leader_services_shutdown` has is held while the handles are
awaited. Callbacks alternate and run one at a time; none runs once `close` has returned, and none
starts once `run` is over, which drops the handle of the watcher.
-/

namespace RaftService

/-- The tasks that call `leader_services_shutdown`. -/
inductive Party
  | watcher
  | main
  deriving DecidableEq

/-- A cancellation token and the handles of the services spawned with it, by name. -/
structure Generation where
  shutdown : ℕ
  handles : SortedMap String ℕ

/-- What has become of a spawned task. -/
inductive TaskStatus
  | running
  | finished
  | panicked
  deriving DecidableEq

/-- The task of a leader service: the token it was given, and what has become of it. -/
structure LeaderService where
  token : ℕ
  status : TaskStatus

/-- Where `leader_services_shutdown` is: at the await of the lock; with the value taken; or
awaiting the handles. -/
inductive Stopping
  | locking
  | took (generation : Generation)
  | joining (handles : List (String × ℕ))

/-- Where the watcher task is: between two callbacks; in the start callback, with the builders it
has not called yet; or in the stop callback. -/
inductive Watcher
  | idle (leading : Bool)
  | starting (generation : Generation) (todo : List String)
  | stopping (point : Stopping)
  | panicked
  | closed

/-- Where `run` is, from the registration of the callbacks on. -/
inductive Main
  | launching
  | running
  | stopping (point : Stopping)
  | closing
  | joiningStatic
  | stoppingApplication
  | joiningInternal
  | stoppingRaft
  | returned (ok : Bool)
  | panicked

/-- `run` has returned or panicked. -/
def Main.ended : Main → Bool
  | .returned _ | .panicked => true
  | _ => false

/-- The shared `Option` with the holder of its lock, the leader services ever spawned, the number
of tokens created, the tokens cancelled, the services joined, and the two tasks. -/
structure Orchestrator where
  slot : Option Generation
  guard : Option Party
  services : List LeaderService
  tokens : ℕ
  cancelled : List ℕ
  joined : List ℕ
  watcher : Watcher
  main : Main

namespace Orchestrator

/-- The steps. `spawn` calls the next builder; `take`, `cancel`, `join` and `unlock` are those of
`leader_services_shutdown`; the steps of the shutdown sequence that can fail say how they end. -/
inductive Event
  | becomeLeader
  | spawn
  | publish
  | stepDown
  | take (p : Party)
  | cancel (p : Party)
  | join (p : Party)
  | unlock (p : Party)
  | finish (id : ℕ)
  | panic (id : ℕ)
  | parse (ok : Bool)
  | shutdown
  | close
  | joinStatic
  | stopApplication (ok : Bool)
  | joinInternal (ok : Bool)
  | stopRaft (ok : Bool)
  deriving DecidableEq

/-- The callbacks are registered, and none has run. -/
def start : Orchestrator := ⟨none, none, [], 0, [], [], .idle false, .launching⟩

/-- Where a task is in `leader_services_shutdown`. -/
def stopping? (o : Orchestrator) : Party → Option Stopping
  | .watcher =>
    match o.watcher with
    | .stopping point => some point
    | _ => none
  | .main =>
    match o.main with
    | .stopping point => some point
    | _ => none

/-- A task moves within `leader_services_shutdown`. -/
def setStopping (o : Orchestrator) (point : Stopping) : Party → Orchestrator
  | .watcher => { o with watcher := .stopping point }
  | .main => { o with main := .stopping point }

/-- `leader_services_shutdown` returns. -/
def stopped (o : Orchestrator) : Party → Orchestrator
  | .watcher => { o with watcher := .idle false }
  | .main => { o with main := .closing }

/-- A task panics. -/
def panics (o : Orchestrator) : Party → Orchestrator
  | .watcher => { o with watcher := .panicked }
  | .main => { o with main := .panicked }

/-- A running service ends. -/
def endService (o : Orchestrator) (id : ℕ) (status : TaskStatus) : Option Orchestrator :=
  match o.services[id]? with
  | some ⟨token, .running⟩ => some { o with services := o.services.set id ⟨token, status⟩ }
  | _ => none

/-- One step, with the names of the leader lifecycle builders. -/
def step (names : List String) (o : Orchestrator) : Event → Option Orchestrator
  | .becomeLeader =>
    match o.watcher, o.main.ended with
    | .idle false, false =>
      some { o with
        watcher := .starting ⟨o.tokens, SortedMap.empty⟩ names
        tokens := o.tokens + 1 }
    | _, _ => none
  | .spawn =>
    match o.watcher with
    | .starting g (name :: todo) =>
      some { o with
        services := o.services ++ [⟨g.shutdown, .running⟩]
        watcher := .starting { g with handles := g.handles.insert name o.services.length } todo }
    | _ => none
  | .publish =>
    match o.watcher, o.guard with
    | .starting g [], none => some { o with slot := some g, watcher := .idle true }
    | _, _ => none
  | .stepDown =>
    match o.watcher, o.main.ended with
    | .idle true, false => some { o with watcher := .stopping .locking }
    | _, _ => none
  | .take p =>
    match o.stopping? p, o.guard with
    | some .locking, none =>
      match o.slot with
      | some g => some ({ o with slot := none, guard := some p }.setStopping (.took g) p)
      | none => some (o.stopped p)
    | _, _ => none
  | .cancel p =>
    match o.stopping? p with
    | some (.took g) =>
      some ({ o with cancelled := g.shutdown :: o.cancelled }.setStopping
        (.joining g.handles.toList) p)
    | _ => none
  | .join p =>
    match o.stopping? p with
    | some (.joining ((_, id) :: handles)) =>
      match o.services[id]? with
      | some ⟨_, .finished⟩ =>
        some ({ o with joined := id :: o.joined }.setStopping (.joining handles) p)
      | some ⟨_, .panicked⟩ => some ({ o with joined := id :: o.joined, guard := none }.panics p)
      | _ => none
    | _ => none
  | .unlock p =>
    match o.stopping? p with
    | some (.joining []) => some ({ o with guard := none }.stopped p)
    | _ => none
  | .finish id => o.endService id .finished
  | .panic id => o.endService id .panicked
  | .parse ok =>
    match o.main with
    | .launching => some { o with main := if ok then .running else .returned false }
    | _ => none
  | .shutdown =>
    match o.main with
    | .running => some { o with main := .stopping .locking }
    | _ => none
  | .close =>
    match o.main, o.watcher with
    | .closing, .idle _ => some { o with main := .joiningStatic, watcher := .closed }
    | .closing, .panicked => some { o with main := .joiningStatic, watcher := .closed }
    | _, _ => none
  | .joinStatic =>
    match o.main with
    | .joiningStatic => some { o with main := .stoppingApplication }
    | _ => none
  | .stopApplication ok =>
    match o.main with
    | .stoppingApplication =>
      some { o with main := if ok then .joiningInternal else .returned false }
    | _ => none
  | .joinInternal ok =>
    match o.main with
    | .joiningInternal => some { o with main := if ok then .stoppingRaft else .returned false }
    | _ => none
  | .stopRaft ok =>
    match o.main with
    | .stoppingRaft => some { o with main := .returned ok }
    | _ => none

/-- Every leader service ever spawned has had its token cancelled, and has been joined. -/
def AllStopped (o : Orchestrator) : Prop :=
  ∀ id s, o.services[id]? = some s → s.token ∈ o.cancelled ∧ id ∈ o.joined

/-- At most one generation of leader services is spawned and not cancelled. -/
def AtMostOneLive (o : Orchestrator) : Prop :=
  ∀ s ∈ o.services, ∀ s' ∈ o.services, s.token ∉ o.cancelled → s'.token ∉ o.cancelled →
    s.token = s'.token

/-- Every generation published is taken out again later. -/
def EveryPublishTaken (tr : List Event) : Prop :=
  ∀ t t', tr = t ++ .publish :: t' → ∃ p, .take p ∈ t'

end Orchestrator

end RaftService
