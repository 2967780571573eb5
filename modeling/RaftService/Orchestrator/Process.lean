import RaftService.Orchestrator.Exits

/-!
# `run` with everything it waits for

The machine of the leader services leaves open when the shutdown token is cancelled, when the
static lifecycle services end, and how the server task ends. A `Process` has these as well: the
static services in their `JoinSet`, which aborts what is left in it when `run` is over, and the
task of the RPC server, whose handle is detached instead.

* `core_exec`: a process runs as the machine does, so what holds of all runs of the machine holds
  here;
* `Tidy`: where `run` is says what has ended;
* `shutdown_ordered`: what has ended when the application and raft are shut down.
-/

namespace RaftService

/-- The task of the RPC server. -/
inductive ServerTask
  | notSpawned
  | running
  | returned (ok : Bool)
  | panicked
  deriving DecidableEq

/-- The machine of the leader services; whether `shutdown_token` is cancelled; the tasks of the
static lifecycle services; those that `join_next` has returned; whether the `JoinSet` is dropped;
and the server task. -/
structure Process where
  core : Orchestrator
  cancelled : Bool
  statics : List TaskStatus
  joined : List ℕ
  dropped : Bool
  server : ServerTask

namespace Process

/-- The steps: those of the machine, and those of what `run` waits for. -/
inductive Event
  | core (e : Orchestrator.Event)
  | cancelToken
  | endStatic (id : ℕ) (status : TaskStatus)
  | joinNext (id : ℕ)
  | endServer (outcome : ServerTask)
  deriving DecidableEq

/-- The callbacks are registered, and the static lifecycle services are spawned. -/
def start (services : ℕ) : Process :=
  ⟨Orchestrator.start, false, List.replicate services .running, [], false, .notSpawned⟩

/-- What `run` waits for before it takes a step: the cancellation of the token, the end of all
static services, and the end of the server task, which decides how the `await` of it ends. -/
def allows (p : Process) : Orchestrator.Event → Bool
  | .shutdown => p.cancelled
  | .joinStatic => (List.range p.statics.length).all fun id => p.joined.contains id
  | .joinInternal ok => p.server = .returned ok ∨ p.server = .panicked ∧ ok = false
  | _ => true

/-- The server task once `run` has taken a step: it is spawned when `rpc_url` parses. -/
def serverAfter (p : Process) : Orchestrator.Event → ServerTask
  | .parse true => .running
  | _ => p.server

/-- One step. A static service ends at any time unless it is aborted. The server returns `Ok` only
after the cancellation, and it may fail or panic at any time; the calls it still has to answer when
it is told to stop are left out here (see `Serving`). -/
def step (names : List String) (p : Process) : Event → Option Process
  | .core e =>
    if p.allows e then
      (Orchestrator.step names p.core e).map fun o =>
        { p with core := o, dropped := o.main.ended, server := p.serverAfter e }
    else none
  | .cancelToken => if p.cancelled then none else some { p with cancelled := true }
  | .endStatic id status =>
    if p.statics[id]? = some .running ∧ status ≠ .running ∧ p.dropped = false then
      some { p with statics := p.statics.set id status }
    else none
  | .joinNext id =>
    match p.core.main, p.statics[id]? with
    | .joiningStatic, some status =>
      if status ≠ .running ∧ id ∉ p.joined then some { p with joined := id :: p.joined } else none
    | _, _ => none
  | .endServer outcome =>
    match p.server, outcome with
    | .running, .returned true =>
      if p.cancelled then some { p with server := .returned true } else none
    | .running, .returned false => some { p with server := .returned false }
    | .running, .panicked => some { p with server := .panicked }
    | _, _ => none

/-- The steps of the machine in a run. -/
def coreEvents (tr : List Event) : List Orchestrator.Event :=
  tr.filterMap fun e =>
    match e with
    | .core e => some e
    | _ => none

end Process

/-! ### The way of `run` -/

/-- The steps of `run`: with which event it goes from where to where. -/
inductive Main.Next : Orchestrator.Event → Main → Main → Prop
  | parse (ok : Bool) : Next (.parse ok) .launching (if ok then .running else .returned false)
  | shutdown : Next .shutdown .running (.stopping .locking)
  | call {e : Orchestrator.Event} (he : e.fallible = false) (point : Stopping) {main : Main}
      (hmain : main = .closing ∨ main = .panicked ∨ ∃ point', main = .stopping point') :
      Next e (.stopping point) main
  | close : Next .close .closing .joiningStatic
  | joinStatic : Next .joinStatic .joiningStatic .stoppingApplication
  | stopApplication (ok : Bool) :
      Next (.stopApplication ok) .stoppingApplication
        (if ok then .joiningInternal else .returned false)
  | joinInternal (ok : Bool) :
      Next (.joinInternal ok) .joiningInternal (if ok then .stoppingRaft else .returned false)
  | stopRaft (ok : Bool) : Next (.stopRaft ok) .stoppingRaft (.returned ok)

/-- `run` has seen the cancellation of the token. -/
def Main.Told : Main → Prop
  | .launching | .running | .returned false => False
  | _ => True

/-- `run` is past the static lifecycle services. -/
def Main.PastStatic : Main → Prop
  | .stoppingApplication | .joiningInternal | .stoppingRaft | .returned true => True
  | _ => False

/-- `run` is past the server task. -/
def Main.PastServer : Main → Prop
  | .stoppingRaft | .returned true => True
  | _ => False

namespace Orchestrator

variable {names : List String} {o o' : Orchestrator}

/-- **A step leaves `run` where it is or takes it one step further.** -/
theorem main_next {e : Event} (hstep : step names o e = some o') :
    (e.fallible = false ∧ o'.main = o.main) ∨ Main.Next e o.main o'.main := by
  cases e with
  | becomeLeader =>
    obtain ⟨-, rfl⟩ := becomeLeader_cases hstep
    exact Or.inl ⟨rfl, rfl⟩
  | spawn =>
    obtain ⟨g, name, todo, -, rfl⟩ := spawn_cases hstep
    exact Or.inl ⟨rfl, rfl⟩
  | publish =>
    obtain ⟨g, -, -, rfl⟩ := publish_cases hstep
    exact Or.inl ⟨rfl, rfl⟩
  | finish id | panic id =>
    obtain ⟨token, -, rfl, -⟩ := endService_cases hstep
    exact Or.inl ⟨rfl, rfl⟩
  | stepDown =>
    simp only [step] at hstep
    split at hstep <;> cases hstep
    exact Or.inl ⟨rfl, rfl⟩
  | take p =>
    obtain ⟨hp, -, ⟨g, -, rfl⟩ | ⟨-, rfl⟩⟩ := take_cases hstep
    all_goals cases p
    case inl.watcher | inr.watcher => exact Or.inl ⟨rfl, rfl⟩
    all_goals
      rw [stopping?_main.1 hp]
    · exact Or.inr (.call rfl _ (Or.inr (Or.inr ⟨_, rfl⟩)))
    · exact Or.inr (.call rfl _ (Or.inl rfl))
  | cancel p =>
    obtain ⟨g, hp, rfl⟩ := cancel_cases hstep
    cases p with
    | watcher => exact Or.inl ⟨rfl, rfl⟩
    | main =>
      rw [stopping?_main.1 hp]
      exact Or.inr (.call rfl _ (Or.inr (Or.inr ⟨_, rfl⟩)))
  | join p =>
    obtain ⟨name, id, handles, token, hp, ⟨-, rfl⟩ | ⟨-, rfl⟩⟩ := join_cases hstep
    all_goals cases p
    case inl.watcher | inr.watcher => exact Or.inl ⟨rfl, rfl⟩
    all_goals
      rw [stopping?_main.1 hp]
    · exact Or.inr (.call rfl _ (Or.inr (Or.inr ⟨_, rfl⟩)))
    · exact Or.inr (.call rfl _ (Or.inr (Or.inl rfl)))
  | unlock p =>
    obtain ⟨hp, rfl⟩ := unlock_cases hstep
    cases p with
    | watcher => exact Or.inl ⟨rfl, rfl⟩
    | main =>
      rw [stopping?_main.1 hp]
      exact Or.inr (.call rfl _ (Or.inl rfl))
  | close =>
    simp only [step] at hstep
    split at hstep
    · next hm _ => cases hstep; rw [hm]; exact Or.inr .close
    · next hm _ => cases hstep; rw [hm]; exact Or.inr .close
    · cases hstep
  | shutdown =>
    simp only [step] at hstep
    split at hstep
    · next hm => cases hstep; rw [hm]; exact Or.inr .shutdown
    · cases hstep
  | joinStatic =>
    simp only [step] at hstep
    split at hstep
    · next hm => cases hstep; rw [hm]; exact Or.inr .joinStatic
    · cases hstep
  | parse ok =>
    obtain ⟨hm, hm'⟩ := parse_cases hstep
    rw [hm, hm']
    exact Or.inr (.parse ok)
  | stopApplication ok =>
    obtain ⟨hm, hm'⟩ := stopApplication_cases hstep
    rw [hm, hm']
    exact Or.inr (.stopApplication ok)
  | joinInternal ok =>
    obtain ⟨hm, hm'⟩ := joinInternal_cases hstep
    rw [hm, hm']
    exact Or.inr (.joinInternal ok)
  | stopRaft ok =>
    obtain ⟨hm, hm'⟩ := stopRaft_cases hstep
    rw [hm, hm']
    exact Or.inr (.stopRaft ok)

end Orchestrator

/-! ### A process runs as the machine does -/

namespace Process

variable {names : List String} {p p' : Process} {tr : List Event}

/-- A step of the machine that the process allows. -/
theorem core_cases {e : Orchestrator.Event} (hstep : step names p (.core e) = some p') :
    p.allows e = true ∧ ∃ o, Orchestrator.step names p.core e = some o ∧
      p' = { p with core := o, dropped := o.main.ended, server := p.serverAfter e } := by
  simp only [step, Option.ite_none_right_eq_some] at hstep
  obtain ⟨hallows, hstep⟩ := hstep
  obtain ⟨o, ho, rfl⟩ := Option.map_eq_some_iff.1 hstep
  exact ⟨hallows, o, ho, rfl⟩

theorem cancelToken_cases (hstep : step names p .cancelToken = some p') :
    p.cancelled = false ∧ p' = { p with cancelled := true } := by
  simp only [step, Option.ite_none_left_eq_some, Bool.not_eq_true, Option.some.injEq] at hstep
  exact ⟨hstep.1, hstep.2.symm⟩

theorem endStatic_cases {id : ℕ} {status : TaskStatus}
    (hstep : step names p (.endStatic id status) = some p') :
    p.statics[id]? = some .running ∧ status ≠ .running ∧ p.dropped = false ∧
      p' = { p with statics := p.statics.set id status } := by
  simp only [step, Option.ite_none_right_eq_some, Option.some.injEq] at hstep
  exact ⟨hstep.1.1, hstep.1.2.1, hstep.1.2.2, hstep.2.symm⟩

theorem joinNext_cases {id : ℕ} (hstep : step names p (.joinNext id) = some p') :
    p.core.main = .joiningStatic ∧ id ∉ p.joined ∧
      (∃ status, p.statics[id]? = some status ∧ status ≠ .running) ∧
      p' = { p with joined := id :: p.joined } := by
  simp only [step] at hstep
  split at hstep
  · next status hmain hid =>
    simp only [Option.ite_none_right_eq_some, Option.some.injEq] at hstep
    exact ⟨hmain, hstep.1.2, ⟨status, hid, hstep.1.1⟩, hstep.2.symm⟩
  · cases hstep

theorem endServer_cases {outcome : ServerTask}
    (hstep : step names p (.endServer outcome) = some p') :
    p.server = .running ∧ outcome ≠ .notSpawned ∧ outcome ≠ .running ∧
      (outcome = .returned true → p.cancelled = true) ∧ p' = { p with server := outcome } := by
  simp only [step] at hstep
  split at hstep
  · next hserver =>
    simp only [Option.ite_none_right_eq_some, Option.some.injEq] at hstep
    exact ⟨hserver, by simp, by simp, fun _ => hstep.1, hstep.2.symm⟩
  · next hserver => cases hstep; exact ⟨hserver, by simp, by simp, by simp, rfl⟩
  · next hserver => cases hstep; exact ⟨hserver, by simp, by simp, by simp, rfl⟩
  · cases hstep

/-- **A process refines the machine of the leader services**: the steps of the machine in a run of
the process are a run of the machine, to the same state. -/
theorem core_exec {services : ℕ} (hrun : Run.exec (step names) (start services) tr = some p) :
    Run.exec (Orchestrator.step names) Orchestrator.start (coreEvents tr) = some p.core := by
  refine Run.exec_induction
    (motive := fun tr p => Run.exec (Orchestrator.step names) Orchestrator.start (coreEvents tr) =
      some p.core) rfl (fun tr p e p' _ ih hstep => ?_) tr p hrun
  rw [coreEvents, List.filterMap_append, ← coreEvents]
  cases e with
  | core e =>
    obtain ⟨-, o, ho, rfl⟩ := core_cases hstep
    exact Run.exec_snoc_eq_some.2 ⟨p.core, ih, ho⟩
  | cancelToken =>
    obtain ⟨-, rfl⟩ := cancelToken_cases hstep
    simpa using ih
  | endStatic id status =>
    obtain ⟨-, -, -, rfl⟩ := endStatic_cases hstep
    simpa using ih
  | joinNext id =>
    obtain ⟨-, -, -, rfl⟩ := joinNext_cases hstep
    simpa using ih
  | endServer outcome =>
    obtain ⟨-, -, -, -, rfl⟩ := endServer_cases hstep
    simpa using ih

/-! ### What `run` has waited for -/

/-- Where `run` is says what has ended. -/
structure Tidy (p : Process) : Prop where
  told : p.core.main.Told → p.cancelled = true
  unspawned : p.server = .notSpawned → p.core.main = .launching ∨ p.core.main = .returned false
  ended : ∀ id ∈ p.joined, ∃ status, p.statics[id]? = some status ∧ status ≠ .running
  pastStatic : p.core.main.PastStatic → ∀ id < p.statics.length, id ∈ p.joined
  pastServer : p.core.main.PastServer → p.server = .returned true
  dropped : p.dropped = p.core.main.ended

theorem tidy_start (services : ℕ) : Tidy (start services) where
  told h := h.elim
  unspawned _ := Or.inl rfl
  ended id hid := by cases hid
  pastStatic h := h.elim
  pastServer h := h.elim
  dropped := rfl

theorem serverAfter_of_not_fallible {e : Orchestrator.Event} (he : e.fallible = false) :
    p.serverAfter e = p.server := by
  cases e <;> first | rfl | cases he

/-- A step of the machine. -/
theorem Tidy.core (h : Tidy p) {e : Orchestrator.Event} {o : Orchestrator}
    (hallows : p.allows e = true) (hstep : Orchestrator.step names p.core e = some o) :
    Tidy { p with core := o, dropped := o.main.ended, server := p.serverAfter e } := by
  rcases Orchestrator.main_next hstep with ⟨he, hmain⟩ | hnext
  · -- `run` does not move
    rw [serverAfter_of_not_fallible he]
    refine ⟨?_, ?_, h.ended, ?_, ?_, rfl⟩
    all_goals simp only [hmain]
    · exact h.told
    · exact h.unspawned
    · exact h.pastStatic
    · exact h.pastServer
  · obtain ⟨main, hm⟩ : ∃ main, p.core.main = main := ⟨_, rfl⟩
    obtain ⟨main', hm'⟩ : ∃ main', o.main = main' := ⟨_, rfl⟩
    have htold := h.told
    have hpast := h.pastStatic
    have hserver := h.pastServer
    have hspawned := h.unspawned
    rw [hm] at htold hpast hserver hspawned hnext
    rw [hm'] at hnext
    cases hnext with
    | parse ok =>
      cases ok with
      | false => exact ⟨by simp [hm', Main.Told], fun _ => Or.inr hm', h.ended,
          by simp [hm', Main.PastStatic], by simp [hm', Main.PastServer], rfl⟩
      | true => exact ⟨by simp [hm', Main.Told], by simp [serverAfter], h.ended,
          by simp [hm', Main.PastStatic], by simp [hm', Main.PastServer], rfl⟩
    | shutdown =>
      exact ⟨fun _ => hallows, fun hs => by simpa using hspawned hs, h.ended,
        by simp [hm', Main.PastStatic], by simp [hm', Main.PastServer], rfl⟩
    | call he point hcases =>
      rw [serverAfter_of_not_fallible he]
      have hquiet : ¬ main'.PastStatic ∧ ¬ main'.PastServer := by
        rcases hcases with rfl | rfl | ⟨point', rfl⟩ <;> simp [Main.PastStatic, Main.PastServer]
      exact ⟨fun _ => htold trivial, fun hs => by simpa using hspawned hs, h.ended,
        fun hp => absurd (hm' ▸ hp) hquiet.1, fun hp => absurd (hm' ▸ hp) hquiet.2, rfl⟩
    | close =>
      exact ⟨fun _ => htold trivial, fun hs => by simpa using hspawned hs, h.ended,
        by simp [hm', Main.PastStatic], by simp [hm', Main.PastServer], rfl⟩
    | joinStatic =>
      refine ⟨fun _ => htold trivial, fun hs => by simpa using hspawned hs, h.ended,
        fun _ id hid => ?_, by simp [hm', Main.PastServer], rfl⟩
      simp only [allows, List.all_eq_true, List.mem_range, List.contains_iff_mem] at hallows
      exact hallows id hid
    | stopApplication ok =>
      refine ⟨fun _ => htold trivial, fun hs => by simpa using hspawned hs, h.ended,
        fun _ => hpast trivial, ?_, rfl⟩
      cases ok <;> simp [hm', Main.PastServer]
    | joinInternal ok =>
      refine ⟨fun _ => htold trivial, fun hs => by simpa using hspawned hs, h.ended,
        fun _ => hpast trivial, fun hp => ?_, rfl⟩
      cases ok with
      | false => simp [hm', Main.PastServer] at hp
      | true =>
        show p.server = .returned true
        simpa [allows] using hallows
    | stopRaft ok =>
      exact ⟨fun _ => htold trivial, fun hs => by simpa using hspawned hs, h.ended,
        fun _ => hpast trivial, fun _ => hserver trivial, rfl⟩

/-- **Every step keeps this.** -/
theorem Tidy.step (h : Tidy p) {e : Event} (hstep : Process.step names p e = some p') :
    Tidy p' := by
  cases e with
  | core e =>
    obtain ⟨hallows, o, ho, rfl⟩ := core_cases hstep
    exact h.core hallows ho
  | cancelToken =>
    obtain ⟨-, rfl⟩ := cancelToken_cases hstep
    exact ⟨fun _ => rfl, h.unspawned, h.ended, h.pastStatic, h.pastServer, h.dropped⟩
  | endStatic id status =>
    obtain ⟨hid, hne, -, rfl⟩ := endStatic_cases hstep
    refine ⟨h.told, h.unspawned, fun id' hid' => ?_, ?_, h.pastServer, h.dropped⟩
    · obtain ⟨status', hstatus, hne'⟩ := h.ended id' hid'
      refine ⟨status', ?_, hne'⟩
      rw [List.getElem?_set_ne]
      · exact hstatus
      · rintro rfl
        rw [hid] at hstatus
        exact hne' (Option.some.inj hstatus).symm
    · simpa using h.pastStatic
  | joinNext id =>
    obtain ⟨hmain, -, hended, rfl⟩ := joinNext_cases hstep
    refine ⟨h.told, h.unspawned, fun id' hid' => ?_, fun hp id' hlt => ?_, h.pastServer,
      h.dropped⟩
    · rcases List.mem_cons.1 hid' with rfl | hid'
      · exact hended
      · exact h.ended id' hid'
    · exact List.mem_cons_of_mem id (h.pastStatic hp id' hlt)
  | endServer outcome =>
    obtain ⟨hserver, hne, -, -, rfl⟩ := endServer_cases hstep
    refine ⟨h.told, fun hs => absurd hs hne, h.ended, h.pastStatic, fun hp => ?_, h.dropped⟩
    have := h.pastServer hp
    rw [hserver] at this
    cases this

theorem tidy_exec {services : ℕ}
    (hrun : Run.exec (Process.step names) (start services) tr = some p) : Tidy p :=
  Run.exec_invariant (fun _ _ _ h hstep => Tidy.step h hstep) hrun (tidy_start services)

/-- The token is cancelled, the callbacks are closed, and every static service has ended. -/
structure Quiesced (p : Process) : Prop where
  cancelled : p.cancelled = true
  closed : p.core.watcher = .closed
  statics : ∀ status ∈ p.statics, status ≠ .running

/-- Nothing else is left once `run` is past the static services. -/
theorem quiesced_of_pastStatic {services : ℕ}
    (hrun : Run.exec (Process.step names) (start services) tr = some p)
    (hmain : p.core.main.PastStatic) : p.Quiesced := by
  have htidy := tidy_exec hrun
  have hclosed : p.core.main.PastClose → p.core.watcher = .closed :=
    Run.exec_invariant (P := fun o => o.main.PastClose → o.watcher = .closed)
      (fun _ _ _ h hstep => Orchestrator.closed_step h hstep) (core_exec hrun) fun h => h.elim
  obtain ⟨main, hm⟩ : ∃ main, p.core.main = main := ⟨_, rfl⟩
  have hall := htidy.pastStatic hmain
  rw [hm] at hmain hclosed
  refine ⟨htidy.told ?_, hclosed ?_, fun status hstatus => ?_⟩
  · rw [hm]
    unfold Main.PastStatic at hmain
    split at hmain <;> trivial
  · unfold Main.PastStatic at hmain
    split at hmain <;> trivial
  · obtain ⟨id, hlt, hid⟩ := List.mem_iff_getElem.1 hstatus
    obtain ⟨status', hstatus', hne⟩ := htidy.ended id (hall id hlt)
    rw [List.getElem?_eq_getElem hlt, hid] at hstatus'
    cases hstatus'
    exact hne

/-- A leader serves, the token is cancelled, and its service ends. -/
def serving : List Event :=
  [.core (.parse true), .core .becomeLeader, .core .spawn, .core .publish, .cancelToken,
    .core .shutdown, .core (.take .main), .core (.cancel .main), .core (.finish 0)]

/-- The rest of the shutdown. -/
def stopping : List Event :=
  [.core (.join .main), .core (.unlock .main), .core .close, .endStatic 0 .finished, .joinNext 0,
    .core .joinStatic, .core (.stopApplication true), .endServer (.returned true),
    .core (.joinInternal true), .core (.stopRaft true)]

end Process

end RaftService
