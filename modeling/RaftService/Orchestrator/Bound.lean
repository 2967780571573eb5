import RaftService.Lib.Progress
import RaftService.Orchestrator.Process

/-!
# The length of the runs

The watcher and `run` wait for each other, for services and for the server task, and the callbacks
may alternate as long as elections come. `left` counts the steps that are still before a process,
if no election comes: every step lowers it, and the start of a start callback adds to it. So a run
cannot go on without elections (`steps_bounded`).
-/

/-- One element fewer satisfies a predicate when one that does is replaced by one that does not. -/
theorem List.countP_set_add_one {α : Type*} {q : α → Bool} {l : List α} {i : ℕ} {a b : α}
    (hi : l[i]? = some a) (ha : q a = true) (hb : q b = false) :
    (l.set i b).countP q + 1 = l.countP q := by
  obtain ⟨hlt, hget⟩ := List.getElem?_eq_some_iff.1 hi
  have hpos : 0 < l.countP q := List.countP_pos_iff.2 ⟨a, List.mem_of_getElem? hi, ha⟩
  rw [List.countP_set hlt, hget, if_pos ha, if_neg (by simp [hb])]
  omega

namespace RaftService

/-! ### The measure -/

/-- The steps a call of `leader_services_shutdown` has before it, with `n` builders. -/
def Stopping.left (n : ℕ) : Stopping → ℕ
  | .locking => n + 3
  | .took g => g.handles.toList.length + 2
  | .joining handles => handles.length + 1

/-- The steps of the callbacks; a service that is to be spawned ends once more. -/
def Watcher.left (n : ℕ) : Watcher → ℕ
  | .idle false => 0
  | .idle true => n + 4
  | .starting _ todo => 2 * todo.length + n + 5
  | .stopping point => point.left n
  | .panicked => 0
  | .closed => 0

/-- The steps of `run`. -/
def Main.left (n : ℕ) : Main → ℕ
  | .launching => n + 11
  | .running => n + 9
  | .stopping point => point.left n + 5
  | .closing => 5
  | .joiningStatic => 4
  | .stoppingApplication => 3
  | .joiningInternal => 2
  | .stoppingRaft => 1
  | .returned _ => 0
  | .panicked => 0

namespace Orchestrator

variable {names : List String} {o o' : Orchestrator} {p : Party}

/-- The services still running. -/
def runningServices (o : Orchestrator) : ℕ :=
  o.services.countP fun s => s.status = .running

/-- The steps before the machine, with `n` builders, if no election comes. -/
def left (n : ℕ) (o : Orchestrator) : ℕ :=
  o.runningServices + o.watcher.left n + o.main.left n

/-- A generation has at most one handle for each builder. -/
theorem Spawned.length_le {given : List ℕ} {called : List String} {g : Generation}
    (h : Spawned given called g) : g.handles.toList.length ≤ called.length := by
  obtain ⟨earlier, -, -, hhandles⟩ := h
  rw [hhandles]
  simpa using SortedMap.length_ofList_le (called.zipIdx earlier.length)

section Calls

variable (n : ℕ) {slot : Option Generation} {guard : Option Party} {cancelled joined : List ℕ}
  {point : Stopping}

/-- What a task has before it in `leader_services_shutdown` is before the machine. -/
theorem left_setStopping (hp : o.stopping? p = some point) (point' : Stopping) :
    left n ({ o with slot := slot, guard := guard, cancelled := cancelled, joined := joined
      }.setStopping point' p) + point.left n = left n o + point'.left n := by
  cases p with
  | watcher =>
    rw [stopping?_watcher] at hp
    simp only [left, setStopping, runningServices, hp, Watcher.left]
    omega
  | main =>
    rw [stopping?_main] at hp
    simp only [left, setStopping, runningServices, hp, Main.left]
    omega

theorem left_stopped (hp : o.stopping? p = some point) :
    left n ({ o with slot := slot, guard := guard, cancelled := cancelled, joined := joined
      }.stopped p) + point.left n = left n o := by
  cases p with
  | watcher =>
    rw [stopping?_watcher] at hp
    simp only [left, stopped, runningServices, hp, Watcher.left]
    omega
  | main =>
    rw [stopping?_main] at hp
    simp only [left, stopped, runningServices, hp, Main.left]
    omega

theorem left_panics (hp : o.stopping? p = some point) :
    left n ({ o with slot := slot, guard := guard, cancelled := cancelled, joined := joined
      }.panics p) + point.left n ≤ left n o := by
  cases p with
  | watcher =>
    rw [stopping?_watcher] at hp
    simp only [left, panics, runningServices, hp, Watcher.left]
    omega
  | main =>
    rw [stopping?_main] at hp
    simp only [left, panics, runningServices, hp, Main.left]
    omega

end Calls

/-- One service fewer runs when one ends. -/
theorem left_endService (n : ℕ) {id : ℕ} {status : TaskStatus} (hne : status ≠ .running)
    (hstep : o.endService id status = some o') : left n o' + 1 = left n o := by
  obtain ⟨token, hid, rfl, -⟩ := endService_cases hstep
  have hset := List.countP_set_add_one (q := fun s => decide (s.status = TaskStatus.running)) hid
    (by simp) (b := ⟨token, status⟩) (by simpa using hne)
  simp only [left, runningServices]
  omega

/-- What an event adds to the measure. -/
def Event.cost (n : ℕ) : Event → ℕ
  | .becomeLeader => 3 * n + 6
  | _ => 0

/-- **Every step lowers the measure**, but for the start of a start callback. -/
theorem left_step (h : Sound names o) {e : Event} (hstep : step names o e = some o') :
    left names.length o' + 1 ≤ left names.length o + e.cost names.length := by
  cases e with
  | becomeLeader =>
    obtain ⟨hw, rfl⟩ := becomeLeader_cases hstep
    simp only [left, runningServices, hw, Watcher.left, Event.cost]
    omega
  | spawn =>
    obtain ⟨g, name, todo, hw, rfl⟩ := spawn_cases hstep
    simp only [left, runningServices, hw, Watcher.left, Event.cost, List.countP_append,
      List.countP_singleton, List.length_cons, decide_true, if_true]
    omega
  | publish =>
    obtain ⟨g, hw, -, rfl⟩ := publish_cases hstep
    simp only [left, runningServices, hw, Watcher.left, Event.cost, List.length_nil]
    omega
  | finish id | panic id =>
    have := left_endService names.length (by simp) hstep
    simp only [Event.cost]
    omega
  | take p =>
    obtain ⟨hp, -, ⟨g, hslot, rfl⟩ | ⟨-, rfl⟩⟩ := take_cases hstep
    · have hhandles := (h.published g hslot).2.length_le
      have hleft : left names.length
          ({ o with slot := none, guard := some p }.setStopping (.took g) p) + _ = _ :=
        left_setStopping names.length hp (.took g)
      simp only [Stopping.left, Event.cost] at hleft ⊢
      omega
    · have hleft : left names.length (o.stopped p) + _ = _ := left_stopped names.length hp
      simp only [Stopping.left, Event.cost] at hleft ⊢
      omega
  | cancel p =>
    obtain ⟨g, hp, rfl⟩ := cancel_cases hstep
    have hleft : left names.length ({ o with cancelled := g.shutdown :: o.cancelled }.setStopping
        (.joining g.handles.toList) p) + _ = _ :=
      left_setStopping names.length hp (.joining g.handles.toList)
    simp only [Stopping.left, Event.cost] at hleft ⊢
    omega
  | join p =>
    obtain ⟨name, id, handles, token, hp, ⟨-, rfl⟩ | ⟨-, rfl⟩⟩ := join_cases hstep
    · have hleft : left names.length
          ({ o with joined := id :: o.joined }.setStopping (.joining handles) p) + _ = _ :=
        left_setStopping names.length hp (.joining handles)
      simp only [Stopping.left, Event.cost, List.length_cons] at hleft ⊢
      omega
    · have hleft : left names.length
          ({ o with joined := id :: o.joined, guard := none }.panics p) + _ ≤ _ :=
        left_panics names.length hp
      simp only [Stopping.left, Event.cost, List.length_cons] at hleft ⊢
      omega
  | unlock p =>
    obtain ⟨hp, rfl⟩ := unlock_cases hstep
    have hleft : left names.length ({ o with guard := none }.stopped p) + _ = _ :=
      left_stopped names.length hp
    simp only [Stopping.left, Event.cost, List.length_nil] at hleft ⊢
    omega
  | stepDown =>
    simp only [step] at hstep
    split at hstep <;> cases hstep
    next hw _ =>
      simp only [left, runningServices, hw, Watcher.left, Stopping.left, Event.cost]
      omega
  | close =>
    simp only [step] at hstep
    split at hstep <;> cases hstep
    all_goals
      next hm hw =>
        simp only [left, runningServices, hw, hm, Watcher.left, Main.left, Event.cost]
        omega
  | parse ok | stopApplication ok | joinInternal ok | stopRaft ok =>
    simp only [step] at hstep
    split at hstep <;> cases hstep
    next hm =>
      cases ok <;>
        simp only [left, runningServices, hm, Main.left, Event.cost, if_true, Bool.false_eq_true,
          if_false] <;>
        omega
  | shutdown | joinStatic =>
    simp only [step] at hstep
    split at hstep <;> cases hstep
    next hm =>
      simp only [left, runningServices, hm, Main.left, Stopping.left, Event.cost]
      omega

end Orchestrator

/-- The server task ends once. -/
def ServerTask.left : ServerTask → ℕ
  | .notSpawned | .running => 1
  | .returned _ | .panicked => 0

namespace Process

open Orchestrator (Sound)

variable {names : List String} {p p' : Process} {tr : List Event}

/-- The static services that `join_next` has not returned. -/
def unjoined (p : Process) : Finset ℕ := (Finset.range p.statics.length).filter (· ∉ p.joined)

/-- The steps before the process, with `n` builders, if no election comes. -/
def left (n : ℕ) (p : Process) : ℕ :=
  p.core.left n + p.statics.countP (· = .running) + p.unjoined.card + p.server.left +
    if p.cancelled then 0 else 1

/-- What an event adds to the measure. -/
def Event.cost (n : ℕ) : Event → ℕ
  | .core e => e.cost n
  | _ => 0

theorem left_start (n services : ℕ) : (start services).left n = 2 * services + n + 13 := by
  have hcore : Orchestrator.start.left n = n + 11 := by
    simp [Orchestrator.left, Orchestrator.runningServices, Orchestrator.start, Watcher.left,
      Main.left]
  have hstatics :
      (List.replicate services TaskStatus.running).countP (· = .running) = services := by
    simp [List.countP_replicate]
  simp only [left, start, hcore, hstatics, unjoined, ServerTask.left]
  simp
  omega

/-- The server task has something before it only if the steps of `run` do. -/
theorem left_serverAfter (hsound : Sound names p.core) {e : Orchestrator.Event} {o : Orchestrator}
    (hstep : Orchestrator.step names p.core e = some o) :
    o.left names.length + (p.serverAfter e).left + 1 ≤
      p.core.left names.length + p.server.left + e.cost names.length := by
  have hleft := Orchestrator.left_step hsound hstep
  by_cases he : e = .parse true
  · subst he
    simp only [Orchestrator.step] at hstep
    split at hstep <;> cases hstep
    next hm =>
      simp only [Orchestrator.left, Orchestrator.runningServices, hm, Main.left, serverAfter,
        ServerTask.left, Orchestrator.Event.cost, if_true]
      omega
  · have hserver : p.serverAfter e = p.server := by
      unfold serverAfter
      split
      · exact absurd rfl he
      · rfl
    rw [hserver]
    omega

/-- **Every step lowers the measure**, but for the start of a start callback. -/
theorem left_step (hsound : Sound names p.core) {e : Event} (hstep : step names p e = some p') :
    p'.left names.length + 1 ≤ p.left names.length + e.cost names.length := by
  cases e with
  | core e =>
    obtain ⟨-, o, ho, rfl⟩ := core_cases hstep
    have hcore := left_serverAfter hsound ho
    simp only [left, unjoined, Event.cost]
    omega
  | cancelToken =>
    obtain ⟨hnot, rfl⟩ := cancelToken_cases hstep
    simp only [left, unjoined, hnot, Event.cost]
    simp
  | endStatic id status =>
    obtain ⟨hid, hne, -, rfl⟩ := endStatic_cases hstep
    have hset := List.countP_set_add_one (q := fun s => decide (s = TaskStatus.running)) hid
      (by simp) (b := status) (by simpa using hne)
    simp only [left, unjoined, List.length_set, Event.cost]
    omega
  | joinNext id =>
    obtain ⟨-, hnot, ⟨status, hid, -⟩, rfl⟩ := joinNext_cases hstep
    have hlt : (unjoined { p with joined := id :: p.joined }).card < p.unjoined.card := by
      refine Finset.card_lt_card (Finset.ssubset_iff_of_subset ?_ |>.2 ⟨id, ?_, ?_⟩)
      · intro i
        simp only [unjoined, Finset.mem_filter, List.mem_cons, not_or]
        exact fun h => ⟨h.1, h.2.2⟩
      · simpa [unjoined, hnot] using (List.getElem?_eq_some_iff.1 hid).1
      · simp [unjoined]
    simp only [left, Event.cost] at hlt ⊢
    omega
  | endServer outcome =>
    obtain ⟨hserver, hnot, hne, -, rfl⟩ := endServer_cases hstep
    have hzero : outcome.left = 0 := by
      cases outcome with
      | notSpawned => exact absurd rfl hnot
      | running => exact absurd rfl hne
      | returned ok => rfl
      | panicked => rfl
    have hone : ServerTask.running.left = 1 := rfl
    simp only [left, unjoined, hserver, hzero, hone, Event.cost]
    omega

theorem sound_step (hsound : Sound names p.core) {e : Event} (hstep : step names p e = some p') :
    Sound names p'.core := by
  cases e with
  | core e =>
    obtain ⟨-, o, ho, rfl⟩ := core_cases hstep
    exact hsound.step ho
  | cancelToken =>
    obtain ⟨-, rfl⟩ := cancelToken_cases hstep
    exact hsound
  | endStatic id status =>
    obtain ⟨-, -, -, rfl⟩ := endStatic_cases hstep
    exact hsound
  | joinNext id =>
    obtain ⟨-, -, -, rfl⟩ := joinNext_cases hstep
    exact hsound
  | endServer outcome =>
    obtain ⟨-, -, -, -, rfl⟩ := endServer_cases hstep
    exact hsound

theorem cost_sum (n : ℕ) (tr : List Event) :
    (tr.map (Event.cost n)).sum = (3 * n + 6) * tr.count (.core .becomeLeader) := by
  induction tr with
  | nil => rfl
  | cons e tr ih =>
    rw [List.map_cons, List.sum_cons, ih, List.count_cons]
    by_cases he : e = .core .becomeLeader
    · subst he
      simp only [Event.cost, Orchestrator.Event.cost, beq_self_eq_true, if_true]
      ring
    · have hcost : e.cost n = 0 := by
        cases e with
        | core e => cases e <;> first | rfl | exact absurd rfl he
        | _ => rfl
      simp [hcost, he]

/-- **A run cannot go on without elections.** Whatever the builders, the ends of the services and
of the server, and the outcomes of the calls, a run has at most so many steps for each start
callback, and so many besides. -/
theorem steps_bounded {services : ℕ}
    (hrun : Run.exec (step names) (start services) tr = some p) :
    tr.length ≤ 2 * services + names.length + 13 +
      (3 * names.length + 6) * tr.count (.core .becomeLeader) := by
  have hbound : tr.length + p.left names.length ≤
      (start services).left names.length + (tr.map (Event.cost names.length)).sum := by
    refine Run.exec_length_le (I := fun p => Sound names p.core) (fun p e p' hs hstep => ?_)
      (fun p e p' hs hstep => ?_) hrun Orchestrator.sound_start
    · exact sound_step hs hstep
    · exact left_step hs hstep
  rw [cost_sum, left_start] at hbound
  omega

/-- One election, one leader service and one static service. -/
theorem stopping_bounded :
    ∃ p, Run.exec (step ["service"]) (start 1) (serving ++ stopping) = some p ∧
      (serving ++ stopping).length ≤ 2 * 1 + 1 + 13 + 9 * 1 := by
  obtain ⟨p, hrun⟩ : ∃ p, Run.exec (step ["service"]) (start 1) (serving ++ stopping) = some p :=
    ⟨_, rfl⟩
  exact ⟨p, hrun, steps_bounded hrun⟩

end Process

end RaftService
