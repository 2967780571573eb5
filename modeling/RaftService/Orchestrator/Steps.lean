import RaftService.Orchestrator.Machine

/-!
# The steps of the orchestrator

What each step of the two tasks does: one lemma for each event of `leader_services_shutdown`, one
for the end of a service, one for each fallible step of `run`, and one for the events outside of
the calls (`Moves`). The invariants of the runs are proved from these.
-/

namespace RaftService

/-- The services of a generation whose handles are kept. -/
def Generation.ids (g : Generation) : List ℕ := g.handles.toList.map Prod.snd

/-- `run` is not in `leader_services_shutdown`, or has not got the lock yet. -/
def Main.Quiet (main : Main) : Prop := ∀ point, main = .stopping point → point = .locking

/-- The watcher task runs no start callback, and is not in `leader_services_shutdown`, or has not
got the lock yet. -/
def Watcher.Quiet (watcher : Watcher) : Prop :=
  (∀ g todo, watcher ≠ .starting g todo) ∧
    ∀ point, watcher = .stopping point → point = .locking

/-- Between the moment a stop callback has the lock and the publication of the next generation. -/
def Watcher.Busy : Watcher → Prop
  | .idle false => True
  | .starting _ _ => True
  | .stopping (.took _) => True
  | .stopping (.joining _) => True
  | _ => False

/-- The watcher runs a start callback, or the next callback is one. -/
def Watcher.Between : Watcher → Prop
  | .idle false => True
  | .starting _ _ => True
  | _ => False

theorem Watcher.Between.busy {watcher : Watcher} (h : watcher.Between) : watcher.Busy := by
  rcases watcher with (_ | _) | _ | _ | _ | _
  case idle.true => cases h
  case stopping => cases h
  case panicked => cases h
  case closed => cases h
  all_goals trivial

theorem Watcher.quiet_of_not_busy {watcher : Watcher} (h : ¬ watcher.Busy) : watcher.Quiet := by
  constructor
  · rintro g todo rfl
    exact h trivial
  · rintro (_ | _ | _) rfl
    · rfl
    · exact absurd trivial h
    · exact absurd trivial h

namespace Orchestrator

/-- The tokens given to services. -/
def given (o : Orchestrator) : List ℕ := o.services.map LeaderService.token

/-- The task is in `leader_services_shutdown` with the lock. -/
def Holds (o : Orchestrator) (p : Party) : Prop :=
  ∃ point, o.stopping? p = some point ∧ point ≠ .locking

/-- The watcher and `run` move, and neither of them has the lock, nor begins or ends a start
callback. -/
structure Moves (o : Orchestrator) (watcher : Watcher) (main : Main) : Prop where
  watcher : watcher = o.watcher ∨ o.watcher.Quiet ∧ ¬ watcher.Busy
  main : main = o.main ∨ o.main.Quiet ∧ main.Quiet

/-- The events that begin no generation and are not steps of a call that has the lock. -/
def Event.Outside : Event → Prop
  | .stepDown | .parse _ | .shutdown | .close | .joinStatic => True
  | .stopApplication _ | .joinInternal _ | .stopRaft _ => True
  | _ => False

variable {names : List String} {o o' : Orchestrator} {p : Party}

/-- One task has the lock at most. -/
theorem holds_unique (hguard : ∀ p, o.guard = some p ↔ o.Holds p) {q : Party} (hp : o.Holds p)
    (hq : o.Holds q) : p = q := by
  have := (hguard p).2 hp
  rw [(hguard q).2 hq] at this
  exact (Option.some.inj this).symm

theorem not_holds (hguard : ∀ p, o.guard = some p ↔ o.Holds p) (hnone : o.guard = none)
    (p : Party) : ¬ o.Holds p := by
  intro hp
  have := (hguard p).2 hp
  rw [hnone] at this
  cases this

/-! ### What a task leaves as it is -/

theorem stopping?_watcher {point : Stopping} :
    o.stopping? .watcher = some point ↔ o.watcher = .stopping point := by
  cases hw : o.watcher <;> simp [stopping?, hw]

theorem stopping?_main {point : Stopping} :
    o.stopping? .main = some point ↔ o.main = .stopping point := by
  cases hm : o.main <;> simp [stopping?, hm]

@[simp] theorem stopping?_setStopping (point : Stopping) (p : Party) :
    (o.setStopping point p).stopping? p = some point := by
  cases p <;> rfl

@[simp] theorem services_setStopping (point : Stopping) (p : Party) :
    (o.setStopping point p).services = o.services := by
  cases p <;> rfl

@[simp] theorem cancelled_setStopping (point : Stopping) (p : Party) :
    (o.setStopping point p).cancelled = o.cancelled := by
  cases p <;> rfl

@[simp] theorem joined_setStopping (point : Stopping) (p : Party) :
    (o.setStopping point p).joined = o.joined := by
  cases p <;> rfl

@[simp] theorem given_setStopping (point : Stopping) (p : Party) :
    (o.setStopping point p).given = o.given := by
  cases p <;> rfl

@[simp] theorem guard_setStopping (point : Stopping) (p : Party) :
    (o.setStopping point p).guard = o.guard := by
  cases p <;> rfl

@[simp] theorem guard_stopped (p : Party) : (o.stopped p).guard = o.guard := by
  cases p <;> rfl

@[simp] theorem guard_panics (p : Party) : (o.panics p).guard = o.guard := by
  cases p <;> rfl

@[simp] theorem slot_setStopping (point : Stopping) (p : Party) :
    (o.setStopping point p).slot = o.slot := by
  cases p <;> rfl

@[simp] theorem slot_stopped (p : Party) : (o.stopped p).slot = o.slot := by
  cases p <;> rfl

@[simp] theorem cancelled_stopped (p : Party) : (o.stopped p).cancelled = o.cancelled := by
  cases p <;> rfl

@[simp] theorem slot_panics (p : Party) : (o.panics p).slot = o.slot := by
  cases p <;> rfl

/-- A task that moves within `leader_services_shutdown` moves only itself. -/
theorem setStopping_eq (o : Orchestrator) (point : Stopping) (p : Party) :
    ∃ w m, o.setStopping point p = { o with watcher := w, main := m } ∧
      (∀ q, stopping? { o with watcher := w, main := m } q =
        if q = p then some point else o.stopping? q) ∧
      (w.Between → o.watcher.Between) ∧
      ∀ g todo, w = .starting g todo → o.watcher = .starting g todo := by
  cases p with
  | watcher =>
    refine ⟨.stopping point, o.main, rfl, ?_, fun h => h.elim, by simp⟩
    intro q
    cases q <;> rfl
  | main =>
    refine ⟨o.watcher, .stopping point, rfl, ?_, fun h => h, fun _ _ h => h⟩
    intro q
    cases q <;> rfl

/-- So does a task that panics. -/
theorem panics_eq (o : Orchestrator) (p : Party) :
    ∃ w m, o.panics p = { o with watcher := w, main := m } ∧
      (∀ q, stopping? { o with watcher := w, main := m } q =
        if q = p then none else o.stopping? q) ∧
      (w.Between → o.watcher.Between) ∧
      ∀ g todo, w = .starting g todo → o.watcher = .starting g todo := by
  cases p with
  | watcher =>
    refine ⟨.panicked, o.main, rfl, ?_, fun h => h.elim, by simp⟩
    intro q
    cases q <;> rfl
  | main =>
    refine ⟨o.watcher, .panicked, rfl, ?_, fun h => h, fun _ _ h => h⟩
    intro q
    cases q <;> rfl

/-- And so does a task whose call returns. -/
theorem stopped_eq (o : Orchestrator) (p : Party) :
    ∃ w m, o.stopped p = { o with watcher := w, main := m } ∧
      (∀ q, stopping? { o with watcher := w, main := m } q =
        if q = p then none else o.stopping? q) ∧
      ∀ g todo, w = .starting g todo → o.watcher = .starting g todo := by
  cases p with
  | watcher =>
    refine ⟨.idle false, o.main, rfl, ?_, by simp⟩
    intro q
    cases q <;> rfl
  | main =>
    refine ⟨o.watcher, .closing, rfl, ?_, fun _ _ h => h⟩
    intro q
    cases q <;> rfl

/-! ### The start callback -/

theorem becomeLeader_cases (hstep : step names o .becomeLeader = some o') :
    o.watcher = .idle false ∧ o' = { o with
      watcher := .starting ⟨o.tokens, SortedMap.empty⟩ names
      tokens := o.tokens + 1 } := by
  simp only [step] at hstep
  split at hstep
  · next hw _ => exact ⟨hw, (Option.some.inj hstep).symm⟩
  · cases hstep

theorem spawn_cases (hstep : step names o .spawn = some o') :
    ∃ g name todo, o.watcher = .starting g (name :: todo) ∧ o' = { o with
      services := o.services ++ [⟨g.shutdown, .running⟩]
      watcher :=
        .starting { g with handles := g.handles.insert name o.services.length } todo } := by
  simp only [step] at hstep
  split at hstep
  · next g name todo hw => exact ⟨g, name, todo, hw, (Option.some.inj hstep).symm⟩
  · cases hstep

theorem publish_cases (hstep : step names o .publish = some o') :
    ∃ g, o.watcher = .starting g [] ∧ o.guard = none ∧
      o' = { o with slot := some g, watcher := .idle true } := by
  simp only [step] at hstep
  split at hstep
  · next g hw hguard => exact ⟨g, hw, hguard, (Option.some.inj hstep).symm⟩
  · cases hstep

/-! ### `leader_services_shutdown` -/

theorem take_cases (hstep : step names o (.take p) = some o') :
    o.stopping? p = some .locking ∧ o.guard = none ∧
      ((∃ g, o.slot = some g ∧
        o' = { o with slot := none, guard := some p }.setStopping (.took g) p) ∨
      (o.slot = none ∧ o' = o.stopped p)) := by
  simp only [step] at hstep
  split at hstep
  · next hpoint hguard =>
    refine ⟨hpoint, hguard, ?_⟩
    split at hstep
    · next g hslot => exact Or.inl ⟨g, hslot, (Option.some.inj hstep).symm⟩
    · next hslot => exact Or.inr ⟨hslot, (Option.some.inj hstep).symm⟩
  · cases hstep

theorem cancel_cases (hstep : step names o (.cancel p) = some o') :
    ∃ g, o.stopping? p = some (.took g) ∧
      o' = { o with cancelled := g.shutdown :: o.cancelled }.setStopping
        (.joining g.handles.toList) p := by
  simp only [step] at hstep
  split at hstep
  · next g hpoint => exact ⟨g, hpoint, (Option.some.inj hstep).symm⟩
  · cases hstep

theorem join_cases (hstep : step names o (.join p) = some o') :
    ∃ name id handles token, o.stopping? p = some (.joining ((name, id) :: handles)) ∧
      ((o.services[id]? = some ⟨token, .finished⟩ ∧
        o' = { o with joined := id :: o.joined }.setStopping (.joining handles) p) ∨
      (o.services[id]? = some ⟨token, .panicked⟩ ∧
        o' = { o with joined := id :: o.joined, guard := none }.panics p)) := by
  simp only [step] at hstep
  split at hstep
  · next name id handles hpoint =>
    split at hstep
    · next token hid =>
      exact ⟨name, id, handles, token, hpoint, Or.inl ⟨hid, (Option.some.inj hstep).symm⟩⟩
    · next token hid =>
      exact ⟨name, id, handles, token, hpoint, Or.inr ⟨hid, (Option.some.inj hstep).symm⟩⟩
    · cases hstep
  · cases hstep

theorem unlock_cases (hstep : step names o (.unlock p) = some o') :
    o.stopping? p = some (.joining []) ∧ o' = { o with guard := none }.stopped p := by
  simp only [step] at hstep
  split at hstep
  · next hpoint => exact ⟨hpoint, (Option.some.inj hstep).symm⟩
  · cases hstep

/-- A service ends; no token changes. -/
theorem endService_cases {id : ℕ} {status : TaskStatus}
    (hstep : o.endService id status = some o') :
    ∃ token, o.services[id]? = some ⟨token, .running⟩ ∧
      o' = { o with services := o.services.set id ⟨token, status⟩ } ∧ o'.given = o.given := by
  unfold endService at hstep
  split at hstep
  · next token hid =>
    cases hstep
    refine ⟨token, hid, rfl, ?_⟩
    refine List.ext_getElem? fun i => ?_
    rw [given, given, List.getElem?_map, List.getElem?_map, List.getElem?_set]
    split_ifs with hi hlt
    · rw [← hi, hid]
      rfl
    · exact absurd (List.getElem?_eq_some_iff.1 hid).1 (hi ▸ hlt)
    · rfl
  · cases hstep

/-! ### The fallible steps of `run` -/

theorem parse_cases {ok : Bool} (hstep : step names o (.parse ok) = some o') :
    o.main = .launching ∧ o'.main = if ok then .running else .returned false := by
  simp only [step] at hstep
  split at hstep
  · next hm =>
    cases hstep
    exact ⟨hm, rfl⟩
  · cases hstep

theorem stopApplication_cases {ok : Bool} (hstep : step names o (.stopApplication ok) = some o') :
    o.main = .stoppingApplication ∧
      o'.main = if ok then .joiningInternal else .returned false := by
  simp only [step] at hstep
  split at hstep
  · next hm =>
    cases hstep
    exact ⟨hm, rfl⟩
  · cases hstep

theorem joinInternal_cases {ok : Bool} (hstep : step names o (.joinInternal ok) = some o') :
    o.main = .joiningInternal ∧ o'.main = if ok then .stoppingRaft else .returned false := by
  simp only [step] at hstep
  split at hstep
  · next hm =>
    cases hstep
    exact ⟨hm, rfl⟩
  · cases hstep

theorem stopRaft_cases {ok : Bool} (hstep : step names o (.stopRaft ok) = some o') :
    o.main = .stoppingRaft ∧ o'.main = .returned ok := by
  simp only [step] at hstep
  split at hstep
  · next hm =>
    cases hstep
    exact ⟨hm, rfl⟩
  · cases hstep

/-! ### Outside of the calls -/

theorem outside_cases {e : Event} (he : e.Outside) (hstep : step names o e = some o') :
    ∃ watcher main, o' = { o with watcher := watcher, main := main } ∧ o.Moves watcher main := by
  cases e with
  | stepDown =>
    simp only [step] at hstep
    split at hstep
    · next hw _ =>
      cases hstep
      refine ⟨.stopping .locking, o.main, rfl, Or.inr ⟨?_, fun hb => hb.elim⟩, Or.inl rfl⟩
      simp [Watcher.Quiet, hw]
    · cases hstep
  | close =>
    simp only [step] at hstep
    split at hstep
    · next b hm hw =>
      cases hstep
      refine ⟨.closed, .joiningStatic, rfl, Or.inr ⟨?_, fun hb => hb.elim⟩, Or.inr ?_⟩
      · simp [Watcher.Quiet, hw]
      · simp [Main.Quiet, hm]
    · next hm hw =>
      cases hstep
      refine ⟨.closed, .joiningStatic, rfl, Or.inr ⟨?_, fun hb => hb.elim⟩, Or.inr ?_⟩
      · simp [Watcher.Quiet, hw]
      · simp [Main.Quiet, hm]
    · cases hstep
  | parse ok | shutdown | joinStatic | stopApplication ok | joinInternal ok | stopRaft ok =>
    simp only [step] at hstep
    split at hstep
    · next hm =>
      cases hstep
      refine ⟨o.watcher, _, rfl, Or.inl rfl, Or.inr ⟨by simp [Main.Quiet, hm], ?_⟩⟩
      try split
      all_goals simp [Main.Quiet]
    · cases hstep
  | _ => exact he.elim

section Moves

variable {watcher : Watcher} {main : Main}

theorem Moves.stopping?_iff (h : o.Moves watcher main) (q : Party) {point : Stopping}
    (hne : point ≠ .locking) :
    stopping? { o with watcher := watcher, main := main } q = some point ↔
      o.stopping? q = some point := by
  cases q with
  | watcher =>
    rw [stopping?_watcher, stopping?_watcher]
    rcases h.watcher with rfl | ⟨hold, hnew⟩
    · exact Iff.rfl
    · constructor
      · intro hw
        exact absurd ((Watcher.quiet_of_not_busy hnew).2 point hw) hne
      · intro hw
        exact absurd (hold.2 point hw) hne
  | main =>
    rw [stopping?_main, stopping?_main]
    rcases h.main with rfl | ⟨hold, hnew⟩
    · exact Iff.rfl
    · constructor
      · intro hm
        exact absurd (hnew point hm) hne
      · intro hm
        exact absurd (hold point hm) hne

theorem Moves.holds_iff (h : o.Moves watcher main) (q : Party) :
    Holds { o with watcher := watcher, main := main } q ↔ o.Holds q := by
  constructor
  · rintro ⟨point, hq, hne⟩
    exact ⟨point, (h.stopping?_iff q hne).1 hq, hne⟩
  · rintro ⟨point, hq, hne⟩
    exact ⟨point, (h.stopping?_iff q hne).2 hq, hne⟩

theorem Moves.watcher_eq (h : o.Moves watcher main) (hb : watcher.Busy) : watcher = o.watcher := by
  rcases h.watcher with rfl | ⟨-, hnot⟩
  · rfl
  · exact absurd hb hnot

end Moves

end Orchestrator

end RaftService
