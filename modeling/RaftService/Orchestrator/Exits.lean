import RaftService.Orchestrator.Leaders
import RaftService.Orchestrator.Lock

/-!
# The exits of `run`

`run` leaves through the `?` of four fallible steps, or at its end: the parse of `rpc_url`, the
shutdown of the application, the await of the server task and the shutdown of raft. Each `?` skips
what comes after it.

* `Main.After`: which fallible steps have been taken, and how they have ended, where `run` is;
* `Tracked`: a generation that was published is cancelled, still in the shared `Option`, or with
  the task that has taken it;
* `shutsDown_iff`: `run` has shut everything down when it returns exactly when no step but the last
  one failed and every generation published was taken out again.
-/

namespace RaftService

namespace Orchestrator

/-- The steps of `run` that may fail. -/
def Event.fallible : Event → Bool
  | .parse _ | .stopApplication _ | .joinInternal _ | .stopRaft _ => true
  | _ => false

/-- How the fallible steps of `run` have ended, in order. -/
def outcomes (tr : List Event) : List Event := tr.filter Event.fallible

/-- A call of `application.shutdown`. -/
def Event.isStopApplication : Event → Bool
  | .stopApplication _ => true
  | _ => false

/-- A call of `raft.shutdown`. -/
def Event.isStopRaft : Event → Bool
  | .stopRaft _ => true
  | _ => false

/-- A start callback published this generation in the run. -/
def Published (names : List String) (tr : List Event) (g : Generation) : Prop :=
  ∃ t t' o, tr = t ++ .publish :: t' ∧ Run.exec (step names) start t = some o ∧
    o.watcher = .starting g []

/-- The node is shut down: `application.shutdown` and `raft.shutdown` were called once each, the
server task was awaited if it was spawned, which it is when `rpc_url` parses, and every generation
published is cancelled. -/
structure ShutsDown (names : List String) (tr : List Event) (o : Orchestrator) : Prop where
  application : tr.countP Event.isStopApplication = 1
  raft : tr.countP Event.isStopRaft = 1
  internal : .parse true ∈ tr → ∃ ok, .joinInternal ok ∈ tr
  generations : ∀ g, Published names tr g → g.shutdown ∈ o.cancelled

/-- `rpc_url` parses, and neither `application.shutdown` nor the server task fails. -/
def Unfailing (tr : List Event) : Prop :=
  .parse false ∉ tr ∧ .stopApplication false ∉ tr ∧ .joinInternal false ∉ tr

end Orchestrator

open Orchestrator (Event)

/-- `run` has spawned the server task, and has not called `application.shutdown` yet. -/
def Main.Serving : Main → Prop
  | .running | .stopping _ | .closing | .joiningStatic | .stoppingApplication | .panicked => True
  | _ => False

/-- The outcomes of the fallible steps on the way to where `run` is. -/
inductive Main.After : Main → List Event → Prop
  | launching : After .launching []
  | serving {main : Main} : main.Serving → After main [.parse true]
  | joiningInternal : After .joiningInternal [.parse true, .stopApplication true]
  | stoppingRaft : After .stoppingRaft [.parse true, .stopApplication true, .joinInternal true]
  | parse : After (.returned false) [.parse false]
  | application : After (.returned false) [.parse true, .stopApplication false]
  | internal :
      After (.returned false) [.parse true, .stopApplication true, .joinInternal false]
  | raft (ok : Bool) :
      After (.returned ok) [.parse true, .stopApplication true, .joinInternal true, .stopRaft ok]

theorem Main.After.eq_of_serving {main : Main} {l : List Event} (h : main.After l)
    (hm : main.Serving) : l = [.parse true] := by
  cases h with
  | serving _ => rfl
  | _ => cases hm

namespace Orchestrator

variable {names : List String} {o o' : Orchestrator} {tr : List Event}

/-! ### The fallible steps -/

theorem outcomes_snoc {e : Event} (he : e.fallible = true) :
    outcomes (tr ++ [e]) = outcomes tr ++ [e] := by
  simp [outcomes, he]

theorem outcomes_snoc_of_not {e : Event} (he : e.fallible = false) :
    outcomes (tr ++ [e]) = outcomes tr := by
  simp [outcomes, he]

theorem mem_outcomes {e : Event} (he : e.fallible = true) : e ∈ outcomes tr ↔ e ∈ tr := by
  simp [outcomes, he]

theorem countP_outcomes {p : Event → Bool} (hp : ∀ e, p e = true → e.fallible = true) :
    (outcomes tr).countP p = tr.countP p := by
  unfold outcomes
  rw [List.countP_filter]
  refine List.countP_congr fun e _ => ?_
  rw [Bool.and_eq_true]
  exact ⟨And.left, fun h => ⟨h, hp e h⟩⟩

/-- A step of `leader_services_shutdown` moves only the task that is in it. -/
theorem main_cases_of_stopping? {p : Party} {point : Stopping} (hp : o.stopping? p = some point)
    (hwatcher : p = .watcher → o'.main = o.main) (hmain : p = .main → o'.main.Serving) :
    o'.main = o.main ∨ (o.main.Serving ∧ o'.main.Serving) := by
  cases p with
  | watcher => exact Or.inl (hwatcher rfl)
  | main =>
    rw [stopping?_main] at hp
    exact Or.inr ⟨by rw [hp]; trivial, hmain rfl⟩

/-- Another step leaves `run` where it is, or takes it further while it is serving. -/
theorem main_cases {e : Event} (he : e.fallible = false) (hstep : step names o e = some o') :
    o'.main = o.main ∨ (o.main.Serving ∧ o'.main.Serving) := by
  cases e with
  | becomeLeader =>
    obtain ⟨-, rfl⟩ := becomeLeader_cases hstep
    exact Or.inl rfl
  | spawn =>
    obtain ⟨g, name, todo, -, rfl⟩ := spawn_cases hstep
    exact Or.inl rfl
  | publish =>
    obtain ⟨g, -, -, rfl⟩ := publish_cases hstep
    exact Or.inl rfl
  | finish id | panic id =>
    obtain ⟨token, -, rfl, -⟩ := endService_cases hstep
    exact Or.inl rfl
  | take p =>
    obtain ⟨hp, -, ⟨g, -, rfl⟩ | ⟨-, rfl⟩⟩ := take_cases hstep
    · exact main_cases_of_stopping? hp (by rintro rfl; rfl) (by rintro rfl; trivial)
    · exact main_cases_of_stopping? hp (by rintro rfl; rfl) (by rintro rfl; trivial)
  | cancel p =>
    obtain ⟨g, hp, rfl⟩ := cancel_cases hstep
    exact main_cases_of_stopping? hp (by rintro rfl; rfl) (by rintro rfl; trivial)
  | join p =>
    obtain ⟨name, id, handles, token, hp, ⟨-, rfl⟩ | ⟨-, rfl⟩⟩ := join_cases hstep
    · exact main_cases_of_stopping? hp (by rintro rfl; rfl) (by rintro rfl; trivial)
    · exact main_cases_of_stopping? hp (by rintro rfl; rfl) (by rintro rfl; trivial)
  | unlock p =>
    obtain ⟨hp, rfl⟩ := unlock_cases hstep
    exact main_cases_of_stopping? hp (by rintro rfl; rfl) (by rintro rfl; trivial)
  | stepDown =>
    simp only [step] at hstep
    split at hstep <;> cases hstep
    exact Or.inl rfl
  | shutdown | joinStatic =>
    simp only [step] at hstep
    split at hstep
    · next hm =>
      cases hstep
      exact Or.inr ⟨by rw [hm]; trivial, trivial⟩
    · cases hstep
  | close =>
    simp only [step] at hstep
    split at hstep
    · next hm _ =>
      cases hstep
      exact Or.inr ⟨by rw [hm]; trivial, trivial⟩
    · next hm _ =>
      cases hstep
      exact Or.inr ⟨by rw [hm]; trivial, trivial⟩
    · cases hstep
  | parse ok | stopApplication ok | joinInternal ok | stopRaft ok => cases he

/-- Every step keeps the account of the fallible steps. -/
theorem after_step (h : o.main.After (outcomes tr)) {e : Event}
    (hstep : step names o e = some o') : o'.main.After (outcomes (tr ++ [e])) := by
  cases he : e.fallible with
  | false =>
    rw [outcomes_snoc_of_not he]
    rcases main_cases he hstep with hmain | ⟨hmain, hmain'⟩
    · rw [hmain]
      exact h
    · rw [h.eq_of_serving hmain]
      exact .serving hmain'
  | true =>
    rw [outcomes_snoc he]
    generalize outcomes tr = l at h
    cases e with
    | parse ok =>
      obtain ⟨hm, hm'⟩ := parse_cases hstep
      rw [hm] at h
      rw [hm']
      cases h with
      | launching =>
        cases ok with
        | false => exact .parse
        | true => exact .serving trivial
      | serving hm => cases hm
    | stopApplication ok =>
      obtain ⟨hm, hm'⟩ := stopApplication_cases hstep
      rw [hm] at h
      rw [hm', h.eq_of_serving trivial]
      cases ok with
      | false => exact .application
      | true => exact .joiningInternal
    | joinInternal ok =>
      obtain ⟨hm, hm'⟩ := joinInternal_cases hstep
      rw [hm] at h
      rw [hm']
      cases h with
      | joiningInternal =>
        cases ok with
        | false => exact .internal
        | true => exact .stoppingRaft
      | serving hm => cases hm
    | stopRaft ok =>
      obtain ⟨hm, hm'⟩ := stopRaft_cases hstep
      rw [hm] at h
      rw [hm']
      cases h with
      | stoppingRaft => exact .raft ok
      | serving hm => cases hm
    | _ => cases he

theorem after_exec (hrun : Run.exec (step names) start tr = some o) :
    o.main.After (outcomes tr) :=
  Run.exec_induction (motive := fun tr o => o.main.After (outcomes tr)) .launching
    (fun _ _ _ _ _ h hstep => after_step h hstep) tr o hrun

/-- **Which calls an exit has made.** When `run` has returned, it has called `application.shutdown`
and `raft.shutdown` once each, and awaited the server task if it was spawned, exactly when no step
before the last one failed. -/
theorem calls_iff (hrun : Run.exec (step names) start tr = some o) {ok : Bool}
    (hret : o.main = .returned ok) :
    (tr.countP Event.isStopApplication = 1 ∧ tr.countP Event.isStopRaft = 1 ∧
      (.parse true ∈ tr → ∃ ok, .joinInternal ok ∈ tr)) ↔ Unfailing tr := by
  have h := after_exec hrun
  rw [hret] at h
  have hmem : ∀ e : Event, e.fallible = true → (e ∈ tr ↔ e ∈ outcomes tr) :=
    fun e he => (mem_outcomes he).symm
  unfold Unfailing
  rw [← countP_outcomes (p := Event.isStopApplication) (by rintro ⟨⟩ h <;> first | rfl | cases h),
    ← countP_outcomes (p := Event.isStopRaft) (by rintro ⟨⟩ h <;> first | rfl | cases h),
    hmem (.parse true) rfl, hmem (.parse false) rfl, hmem (.stopApplication false) rfl,
    hmem (.joinInternal false) rfl]
  simp only [hmem (.joinInternal _) rfl]
  -- each exit fixes the fallible steps taken, and with them the calls made
  generalize outcomes tr = l at h
  cases h with
  | parse => simp [Event.isStopApplication]
  | application => simp [Event.isStopRaft]
  | internal => simp [Event.isStopRaft]
  | raft ok => simp [List.countP_cons, Event.isStopApplication, Event.isStopRaft]
  | serving hm => cases hm

/-! ### The generations published -/

theorem published_snoc {e : Event} {g : Generation} :
    Published names (tr ++ [e]) g ↔ Published names tr g ∨ (e = .publish ∧
      ∃ o, Run.exec (step names) start tr = some o ∧ o.watcher = .starting g []) := by
  constructor
  · rintro ⟨t, t', o, heq, hrun, hw⟩
    rcases List.eq_nil_or_concat' t' with rfl | ⟨t', e', rfl⟩
    · obtain ⟨rfl, he⟩ := List.append_inj' heq rfl
      exact Or.inr ⟨List.singleton_inj.1 he, o, hrun, hw⟩
    · rw [← List.cons_append, ← List.append_assoc] at heq
      exact Or.inl ⟨t, t', o, (List.append_inj' heq rfl).1, hrun, hw⟩
  · rintro (⟨t, t', o, rfl, hrun, hw⟩ | ⟨rfl, o, hrun, hw⟩)
    · exact ⟨t, t' ++ [e], o, by simp, hrun, hw⟩
    · exact ⟨tr, [], o, rfl, hrun, hw⟩

theorem published_snoc_of_ne {e : Event} (he : e ≠ .publish) {g : Generation} :
    Published names (tr ++ [e]) g ↔ Published names tr g := by
  rw [published_snoc]
  exact or_iff_left fun h => he h.1

/-- A generation that was published is cancelled, in the shared `Option`, or with the task that has
taken it; and what is in the `Option` was published. -/
structure Tracked (names : List String) (tr : List Event) (o : Orchestrator) : Prop where
  place : ∀ g, Published names tr g → g.shutdown ∈ o.cancelled ∨ o.slot = some g ∨
    ∃ p, o.stopping? p = some (.took g)
  slot : ∀ g, o.slot = some g → Published names tr g

theorem tracked_start : Tracked names [] start where
  place := by
    rintro g ⟨t, t', o, h, -⟩
    cases t <;> cases h
  slot := by simp [start]

/-- A step with which no generation moves. -/
theorem Tracked.frame (h : Tracked names tr o) {e : Event} (he : e ≠ .publish)
    (hslot : o'.slot = o.slot) (hcancelled : o'.cancelled = o.cancelled)
    (htook : ∀ p g, o.stopping? p = some (.took g) → o'.stopping? p = some (.took g)) :
    Tracked names (tr ++ [e]) o' where
  place g hg := by
    rw [published_snoc_of_ne he] at hg
    rw [hslot, hcancelled]
    refine (h.place g hg).imp_right (Or.imp_right ?_)
    rintro ⟨p, hp⟩
    exact ⟨p, htook p g hp⟩
  slot g hg := by
    rw [published_snoc_of_ne he]
    exact h.slot g (hslot ▸ hg)

/-- The start callback publishes: the `Option` was empty, and no task had a generation. -/
theorem Tracked.publish (h : Tracked names tr o) (hsound : Sound names o)
    (hrun : Run.exec (step names) start tr = some o) (hstep : step names o .publish = some o') :
    Tracked names (tr ++ [.publish]) o' := by
  obtain ⟨g, hw, -, rfl⟩ := publish_cases hstep
  obtain ⟨hslot, hnot⟩ := hsound.between (by rw [hw]; trivial)
  constructor
  · intro g' hg'
    rcases published_snoc.1 hg' with hg' | ⟨-, o', hrun', hw'⟩
    · rcases h.place g' hg' with hc | hs | ⟨p, hp⟩
      · exact Or.inl hc
      · rw [hslot] at hs
        cases hs
      · exact absurd ⟨_, hp, by simp⟩ (hnot p)
    · rw [hrun] at hrun'
      cases hrun'
      rw [hw] at hw'
      cases hw'
      exact Or.inr (Or.inl rfl)
  · intro g' hg'
    cases hg'
    exact published_snoc.2 (Or.inr ⟨rfl, o, hrun, hw⟩)

/-- A task takes the generation. -/
theorem Tracked.take (h : Tracked names tr o) (hsound : Sound names o) {p : Party}
    (hstep : step names o (.take p) = some o') : Tracked names (tr ++ [.take p]) o' := by
  obtain ⟨-, hguard, hcases⟩ := take_cases hstep
  have hplace : ∀ g, Published names (tr ++ [.take p]) g →
      g.shutdown ∈ o.cancelled ∨ o.slot = some g := by
    intro g hg
    rw [published_snoc_of_ne (by simp)] at hg
    rcases h.place g hg with hc | hs | ⟨q, hq⟩
    · exact Or.inl hc
    · exact Or.inr hs
    · exact absurd ⟨_, hq, by simp⟩ (not_holds hsound.guard hguard q)
  rcases hcases with ⟨g, hslot, rfl⟩ | ⟨hslot, rfl⟩
  · constructor
    · intro g' hg'
      rw [cancelled_setStopping]
      refine (hplace g' hg').imp_right fun hs => Or.inr ⟨p, ?_⟩
      rw [hslot] at hs
      cases hs
      exact stopping?_setStopping _ _
    · intro g' hg'
      rw [slot_setStopping] at hg'
      cases hg'
  · constructor
    · intro g' hg'
      rcases hplace g' hg' with hc | hs
      · exact Or.inl (by rw [cancelled_stopped]; exact hc)
      · rw [hslot] at hs
        cases hs
    · intro g' hg'
      rw [slot_stopped, hslot] at hg'
      cases hg'

/-- A task cancels the generation it has taken. -/
theorem Tracked.cancel (h : Tracked names tr o) (hsound : Sound names o) {p : Party}
    (hstep : step names o (.cancel p) = some o') : Tracked names (tr ++ [.cancel p]) o' := by
  obtain ⟨g, hp, rfl⟩ := cancel_cases hstep
  have hholds : o.Holds p := ⟨_, hp, by simp⟩
  have hslot := hsound.held p hholds
  constructor
  · intro g' hg'
    rw [published_snoc_of_ne (by simp)] at hg'
    rw [cancelled_setStopping]
    rcases h.place g' hg' with hc | hs | ⟨q, hq⟩
    · exact Or.inl (List.mem_cons_of_mem _ hc)
    · rw [hslot] at hs
      cases hs
    · obtain rfl := holds_unique hsound.guard hholds ⟨_, hq, by simp⟩
      rw [hp] at hq
      cases hq
      exact Or.inl List.mem_cons_self
  · intro g' hg'
    rw [slot_setStopping] at hg'
    exact absurd (hslot.symm.trans hg') (by simp)

/-- The watcher moves outside of `leader_services_shutdown`. -/
theorem took_of_main_eq {p : Party} {g : Generation} (hp : o.stopping? p = some (.took g))
    (hw : ∀ point, o.watcher ≠ .stopping point) (hmain : o'.main = o.main) :
    o'.stopping? p = some (.took g) := by
  cases p with
  | watcher => exact absurd (stopping?_watcher.1 hp) (hw _)
  | main =>
    rw [stopping?_main] at hp ⊢
    rw [hmain]
    exact hp

/-- A task goes on awaiting handles, or is done with them; the other one stays where it is. -/
theorem took_of_joining {p q : Party} {handles : List (String × ℕ)} {g : Generation}
    {point : Option Stopping} (hp : o.stopping? p = some (.joining handles))
    (hpoint : ∀ q, o'.stopping? q = if q = p then point else o.stopping? q)
    (hq : o.stopping? q = some (.took g)) : o'.stopping? q = some (.took g) := by
  rw [hpoint]
  by_cases hqp : q = p
  · rw [hqp, hp] at hq
    cases hq
  · rw [if_neg hqp]
    exact hq

/-- **Every step keeps track of the generations.** -/
theorem Tracked.step (h : Tracked names tr o) (hsound : Sound names o)
    (hrun : Run.exec (Orchestrator.step names) start tr = some o) {e : Event}
    (hstep : Orchestrator.step names o e = some o') : Tracked names (tr ++ [e]) o' := by
  cases e with
  | publish => exact h.publish hsound hrun hstep
  | take p => exact h.take hsound hstep
  | cancel p => exact h.cancel hsound hstep
  | becomeLeader =>
    obtain ⟨hw, rfl⟩ := becomeLeader_cases hstep
    exact h.frame (by simp) rfl rfl fun p g hp => took_of_main_eq hp (by simp [hw]) rfl
  | spawn =>
    obtain ⟨g, name, todo, hw, rfl⟩ := spawn_cases hstep
    exact h.frame (by simp) rfl rfl fun p g hp => took_of_main_eq hp (by simp [hw]) rfl
  | join p =>
    obtain ⟨name, id, handles, token, hp, ⟨-, rfl⟩ | ⟨-, rfl⟩⟩ := join_cases hstep
    · obtain ⟨w, m, heq, hpoint, -⟩ :=
        setStopping_eq { o with joined := id :: o.joined } (.joining handles) p
      rw [heq]
      exact h.frame (by simp) rfl rfl fun q g hq => took_of_joining hp hpoint hq
    · obtain ⟨w, m, heq, hpoint, -⟩ :=
        panics_eq { o with joined := id :: o.joined, guard := none } p
      rw [heq]
      exact h.frame (by simp) rfl rfl fun q g hq => took_of_joining hp hpoint hq
  | unlock p =>
    obtain ⟨hp, rfl⟩ := unlock_cases hstep
    obtain ⟨w, m, heq, hpoint, -⟩ := stopped_eq { o with guard := none } p
    rw [heq]
    exact h.frame (by simp) rfl rfl fun q g hq => took_of_joining hp hpoint hq
  | finish id | panic id =>
    obtain ⟨token, -, rfl, -⟩ := endService_cases hstep
    exact h.frame (by simp) rfl rfl fun p g hp => by cases p <;> exact hp
  | stepDown | close | parse ok | shutdown | joinStatic | stopApplication ok | joinInternal ok
  | stopRaft ok =>
    obtain ⟨watcher, main, rfl, hmoves⟩ := outside_cases (by trivial) hstep
    exact h.frame (by simp) rfl rfl fun p g hp => (hmoves.stopping?_iff p (by simp)).2 hp

/-! ### The exits -/

/-- The watcher is closed once `raft.shutdown` has been called. -/
theorem closed_of_stopRaft (hrun : Run.exec (Orchestrator.step names) start tr = some o)
    (hraft : ∃ ok, .stopRaft ok ∈ tr) : o.watcher = .closed := by
  have hclosed : (o.main.PastClose → o.watcher = .closed) ∧
      ((∃ ok, .stopRaft ok ∈ tr) → o.watcher = .closed) := by
    refine Run.exec_induction
      (motive := fun tr o => (o.main.PastClose → o.watcher = .closed) ∧
        ((∃ ok, .stopRaft ok ∈ tr) → o.watcher = .closed))
      ⟨fun h => h.elim, by simp⟩ (fun tr o e o' _ ih hstep => ?_) tr o hrun
    refine ⟨closed_step ih.1 hstep, ?_⟩
    rintro ⟨ok, hmem⟩
    rcases List.mem_append.1 hmem with hmem | hmem
    · exact closed_of_closed (ih.2 ⟨ok, hmem⟩) hstep
    · obtain rfl := List.mem_singleton.1 hmem
      obtain ⟨hm, -⟩ := stopRaft_cases hstep
      exact closed_of_closed (ih.1 (by rw [hm]; trivial)) hstep
  exact hclosed.2 hraft

theorem exists_stopRaft (h : tr.countP Event.isStopRaft = 1) : ∃ ok, .stopRaft ok ∈ tr := by
  obtain ⟨e, he, hraft⟩ := List.countP_pos_iff.1 (h ▸ Nat.one_pos)
  cases e with
  | stopRaft ok => exact ⟨ok, he⟩
  | _ => cases hraft

theorem tracked_exec (hrun : Run.exec (Orchestrator.step names) start tr = some o) :
    Tracked names tr o :=
  Run.exec_induction (motive := fun tr o => Tracked names tr o) tracked_start
    (fun _ _ _ _ hrun h hstep => h.step (sound_exec hrun) hrun hstep) tr o hrun

theorem slot_exec (hrun : Run.exec (Orchestrator.step names) start tr = some o) :
    o.slot = none ↔ EveryPublishTaken tr :=
  Run.exec_induction (motive := fun tr o => o.slot = none ↔ EveryPublishTaken tr)
    (by simp [start]) (fun _ _ _ _ _ h hstep => slot_step h hstep) tr o hrun

/-- When `run` has returned and the watcher is closed, the generation in the `Option` is the only
one that was published and is not cancelled. -/
theorem cancelled_iff_slot (hrun : Run.exec (Orchestrator.step names) start tr = some o) {ok : Bool}
    (hret : o.main = .returned ok) (hw : o.watcher = .closed) :
    (∀ g, Published names tr g → g.shutdown ∈ o.cancelled) ↔ o.slot = none := by
  have htracked := tracked_exec hrun
  constructor
  · intro hall
    by_contra hslot
    -- what is in the `Option` was published, and its token is fresh
    obtain ⟨g, hg⟩ := Option.ne_none_iff_exists'.1 hslot
    exact ((sound_exec hrun).published g hg).1.2 (hall g (htracked.slot g hg))
  · intro hslot g hg
    rcases htracked.place g hg with hc | hs | ⟨p, hp⟩
    · exact hc
    · rw [hslot] at hs
      cases hs
    · cases p with
      | watcher =>
        rw [stopping?_watcher, hw] at hp
        cases hp
      | main =>
        rw [stopping?_main, hret] at hp
        cases hp

/-- **When an exit of `run` shuts the node down.** For all builders and every run, whatever the
outcomes of the fallible steps and the ends of the services: when `run` has returned, be it `Ok` or
`Err`, both shutdowns have been called exactly once, the server task has been awaited if it was
spawned, and every generation published is cancelled, exactly when `rpc_url` parses,
neither `application.shutdown` nor the server task fails, and every generation that a start
callback published was taken out of the `Option` later. -/
theorem shutsDown_iff (hrun : Run.exec (Orchestrator.step names) start tr = some o) {ok : Bool}
    (hret : o.main = .returned ok) :
    ShutsDown names tr o ↔ Unfailing tr ∧ EveryPublishTaken tr := by
  have hcalls := calls_iff hrun hret
  rw [← slot_exec hrun]
  constructor
  · intro h
    have hw := closed_of_stopRaft hrun (exists_stopRaft h.raft)
    exact ⟨hcalls.1 ⟨h.application, h.raft, h.internal⟩,
      (cancelled_iff_slot hrun hret hw).1 h.generations⟩
  · rintro ⟨hunfailing, hslot⟩
    obtain ⟨happlication, hraft, hinternal⟩ := hcalls.2 hunfailing
    have hw := closed_of_stopRaft hrun (exists_stopRaft hraft)
    exact
      { application := happlication
        raft := hraft
        internal := hinternal
        generations := (cancelled_iff_slot hrun hret hw).2 hslot }

/-- A leader that serves until the shutdown is shut down. -/
theorem serve_shutsDown :
    ∃ o, Run.exec (Orchestrator.step ["service"]) start serve = some o ∧
      o.main = .returned true ∧ ShutsDown ["service"] serve o := by
  have hunfailing : Unfailing serve := by simp [Unfailing, serve]
  have htaken : EveryPublishTaken serve := by simp [serve]
  exact ⟨_, rfl, rfl, (shutsDown_iff rfl rfl).2 ⟨hunfailing, htaken⟩⟩

/-- `application.shutdown` fails. -/
def applicationFails : List Event :=
  [.parse true, .shutdown, .take .main, .close, .joinStatic, .stopApplication false]

/-- The server task has failed or panicked. -/
def serverFails : List Event :=
  [.parse true, .shutdown, .take .main, .close, .joinStatic, .stopApplication true,
    .joinInternal false]

/-- With an `rpc_url` that does not parse, nothing is shut down; when `application.shutdown` fails,
the server task is not awaited and raft not shut down; when the server task fails, raft is not
shut down. -/
theorem earlyExits_leave :
    (∃ o, Run.exec (Orchestrator.step []) start [.parse false] = some o ∧
      o.main = .returned false ∧ ¬ ShutsDown [] [.parse false] o) ∧
    (∃ o, Run.exec (Orchestrator.step []) start applicationFails = some o ∧
      o.main = .returned false ∧ ¬ ShutsDown [] applicationFails o) ∧
    ∃ o, Run.exec (Orchestrator.step []) start serverFails = some o ∧
      o.main = .returned false ∧ ¬ ShutsDown [] serverFails o := by
  refine ⟨⟨_, rfl, rfl, fun h => ?_⟩, ⟨_, rfl, rfl, fun h => ?_⟩, ⟨_, rfl, rfl, fun h => ?_⟩⟩
  · exact absurd h.application (by decide)
  · exact absurd h.raft (by decide)
  · exact absurd h.raft (by decide)

end Orchestrator

end RaftService
