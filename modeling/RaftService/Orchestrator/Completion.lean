import RaftService.Orchestrator.Bound

/-!
# No wait of the shutdown is a deadlock

`run` waits for a lock that the watcher may have, for the watcher, for services and for the server
task. Whatever state a process has come to, once the token is cancelled some step is left until
`run` is over, provided that services end when their token is cancelled and that the server task
returns then, too.

* `Live`: the invariant of all runs;
* `call_goes_on`: a task in `leader_services_shutdown` does not wait in vain;
* `Healthy`: the invariant of the runs without a failure;
* `Live.goes_on`: some step can be taken.
-/

namespace RaftService

/-- `run` has not closed the watcher. -/
def Main.BeforeClose : Main → Prop
  | .launching | .running | .stopping _ | .closing => True
  | _ => False

namespace Orchestrator

variable {names : List String} {o o' : Orchestrator} {p : Party}

/-- No step but `close` closes the watcher. -/
theorem closed_cases {e : Event} (hstep : step names o e = some o') (hw : o'.watcher = .closed) :
    o.watcher = .closed ∨ e = .close := by
  cases e with
  | close => exact Or.inr rfl
  | becomeLeader | spawn | publish | stepDown =>
    simp only [step] at hstep
    split at hstep <;> cases hstep
    cases hw
  | take p | cancel p | join p | unlock p =>
    simp only [step] at hstep
    repeat' split at hstep
    all_goals cases p
    all_goals first
      | cases hstep; exact Or.inl hw
      | cases hstep; cases hw
      | cases hstep
  | finish id | panic id =>
    obtain ⟨token, -, rfl, -⟩ := endService_cases hstep
    exact Or.inl hw
  | parse ok | shutdown | joinStatic | stopApplication ok | joinInternal ok | stopRaft ok =>
    simp only [step] at hstep
    split at hstep <;> cases hstep
    exact Or.inl hw

/-- `run` panics when it joins a service that has panicked. -/
theorem panicked_cases {e : Event} (hstep : step names o e = some o') (hm : o'.main = .panicked) :
    o.main = .panicked ∨ ∃ s ∈ o.services, s.status = .panicked := by
  cases e with
  | join p =>
    obtain ⟨name, id, handles, token, -, ⟨-, rfl⟩ | ⟨hid, -⟩⟩ := join_cases hstep
    · cases p with
      | watcher => exact Or.inl hm
      | main => cases hm
    · exact Or.inr ⟨_, List.mem_of_getElem? hid, rfl⟩
  | take p | cancel p | unlock p =>
    simp only [step] at hstep
    repeat' split at hstep
    all_goals cases p
    all_goals first
      | cases hstep; exact Or.inl hm
      | cases hstep; cases hm
      | cases hstep
  | finish id | panic id =>
    obtain ⟨token, -, rfl, -⟩ := endService_cases hstep
    exact Or.inl hm
  | becomeLeader | spawn | publish | stepDown =>
    simp only [step] at hstep
    split at hstep <;> cases hstep
    exact Or.inl hm
  | close | shutdown | joinStatic =>
    simp only [step] at hstep
    split at hstep <;> cases hstep <;> cases hm
  | parse ok | stopApplication ok | joinInternal ok | stopRaft ok =>
    simp only [step] at hstep
    split at hstep <;> cases hstep
    cases ok <;> cases hm

theorem main_of_close (hstep : step names o .close = some o') : o'.main = .joiningStatic := by
  simp only [step] at hstep
  split at hstep <;> cases hstep <;> rfl

/-- A service after a step was there before, or it is a new one, or it has just ended. -/
theorem services_cases {e : Event} (hstep : step names o e = some o') {s : LeaderService}
    (hs : s ∈ o'.services) :
    s ∈ o.services ∨ s.status = .running ∨ (∃ id, e = .finish id ∧ s.status = .finished) ∨
      ∃ id, e = .panic id := by
  cases e with
  | spawn =>
    obtain ⟨g, name, todo, -, rfl⟩ := spawn_cases hstep
    rcases List.mem_append.1 hs with hs | hs
    · exact Or.inl hs
    · rw [List.mem_singleton.1 hs]
      exact Or.inr (Or.inl rfl)
  | finish id =>
    obtain ⟨token, -, rfl, -⟩ := endService_cases hstep
    rcases List.mem_or_eq_of_mem_set hs with hs | rfl
    · exact Or.inl hs
    · exact Or.inr (Or.inr (Or.inl ⟨id, rfl, rfl⟩))
  | panic id => exact Or.inr (Or.inr (Or.inr ⟨id, rfl⟩))
  | take p | cancel p | join p | unlock p =>
    simp only [step] at hstep
    repeat' split at hstep
    all_goals cases p
    all_goals first
      | cases hstep; exact Or.inl hs
      | cases hstep
  | becomeLeader | publish | stepDown | close | parse ok | shutdown | joinStatic
  | stopApplication ok | joinInternal ok | stopRaft ok =>
    simp only [step] at hstep
    split at hstep <;> cases hstep <;> exact Or.inl hs

end Orchestrator

/-! ### The invariants -/

/-- No service panics, no fallible step fails, and the server does not fail. -/
def Process.Event.succeeds : Process.Event → Bool
  | .core (.panic _) => false
  | .core (.parse ok) | .core (.stopApplication ok) | .core (.joinInternal ok)
  | .core (.stopRaft ok) => ok
  | .endServer (.returned ok) => ok
  | .endServer .panicked => false
  | _ => true

/-- `run` does not go back. -/
theorem Main.Next.beforeClose {e : Orchestrator.Event} {main main' : Main}
    (h : Main.Next e main main') (hbefore : main'.BeforeClose) : main.BeforeClose := by
  cases h with
  | parse | shutdown | call => trivial
  | close | joinStatic | stopRaft => exact hbefore.elim
  | stopApplication ok | joinInternal ok => cases ok <;> exact hbefore.elim

/-- `run` returns an error when a step fails. -/
theorem Main.Next.ne_returned_false {e : Orchestrator.Event} {main main' : Main}
    (h : Main.Next e main main') (he : (Process.Event.core e).succeeds = true) :
    main' ≠ .returned false := by
  cases h with
  | parse | stopApplication | joinInternal | stopRaft =>
    obtain rfl : _ = true := he
    simp
  | call _ _ hmain =>
    rcases hmain with rfl | rfl | ⟨point, rfl⟩ <;> simp
  | shutdown | close | joinStatic => simp

namespace Process

open Orchestrator (Sound Holds stopping?_watcher stopping?_main)

variable {names : List String} {p p' : Process} {tr : List Event}

/-- `run` has closed the watcher if it is closed. -/
structure Live (names : List String) (p : Process) : Prop where
  sound : Sound names p.core
  tidy : Tidy p
  closed : p.core.watcher = .closed → ¬ p.core.main.BeforeClose

theorem live_start (services : ℕ) : Live names (start services) where
  sound := Orchestrator.sound_start
  tidy := tidy_start services
  closed := by simp [start, Orchestrator.start]

/-- **Every step keeps this.** -/
theorem Live.step (h : Live names p) {e : Event} (hstep : Process.step names p e = some p') :
    Live names p' := by
  refine ⟨sound_step h.sound hstep, h.tidy.step hstep, ?_⟩
  cases e with
  | core e =>
    obtain ⟨-, o, ho, rfl⟩ := core_cases hstep
    intro hw
    rcases Orchestrator.closed_cases ho hw with hw | rfl
    · rcases Orchestrator.main_next ho with ⟨-, hsame⟩ | hnext
      · rw [hsame]
        exact h.closed hw
      · exact fun hbefore => h.closed hw (hnext.beforeClose hbefore)
    · rw [Orchestrator.main_of_close ho]
      exact id
  | cancelToken =>
    obtain ⟨-, rfl⟩ := cancelToken_cases hstep
    exact h.closed
  | endStatic id status =>
    obtain ⟨-, -, -, rfl⟩ := endStatic_cases hstep
    exact h.closed
  | joinNext id =>
    obtain ⟨-, -, -, rfl⟩ := joinNext_cases hstep
    exact h.closed
  | endServer outcome =>
    obtain ⟨-, -, -, -, rfl⟩ := endServer_cases hstep
    exact h.closed

/-- Nothing has failed. -/
structure Healthy (p : Process) : Prop where
  services : ∀ s ∈ p.core.services, s.status ≠ .panicked
  unfailed : p.core.main ≠ .returned false ∧ p.core.main ≠ .panicked
  server : p.server ≠ .returned false ∧ p.server ≠ .panicked

theorem healthy_start (services : ℕ) : Healthy (start services) where
  services := by simp [start, Orchestrator.start]
  unfailed := by simp [start, Orchestrator.start]
  server := by simp [start]

/-- **Every step without a failure keeps this.** -/
theorem Healthy.step (h : Healthy p) {e : Event} (he : e.succeeds = true)
    (hstep : Process.step names p e = some p') : Healthy p' := by
  cases e with
  | core e =>
    obtain ⟨-, o, ho, rfl⟩ := core_cases hstep
    refine ⟨fun s hs => ?_, ⟨?_, fun hm => ?_⟩, ?_⟩
    · rcases Orchestrator.services_cases ho hs with hs | hs | ⟨id, -, hs⟩ | ⟨id, rfl⟩
      · exact h.services s hs
      · simp [hs]
      · simp [hs]
      · cases he
    · rcases Orchestrator.main_next ho with ⟨-, hsame⟩ | hnext
      · rw [hsame]
        exact h.unfailed.1
      · exact hnext.ne_returned_false he
    · rcases Orchestrator.panicked_cases ho hm with hm | ⟨s, hs, hpanicked⟩
      · exact h.unfailed.2 hm
      · exact h.services s hs hpanicked
    · have hserver : p.serverAfter e = p.server ∨ p.serverAfter e = .running := by
        unfold serverAfter
        split
        · exact Or.inr rfl
        · exact Or.inl rfl
      show p.serverAfter e ≠ _ ∧ p.serverAfter e ≠ _
      rcases hserver with hserver | hserver <;> rw [hserver]
      · exact h.server
      · simp
  | cancelToken =>
    obtain ⟨-, rfl⟩ := cancelToken_cases hstep
    exact ⟨h.services, h.unfailed, h.server⟩
  | endStatic id status =>
    obtain ⟨-, -, -, rfl⟩ := endStatic_cases hstep
    exact ⟨h.services, h.unfailed, h.server⟩
  | joinNext id =>
    obtain ⟨-, -, -, rfl⟩ := joinNext_cases hstep
    exact ⟨h.services, h.unfailed, h.server⟩
  | endServer outcome =>
    obtain ⟨-, -, -, -, rfl⟩ := endServer_cases hstep
    refine ⟨h.services, h.unfailed, ⟨?_, ?_⟩⟩
    · rintro rfl
      cases he
    · rintro rfl
      cases he

/-! ### Steps that are expected -/

/-- A step in which nothing fails that has not failed before, and no election comes; a service ends
only once its token is cancelled. -/
def cooperative (p : Process) : Event → Bool
  | .core .becomeLeader => false
  | .core (.finish id) =>
    match p.core.services[id]? with
    | some s => s.token ∈ p.core.cancelled
    | none => false
  | .core (.joinInternal _) => true
  | .endStatic _ _ => p.cancelled
  | e => e.succeeds

/-- The steps of a process whose services wait for the cancellation. -/
def cooperate (names : List String) (p : Process) (e : Event) : Option Process :=
  if p.cooperative e then step names p e else none

theorem cooperate_eq_some {e : Event} :
    cooperate names p e = some p' ↔ p.cooperative e = true ∧ step names p e = some p' := by
  simp [cooperate]

/-- If nothing has failed, nothing fails in such a step. -/
theorem Healthy.succeeds (h : Healthy p) {e : Event} (he : p.cooperative e = true)
    (hstep : Process.step names p e = some p') : e.succeeds = true := by
  cases e with
  | core e =>
    by_cases hinternal : e = .joinInternal false
    · subst hinternal
      obtain ⟨hallows, -⟩ := core_cases hstep
      simp only [allows, decide_eq_true_eq, and_true] at hallows
      rcases hallows with hserver | hserver
      · exact absurd hserver h.server.1
      · exact absurd hserver h.server.2
    · cases e with
      | joinInternal ok => cases ok <;> first | rfl | exact absurd rfl hinternal
      | becomeLeader | finish id => rfl
      | _ => exact he
  | endServer outcome => exact he
  | _ => rfl

/-! ### No wait is a deadlock -/

/-- Such a step can be taken. -/
def GoesOn (names : List String) (p : Process) : Prop := ∃ e, (cooperate names p e).isSome

theorem goesOn {e : Event} (he : p.cooperative e = true) (hstep : (step names p e).isSome) :
    p.GoesOn names := by
  refine ⟨e, ?_⟩
  rwa [cooperate, if_pos he]

theorem goesOn_core {e : Orchestrator.Event} (he : p.cooperative (.core e) = true)
    (hallows : p.allows e = true) (hstep : (Orchestrator.step names p.core e).isSome) :
    p.GoesOn names := by
  refine goesOn he ?_
  simpa only [step, hallows, if_true, Option.isSome_map] using hstep

/-- The task that has the lock does not wait in vain: the services that it awaits end. -/
theorem holder_goes_on (h : Live names p) {q : Party} (hholds : p.core.Holds q) :
    p.GoesOn names := by
  obtain ⟨point, hq, hne⟩ := hholds
  cases point with
  | locking => exact absurd rfl hne
  | took g =>
    refine goesOn_core (e := .cancel q) rfl rfl ?_
    simp only [Orchestrator.step, hq]
    rfl
  | joining handles =>
    cases handles with
    | nil =>
      refine goesOn_core (e := .unlock q) rfl rfl ?_
      simp only [Orchestrator.step, hq]
      rfl
    | cons b handles =>
      obtain ⟨t, ht, hgiven⟩ := h.sound.awaited q _ hq b List.mem_cons_self
      rw [Orchestrator.given, List.getElem?_map, Option.map_eq_some_iff] at hgiven
      obtain ⟨⟨t', status⟩, hid, rfl⟩ := hgiven
      cases status with
      | running =>
        refine goesOn_core (e := .finish b.2) ?_ rfl ?_
        · simp only [cooperative, hid]
          simpa using ht
        · simp only [Orchestrator.step, Orchestrator.endService, hid]
          rfl
      | finished =>
        refine goesOn_core (e := .join q) rfl rfl ?_
        simp only [Orchestrator.step, hq, hid]
        rfl
      | panicked =>
        refine goesOn_core (e := .join q) rfl rfl ?_
        simp only [Orchestrator.step, hq, hid]
        rfl

/-- Nor does a task in `leader_services_shutdown`. -/
theorem call_goes_on (h : Live names p) {q : Party} {point : Stopping}
    (hq : p.core.stopping? q = some point) : p.GoesOn names := by
  cases hguard : p.core.guard with
  | some q' => exact holder_goes_on h ((h.sound.guard q').1 hguard)
  | none =>
    by_cases hne : point = .locking
    · subst hne
      cases hslot : p.core.slot with
      | none =>
        refine goesOn_core (e := .take q) rfl rfl ?_
        simp only [Orchestrator.step, hq, hguard, hslot]
        rfl
      | some g =>
        refine goesOn_core (e := .take q) rfl rfl ?_
        simp only [Orchestrator.step, hq, hguard, hslot]
        rfl
    · exact holder_goes_on h ⟨point, hq, hne⟩

/-- Nor does `close`, which waits for the callback that runs. -/
theorem close_goes_on (h : Live names p) (hm : p.core.main = .closing) : p.GoesOn names := by
  cases hw : p.core.watcher with
  | idle leading =>
    refine goesOn_core (e := .close) rfl rfl ?_
    simp only [Orchestrator.step, hm, hw]
    rfl
  | starting g todo =>
    cases todo with
    | cons name todo =>
      refine goesOn_core (e := .spawn) rfl rfl ?_
      simp only [Orchestrator.step, hw]
      rfl
    | nil =>
      have hguard : p.core.guard = none := by
        refine Option.eq_none_iff_forall_ne_some.2 fun q hq => ?_
        exact (h.sound.between (by rw [hw]; trivial)).2 q ((h.sound.guard q).1 hq)
      refine goesOn_core (e := .publish) rfl rfl ?_
      simp only [Orchestrator.step, hw, hguard]
      rfl
  | stopping point => exact call_goes_on h (stopping?_watcher.2 hw)
  | panicked =>
    refine goesOn_core (e := .close) rfl rfl ?_
    simp only [Orchestrator.step, hm, hw]
    rfl
  | closed => exact absurd (by rw [hm]; trivial) (h.closed hw)

/-- Nor does `run` at the static services. -/
theorem joinStatic_goes_on (h : Live names p) (hcancelled : p.cancelled = true)
    (hm : p.core.main = .joiningStatic) : p.GoesOn names := by
  by_cases hall : p.allows .joinStatic = true
  · refine goesOn_core (e := .joinStatic) rfl hall ?_
    simp only [Orchestrator.step, hm]
    rfl
  · simp only [allows, List.all_eq_true, List.mem_range, List.contains_iff_mem, not_forall] at hall
    obtain ⟨id, hlt, hnot⟩ := hall
    have hid := List.getElem?_eq_getElem hlt
    by_cases hrunning : p.statics[id] = .running
    · have hdropped : p.dropped = false := by
        rw [h.tidy.dropped, hm]
        rfl
      rw [hrunning] at hid
      refine goesOn (e := .endStatic id .finished) hcancelled ?_
      simp only [step, hid, hdropped]
      simp
    · refine goesOn (e := .joinNext id) rfl ?_
      simp only [step, hm, hid]
      simp [hrunning, hnot]

/-- **No wait is a deadlock**: as long as `run` has not come to its end, some step can be taken. -/
theorem Live.goes_on (h : Live names p) (hcancelled : p.cancelled = true)
    (hnot : p.core.main.ended = false) : p.GoesOn names := by
  cases hm : p.core.main with
  | launching =>
    refine goesOn_core (e := .parse true) rfl rfl ?_
    simp only [Orchestrator.step, hm]
    rfl
  | running =>
    refine goesOn_core (e := .shutdown) rfl hcancelled ?_
    simp only [Orchestrator.step, hm]
    rfl
  | stopping point => exact call_goes_on h (stopping?_main.2 hm)
  | closing => exact close_goes_on h hm
  | joiningStatic => exact joinStatic_goes_on h hcancelled hm
  | stoppingApplication =>
    refine goesOn_core (e := .stopApplication true) rfl rfl ?_
    simp only [Orchestrator.step, hm]
    rfl
  | joiningInternal =>
    cases hserver : p.server with
    | notSpawned => rcases h.tidy.unspawned hserver with hm' | hm' <;> simp [hm] at hm'
    | running =>
      refine goesOn (e := .endServer (.returned true)) rfl ?_
      simp [Process.step, hserver, hcancelled]
    | returned ok =>
      refine goesOn_core (e := .joinInternal ok) rfl (by simp [allows, hserver]) ?_
      simp only [Orchestrator.step, hm]
      rfl
    | panicked =>
      refine goesOn_core (e := .joinInternal false) rfl (by simp [allows, hserver]) ?_
      simp only [Orchestrator.step, hm]
      rfl
  | stoppingRaft =>
    refine goesOn_core (e := .stopRaft true) rfl rfl ?_
    simp only [Orchestrator.step, hm]
    rfl
  | returned ok | panicked => simp [hm, Main.ended] at hnot

/-! ### The end of `run` -/

theorem cancelled_step {e : Event} (hcancelled : p.cancelled = true)
    (hstep : step names p e = some p') : p'.cancelled = true := by
  cases e with
  | core e =>
    obtain ⟨-, o, -, rfl⟩ := core_cases hstep
    exact hcancelled
  | cancelToken =>
    obtain ⟨-, rfl⟩ := cancelToken_cases hstep
    rfl
  | endStatic id status =>
    obtain ⟨-, -, -, rfl⟩ := endStatic_cases hstep
    exact hcancelled
  | joinNext id =>
    obtain ⟨-, -, -, rfl⟩ := joinNext_cases hstep
    exact hcancelled
  | endServer outcome =>
    obtain ⟨-, -, -, -, rfl⟩ := endServer_cases hstep
    exact hcancelled

theorem returned_cases {e : Event} (hstep : step names p e = some p')
    (hserver : p'.server = .returned true) :
    p.server = .returned true ∨ e = .endServer (.returned true) := by
  cases e with
  | core e =>
    obtain ⟨-, o, -, rfl⟩ := core_cases hstep
    simp only [serverAfter] at hserver
    split at hserver
    · cases hserver
    · exact Or.inl hserver
  | cancelToken =>
    obtain ⟨-, rfl⟩ := cancelToken_cases hstep
    exact Or.inl hserver
  | endStatic id status =>
    obtain ⟨-, -, -, rfl⟩ := endStatic_cases hstep
    exact Or.inl hserver
  | joinNext id =>
    obtain ⟨-, -, -, rfl⟩ := joinNext_cases hstep
    exact Or.inl hserver
  | endServer outcome =>
    obtain ⟨-, -, -, -, rfl⟩ := endServer_cases hstep
    obtain rfl : outcome = .returned true := hserver
    exact Or.inr rfl

theorem cost_of_cooperative {e : Event} (he : p.cooperative e = true) (n : ℕ) : e.cost n = 0 := by
  cases e with
  | core e => cases e <;> first | rfl | cases he
  | _ => rfl

theorem healthy_exec {services : ℕ} (hrun : Run.exec (step names) (start services) tr = some p)
    (hok : ∀ e ∈ tr, e.succeeds = true) : Healthy p := by
  refine Run.exec_induction (motive := fun tr p => (∀ e ∈ tr, e.succeeds = true) → Healthy p)
    (fun _ => healthy_start services) (fun tr p e p' _ ih hstep hok => ?_) tr p hrun hok
  exact (ih fun e he => hok e (List.mem_append_left _ he)).step
    (hok e (List.mem_append_right _ List.mem_cons_self)) hstep

/-- Where `run` has come to its end and nothing has failed. -/
theorem returned_of_ended (h : Healthy p) (hended : p.core.main.ended = true) :
    p.core.main = .returned true := by
  cases hm : p.core.main with
  | returned ok =>
    cases ok with
    | true => rfl
    | false => exact absurd hm h.unfailed.1
  | panicked => exact absurd hm h.unfailed.2
  | _ => simp [hm, Main.ended] at hended

end Process

end RaftService
