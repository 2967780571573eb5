import RaftService.Orchestrator.Lock

/-!
# One call of `leader_services_shutdown`

From the moment it takes a published generation out of the shared `Option`, a call cancels the
token and awaits what is in the map with `handle.await.unwrap()`, while the other tasks go on.

* `Stops`: how far the call has come; a step of any task leaves it there, takes it further or ends
  it (`Stops.step`);
* `Stops.exists_ends`: once the services of the generation have ended, the call ends by itself;
* `leader_services_shutdown_iff`: it has then joined all of them and returned, rather than panicked,
  exactly when the names are distinct and none of these services panicked.
-/

namespace RaftService

namespace Orchestrator

variable {names : List String} {o o' : Orchestrator} {p : Party} {g : Generation}

/-! ### A call -/

/-- After a run, `leader_services_shutdown` in this task takes the generation that is published. -/
def Takes (names : List String) (p : Party) (g : Generation) (o' : Orchestrator) : Prop :=
  ∃ tr o, Run.exec (step names) start tr = some o ∧ o.slot = some g ∧
    step names o (.take p) = some o'

/-- A step of any task with which this one keeps the lock. -/
def lockedStep (names : List String) (p : Party) (o : Orchestrator) (e : Event) :
    Option Orchestrator :=
  (step names o e).filter fun o' => o'.guard = some p

/-- The tasks take steps, and this one keeps the lock. -/
def Locked (names : List String) (p : Party) (o o' : Orchestrator) : Prop :=
  ∃ tr, Run.exec (lockedStep names p) o tr = some o'

/-- The steps go on until this task has given up the lock. -/
def Ends (names : List String) (p : Party) (o o' : Orchestrator) : Prop :=
  ∃ o₁ e, Locked names p o o₁ ∧ step names o₁ e = some o' ∧ o'.guard ≠ some p

/-- `leader_services_shutdown` has returned, to the stop callback or to the shutdown sequence. -/
def Returned (o : Orchestrator) : Party → Prop
  | .watcher => o.watcher = .idle false
  | .main => o.main = .closing

/-- `leader_services_shutdown` has cancelled the token of the generation, has awaited every service
spawned in it, and has returned. -/
def JoinsEvery (o : Orchestrator) (p : Party) (g : Generation) : Prop :=
  o.Returned p ∧ g.shutdown ∈ o.cancelled ∧
    ∀ id s, o.services[id]? = some s → s.token = g.shutdown → id ∈ o.joined

/-- A task is in a call that has taken the generation, and has awaited the handles in `done`. -/
structure Stops (names : List String) (p : Party) (g : Generation) (o : Orchestrator)
    (done : List (String × ℕ)) : Prop where
  sound : Sound names o
  spawned : Spawned o.given names g
  point : (done = [] ∧ o.stopping? p = some (.took g)) ∨
    ∃ rest, o.stopping? p = some (.joining rest) ∧ g.handles.toList = done ++ rest ∧
      g.shutdown ∈ o.cancelled
  finished : ∀ b ∈ done, b.2 ∈ o.joined ∧ ∃ t, o.services[b.2]? = some ⟨t, .finished⟩
  only : ∀ id ∈ o.joined, o.given[id]? = some g.shutdown → ∃ b ∈ done, b.2 = id

variable {done : List (String × ℕ)}

theorem lockedStep_eq_some {e : Event} :
    lockedStep names p o e = some o' ↔ step names o e = some o' ∧ o'.guard = some p := by
  simp [lockedStep, Option.filter_eq_some_iff]

theorem Locked.step {o₁ o₂ : Orchestrator} {e : Event} (h : Locked names p o o₁)
    (hstep : Orchestrator.step names o₁ e = some o₂) (hguard : o₂.guard = some p) :
    Locked names p o o₂ := by
  obtain ⟨tr, hrun⟩ := h
  exact ⟨tr ++ [e], Run.exec_snoc_eq_some.2 ⟨o₁, hrun, lockedStep_eq_some.2 ⟨hstep, hguard⟩⟩⟩

theorem Stops.holds (h : Stops names p g o done) : o.Holds p := by
  rcases h.point with ⟨-, hp⟩ | ⟨rest, hp, -⟩
  · exact ⟨_, hp, by simp⟩
  · exact ⟨_, hp, by simp⟩

/-- The call begins by taking the generation that was published. -/
theorem Sound.stops (h : Sound names o) (hslot : o.slot = some g)
    (hstep : Orchestrator.step names o (.take p) = some o') : Stops names p g o' [] := by
  have hsound := Sound.step h hstep
  obtain ⟨hp, hguard, ⟨g', hslot', rfl⟩ | ⟨hslot', -⟩⟩ := take_cases hstep
  · rw [hslot] at hslot'
    cases hslot'
    obtain ⟨hfresh, hspawned⟩ := h.published g hslot
    refine ⟨hsound, ?_, Or.inl ⟨rfl, by simp⟩, by simp, fun id hid hgiven => ?_⟩
    · rw [given_setStopping]
      exact hspawned
    rw [joined_setStopping] at hid
    rw [given_setStopping] at hgiven
    obtain ⟨t, ht, hid'⟩ := h.joined id hid
    have heq : some g.shutdown = some t := hgiven.symm.trans hid'
    cases heq
    exact absurd ht hfresh.2
  · rw [hslot] at hslot'
    cases hslot'

/-- A step in which the call does not move. -/
theorem Stops.frame (h : Stops names p g o done) (hsound : Sound names o')
    (hpoint : o'.stopping? p = o.stopping? p) (hgiven : o'.given = o.given)
    (hcancelled : o'.cancelled = o.cancelled) (hjoined : o'.joined = o.joined)
    (hfinished : ∀ id t : ℕ, o.services[id]? = some ⟨t, .finished⟩ →
      o'.services[id]? = some ⟨t, .finished⟩) : Stops names p g o' done where
  sound := hsound
  spawned := by rw [hgiven]; exact h.spawned
  point := by rw [hpoint, hcancelled]; exact h.point
  finished b hb := by
    obtain ⟨hj, t, hid⟩ := h.finished b hb
    exact ⟨by rw [hjoined]; exact hj, t, hfinished _ _ hid⟩
  only id hid hg := h.only id (hjoined ▸ hid) (hgiven ▸ hg)

/-- The call has joined the last service and returns, or it has met one that panicked. -/
inductive Stops.Ending (p : Party) (g : Generation) (o : Orchestrator)
    (done : List (String × ℕ)) : Orchestrator → Prop
  | returns : g.handles.toList = done → g.shutdown ∈ o.cancelled →
      Ending p g o done ({ o with guard := none }.stopped p)
  | panics {b : String × ℕ} {t : ℕ} : b ∈ g.handles.toList →
      o.services[b.2]? = some ⟨t, .panicked⟩ →
      Ending p g o done ({ o with joined := b.2 :: o.joined, guard := none }.panics p)

theorem Stops.Ending.guard (h : Stops.Ending p g o done o') : o'.guard = none := by
  cases h with
  | returns => exact guard_stopped p
  | panics => exact guard_panics p

theorem Stops.endService (h : Stops names p g o done) {id : ℕ} {status : TaskStatus}
    (hstep : o.endService id status = some o') : Stops names p g o' done := by
  have hsound := h.sound.endService hstep
  obtain ⟨token, hid, rfl, hgiven⟩ := endService_cases hstep
  refine h.frame hsound (by cases p <;> rfl) hgiven rfl rfl fun i t hb => ?_
  -- a service that has finished is not the one that ends
  have hne : id ≠ i := by
    rintro rfl
    rw [hid] at hb
    cases hb
  rw [List.getElem?_set_ne hne, hb]

theorem Stops.cancel (h : Stops names p g o done)
    (hstep : Orchestrator.step names o (.cancel p) = some o') : Stops names p g o' [] := by
  have hsound := h.sound.cancel hstep
  obtain ⟨g', hq, rfl⟩ := cancel_cases hstep
  rcases h.point with ⟨rfl, hp⟩ | ⟨rest, hp, -⟩
  · rw [hp] at hq
    cases hq
    refine ⟨hsound, ?_, Or.inr ⟨_, stopping?_setStopping _ _, rfl, ?_⟩, by simp, ?_⟩
    · rw [given_setStopping]
      exact h.spawned
    · simp
    · rw [joined_setStopping, given_setStopping]
      exact h.only
  · rw [hp] at hq
    cases hq

theorem Stops.join (h : Stops names p g o done)
    (hstep : Orchestrator.step names o (.join p) = some o') :
    (∃ done', Stops names p g o' done') ∨ Stops.Ending p g o done o' := by
  have hsound := h.sound.join hstep
  obtain ⟨name, id, handles, token, hq, hcases⟩ := join_cases hstep
  rcases h.point with ⟨-, hp⟩ | ⟨rest, hp, hhandles, hcancelled⟩
  · rw [hp] at hq
    cases hq
  · rw [hp] at hq
    cases hq
    rcases hcases with ⟨hid, rfl⟩ | ⟨hid, rfl⟩
    · refine Or.inl ⟨done ++ [(name, id)], hsound, ?_, Or.inr ⟨handles,
        stopping?_setStopping _ _, ?_, ?_⟩, fun b hb => ?_, fun i hi hg => ?_⟩
      · rw [given_setStopping]
        exact h.spawned
      · rw [hhandles, List.append_assoc, List.singleton_append]
      · rwa [cancelled_setStopping]
      · rw [joined_setStopping, services_setStopping]
        rcases List.mem_append.1 hb with hb | hb
        · obtain ⟨hj, hfin⟩ := h.finished b hb
          exact ⟨List.mem_cons_of_mem _ hj, hfin⟩
        · rw [List.mem_singleton.1 hb]
          exact ⟨List.mem_cons_self, token, hid⟩
      · rw [joined_setStopping] at hi
        rw [given_setStopping] at hg
        rcases List.mem_cons.1 hi with rfl | hi
        · exact ⟨(name, i), by simp, rfl⟩
        · obtain ⟨b, hb, rfl⟩ := h.only i hi hg
          exact ⟨b, List.mem_append_left _ hb, rfl⟩
    · refine Or.inr (Stops.Ending.panics (b := (name, id)) ?_ hid)
      rw [hhandles]
      exact List.mem_append_right _ List.mem_cons_self

theorem Stops.unlock (h : Stops names p g o done)
    (hstep : Orchestrator.step names o (.unlock p) = some o') : Stops.Ending p g o done o' := by
  obtain ⟨hq, rfl⟩ := unlock_cases hstep
  rcases h.point with ⟨-, hp⟩ | ⟨rest, hp, hhandles, hcancelled⟩
  · rw [hp] at hq
    cases hq
  · rw [hp] at hq
    cases hq
    refine Stops.Ending.returns ?_ hcancelled
    rw [hhandles, List.append_nil]

/-- **A step of any task during the call** leaves it where it is, takes it further, or ends it. -/
theorem Stops.step (h : Stops names p g o done) {e : Event}
    (hstep : Orchestrator.step names o e = some o') :
    (∃ done', Stops names p g o' done') ∨ Stops.Ending p g o done o' := by
  have hb := (h.sound.alone h.holds).1
  have honly : ∀ q point, o.stopping? q = some point → point ≠ .locking → q = p :=
    fun q point hq hne => holds_unique h.sound.guard ⟨point, hq, hne⟩ h.holds
  cases e with
  | becomeLeader =>
    obtain ⟨hw, -⟩ := becomeLeader_cases hstep
    exact absurd (by rw [hw]; trivial) hb
  | spawn =>
    obtain ⟨g', name, todo, hw, -⟩ := spawn_cases hstep
    exact absurd (by rw [hw]; trivial) hb
  | publish =>
    obtain ⟨g', hw, -, -⟩ := publish_cases hstep
    exact absurd (by rw [hw]; trivial) hb
  | finish id => exact Or.inl ⟨done, h.endService hstep⟩
  | panic id => exact Or.inl ⟨done, h.endService hstep⟩
  | take q =>
    obtain ⟨-, hfree, -⟩ := take_cases hstep
    exact absurd h.holds (not_holds h.sound.guard hfree p)
  | cancel q =>
    obtain ⟨g', hq, -⟩ := cancel_cases hstep
    obtain rfl := honly q _ hq (by simp)
    exact Or.inl ⟨[], h.cancel hstep⟩
  | join q =>
    obtain ⟨name, id, handles, token, hq, -⟩ := join_cases hstep
    obtain rfl := honly q _ hq (by simp)
    exact h.join hstep
  | unlock q =>
    obtain ⟨hq, -⟩ := unlock_cases hstep
    obtain rfl := honly q _ hq (by simp)
    exact Or.inr (h.unlock hstep)
  | stepDown | close | parse ok | shutdown | joinStatic | stopApplication ok | joinInternal ok
  | stopRaft ok =>
    have hsound := Sound.step h.sound hstep
    obtain ⟨watcher, main, rfl, hmoves⟩ := outside_cases (by trivial) hstep
    refine Or.inl ⟨done, h.frame hsound ?_ rfl rfl rfl fun _ _ hb => hb⟩
    obtain ⟨point, hp, hne⟩ := h.holds
    rw [hp]
    exact (hmoves.stopping?_iff p hne).2 hp

/-- **While the task has the lock**, it is in its call. -/
theorem Locked.stops (h : Stops names p g o []) (hlocked : Locked names p o o') :
    ∃ done, Stops names p g o' done := by
  obtain ⟨tr, hrun⟩ := hlocked
  refine Run.exec_invariant (P := fun o => ∃ done, Stops names p g o done) ?_ hrun ⟨[], h⟩
  rintro o₁ e o₂ ⟨done, hstops⟩ hstep
  obtain ⟨hstep, hguard⟩ := lockedStep_eq_some.1 hstep
  rcases hstops.step hstep with hstops' | hending
  · exact hstops'
  · rw [hending.guard] at hguard
    cases hguard

/-- The call ends in one of the two ways. -/
theorem Ends.ending (h : Stops names p g o []) (hends : Ends names p o o') :
    ∃ o₁ done, Stops names p g o₁ done ∧ Stops.Ending p g o₁ done o' := by
  obtain ⟨o₁, e, hlocked, hstep, hnot⟩ := hends
  obtain ⟨done, hstops⟩ := hlocked.stops h
  refine ⟨o₁, done, hstops, ?_⟩
  rcases hstops.step hstep with ⟨done', hstops'⟩ | hending
  · exact absurd ((hstops'.sound.guard p).2 hstops'.holds) hnot
  · exact hending

/-! ### How a call ends -/

/-- The steps of `leader_services_shutdown` once it has the lock. -/
def Event.OfCall (p : Party) : Event → Prop
  | .cancel q => q = p
  | .join q => q = p
  | .unlock q => q = p
  | _ => False

/-- When the services awaited have ended, the call needs only its own steps to come to an end. -/
theorem Locked.exists_ends {rest : List (String × ℕ)} (hlocked : Locked names p o o')
    (hguard : o'.guard = some p) (hpoint : o'.stopping? p = some (.joining rest))
    (hended : ∀ b ∈ rest, ∃ t status, o'.services[b.2]? = some ⟨t, status⟩ ∧
      status ≠ TaskStatus.running) :
    ∃ tr o'', (∀ e ∈ tr, e.OfCall p) ∧
      Run.exec (Orchestrator.step names) o' tr = some o'' ∧ Ends names p o o'' := by
  induction rest generalizing o' with
  | nil =>
    have hstep : Orchestrator.step names o' (.unlock p) =
        some ({ o' with guard := none }.stopped p) := by
      simp only [Orchestrator.step, hpoint]
    refine ⟨[.unlock p], _, by simp [Event.OfCall], ?_, o', _, hlocked, hstep, ?_⟩
    · rw [Run.exec_cons, hstep]
      rfl
    · simp
  | cons b rest ih =>
    obtain ⟨t, status, hid, hne⟩ := hended b List.mem_cons_self
    cases status with
    | running => exact absurd rfl hne
    | finished =>
      have hstep : Orchestrator.step names o' (.join p) =
          some ({ o' with joined := b.2 :: o'.joined }.setStopping (.joining rest) p) := by
        simp only [Orchestrator.step, hpoint, hid]
      have hnext := stopping?_setStopping (o := { o' with joined := b.2 :: o'.joined })
        (.joining rest) p
      have hguard' : ({ o' with joined := b.2 :: o'.joined }.setStopping (.joining rest) p).guard =
          some p := by
        rw [guard_setStopping, hguard]
      obtain ⟨tr, o'', hcall, hrun, hends⟩ := ih (hlocked.step hstep hguard') hguard' hnext
        fun b' hb' => by
          rw [services_setStopping]
          exact hended b' (List.mem_cons_of_mem _ hb')
      refine ⟨.join p :: tr, o'', ?_, ?_, hends⟩
      · intro e he
        rcases List.mem_cons.1 he with rfl | he
        · rfl
        · exact hcall e he
      · rw [Run.exec_cons, hstep]
        exact hrun
    | panicked =>
      have hstep : Orchestrator.step names o' (.join p) =
          some ({ o' with joined := b.2 :: o'.joined, guard := none }.panics p) := by
        simp only [Orchestrator.step, hpoint, hid]
      refine ⟨[.join p], _, by simp [Event.OfCall], ?_, o', _, hlocked, hstep, ?_⟩
      · rw [Run.exec_cons, hstep]
        rfl
      · simp

/-- A handle kept is that of a service with the token of the generation. -/
theorem Stops.service (h : Stops names p g o done) {b : String × ℕ}
    (hb : b ∈ g.handles.toList) : ∃ status, o.services[b.2]? = some ⟨g.shutdown, status⟩ := by
  have hgiven := h.spawned.kept (List.mem_map_of_mem hb)
  rw [given, List.getElem?_map, Option.map_eq_some_iff] at hgiven
  obtain ⟨⟨t, status⟩, hid, rfl⟩ := hgiven
  exact ⟨status, hid⟩

/-- Once all services of the generation have ended, the call can come to an end by itself. -/
theorem Stops.exists_ends {o₀ : Orchestrator} (h : Stops names p g o done)
    (hlocked : Locked names p o₀ o)
    (hended : ∀ s ∈ o.services, s.token = g.shutdown → s.status ≠ .running) :
    ∃ tr o', (∀ e ∈ tr, e.OfCall p) ∧
      Run.exec (Orchestrator.step names) o tr = some o' ∧ Ends names p o₀ o' := by
  have hall : ∀ b ∈ g.handles.toList, ∃ t status, o.services[b.2]? = some ⟨t, status⟩ ∧
      status ≠ TaskStatus.running := by
    intro b hb
    obtain ⟨status, hid⟩ := h.service hb
    exact ⟨_, status, hid, hended _ (List.mem_of_getElem? hid) rfl⟩
  have hguard := (h.sound.guard p).2 h.holds
  rcases h.point with ⟨-, hp⟩ | ⟨rest, hp, hhandles, -⟩
  · have hstep : Orchestrator.step names o (.cancel p) =
        some ({ o with cancelled := g.shutdown :: o.cancelled }.setStopping
          (.joining g.handles.toList) p) := by
      simp only [Orchestrator.step, hp]
    have hnext := stopping?_setStopping (o := { o with cancelled := g.shutdown :: o.cancelled })
      (.joining g.handles.toList) p
    have hguard' : ({ o with cancelled := g.shutdown :: o.cancelled }.setStopping
        (.joining g.handles.toList) p).guard = some p := by
      rw [guard_setStopping, hguard]
    obtain ⟨tr, o', hcall, hrun, hends⟩ :=
      (hlocked.step hstep hguard').exists_ends hguard' hnext fun b hb => by
        rw [services_setStopping]
        exact hall b hb
    refine ⟨.cancel p :: tr, o', ?_, ?_, hends⟩
    · intro e he
      rcases List.mem_cons.1 he with rfl | he
      · rfl
      · exact hcall e he
    · rw [Run.exec_cons, hstep]
      exact hrun
  · refine hlocked.exists_ends hguard hp fun b hb => hall b ?_
    rw [hhandles]
    exact List.mem_append_right _ hb

/-- A service with the token of the generation is one of those given it. -/
theorem given_eq_some {id : ℕ} {s : LeaderService} (hid : o.services[id]? = some s)
    (htoken : s.token = g.shutdown) : o.given[id]? = some g.shutdown := by
  rw [given, List.getElem?_map, hid, ← htoken]
  rfl

/-- A service of the generation that is joined was awaited by this call, and has finished. -/
theorem Stops.finished_of_joined (h : Stops names p g o done) {id : ℕ} {s : LeaderService}
    (hid : o.services[id]? = some s) (htoken : s.token = g.shutdown) (hjoined : id ∈ o.joined) :
    (∃ b ∈ done, b.2 = id) ∧ s.status = .finished := by
  obtain ⟨b, hb, rfl⟩ := h.only id hjoined (given_eq_some hid htoken)
  obtain ⟨-, t, hfinished⟩ := h.finished b hb
  rw [hid] at hfinished
  cases hfinished
  exact ⟨⟨b, hb, rfl⟩, rfl⟩

/-- What a call has done that has awaited all handles. -/
theorem Stops.all_joined_iff (h : Stops names p g o done) (hdone : g.handles.toList = done) :
    (∀ id s, o.services[id]? = some s → s.token = g.shutdown → id ∈ o.joined) ↔
      names.Nodup ∧ ∀ s ∈ o.services, s.token = g.shutdown → s.status ≠ .panicked := by
  rw [← h.spawned.forall_kept_iff]
  constructor
  · intro hjoined
    constructor
    · intro id hgiven
      rw [given, List.getElem?_map, Option.map_eq_some_iff] at hgiven
      obtain ⟨s, hid, htoken⟩ := hgiven
      obtain ⟨⟨b, hb, rfl⟩, -⟩ := h.finished_of_joined hid htoken (hjoined id s hid htoken)
      rw [← hdone] at hb
      exact List.mem_map_of_mem hb
    · intro s hs htoken
      obtain ⟨id, hid⟩ := List.mem_iff_getElem?.1 hs
      rw [(h.finished_of_joined hid htoken (hjoined id s hid htoken)).2]
      simp
  · rintro ⟨hkept, -⟩ id s hid htoken
    obtain ⟨b, hb, rfl⟩ := List.mem_map.1 (hkept id (given_eq_some hid htoken))
    exact (h.finished b (hdone ▸ hb)).1

/-- What the call has done when it ends. -/
theorem Stops.Ending.joinsEvery_iff (h : Stops names p g o done)
    (hending : Stops.Ending p g o done o') :
    o'.JoinsEvery p g ↔
      names.Nodup ∧ ∀ s ∈ o'.services, s.token = g.shutdown → s.status ≠ .panicked := by
  unfold JoinsEvery
  cases hending with
  | returns hdone hcancelled =>
    have hreturned : ({ o with guard := none }.stopped p).Returned p := by cases p <;> rfl
    have hservices : ({ o with guard := none }.stopped p).services = o.services := by
      cases p <;> rfl
    have hcancelled' : ({ o with guard := none }.stopped p).cancelled = o.cancelled := by
      cases p <;> rfl
    have hjoined : ({ o with guard := none }.stopped p).joined = o.joined := by cases p <;> rfl
    rw [hservices, hcancelled', hjoined, h.all_joined_iff hdone]
    constructor
    · rintro ⟨-, -, hall⟩
      exact hall
    · intro hall
      exact ⟨hreturned, hcancelled, hall⟩
  | @panics b t hb hid =>
    have hservices : ({ o with joined := b.2 :: o.joined, guard := none }.panics p).services =
        o.services := by
      cases p <;> rfl
    rw [hservices]
    constructor
    · rintro ⟨hreturned, -⟩
      cases p <;> cases hreturned
    · rintro ⟨-, hnone⟩
      obtain ⟨status, hservice⟩ := h.service hb
      rw [hid] at hservice
      cases hservice
      exact absurd rfl (hnone _ (List.mem_of_getElem? hid) rfl)

/-- **When stopping a generation joins every service of it.** Take any list of builders, any run,
and a call of `leader_services_shutdown`, by the stop callback or by the shutdown sequence, that
takes a published generation. Whenever the services of the generation have all ended, the call
comes to its end by its own steps. And when it ends, it has cancelled the token, joined every
service of the generation and returned exactly when the names of the builders are distinct and none
of these services panicked. -/
theorem leader_services_shutdown_iff (htakes : Takes names p g o) :
    (∀ o', Locked names p o o' →
      (∀ s ∈ o'.services, s.token = g.shutdown → s.status ≠ .running) →
      ∃ tr o'', (∀ e ∈ tr, e.OfCall p) ∧
        Run.exec (Orchestrator.step names) o' tr = some o'' ∧ Ends names p o o'') ∧
    ∀ o', Ends names p o o' → (o'.JoinsEvery p g ↔
      names.Nodup ∧ ∀ s ∈ o'.services, s.token = g.shutdown → s.status ≠ .panicked) := by
  obtain ⟨tr, o₀, hrun, hslot, htake⟩ := htakes
  have hstops : Stops names p g o [] := (sound_exec hrun).stops hslot htake
  constructor
  · intro o' hlocked hended
    obtain ⟨done, hstops'⟩ := hlocked.stops hstops
    exact hstops'.exists_ends hlocked hended
  · intro o' hends
    obtain ⟨o₁, done, hstops', hending⟩ := hends.ending hstops
    exact Stops.Ending.joinsEvery_iff hstops' hending

/-- A leader serves until the shutdown. -/
def serving : List Event := [.parse true, .becomeLeader, .spawn, .publish, .shutdown]

/-- Its service ends once it is cancelled, and the call returns. -/
theorem serving_joinsEvery :
    ∃ g o o', Takes ["service"] .main g o ∧ Ends ["service"] .main o o' ∧
      o'.JoinsEvery .main g := by
  obtain ⟨g, o, o', htakes, hends, hservices⟩ : ∃ g o o', Takes ["service"] .main g o ∧
      Ends ["service"] .main o o' ∧ o'.services = [⟨0, .finished⟩] := by
    refine ⟨_, _, _, ⟨serving, _, rfl, rfl, rfl⟩,
      ⟨_, .unlock .main, ⟨[.cancel .main, .finish 0, .join .main], rfl⟩, rfl, ?_⟩, rfl⟩
    simp [stopped]
  refine ⟨g, o, o', htakes, hends, ?_⟩
  refine ((leader_services_shutdown_iff htakes).2 o' hends).2 ⟨by simp, ?_⟩
  rw [hservices]
  simp

/-- Two services are spawned, and the leader steps down. -/
def steppingDown : List Event := [.becomeLeader, .spawn, .spawn, .publish, .stepDown]

/-- When the first service panics, so does the watcher, and the second one is not joined. When the
two builders have one name, the call returns, and the first service is not joined. -/
theorem steppingDown_leaves :
    (∃ g o o', Takes ["first", "second"] .watcher g o ∧ Ends ["first", "second"] .watcher o o' ∧
      o'.watcher = .panicked ∧ o'.joined = [0] ∧ ¬ o'.JoinsEvery .watcher g) ∧
    ∃ g o o', Takes ["service", "service"] .watcher g o ∧
      Ends ["service", "service"] .watcher o o' ∧
      o'.watcher = .idle false ∧ o'.joined = [1] ∧ ¬ o'.JoinsEvery .watcher g := by
  constructor
  · refine ⟨_, _, _, ⟨steppingDown, _, rfl, rfl, rfl⟩,
      ⟨_, .join .watcher, ⟨[.cancel .watcher, .panic 0], rfl⟩, rfl, ?_⟩, rfl, rfl, ?_⟩
    · simp [panics]
    · rintro ⟨hreturned, -⟩
      cases hreturned
  · refine ⟨_, _, _, ⟨steppingDown, _, rfl, rfl, rfl⟩,
      ⟨_, .unlock .watcher, ⟨[.cancel .watcher, .finish 1, .join .watcher], rfl⟩, rfl, ?_⟩,
      rfl, rfl, ?_⟩
    · simp [stopped]
    · rintro ⟨-, -, hjoined⟩
      exact absurd (hjoined 0 _ rfl rfl) (by decide)

end Orchestrator

end RaftService
