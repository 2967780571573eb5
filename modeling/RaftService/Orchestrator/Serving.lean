import RaftService.Orchestrator.Completion

/-!
# The shutdown completes

`serve_with_shutdown` is graceful: once the token is cancelled, the server task returns only when
the RPC calls it has accepted are answered. A `Serving` is a process with these calls in flight.
Nothing in this crate bounds the time a handler takes, and some never return: `snapshot` when its
client awaits the response before it sends (`Exchange.deadlocks`), `add_learner` when its responder
is dropped (`StateMachineStore.apply_answers_iff`). So the assumption that a handler returns is a
parameter here.

* `process_exec`: it runs as the process does;
* `shutdown_completes`: when the handlers in flight return, `run` comes to its end, with `Ok` if
  nothing has failed; when one of them does not, it is not over unless something has failed.
-/

namespace RaftService

/-- The process, and the RPC calls that have been accepted and not answered. -/
structure Serving (C : Type) where
  process : Process
  inFlight : List C

namespace Serving

variable {C : Type}

/-- The steps: those of the process, and the calls that come in and are answered. -/
inductive Event (C : Type)
  | process (e : Process.Event)
  | call (c : C)
  | answer (k : ℕ)

/-- No call has come in. -/
def start (services : ℕ) : Serving C := ⟨Process.start services, []⟩

/-- The server task returns `Ok` only when all calls are answered. -/
def allows (s : Serving C) : Process.Event → Bool
  | .endServer (.returned true) => s.inFlight.isEmpty
  | _ => true

/-- One step; `returns` says which handlers come to an end. -/
def step (names : List String) (returns : C → Bool) (s : Serving C) :
    Event C → Option (Serving C)
  | .process e =>
    if s.allows e then (Process.step names s.process e).map fun p => { s with process := p }
    else none
  | .call c =>
    if s.process.server = .running then some { s with inFlight := c :: s.inFlight } else none
  | .answer k =>
    match s.inFlight[k]? with
    | some c => if returns c then some { s with inFlight := s.inFlight.eraseIdx k } else none
    | none => none

/-- Nothing fails in the step. -/
def Event.succeeds : Event C → Bool
  | .process e => e.succeeds
  | _ => true

/-- A step that is expected of the process, or an answer; no call comes in. -/
def cooperative (s : Serving C) : Event C → Bool
  | .process e => s.process.cooperative e
  | .call _ => false
  | .answer _ => true

/-- The expected steps. -/
def cooperate (names : List String) (returns : C → Bool) (s : Serving C) (e : Event C) :
    Option (Serving C) :=
  if s.cooperative e then step names returns s e else none

/-- The steps of the process in a run. -/
def processEvents (tr : List (Event C)) : List Process.Event :=
  tr.filterMap fun e =>
    match e with
    | .process e => some e
    | _ => none

/-! ### The steps -/

variable {names : List String} {returns : C → Bool} {s s' : Serving C} {tr : List (Event C)}

theorem process_cases {e : Process.Event} (hstep : step names returns s (.process e) = some s') :
    s.allows e = true ∧ ∃ p, Process.step names s.process e = some p ∧
      s' = { s with process := p } := by
  simp only [step, Option.ite_none_right_eq_some] at hstep
  obtain ⟨hallows, hstep⟩ := hstep
  obtain ⟨p, hp, rfl⟩ := Option.map_eq_some_iff.1 hstep
  exact ⟨hallows, p, hp, rfl⟩

theorem call_cases {c : C} (hstep : step names returns s (.call c) = some s') :
    s.process.server = .running ∧ s' = { s with inFlight := c :: s.inFlight } := by
  simp only [step, Option.ite_none_right_eq_some, Option.some.injEq] at hstep
  exact ⟨hstep.1, hstep.2.symm⟩

theorem answer_cases {k : ℕ} (hstep : step names returns s (.answer k) = some s') :
    ∃ c, s.inFlight[k]? = some c ∧ returns c = true ∧
      s' = { s with inFlight := s.inFlight.eraseIdx k } := by
  simp only [step] at hstep
  split at hstep
  · next c hc =>
    simp only [Option.ite_none_right_eq_some, Option.some.injEq] at hstep
    exact ⟨c, hc, hstep.1, hstep.2.symm⟩
  · cases hstep

theorem cooperate_eq_some {e : Event C} : cooperate names returns s e = some s' ↔
    s.cooperative e = true ∧ step names returns s e = some s' := by
  simp [cooperate]

/-- **It runs as the process does**: the steps of the process in a run are a run of the process, to
the same state. -/
theorem process_exec {services : ℕ}
    (hrun : Run.exec (step names returns) (start services) tr = some s) :
    Run.exec (Process.step names) (Process.start services) (processEvents tr) =
      some s.process := by
  refine Run.exec_induction (motive := fun tr s => Run.exec (Process.step names)
    (Process.start services) (processEvents tr) = some s.process) rfl
    (fun tr s e s' _ ih hstep => ?_) tr s hrun
  rw [processEvents, List.filterMap_append, ← processEvents]
  cases e with
  | process e =>
    obtain ⟨-, p, hp, rfl⟩ := process_cases hstep
    exact Run.exec_snoc_eq_some.2 ⟨s.process, ih, hp⟩
  | call c =>
    obtain ⟨-, rfl⟩ := call_cases hstep
    simpa using ih
  | answer k =>
    obtain ⟨c, -, -, rfl⟩ := answer_cases hstep
    simpa using ih

theorem mem_processEvents {e : Process.Event} : e ∈ processEvents tr ↔ .process e ∈ tr := by
  simp only [processEvents, List.mem_filterMap]
  constructor
  · rintro ⟨e' | c | k, hmem, he⟩ <;> cases he
    exact hmem
  · exact fun hmem => ⟨_, hmem, rfl⟩

/-! ### The invariants -/

/-- The process is live, and a server that has returned `Ok` has answered all calls. -/
structure Live (names : List String) (s : Serving C) : Prop where
  process : Process.Live names s.process
  answered : s.process.server = .returned true → s.inFlight = []

theorem live_start (services : ℕ) : Live names (start services : Serving C) where
  process := Process.live_start services
  answered _ := rfl

/-- **Every step keeps this.** -/
theorem Live.step (h : Live names s) {e : Event C}
    (hstep : Serving.step names returns s e = some s') : Live names s' := by
  cases e with
  | process e =>
    obtain ⟨hallows, p, hp, rfl⟩ := process_cases hstep
    refine ⟨h.process.step hp, fun hserver => ?_⟩
    rcases Process.returned_cases hp hserver with hserver | rfl
    · exact h.answered hserver
    · exact List.isEmpty_iff.1 hallows
  | call c =>
    obtain ⟨hserver, rfl⟩ := call_cases hstep
    refine ⟨h.process, fun hserver' => ?_⟩
    rw [hserver] at hserver'
    cases hserver'
  | answer k =>
    obtain ⟨c, -, -, rfl⟩ := answer_cases hstep
    exact ⟨h.process, fun hserver => by simp [h.answered hserver]⟩

/-- An expected step leaves the process healthy, and the calls whose handlers do not return. -/
theorem cooperate_keeps (hhealthy : s.process.Healthy) {e : Event C}
    (hstep : cooperate names returns s e = some s') :
    s'.process.Healthy ∧ ∀ c ∈ s.inFlight, returns c = false → c ∈ s'.inFlight := by
  obtain ⟨he, hstep⟩ := cooperate_eq_some.1 hstep
  cases e with
  | process e =>
    obtain ⟨-, p, hp, rfl⟩ := process_cases hstep
    exact ⟨hhealthy.step (hhealthy.succeeds he hp) hp, fun c hc _ => hc⟩
  | call c => cases he
  | answer k =>
    obtain ⟨c', hk, hreturns, rfl⟩ := answer_cases hstep
    refine ⟨hhealthy, fun c hc hnever => ?_⟩
    obtain ⟨i, hi⟩ := List.mem_iff_getElem?.1 hc
    refine List.mem_eraseIdx_iff_getElem?.2 ⟨i, ?_, hi⟩
    rintro rfl
    obtain rfl := Option.some.inj (hi.symm.trans hk)
    rw [hreturns] at hnever
    cases hnever

/-- What is left of the steps. -/
def left (n : ℕ) (s : Serving C) : ℕ := s.process.left n + s.inFlight.length

/-- The process is live, and the token is cancelled. -/
structure Told (names : List String) (s : Serving C) : Prop where
  live : Live names s
  cancelled : s.process.cancelled = true

/-- **Every expected step keeps this**, and it leaves one step less. -/
theorem Told.step (h : Told names s) {e : Event C}
    (hstep : cooperate names returns s e = some s') :
    Told names s' ∧ s'.left names.length + 1 ≤ s.left names.length ∧
      s'.inFlight ⊆ s.inFlight := by
  obtain ⟨he, hstep⟩ := cooperate_eq_some.1 hstep
  have hlive := h.live.step hstep
  cases e with
  | process e =>
    obtain ⟨-, p, hp, rfl⟩ := process_cases hstep
    have hleft := Process.left_step h.live.process.sound hp
    rw [Process.cost_of_cooperative he] at hleft
    refine ⟨⟨hlive, Process.cancelled_step h.cancelled hp⟩, ?_, List.Subset.refl _⟩
    simp only [left]
    omega
  | call c => cases he
  | answer k =>
    obtain ⟨c, hk, -, rfl⟩ := answer_cases hstep
    have hlt : k < s.inFlight.length := (List.getElem?_eq_some_iff.1 hk).1
    refine ⟨⟨hlive, h.cancelled⟩, ?_, List.eraseIdx_subset⟩
    simp only [left, List.length_eraseIdx_of_lt hlt]
    omega

/-- **No wait is a deadlock** when the handlers in flight return. -/
theorem Told.goes_on (h : Told names s) (hreturn : ∀ c ∈ s.inFlight, returns c = true)
    (hnot : s.process.core.main.ended = false) :
    ∃ e s', cooperate names returns s e = some s' := by
  obtain ⟨e, hsome⟩ := h.live.process.goes_on h.cancelled hnot
  obtain ⟨p, hp⟩ := Option.isSome_iff_exists.1 hsome
  obtain ⟨he, hp⟩ := Process.cooperate_eq_some.1 hp
  by_cases hallows : s.allows e = true
  · refine ⟨.process e, { s with process := p }, cooperate_eq_some.2 ⟨he, ?_⟩⟩
    simp [Serving.step, hallows, hp]
  · -- the server waits for a call
    obtain ⟨c, rest, hflight⟩ : ∃ c rest, s.inFlight = c :: rest := by
      refine List.exists_cons_of_ne_nil fun hnil => hallows ?_
      unfold allows
      split <;> simp [hnil]
    refine ⟨.answer 0, { s with inFlight := rest }, cooperate_eq_some.2 ⟨rfl, ?_⟩⟩
    simp [Serving.step, hflight, hreturn c (by simp [hflight])]

/-! ### The end of `run` -/

theorem told_exec (h : Told names s) (hrun : Run.exec (cooperate names returns) s tr = some s') :
    Told names s' :=
  Run.exec_invariant (fun _ _ _ h hstep => (Told.step h hstep).1) hrun h

theorem Told.length_le (h : Told names s)
    (hrun : Run.exec (cooperate names returns) s tr = some s') :
    tr.length ≤ s.left names.length := by
  have hrank : ∀ (q : Serving C) (e : Event C) (q' : Serving C), Told names q →
      cooperate names returns q e = some q' →
      q'.left names.length + 1 ≤ q.left names.length + 0 :=
    fun _ _ _ h hstep => (h.step hstep).2.1
  have hbound : tr.length + s'.left names.length ≤
      s.left names.length + (tr.map fun _ => 0).sum :=
    Run.exec_length_le (fun _ _ _ h hstep => (Told.step h hstep).1) hrank hrun h
  simp only [List.map_const', List.sum_replicate, smul_zero] at hbound
  omega

/-- When the handlers in flight return, the end of `run` can be reached. -/
theorem Told.exists_end (h : Told names s) (hreturn : ∀ c ∈ s.inFlight, returns c = true) :
    ∃ tr s', Run.exec (cooperate names returns) s tr = some s' ∧
      s'.process.core.main.ended = true := by
  have hkept : ∀ q e q', (Told names q ∧ ∀ c ∈ q.inFlight, returns c = true) →
      cooperate names returns q e = some q' →
      Told names q' ∧ ∀ c ∈ q'.inFlight, returns c = true := by
    rintro q e q' ⟨hq, hall⟩ hstep
    obtain ⟨hq', -, hsub⟩ := hq.step hstep
    exact ⟨hq', fun c hc => hall c (hsub hc)⟩
  have hprogress : ∀ q, (Told names q ∧ ∀ c ∈ q.inFlight, returns c = true) →
      ¬ q.process.core.main.ended = true →
      ∃ e q', cooperate names returns q e = some q' ∧
        q'.left names.length < q.left names.length := by
    rintro q ⟨hq, hall⟩ hnot
    obtain ⟨e, q', hstep⟩ := hq.goes_on hall (Bool.eq_false_of_not_eq_true hnot)
    exact ⟨e, q', hstep, (hq.step hstep).2.1⟩
  obtain ⟨tr, s', hrun, -, hended⟩ := Run.exists_final
    (I := fun q : Serving C => Told names q ∧ ∀ c ∈ q.inFlight, returns c = true)
    hkept hprogress ⟨h, hreturn⟩
  exact ⟨tr, s', hrun, hended⟩

theorem inFlight_subset (h : Told names s)
    (hrun : Run.exec (cooperate names returns) s tr = some s') : s'.inFlight ⊆ s.inFlight :=
  (Run.exec_invariant (P := fun q : Serving C => Told names q ∧ q.inFlight ⊆ s.inFlight)
    (fun q e q' hq hstep => by
      obtain ⟨hq', -, hsub⟩ := hq.1.step hstep
      exact ⟨hq', List.Subset.trans hsub hq.2⟩) hrun ⟨h, List.Subset.refl _⟩).2

/-- In the expected steps nothing fails, and a call whose handler does not return stays. -/
theorem healthy_exec (hhealthy : s.process.Healthy)
    (hrun : Run.exec (cooperate names returns) s tr = some s') :
    s'.process.Healthy ∧ ∀ c ∈ s.inFlight, returns c = false → c ∈ s'.inFlight :=
  Run.exec_invariant (P := fun q : Serving C => q.process.Healthy ∧
      ∀ c ∈ s.inFlight, returns c = false → c ∈ q.inFlight)
    (fun q e q' hq hstep => by
      obtain ⟨hhealthy', hkept⟩ := cooperate_keeps hq.1 hstep
      exact ⟨hhealthy', fun c hc hnever => hkept c (hq.2 c hc hnever) hnever⟩)
    hrun ⟨hhealthy, fun _ hc _ => hc⟩

/-- Where nothing has failed, the end of `run` is a return with `Ok`. -/
theorem Live.returned (h : Live names s) (hhealthy : s.process.Healthy)
    (hended : s.process.core.main.ended = true) :
    s.process.core.main = .returned true ∧ s.process.server = .returned true := by
  have hmain := Process.returned_of_ended hhealthy hended
  exact ⟨hmain, h.process.tidy.pastServer (by rw [hmain]; trivial)⟩

/-- **The shutdown completes when the handlers in flight return.** Take any state that a run
reaches in which the token is cancelled, whatever has failed before, and let the process go on as
it likes, as long as no call and no election comes, nothing else fails, and services end only once
their token is cancelled.
* It takes no more steps than `left` says.
* If the handler of every call in flight returns, then from wherever it has come to it can go on
  until `run` has come to its end. If nothing had failed, `run` has then returned `Ok`, the
  callbacks are closed, every static service has ended, and the server task has returned `Ok`.
* If some handler in flight does not return and nothing had failed, `run` is not over. -/
theorem shutdown_completes {services : ℕ}
    (hrun : Run.exec (step names returns) (start services) tr = some s)
    (hcancelled : s.process.cancelled = true) {tr' : List (Event C)}
    (hrun' : Run.exec (cooperate names returns) s tr' = some s') :
    tr'.length ≤ s.left names.length ∧
      ((∀ c ∈ s.inFlight, returns c = true) →
        ∃ tr'' s'', Run.exec (cooperate names returns) s' tr'' = some s'' ∧
          s''.process.core.main.ended = true ∧
          ((∀ e ∈ tr, e.succeeds = true) → s''.process.core.main = .returned true ∧
            s''.process.Quiesced ∧ s''.process.server = .returned true)) ∧
      ((∃ c ∈ s.inFlight, returns c = false) → (∀ e ∈ tr, e.succeeds = true) →
        s'.process.core.main.ended = false) := by
  have htold : Told names s :=
    ⟨Run.exec_invariant (fun _ _ _ h hstep => Live.step h hstep) hrun (live_start services),
      hcancelled⟩
  have htold' := told_exec htold hrun'
  have hhealthy : (∀ e ∈ tr, e.succeeds = true) → s.process.Healthy := fun hok =>
    Process.healthy_exec (process_exec hrun) fun e he => hok _ (mem_processEvents.1 he)
  refine ⟨htold.length_le hrun', fun hreturn => ?_, fun ⟨c, hc, hnever⟩ hok => ?_⟩
  · obtain ⟨tr'', s'', hrun'', hended⟩ :=
      htold'.exists_end fun c hc => hreturn c (inFlight_subset htold hrun' hc)
    refine ⟨tr'', s'', hrun'', hended, fun hok => ?_⟩
    have hcooperate : Run.exec (cooperate names returns) s (tr' ++ tr'') = some s'' :=
      Run.exec_append_eq_some.2 ⟨s', hrun', hrun''⟩
    obtain ⟨hmain, hserver⟩ := (told_exec htold hcooperate).live.returned
      (healthy_exec (hhealthy hok) hcooperate).1 hended
    have hfull : Run.exec (step names returns) (start services) (tr ++ (tr' ++ tr'')) =
        some s'' :=
      Run.exec_append_eq_some.2 ⟨s, hrun, Run.exec_of_restrict
        (fun _ _ _ hstep => (cooperate_eq_some.1 hstep).2) hcooperate⟩
    exact ⟨hmain, Process.quiesced_of_pastStatic (process_exec hfull) (by rw [hmain]; trivial),
      hserver⟩
  · -- the call is still in flight, so the server has not returned
    obtain ⟨hhealthy', hkept⟩ := healthy_exec (hhealthy hok) hrun'
    refine Bool.eq_false_of_not_eq_true fun hended => ?_
    have hmem := hkept c hc hnever
    rw [htold'.live.answered (htold'.live.returned hhealthy' hended).2] at hmem
    cases hmem

/-- A leader serves with a call in flight when the token is cancelled. -/
def serving (c : String) : List (Event String) :=
  .process (.core (.parse true)) :: .call c :: (Process.serving.drop 1).map .process

/-- Every handler returns but that of `add_learner`. -/
def answers (c : String) : Bool := c ≠ "add_learner"

/-- The shutdown completes when a vote is in flight, and it does not when a learner is added. -/
theorem serving_completes :
    (∃ s tr s', Run.exec (step ["service"] answers) (start 1) (serving "vote") = some s ∧
      Run.exec (cooperate ["service"] answers) s tr = some s' ∧
      s'.process.core.main = .returned true) ∧
    ∃ s, Run.exec (step ["service"] answers) (start 1) (serving "add_learner") = some s ∧
      ∀ tr s', Run.exec (cooperate ["service"] answers) s tr = some s' →
        s'.process.core.main.ended = false := by
  have hreached : ∀ c, ∃ s, Run.exec (step ["service"] answers) (start 1) (serving c) = some s ∧
      s.process.cancelled = true ∧ s.inFlight = [c] := fun c => ⟨_, rfl, rfl, rfl⟩
  have hok : ∀ c, ∀ e ∈ serving c, e.succeeds = true := by
    simp [serving, Process.serving, Event.succeeds, Process.Event.succeeds]
  constructor
  · obtain ⟨s, hrun, hcancelled, hflight⟩ := hreached "vote"
    obtain ⟨-, hcompletes, -⟩ := shutdown_completes hrun hcancelled (Run.exec_nil s)
    obtain ⟨tr, s', hrun', -, hreturned⟩ := hcompletes (by simp [hflight, answers])
    exact ⟨s, tr, s', hrun, hrun', (hreturned (hok _)).1⟩
  · obtain ⟨s, hrun, hcancelled, hflight⟩ := hreached "add_learner"
    refine ⟨s, hrun, fun tr s' hrun' => ?_⟩
    exact (shutdown_completes hrun hcancelled hrun').2.2
      ⟨"add_learner", by simp [hflight], rfl⟩ (hok _)

end Serving

end RaftService
