import RaftService.Lib.Run

/-!
# Runs that come to an end

A measure on the states of a labelled transition system bounds its runs: when each step costs at
least one unit of it, and some events may add to it, a run is no longer than the measure at its
start and what its events have added (`exec_length_le`). When in addition some step is enabled in
every state that is not final, a final state can be reached (`exists_final`). Both are used for a
system whose steps are restricted to some that are expected; its runs are runs (`exec_of_restrict`).
-/

namespace Run

variable {S E : Type*} {step : S → E → Option S} {I Final : S → Prop} {rank : S → ℕ} {cost : E → ℕ}

/-- **The length of a run is bounded** by the measure at its start and by what its events add. -/
theorem exec_length_le (hinv : ∀ s e s', I s → step s e = some s' → I s')
    (hrank : ∀ s e s', I s → step s e = some s' → rank s' + 1 ≤ rank s + cost e) {s s' : S}
    {es : List E} (hrun : exec step s es = some s') (hs : I s) :
    es.length + rank s' ≤ rank s + (es.map cost).sum := by
  induction es generalizing s with
  | nil =>
    cases hrun
    simp
  | cons e es ih =>
    obtain ⟨s₁, hstep, hrun⟩ := exec_cons_eq_some.1 hrun
    have hrest := ih hrun (hinv s e s₁ hs hstep)
    have hfirst := hrank s e s₁ hs hstep
    rw [List.length_cons, List.map_cons, List.sum_cons]
    omega

/-- **A final state is reached**, if in every other state a step is enabled that lowers the
measure. -/
theorem exists_final (hinv : ∀ s e s', I s → step s e = some s' → I s')
    (hprogress : ∀ s, I s → ¬ Final s → ∃ e s', step s e = some s' ∧ rank s' < rank s) {s : S}
    (hs : I s) : ∃ es s', exec step s es = some s' ∧ I s' ∧ Final s' := by
  by_cases hfinal : Final s
  · exact ⟨[], s, rfl, hs, hfinal⟩
  · obtain ⟨e, s₁, hstep, hlt⟩ := hprogress s hs hfinal
    obtain ⟨es, s', hrun, hs', hfinal'⟩ := exists_final hinv hprogress (hinv s e s₁ hs hstep)
    exact ⟨e :: es, s', exec_cons_eq_some.2 ⟨s₁, hstep, hrun⟩, hs', hfinal'⟩
termination_by rank s

/-- A run of a restricted system is a run. -/
theorem exec_of_restrict {step' : S → E → Option S}
    (hsub : ∀ s e s', step' s e = some s' → step s e = some s') {s s' : S} {es : List E}
    (hrun : exec step' s es = some s') : exec step s es = some s' := by
  induction es generalizing s with
  | nil => exact hrun
  | cons e es ih =>
    obtain ⟨s₁, hstep, hrest⟩ := exec_cons_eq_some.1 hrun
    exact exec_cons_eq_some.2 ⟨s₁, hsub s e s₁ hstep, ih hrest⟩

end Run
