import Mathlib

/-!
# Runs of a labelled transition system

A system is a partial step function `step : S → E → Option S`; an event that is not enabled has
no successor. `exec` executes a list of events. The rules:

* `exec_append`, `exec_snoc`: a run is the composition of its parts;
* `exec_invariant`: what one step preserves, every run preserves;
* `exec_induction`: the same for a property of the events executed so far and the state reached;
* `exec_mono`: a reflexive transitive relation that every step respects relates the two ends of
  every run.
-/

namespace Run

variable {S E : Type*} {step : S → E → Option S}

/-- Execute a list of events from a state; `none` when one of them is not enabled. -/
def exec (step : S → E → Option S) (s : S) : List E → Option S
  | [] => some s
  | e :: es => (step s e).bind fun s' => exec step s' es

@[simp] theorem exec_nil (s : S) : exec step s [] = some s := rfl

theorem exec_cons (s : S) (e : E) (es : List E) :
    exec step s (e :: es) = (step s e).bind fun s' => exec step s' es := rfl

theorem exec_append (s : S) (es fs : List E) :
    exec step s (es ++ fs) = (exec step s es).bind fun s' => exec step s' fs := by
  induction es generalizing s with
  | nil => rfl
  | cons e es ih =>
    rw [List.cons_append, exec_cons, exec_cons]
    cases step s e with
    | none => rfl
    | some s' => exact ih s'

theorem exec_snoc (s : S) (es : List E) (e : E) :
    exec step s (es ++ [e]) = (exec step s es).bind fun s' => step s' e := by
  rw [exec_append]
  congr 1
  funext s'
  rw [exec_cons]
  cases step s' e <;> rfl

/-- A run cut in two has a middle state. -/
theorem exec_append_eq_some {s s'' : S} {es fs : List E} :
    exec step s (es ++ fs) = some s'' ↔
      ∃ s', exec step s es = some s' ∧ exec step s' fs = some s'' := by
  rw [exec_append, Option.bind_eq_some_iff]

theorem exec_cons_eq_some {s s'' : S} {e : E} {es : List E} :
    exec step s (e :: es) = some s'' ↔
      ∃ s', step s e = some s' ∧ exec step s' es = some s'' := by
  rw [exec_cons, Option.bind_eq_some_iff]

theorem exec_snoc_eq_some {s s'' : S} {es : List E} {e : E} :
    exec step s (es ++ [e]) = some s'' ↔
      ∃ s', exec step s es = some s' ∧ step s' e = some s'' := by
  rw [exec_snoc, Option.bind_eq_some_iff]

/-- An event of a run stands at an index of it, after the events before. -/
theorem exists_index {es t t' : List E} {e : E} (h : es = t ++ e :: t') :
    ∃ i < es.length, es[i]? = some e ∧ t = es.take i :=
  ⟨t.length, by simp [h], by simp [h], by simp [h]⟩

/-- Induction over a run, with the events executed so far. -/
theorem exec_induction {s : S} {motive : List E → S → Prop} (h0 : motive [] s)
    (hs : ∀ es s' e s'', exec step s es = some s' → motive es s' → step s' e = some s'' →
      motive (es ++ [e]) s'') :
    ∀ es s', exec step s es = some s' → motive es s' := by
  intro es
  induction es using List.reverseRecOn with
  | nil => intro s' h; cases h; exact h0
  | append_singleton es e ih =>
    intro s'' h
    obtain ⟨s', hes, he⟩ := exec_snoc_eq_some.1 h
    exact hs es s' e s'' hes (ih s' hes) he

/-- What one step preserves, every run preserves. -/
theorem exec_invariant {P : S → Prop} (hs : ∀ s e s', P s → step s e = some s' → P s')
    {s s' : S} {es : List E} (h : exec step s es = some s') (h0 : P s) : P s' :=
  exec_induction (motive := fun _ s' => P s') h0 (fun _ s' e s'' _ hP he => hs s' e s'' hP he)
    es s' h

/-- A reflexive transitive relation that every step respects relates the ends of a run. -/
theorem exec_mono {R : S → S → Prop} (hrefl : ∀ s, R s s)
    (htrans : ∀ a b c, R a b → R b c → R a c) (hs : ∀ s e s', step s e = some s' → R s s')
    {s s' : S} {es : List E} (h : exec step s es = some s') : R s s' :=
  exec_invariant (P := R s) (fun a e b hab he => htrans s a b hab (hs a e b he)) h (hrefl s)

end Run
