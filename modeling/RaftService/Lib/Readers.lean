import Mathlib

/-!
# Readers of a versioned value behind a read-write lock

A value goes through versions `value 0`, `value 1`, and so on. A writer moves it from one version
to a later one; while it holds the write lock, what is stored may be anything. Any number of
readers take the read lock, look at what is stored, and leave. The writer acknowledges versions to
the outside at times of its choice.

`Inv` relates the readers and their history to the current version. Its rules cover every step:
`Inv.step_keeps` for the readers, `Inv.write` for a step of the writer, which changes what is stored
only when no reader holds the lock, and `Inv.acknowledge`. `Inv.reads_are_versions` draws the
conclusions: reads see versions, never go back, and see what was acknowledged before they began.
-/

namespace Readers

/-- What can be recorded outside. -/
inductive Obs (σ α : Type*)
  | started (r : ℕ)
  | observed (r : ℕ) (x : σ)
  | ended (r : ℕ)
  | acknowledged (a : α)

/-- The number of reads started, the readers waiting for the lock, those holding it, and the
history so far, oldest first. -/
structure State (σ α : Type*) where
  reads : ℕ
  waiting : List ℕ
  holding : List ℕ
  history : List (Obs σ α)

variable {σ α : Type*}

/-- No reader yet. -/
def init : State σ α := ⟨0, [], [], []⟩

/-- A step of a reader. -/
inductive Event
  | start
  | lock (r : ℕ)
  | observe (r : ℕ)
  | finish (r : ℕ)

/-- The effect of a reader's step, while the writer holds the lock or not, on what is stored. -/
def step (locked : Bool) (content : σ) (s : State σ α) : Event → Option (State σ α)
  | .start =>
    some { s with
      reads := s.reads + 1
      waiting := s.waiting ++ [s.reads]
      history := s.history ++ [.started s.reads] }
  | .lock r =>
    if r ∈ s.waiting ∧ locked = false then
      some { s with waiting := s.waiting.filter (· ≠ r), holding := r :: s.holding }
    else none
  | .observe r =>
    if r ∈ s.holding then some { s with history := s.history ++ [.observed r content] } else none
  | .finish r =>
    if r ∈ s.holding then
      some { s with
        holding := s.holding.filter (· ≠ r)
        history := s.history ++ [.ended r] }
    else none

/-- Record an acknowledgement. -/
def acknowledge (s : State σ α) (a : α) : State σ α :=
  { s with history := s.history ++ [.acknowledged a] }

/-- `a` stands before `b` in the list. -/
def Before {β : Type*} (a b : β) (l : List β) : Prop := [a, b].Sublist l

theorem before_snoc {β : Type*} {a b c : β} {l : List β} (h : Before a b (l ++ [c])) :
    Before a b l ∨ a ∈ l ∧ b = c := by
  obtain ⟨l₁, l₂, hsplit, h₁, h₂⟩ := List.sublist_append_iff.1 h
  rcases List.sublist_singleton.1 h₂ with rfl | rfl
  · rw [List.append_nil] at hsplit
    rw [← hsplit] at h₁
    exact Or.inl h₁
  · have hab : [a] ++ [b] = l₁ ++ [c] := hsplit
    obtain ⟨ha, hb⟩ := List.append_inj' hab rfl
    refine Or.inr ⟨?_, List.singleton_inj.1 hb⟩
    rw [← ha] at h₁
    exact List.singleton_sublist.1 h₁

/-- The reader has taken the lock at some time. -/
def State.Locked (s : State σ α) (r : ℕ) : Prop := r < s.reads ∧ r ∉ s.waiting

/-- The readers at version `pos` of the value, when `content` is stored: the reader `r` that took
the lock saw version `idx r`, and version `rank a` is the first that `a` acknowledges. -/
structure Inv (value : ℕ → σ) (rank : α → ℕ) (pos : ℕ) (content : σ) (idx : ℕ → ℕ)
    (s : State σ α) : Prop where
  waiting_lt : ∀ r ∈ s.waiting, r < s.reads
  holding_locked : ∀ r ∈ s.holding, s.Locked r
  holding_content : ∀ r ∈ s.holding, content = value (idx r)
  idx_le : ∀ r, s.Locked r → idx r ≤ pos
  started_lt : ∀ r, .started r ∈ s.history → r < s.reads
  observed : ∀ r x, .observed r x ∈ s.history → s.Locked r ∧ x = value (idx r)
  ended : ∀ r, .ended r ∈ s.history → s.Locked r
  acknowledged : ∀ a, .acknowledged a ∈ s.history → rank a ≤ pos
  ended_le : ∀ r r', Before (.ended r) (.started r') s.history → s.Locked r' → idx r ≤ idx r'
  acknowledged_le : ∀ a r, Before (.acknowledged a) (.started r) s.history → s.Locked r →
    rank a ≤ idx r

variable {value : ℕ → σ} {rank : α → ℕ} {pos : ℕ} {content : σ} {idx : ℕ → ℕ} {s : State σ α}

theorem inv_init : Inv value rank pos content idx init := by
  refine ⟨?_, ?_, ?_, ?_, ?_, ?_, ?_, ?_, ?_, ?_⟩ <;> simp [init, State.Locked, Before]

/-- A step of the writer: a later version, and other contents only when no reader holds the
lock. -/
theorem Inv.write (h : Inv value rank pos content idx s) {pos' : ℕ} {content' : σ}
    (hpos : pos ≤ pos') (hcontent : content' = content ∨ s.holding = []) :
    Inv value rank pos' content' idx s :=
  { h with
    holding_content := by
      intro r hr
      rcases hcontent with rfl | hnone
      · exact h.holding_content r hr
      · rw [hnone] at hr
        exact absurd hr List.not_mem_nil
    idx_le := fun r hr => (h.idx_le r hr).trans hpos
    acknowledged := fun a ha => (h.acknowledged a ha).trans hpos }

/-- An acknowledgement of a version reached. -/
theorem Inv.acknowledge (h : Inv value rank pos content idx s) {a : α} (ha : rank a ≤ pos) :
    Inv value rank pos content idx (acknowledge s a) where
  waiting_lt := h.waiting_lt
  holding_locked := h.holding_locked
  holding_content := h.holding_content
  idx_le := h.idx_le
  started_lt r hr := h.started_lt r (by simpa [Readers.acknowledge] using hr)
  observed r x hx := h.observed r x (by simpa [Readers.acknowledge] using hx)
  ended r hr := h.ended r (by simpa [Readers.acknowledge] using hr)
  acknowledged b hb := by
    simp only [Readers.acknowledge, List.mem_append, List.mem_singleton] at hb
    rcases hb with hb | hb
    · exact h.acknowledged b hb
    · cases hb; exact ha
  ended_le r r' hb hl := by
    rcases before_snoc hb with hb | ⟨-, hb⟩
    · exact h.ended_le r r' hb hl
    · cases hb
  acknowledged_le b r hb hl := by
    rcases before_snoc hb with hb | ⟨-, hb⟩
    · exact h.acknowledged_le b r hb hl
    · cases hb

/-- Observing under the lock records the version the reader saw when it took the lock. -/
theorem Inv.observe (h : Inv value rank pos content idx s) {r : ℕ} (hr : r ∈ s.holding) :
    Inv value rank pos content idx { s with history := s.history ++ [.observed r content] } where
  waiting_lt := h.waiting_lt
  holding_locked := h.holding_locked
  holding_content := h.holding_content
  idx_le := h.idx_le
  started_lt q hq := h.started_lt q (by simpa using hq)
  observed q x hx := by
    simp only [List.mem_append, List.mem_singleton] at hx
    rcases hx with hx | hx
    · exact h.observed q x hx
    · cases hx; exact ⟨h.holding_locked r hr, h.holding_content r hr⟩
  ended q hq := h.ended q (by simpa using hq)
  acknowledged b hb := h.acknowledged b (by simpa using hb)
  ended_le q q' hb hl := by
    rcases before_snoc hb with hb | ⟨-, hb⟩
    · exact h.ended_le q q' hb hl
    · cases hb
  acknowledged_le b q hb hl := by
    rcases before_snoc hb with hb | ⟨-, hb⟩
    · exact h.acknowledged_le b q hb hl
    · cases hb

/-- Leaving drops the lock. -/
theorem Inv.finish (h : Inv value rank pos content idx s) {r : ℕ} (hr : r ∈ s.holding) :
    Inv value rank pos content idx
      { s with holding := s.holding.filter (· ≠ r), history := s.history ++ [.ended r] } where
  waiting_lt := h.waiting_lt
  holding_locked q hq := h.holding_locked q (List.mem_filter.1 hq).1
  holding_content q hq := h.holding_content q (List.mem_filter.1 hq).1
  idx_le := h.idx_le
  started_lt q hq := h.started_lt q (by simpa using hq)
  observed q x hx := h.observed q x (by simpa using hx)
  ended q hq := by
    simp only [List.mem_append, List.mem_singleton] at hq
    rcases hq with hq | hq
    · exact h.ended q hq
    · cases hq; exact h.holding_locked r hr
  acknowledged b hb := h.acknowledged b (by simpa using hb)
  ended_le q q' hb hl := by
    rcases before_snoc hb with hb | ⟨-, hb⟩
    · exact h.ended_le q q' hb hl
    · cases hb
  acknowledged_le b q hb hl := by
    rcases before_snoc hb with hb | ⟨-, hb⟩
    · exact h.acknowledged_le b q hb hl
    · cases hb

/-- A read that starts is new, and has not taken the lock. -/
theorem Inv.start (h : Inv value rank pos content idx s) :
    Inv value rank pos content idx
      { s with
        reads := s.reads + 1
        waiting := s.waiting ++ [s.reads]
        history := s.history ++ [.started s.reads] } := by
  -- the new reader has not taken the lock, so exactly the old ones have
  have hlocked : ∀ q, State.Locked
      { s with
        reads := s.reads + 1
        waiting := s.waiting ++ [s.reads]
        history := s.history ++ [.started s.reads] } q ↔ s.Locked q := by
    intro q
    simp only [State.Locked, List.mem_append, List.mem_singleton]
    constructor
    · rintro ⟨hlt, hnot⟩
      exact ⟨by omega, fun hq => hnot (Or.inl hq)⟩
    · rintro ⟨hlt, hnot⟩
      exact ⟨by omega, fun hq => hq.elim hnot (by omega)⟩
  refine ⟨?_, ?_, h.holding_content, ?_, ?_, ?_, ?_, ?_, ?_, ?_⟩
  · intro q hq
    rcases List.mem_append.1 hq with hq | hq
    · exact (h.waiting_lt q hq).trans (Nat.lt_succ_self _)
    · rw [List.mem_singleton.1 hq]; exact Nat.lt_succ_self _
  · exact fun q hq => (hlocked q).2 (h.holding_locked q hq)
  · exact fun q hq => h.idx_le q ((hlocked q).1 hq)
  · intro q hq
    simp only [List.mem_append, List.mem_singleton] at hq
    rcases hq with hq | hq
    · exact (h.started_lt q hq).trans (Nat.lt_succ_self _)
    · cases hq; exact Nat.lt_succ_self _
  · intro q x hx
    obtain ⟨hl, hval⟩ := h.observed q x (by simpa using hx)
    exact ⟨(hlocked q).2 hl, hval⟩
  · exact fun q hq => (hlocked q).2 (h.ended q (by simpa using hq))
  · exact fun b hb => h.acknowledged b (by simpa using hb)
  · intro q q' hb hl
    have hl' := (hlocked q').1 hl
    rcases before_snoc hb with hb | ⟨-, hb⟩
    · exact h.ended_le q q' hb hl'
    · cases hb; exact absurd hl'.1 (lt_irrefl _)
  · intro b q hb hl
    have hl' := (hlocked q).1 hl
    rcases before_snoc hb with hb | ⟨-, hb⟩
    · exact h.acknowledged_le b q hb hl'
    · cases hb; exact absurd hl'.1 (lt_irrefl _)

theorem Before.mem_left {β : Type*} {a b : β} {l : List β} (h : Before a b l) : a ∈ l :=
  h.subset List.mem_cons_self

/-- **A reader that takes the lock sees the current version.** -/
theorem Inv.lock (h : Inv value rank pos content idx s) {r : ℕ} (hr : r ∈ s.waiting)
    (hcontent : content = value pos) :
    Inv value rank pos content (Function.update idx r pos)
      { s with waiting := s.waiting.filter (· ≠ r), holding := r :: s.holding } := by
  have hnot : ¬ s.Locked r := fun hl => hl.2 hr
  have hlocked : ∀ q, State.Locked
      { s with waiting := s.waiting.filter (· ≠ r), holding := r :: s.holding } q ↔
        q = r ∨ s.Locked q := by
    intro q
    simp only [State.Locked, List.mem_filter, decide_eq_true_eq, not_and, not_not]
    constructor
    · rintro ⟨hlt, hq⟩
      by_cases hmem : q ∈ s.waiting
      · exact Or.inl (hq hmem)
      · exact Or.inr ⟨hlt, hmem⟩
    · rintro (rfl | ⟨hlt, hq⟩)
      · exact ⟨h.waiting_lt q hr, fun _ => rfl⟩
      · exact ⟨hlt, fun hmem => absurd hmem hq⟩
  have hold : ∀ q, s.Locked q → Function.update idx r pos q = idx q := by
    intro q hq
    refine Function.update_of_ne ?_ pos idx
    rintro rfl
    exact hnot hq
  have hnew : Function.update idx r pos r = pos := Function.update_self ..
  refine ⟨?_, ?_, ?_, ?_, h.started_lt, ?_, ?_, h.acknowledged, ?_, ?_⟩
  · exact fun q hq => h.waiting_lt q (List.mem_filter.1 hq).1
  · intro q hq
    exact (hlocked q).2 ((List.mem_cons.1 hq).imp_right (h.holding_locked q))
  · intro q hq
    rcases List.mem_cons.1 hq with rfl | hq
    · rw [hnew]; exact hcontent
    · rw [hold q (h.holding_locked q hq)]; exact h.holding_content q hq
  · intro q hq
    rcases (hlocked q).1 hq with rfl | hq
    · rw [hnew]
    · rw [hold q hq]; exact h.idx_le q hq
  · intro q x hx
    obtain ⟨hl, hval⟩ := h.observed q x hx
    exact ⟨(hlocked q).2 (Or.inr hl), by rw [hold q hl]; exact hval⟩
  · exact fun q hq => (hlocked q).2 (Or.inr (h.ended q hq))
  · intro q q' hb hl
    have hq := h.ended q hb.mem_left
    rw [hold q hq]
    rcases (hlocked q').1 hl with rfl | hl'
    · rw [hnew]; exact h.idx_le q hq
    · rw [hold q' hl']; exact h.ended_le q q' hb hl'
  · intro b q hb hl
    rcases (hlocked q).1 hl with rfl | hl'
    · rw [hnew]; exact h.acknowledged b hb.mem_left
    · rw [hold q hl']; exact h.acknowledged_le b q hb hl'

/-- **Every step of a reader keeps the invariant**, and the versions that were seen stay the same;
without the write lock the current version is stored. -/
theorem Inv.step_keeps {locked : Bool} (h : Inv value rank pos content idx s)
    (hcontent : locked = false → content = value pos) {e : Event} {s' : State σ α}
    (hstep : Readers.step locked content s e = some s') :
    ∃ idx', Inv value rank pos content idx' s' ∧ ∀ r, s.Locked r → idx' r = idx r := by
  cases e with
  | start => cases hstep; exact ⟨idx, h.start, fun _ _ => rfl⟩
  | lock r =>
    simp only [Readers.step, Option.ite_none_right_eq_some, Option.some.injEq] at hstep
    obtain ⟨⟨hr, hl⟩, rfl⟩ := hstep
    refine ⟨_, h.lock hr (hcontent hl), fun q hq => Function.update_of_ne ?_ pos idx⟩
    rintro rfl
    exact hq.2 hr
  | observe r =>
    simp only [Readers.step, Option.ite_none_right_eq_some, Option.some.injEq] at hstep
    obtain ⟨hr, rfl⟩ := hstep
    exact ⟨idx, h.observe hr, fun _ _ => rfl⟩
  | finish r =>
    simp only [Readers.step, Option.ite_none_right_eq_some, Option.some.injEq] at hstep
    obtain ⟨hr, rfl⟩ := hstep
    exact ⟨idx, h.finish hr, fun _ _ => rfl⟩

theorem Inv.step {locked : Bool} (h : Inv value rank pos content idx s)
    (hcontent : locked = false → content = value pos) {e : Event} {s' : State σ α}
    (hstep : Readers.step locked content s e = some s') :
    ∃ idx', Inv value rank pos content idx' s' := by
  obtain ⟨idx', hinv, -⟩ := h.step_keeps hcontent hstep
  exact ⟨idx', hinv⟩

/-- A reader that has taken the lock has taken it. -/
theorem locked_step {locked : Bool} {e : Event} {s' : State σ α}
    (hstep : Readers.step locked content s e = some s') {r : ℕ} (hr : s.Locked r) :
    s'.Locked r := by
  obtain ⟨hread, hnot⟩ := hr
  cases e with
  | start =>
    cases hstep
    refine ⟨hread.trans (Nat.lt_succ_self _), fun hw => ?_⟩
    rcases List.mem_append.1 hw with hw | hw
    · exact hnot hw
    · rw [List.mem_singleton.1 hw] at hread
      exact lt_irrefl _ hread
  | lock q =>
    simp only [Readers.step, Option.ite_none_right_eq_some, Option.some.injEq] at hstep
    obtain ⟨-, rfl⟩ := hstep
    exact ⟨hread, fun hw => hnot (List.mem_filter.1 hw).1⟩
  | observe q | finish q =>
    simp only [Readers.step, Option.ite_none_right_eq_some, Option.some.injEq] at hstep
    obtain ⟨-, rfl⟩ := hstep
    exact ⟨hread, hnot⟩

/-- The history grows. -/
theorem history_step {locked : Bool} {e : Event} {s' : State σ α}
    (hstep : Readers.step locked content s e = some s') : s.history <+: s'.history := by
  cases e with
  | start => cases hstep; exact List.prefix_append _ _
  | lock q =>
    simp only [Readers.step, Option.ite_none_right_eq_some, Option.some.injEq] at hstep
    obtain ⟨-, rfl⟩ := hstep
    exact List.prefix_rfl
  | observe q | finish q =>
    simp only [Readers.step, Option.ite_none_right_eq_some, Option.some.injEq] at hstep
    obtain ⟨-, rfl⟩ := hstep
    exact List.prefix_append _ _

/-- While the writer holds the lock and no reader does, no reader gets it. -/
theorem holding_of_locked {locked : Bool} (hl : locked = true) (hnone : s.holding = [])
    {e : Event} {s' : State σ α} (h : Readers.step locked content s e = some s') :
    s'.holding = [] := by
  cases e with
  | start => cases h; exact hnone
  | lock r => simp [Readers.step, hl] at h
  | observe r => simp [Readers.step, hnone] at h
  | finish r => simp [Readers.step, hnone] at h

/-- **Reads see versions, in order, and see what was acknowledged before they started.** -/
theorem Inv.reads_are_versions (h : Inv value rank pos content idx s) :
    (∀ r x, .observed r x ∈ s.history → idx r ≤ pos ∧ x = value (idx r)) ∧
    (∀ r r' x, Before (.ended r) (.started r') s.history → .observed r' x ∈ s.history →
      idx r ≤ idx r') ∧
    ∀ a r x, Before (.acknowledged a) (.started r) s.history → .observed r x ∈ s.history →
      rank a ≤ idx r := by
  refine ⟨fun r x hx => ?_, fun r r' x hb hx => ?_, fun a r x hb hx => ?_⟩
  · obtain ⟨hl, hval⟩ := h.observed r x hx
    exact ⟨h.idx_le r hl, hval⟩
  · exact h.ended_le r r' hb (h.observed r' x hx).1
  · exact h.acknowledged_le a r hb (h.observed r x hx).1

end Readers
