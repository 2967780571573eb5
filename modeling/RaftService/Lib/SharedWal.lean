import RaftService.Lib.Wal

/-!
# A write-ahead log that several users share

The writes of one user of a shared log are those that satisfy a predicate `p`. What it sees of the
contents is their image under a projection `proj`, which the writes of the others do not change
(`Sees`). The user has the log `only p` to itself: its own writes in the same order, durable as
far as they are in the shared log.

`Recovers.only`: what a crash leaves of the shared contents is for each user what a crash leaves of
its own log.
-/

namespace Wal

variable {C D W : Type*}

/-- The number of the writes of the user among the first `n`. -/
def among (p : W → Bool) (w : Wal W) (n : ℕ) : ℕ := (w.log.take n).countP p

/-- The log of the user. -/
def only (p : W → Bool) (w : Wal W) : Wal W := ⟨w.log.filter p, w.among p w.synced⟩

variable {p : W → Bool} {w : Wal W}

theorem among_mono {n m : ℕ} (h : n ≤ m) : w.among p n ≤ w.among p m :=
  ((List.take_prefix_take_left h).sublist).countP_le

theorem among_length : w.among p w.log.length = (w.only p).log.length := by
  rw [among, List.take_length, List.countP_eq_length_filter]
  rfl

theorem among_le (n : ℕ) : w.among p n ≤ (w.only p).log.length := by
  rw [← among_length, among, among, List.take_length]
  exact (List.take_sublist n w.log).countP_le

/-- A further write does not change the number among the earlier ones. -/
theorem among_write_of_le {x : W} {n : ℕ} (h : n ≤ w.log.length) :
    (w.write x).among p n = w.among p n := by
  rw [among, among, log_write, List.take_append_of_le_length h]

/-- The user writes. -/
theorem only_write_of_pos {x : W} (hx : p x = true) (h : w.synced ≤ w.log.length) :
    (w.write x).only p = (w.only p).write x := by
  simp [only, write, among, List.filter_cons_of_pos hx, List.take_append_of_le_length h]

/-- Another user writes. -/
theorem only_write_of_neg {x : W} (hx : p x = false) (h : w.synced ≤ w.log.length) :
    (w.write x).only p = w.only p := by
  simp [only, write, among, hx, List.take_append_of_le_length h]

/-- A flush is one for all users. -/
theorem only_sync (n : ℕ) : (w.sync n).only p = (w.only p).sync (w.among p n) := by
  have hmax : w.among p (max w.synced n) = max (w.among p w.synced) (w.among p n) := by
    rcases le_total w.synced n with hle | hle
    · rw [max_eq_right hle, max_eq_right (among_mono hle)]
    · rw [max_eq_left hle, max_eq_left (among_mono hle)]
  show Wal.mk (w.log.filter p) (w.among p (max w.synced n)) =
    Wal.mk (w.log.filter p) (max (w.among p w.synced) (w.among p n))
  rw [hmax]

/-- The projection of the contents changes as the writes of the user say. -/
def Sees (p : W → Bool) (proj : C → D) (upd : C → W → C) (upd' : D → W → D) : Prop :=
  ∀ c x, proj (upd c x) = if p x then upd' (proj c) x else proj c

variable {proj : C → D} {upd : C → W → C} {upd' : D → W → D} {c₀ : C}

theorem Sees.foldl (h : Sees p proj upd upd') (l : List W) (c : C) :
    proj (l.foldl upd c) = (l.filter p).foldl upd' (proj c) := by
  induction l generalizing c with
  | nil => rfl
  | cons x l ih =>
    rw [List.foldl_cons, ih, h]
    cases hx : p x <;> simp [hx]

/-- The contents after a prefix of the shared log. -/
theorem Sees.contentsAt (h : Sees p proj upd upd') (k : ℕ) :
    proj (w.contentsAt upd c₀ k) =
      (w.only p).contentsAt upd' (proj c₀) (w.among p k) := by
  have htake : (w.log.filter p).take (w.among p k) = (w.log.take k).filter p := by
    conv_lhs => rw [← List.take_append_drop k w.log, List.filter_append]
    rw [among, List.countP_eq_length_filter, List.take_left']
    rfl
  rw [Wal.contentsAt, h.foldl, Wal.contentsAt, ← htake]
  rfl

/-- **What a crash leaves is for each user what a crash leaves of its own log.** -/
theorem Recovers.only (h : Sees p proj upd upd') {c : C} (hc : w.Recovers upd c₀ c) :
    (w.only p).Recovers upd' (proj c₀) (proj c) := by
  obtain ⟨k, hk, -, rfl⟩ := hc
  exact ⟨w.among p k, among_mono hk, among_le k, h.contentsAt k⟩

end Wal
