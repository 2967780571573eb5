import Mathlib

/-!
# A write-ahead log and what a crash keeps of it

Contents of type `C` are changed by writes of type `W` only, through `upd : C → W → C`. A log
keeps the writes issued since the contents were `c₀`, oldest first, and the number of leading
writes that completed flushes have made durable. A crash keeps a prefix of the writes that
contains every durable one (`Recovers`).

`Since upd c₀ w j P` says that `P` holds of the contents after each prefix of length at least
`j`. It is the invariant form for crash safety: `Since.write` extends it over one more write,
`since_here` starts it at the present contents, and `Recovers.of_since` draws the conclusion for
whatever a crash leaves.
-/

/-- The writes issued so far, and how many of them are durable. -/
structure Wal (W : Type*) where
  log : List W
  synced : ℕ

namespace Wal

variable {C W : Type*}

/-- Nothing written. -/
def empty : Wal W := ⟨[], 0⟩

/-- Issue one write. -/
def write (w : Wal W) (x : W) : Wal W := { w with log := w.log ++ [x] }

/-- A flush that had been entered when `n` writes were issued has completed. -/
def sync (w : Wal W) (n : ℕ) : Wal W := { w with synced := max w.synced n }

@[simp] theorem log_write (w : Wal W) (x : W) : (w.write x).log = w.log ++ [x] := rfl
@[simp] theorem synced_write (w : Wal W) (x : W) : (w.write x).synced = w.synced := rfl
@[simp] theorem log_sync (w : Wal W) (n : ℕ) : (w.sync n).log = w.log := rfl
@[simp] theorem synced_sync (w : Wal W) (n : ℕ) : (w.sync n).synced = max w.synced n := rfl

variable (upd : C → W → C) (c₀ : C)

/-- The contents after the first `k` writes. -/
def contentsAt (w : Wal W) (k : ℕ) : C := (w.log.take k).foldl upd c₀

/-- The contents after all writes. -/
def contents (w : Wal W) : C := w.log.foldl upd c₀

/-- A crash leaves `c`: some prefix of the writes that contains every durable one. -/
def Recovers (w : Wal W) (c : C) : Prop :=
  ∃ k, w.synced ≤ k ∧ k ≤ w.log.length ∧ c = w.contentsAt upd c₀ k

/-- `P` holds of the contents after every prefix of at least `j` writes. -/
def Since (w : Wal W) (j : ℕ) (P : C → Prop) : Prop :=
  ∀ k, j ≤ k → k ≤ w.log.length → P (w.contentsAt upd c₀ k)

variable {upd c₀}

@[simp] theorem contents_empty : (empty : Wal W).contents upd c₀ = c₀ := rfl

@[simp] theorem contents_write (w : Wal W) (x : W) :
    (w.write x).contents upd c₀ = upd (w.contents upd c₀) x := by
  simp [contents]

@[simp] theorem contents_sync (w : Wal W) (n : ℕ) :
    (w.sync n).contents upd c₀ = w.contents upd c₀ := rfl

theorem contentsAt_length (w : Wal W) : w.contentsAt upd c₀ w.log.length = w.contents upd c₀ := by
  rw [contentsAt, contents, List.take_length]

theorem contentsAt_write_of_le {w : Wal W} {x : W} {k : ℕ} (hk : k ≤ w.log.length) :
    (w.write x).contentsAt upd c₀ k = w.contentsAt upd c₀ k := by
  rw [contentsAt, contentsAt, log_write, List.take_append_of_le_length hk]

theorem Since.mono {w : Wal W} {j j' : ℕ} {P Q : C → Prop} (h : Since upd c₀ w j P)
    (hj : j ≤ j') (hPQ : ∀ c, P c → Q c) : Since upd c₀ w j' Q :=
  fun k hk hlen => hPQ _ (h k (hj.trans hk) hlen)

/-- The present contents are the only ones after as many writes as were issued. -/
theorem since_here {w : Wal W} {P : C → Prop} (h : P (w.contents upd c₀)) :
    Since upd c₀ w w.log.length P := by
  intro k hk hlen
  rw [le_antisymm hlen hk, contentsAt_length]
  exact h

theorem Since.contents {w : Wal W} {j : ℕ} {P : C → Prop} (h : Since upd c₀ w j P)
    (hj : j ≤ w.log.length) : P (w.contents upd c₀) := by
  rw [← contentsAt_length]
  exact h w.log.length hj le_rfl

/-- One more write extends the property if the new contents have it. -/
theorem Since.write {w : Wal W} {j : ℕ} {P : C → Prop} {x : W} (h : Since upd c₀ w j P)
    (hx : P (upd (w.contents upd c₀) x)) : Since upd c₀ (w.write x) j P := by
  intro k hk hlen
  rcases Nat.lt_or_ge w.log.length k with hlt | hle
  · have hk' : k = (w.write x).log.length := by simp at hlen ⊢; omega
    rw [hk', contentsAt_length, contents_write]
    exact hx
  · rw [contentsAt_write_of_le hle]
    exact h k hk hle

theorem Since.sync {w : Wal W} {j n : ℕ} {P : C → Prop} (h : Since upd c₀ w j P) :
    Since upd c₀ (w.sync n) j P := h

/-- What holds of every prefix from a durable point on holds of whatever a crash leaves. -/
theorem Recovers.of_since {w : Wal W} {c : C} {j : ℕ} {P : C → Prop}
    (hc : Recovers upd c₀ w c) (h : Since upd c₀ w j P) (hj : j ≤ w.synced) : P c := by
  obtain ⟨k, hk, hlen, rfl⟩ := hc
  exact h k (hj.trans hk) hlen

end Wal
