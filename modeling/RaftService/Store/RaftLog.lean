import RaftService.Store.Contents
import RaftService.Lib.Run

/-!
# The abstract Raft log

What a log store is for, without a database: the saved vote, the last purged log id, and the
entries after it, which have no gaps (`RaftLog`; the gap-freeness is a field). `RaftLog.step` is
partial: an operation that breaks the calling discipline of openraft has no successor. The
discipline: an appended batch is contiguous and starts right after the last log id, at `0` when
there is none; `truncate` is above the last purged log id and at most one past the last; `purge`
is not below the last purged log id and may lie beyond the last entry; every index is below
`u64::MAX`. Log ids of one log compare as their indexes do, so the discipline compares indexes.
-/

namespace RaftService

open RaftEntry (index logId)

/-- The index right after a log id; `0` when there is none. -/
def nextIndex : Option LogId → ℕ
  | none => 0
  | some l => l.index.toNat + 1

@[simp] theorem nextIndex_none : nextIndex none = 0 := rfl
@[simp] theorem nextIndex_some (l : LogId) : nextIndex (some l) = l.index.toNat + 1 := rfl

variable {E V : Type} [RaftEntry E]

/-- The indexes of `es` are `n`, `n + 1`, and so on. -/
def Contiguous : ℕ → List E → Prop
  | _, [] => True
  | n, e :: es => (index e).toNat = n ∧ Contiguous (n + 1) es

instance decidableContiguous : (n : ℕ) → (es : List E) → Decidable (Contiguous n es)
  | _, [] => isTrue trivial
  | n, e :: es =>
    haveI := decidableContiguous (n + 1) es
    inferInstanceAs (Decidable ((index e).toNat = n ∧ Contiguous (n + 1) es))

@[simp] theorem contiguous_nil (n : ℕ) : Contiguous n ([] : List E) := trivial

@[simp] theorem contiguous_cons {n : ℕ} {e : E} {es : List E} :
    Contiguous n (e :: es) ↔ (index e).toNat = n ∧ Contiguous (n + 1) es := Iff.rfl

theorem contiguous_append {n : ℕ} {es fs : List E} :
    Contiguous n (es ++ fs) ↔ Contiguous n es ∧ Contiguous (n + es.length) fs := by
  induction es generalizing n with
  | nil => simp
  | cons e es ih =>
    rw [List.cons_append, contiguous_cons, contiguous_cons, ih, and_assoc, List.length_cons,
      Nat.add_assoc, Nat.add_comm 1]

theorem Contiguous.mem {n : ℕ} {es : List E} (h : Contiguous n es) {e : E} (he : e ∈ es) :
    n ≤ (index e).toNat ∧ (index e).toNat < n + es.length := by
  induction es generalizing n with
  | nil => exact absurd he List.not_mem_nil
  | cons a es ih =>
    obtain ⟨ha, hes⟩ := h
    rw [List.length_cons]
    rcases List.mem_cons.1 he with rfl | he
    · omega
    · have := ih hes he
      omega

/-- Contiguous entries ascend. -/
theorem Contiguous.ascending {n : ℕ} {es : List E} (h : Contiguous n es) :
    es.Pairwise fun a b => index a < index b := by
  induction es generalizing n with
  | nil => exact List.Pairwise.nil
  | cons a es ih =>
    obtain ⟨ha, hes⟩ := h
    refine List.pairwise_cons.2 ⟨fun b hb => ?_, ih hes⟩
    have := (hes.mem hb).1
    rw [UInt64.lt_iff_toNat_lt]
    omega

theorem Contiguous.filter_lt {n : ℕ} {es : List E} (h : Contiguous n es) (i : UInt64) :
    Contiguous n (es.filter fun e => index e < i) := by
  induction es generalizing n with
  | nil => trivial
  | cons a es ih =>
    obtain ⟨ha, hes⟩ := h
    by_cases hi : index a < i
    · rw [List.filter_cons_of_pos (by simpa using hi)]
      exact ⟨ha, ih hes⟩
    · -- every later index is larger still
      have hnone : es.filter (fun e => index e < i) = [] := by
        refine List.filter_eq_nil_iff.2 fun b hb hbi => hi ?_
        have := (hes.mem hb).1
        simp only [decide_eq_true_eq, UInt64.lt_iff_toNat_lt] at hbi ⊢
        omega
      rw [List.filter_cons_of_neg (by simpa using hi), hnone]
      trivial

theorem Contiguous.filter_gt {n : ℕ} {es : List E} (h : Contiguous n es) {i : UInt64}
    (hn : n ≤ i.toNat + 1) : Contiguous (i.toNat + 1) (es.filter fun e => i < index e) := by
  induction es generalizing n with
  | nil => trivial
  | cons a es ih =>
    obtain ⟨ha, hes⟩ := h
    by_cases hi : i < index a
    · have hall : es.filter (fun e => i < index e) = es := by
        refine List.filter_eq_self.2 fun b hb => ?_
        have := (hes.mem hb).1
        rw [UInt64.lt_iff_toNat_lt] at hi
        simp only [decide_eq_true_eq, UInt64.lt_iff_toNat_lt]
        omega
      have hn' : n = i.toNat + 1 := by rw [UInt64.lt_iff_toNat_lt] at hi; omega
      rw [List.filter_cons_of_pos (by simpa using hi), hall, ← hn']
      exact ⟨ha, hes⟩
    · rw [List.filter_cons_of_neg (by simpa using hi)]
      refine ih hes ?_
      rw [UInt64.lt_iff_toNat_lt] at hi
      omega

theorem Contiguous.take {n : ℕ} {es : List E} (h : Contiguous n es) (k : ℕ) :
    Contiguous n (es.take k) := by
  rw [← List.take_append_drop k es] at h
  exact (contiguous_append.1 h).1

theorem Contiguous.drop {n : ℕ} {es : List E} (h : Contiguous n es) {k : ℕ} (hk : k ≤ es.length) :
    Contiguous (n + k) (es.drop k) := by
  rw [← List.take_append_drop k es] at h
  have := (contiguous_append.1 h).2
  rwa [List.length_take, Nat.min_eq_left hk] at this

/-- Selecting contiguous entries from an index on drops the first ones. -/
theorem Contiguous.filter_ge_eq_drop {n : ℕ} {es : List E} (h : Contiguous n es) (i : ℕ) :
    (es.filter fun e => i ≤ (index e).toNat) = es.drop (i - n) := by
  induction es generalizing n with
  | nil => simp
  | cons a es ih =>
    obtain ⟨ha, hes⟩ := h
    by_cases hi : i ≤ n
    · have hall : ∀ b ∈ a :: es, decide (i ≤ (index b).toNat) = true := by
        intro b hb
        have := (Contiguous.mem (show Contiguous n (a :: es) from ⟨ha, hes⟩) hb).1
        simp only [decide_eq_true_eq]
        omega
      rw [List.filter_eq_self.2 hall, Nat.sub_eq_zero_of_le hi, List.drop_zero]
    · rw [List.filter_cons_of_neg (by simp only [decide_eq_true_eq, ha]; exact hi), ih hes,
        show i - n = (i - (n + 1)) + 1 by omega, List.drop_succ_cons]

/-- The entries from an index on are contiguous from there on. -/
theorem Contiguous.filter_ge {n : ℕ} {es : List E} (h : Contiguous n es) {i : ℕ} (hi : n ≤ i) :
    Contiguous i (es.filter fun e => i ≤ (index e).toNat) := by
  rw [h.filter_ge_eq_drop]
  rcases Nat.lt_or_ge es.length (i - n) with hlt | hle
  · rw [List.drop_eq_nil_of_le hlt.le]
    trivial
  · have hdrop := h.drop hle
    rwa [Nat.add_sub_cancel' hi] at hdrop

/-- Selecting contiguous entries below an index takes the first ones. -/
theorem Contiguous.filter_lt_eq_take {n : ℕ} {es : List E} (h : Contiguous n es) (i : ℕ) :
    (es.filter fun e => (index e).toNat < i) = es.take (i - n) := by
  induction es generalizing n with
  | nil => simp
  | cons a es ih =>
    obtain ⟨ha, hes⟩ := h
    by_cases hi : n < i
    · rw [List.filter_cons_of_pos (by simp only [decide_eq_true_eq, ha]; exact hi), ih hes,
        show i - n = (i - (n + 1)) + 1 by omega, List.take_succ_cons]
    · have hnone : ∀ b ∈ a :: es, ¬ decide ((index b).toNat < i) = true := by
        intro b hb
        have := (Contiguous.mem (show Contiguous n (a :: es) from ⟨ha, hes⟩) hb).1
        simp only [decide_eq_true_eq]
        omega
      rw [List.filter_eq_nil_iff.2 hnone, Nat.sub_eq_zero_of_le (by omega), List.take_zero]

/-- The saved vote, the last purged log id, and the gap-free entries after it. -/
structure RaftLog (E V : Type) [RaftEntry E] where
  vote : Option V
  lastPurged : Option LogId
  entries : List E
  gapFree : Contiguous (nextIndex lastPurged) entries
  bounded : ∀ e ∈ entries, index e < u64Max

/-- The operations that change a log store. -/
inductive LogOp (E V : Type)
  | append (entries : List E)
  | truncate (logId : LogId)
  | purge (logId : LogId)
  | saveVote (vote : V)

namespace RaftLog

/-- The log of a database just created. -/
def empty : RaftLog E V := ⟨none, none, [], trivial, by simp⟩

/-- The log id of the last entry, the last purged one when there is no entry. -/
def lastLogId (a : RaftLog E V) : Option LogId := (a.entries.getLast?.map logId).or a.lastPurged

/-- The last log id is where the entries end. -/
theorem nextIndex_lastLogId (a : RaftLog E V) :
    nextIndex a.lastLogId = nextIndex a.lastPurged + a.entries.length := by
  have hgap := a.gapFree
  unfold lastLogId
  rcases List.eq_nil_or_concat a.entries with hnil | ⟨es, e, hes⟩
  · simp [hnil]
  · rw [List.concat_eq_append] at hes
    rw [hes] at hgap ⊢
    have := (contiguous_append.1 hgap).2.1
    simp [this, Nat.add_assoc]

/-- The effect of an operation; `none` when the call breaks the discipline. -/
def step (a : RaftLog E V) : LogOp E V → Option (RaftLog E V)
  | .append es =>
    if h : Contiguous (nextIndex a.lastLogId) es ∧ ∀ e ∈ es, index e < u64Max then
      some
        { a with
          entries := a.entries ++ es
          gapFree := contiguous_append.2 ⟨a.gapFree, a.nextIndex_lastLogId ▸ h.1⟩
          bounded := fun e he => (List.mem_append.1 he).elim (a.bounded e) (h.2 e) }
    else none
  | .truncate id =>
    if nextIndex a.lastPurged ≤ id.index.toNat ∧ id.index.toNat ≤ nextIndex a.lastLogId then
      some
        { a with
          entries := a.entries.filter fun e => index e < id.index
          gapFree := a.gapFree.filter_lt id.index
          bounded := fun e he => a.bounded e (List.mem_filter.1 he).1 }
    else none
  | .purge id =>
    if h : nextIndex a.lastPurged ≤ id.index.toNat + 1 ∧ id.index < u64Max then
      some
        { a with
          lastPurged := some id
          entries := a.entries.filter fun e => id.index < index e
          gapFree := a.gapFree.filter_gt h.1
          bounded := fun e he => a.bounded e (List.mem_filter.1 he).1 }
    else none
  | .saveVote v => some { a with vote := some v }

/-- What an enabled operation does to the abstract log, and the bounds that enable it. -/
theorem step_cases {a a' : RaftLog E V} {op : LogOp E V} (h : a.step op = some a') :
    (∃ es, op = .append es ∧ Contiguous (nextIndex a.lastLogId) es ∧
      (∀ e ∈ es, index e < u64Max) ∧ a'.vote = a.vote ∧ a'.lastPurged = a.lastPurged ∧
      a'.entries = a.entries ++ es) ∨
    (∃ id, op = .truncate id ∧ nextIndex a.lastPurged ≤ id.index.toNat ∧
      id.index.toNat ≤ nextIndex a.lastLogId ∧ a'.vote = a.vote ∧ a'.lastPurged = a.lastPurged ∧
      a'.entries = a.entries.filter fun e => index e < id.index) ∨
    (∃ id, op = .purge id ∧ nextIndex a.lastPurged ≤ id.index.toNat + 1 ∧ id.index < u64Max ∧
      a'.vote = a.vote ∧ a'.lastPurged = some id ∧
      a'.entries = a.entries.filter fun e => id.index < index e) ∨
    (∃ v, op = .saveVote v ∧ a'.vote = some v ∧ a'.lastPurged = a.lastPurged ∧
      a'.entries = a.entries) := by
  cases op with
  | append es =>
    simp only [step, Option.dite_none_right_eq_some] at h
    obtain ⟨hg, h⟩ := h
    cases h
    exact Or.inl ⟨es, rfl, hg.1, hg.2, rfl, rfl, rfl⟩
  | truncate id =>
    simp only [step, Option.ite_none_right_eq_some] at h
    obtain ⟨hg, h⟩ := h
    cases h
    exact Or.inr (Or.inl ⟨id, rfl, hg.1, hg.2, rfl, rfl, rfl⟩)
  | purge id =>
    simp only [step, Option.dite_none_right_eq_some] at h
    obtain ⟨hg, h⟩ := h
    cases h
    exact Or.inr (Or.inr (Or.inl ⟨id, rfl, hg.1, hg.2, rfl, rfl, rfl⟩))
  | saveVote v =>
    cases h
    exact Or.inr (Or.inr (Or.inr ⟨v, rfl, rfl, rfl, rfl⟩))

end RaftLog

/-! ### Requests and replies -/

/-- What a caller asks of the store: an operation, or one of the reads. -/
inductive LogRequest (E V : Type)
  | call (op : LogOp E V)
  | tryGetLogEntries (range : RangeBounds)
  | readVote
  | getLogState

/-- What the store answers. -/
inductive LogReply (E V : Type)
  | done
  | entries (es : List E)
  | vote (v : Option V)
  | state (st : LogState)
  deriving DecidableEq

/-- The abstract log answers a request; `none` when the call breaks the discipline. -/
def RaftLog.serve (a : RaftLog E V) :
    List (LogRequest E V) → Option (RaftLog E V × List (LogReply E V))
  | [] => some (a, [])
  | .call op :: reqs => do
    let a ← a.step op
    let (a, replies) ← a.serve reqs
    some (a, .done :: replies)
  | .tryGetLogEntries range :: reqs => do
    let (a', replies) ← a.serve reqs
    some (a', .entries (a.entries.filter fun e => range.contains (index e)) :: replies)
  | .readVote :: reqs => do
    let (a', replies) ← a.serve reqs
    some (a', .vote a.vote :: replies)
  | .getLogState :: reqs => do
    let (a', replies) ← a.serve reqs
    some (a', .state ⟨a.lastPurged, a.lastLogId⟩ :: replies)

end RaftService
