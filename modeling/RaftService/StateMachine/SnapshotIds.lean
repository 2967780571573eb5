import RaftService.Lib.Decimal
import RaftService.StateMachine.Builder
import RaftService.Store.Log

/-!
# Snapshot ids

`build_snapshot` names a snapshot by the last applied log id of its builder and by a counter of the
store. The name can be read back (`snapshotId_injective`), so no two builders that are taken from a
store between two restarts give their snapshots the same name (`builders_ids_distinct`). After a
restart the counter starts again, and a name may come again.
-/

namespace RaftService

open StateMachineStore

variable {σ Req Resp Snap ρ : Type}

namespace StateMachineStore

theorem toList_snapshotId (b : SnapshotBuilder) :
    (snapshotId b).toList =
      match b.lastAppliedLog with
      | some last => Decimal.digits last.leaderId ++ '-' ::
          (Decimal.digits last.index ++ '-' :: Decimal.digits b.snapshotIdx)
      | none => '-' :: '-' :: Decimal.digits b.snapshotIdx := by
  unfold snapshotId
  cases b.lastAppliedLog with
  | none =>
    simp only [String.toList_append, Decimal.toList_toString]
    rfl
  | some last =>
    simp only [String.toList_append, Decimal.toList_toString, List.append_assoc]
    rfl

/-- **The snapshot id determines the last applied log id and the counter.** -/
theorem snapshotId_injective {b b' : SnapshotBuilder} (h : snapshotId b = snapshotId b') :
    b.lastAppliedLog = b'.lastAppliedLog ∧ b.snapshotIdx = b'.snapshotIdx := by
  have hlist := congrArg String.toList h
  rw [toList_snapshotId, toList_snapshotId] at hlist
  have hdash : '-'.isDigit = false := rfl
  cases hb : b.lastAppliedLog with
  | none =>
    cases hb' : b'.lastAppliedLog with
    | none =>
      rw [hb, hb'] at hlist
      exact ⟨rfl, Decimal.digits_injective (List.cons.inj (List.cons.inj hlist).2).2⟩
    | some last' =>
      rw [hb, hb'] at hlist
      exact absurd hlist.symm (Decimal.append_ne_cons hdash _ _)
  | some last =>
    cases hb' : b'.lastAppliedLog with
    | none =>
      rw [hb, hb'] at hlist
      exact absurd hlist (Decimal.append_ne_cons hdash _ _)
    | some last' =>
      rw [hb, hb'] at hlist
      obtain ⟨hterm, hrest⟩ := Decimal.append_inj_of_not_digit hdash hlist
      obtain ⟨hindex, hidx⟩ := Decimal.append_inj_of_not_digit hdash hrest
      refine ⟨?_, Decimal.digits_injective hidx⟩
      obtain ⟨leaderId, index⟩ := last
      obtain ⟨leaderId', index'⟩ := last'
      simp only at hterm hindex
      rw [hterm, hindex]

end StateMachineStore

/-! ### The builders of a store -/

section Counter

variable [BuildProfile]

theorem getSnapshotBuilder_idx {s s' : StateMachineStore σ} {b : SnapshotBuilder}
    (h : getSnapshotBuilder s = .ok (s', b)) :
    s'.snapshotIdx = b.snapshotIdx ∧ addOne s.snapshotIdx = .ok b.snapshotIdx := by
  cases hidx : addOne s.snapshotIdx with
  | error e => simp [getSnapshotBuilder, hidx] at h
  | ok idx =>
    simp only [getSnapshotBuilder, hidx, Except.ok.injEq, Prod.mk.injEq] at h
    obtain ⟨rfl, rfl⟩ := h
    exact ⟨rfl, rfl⟩

/-- With overflow checks, or below the last number, the addition is exact. -/
theorem toNat_of_addOne {x y : UInt64} (h : addOne x = .ok y)
    (hmax : BuildProfile.overflowChecks = true ∨ x.toNat + 1 < UInt64.size) :
    y.toNat = x.toNat + 1 := by
  unfold addOne at h
  split_ifs at h with hover
  obtain rfl := Except.ok.inj h
  refine RocksLogStore.toNat_add_one (lt_of_le_of_ne (RocksLogStore.le_u64Max x) ?_)
  rintro rfl
  rcases hmax with hchecks | hlt
  · exact hover ⟨hchecks, rfl⟩
  · exact absurd hlt (by decide)

end Counter

namespace World

/-- The counter counts the builders, from one on. -/
structure Counted (w : World σ) : Prop where
  counter : w.store.snapshotIdx.toNat = w.builders.length
  numbers : ∀ i b, w.builders[i]? = some b → b.snapshotIdx.toNat = i + 1

variable [BuildProfile] [Openraft] [Serde Req] [Serde Snap] [Serde StoredSnapshot]
  {A : ApplicationStateMachine σ Req Resp Snap} {log : ReferenceLog Req}

/-- A step keeps the count, unless the counter overflows. -/
theorem Counted.step {w w' : World σ} {e : Event ρ} (h : Counted w)
    (hstep : World.step A log w e = some w')
    (hmax : BuildProfile.overflowChecks = true ∨ w'.builders.length < UInt64.size) :
    Counted w' := by
  rcases step_cases hstep with ⟨strm, -, -, rfl⟩ | ⟨m, d, -, rfl⟩ | ⟨s, b, -, hsb, rfl⟩ |
    ⟨i, b, -, -, rfl⟩
  · exact ⟨h.counter, h.numbers⟩
  · refine ⟨?_, h.numbers⟩
    have hidx : (installSnapshot A w.store m d).1.snapshotIdx = w.store.snapshotIdx := rfl
    simp only [hidx]
    exact h.counter
  · obtain ⟨hstore, hadd⟩ := getSnapshotBuilder_idx hsb
    have hnat : b.snapshotIdx.toNat = w.builders.length + 1 := by
      rw [toNat_of_addOne hadd, h.counter]
      rw [List.length_append, List.length_singleton] at hmax
      rw [h.counter]
      exact hmax
    refine ⟨by rw [hstore, hnat, List.length_append, List.length_singleton], fun i b' hb' => ?_⟩
    rcases Nat.lt_trichotomy i w.builders.length with hlt | rfl | hgt
    · rw [List.getElem?_append_left hlt] at hb'
      exact h.numbers i b' hb'
    · rw [List.getElem?_append_right le_rfl, Nat.sub_self] at hb'
      obtain rfl : b = b' := Option.some.inj hb'
      exact hnat
    · rw [List.getElem?_eq_none (by simp; omega)] at hb'
      cases hb'
  · exact ⟨h.counter, h.numbers⟩

omit [BuildProfile] [Openraft] [Serde Req] in
theorem new_snapshotIdx {db : Db} {s : StateMachineStore σ}
    (h : StateMachineStore.new A db = .ok s) : s.snapshotIdx = 0 := by
  simp only [StateMachineStore.new] at h
  split at h
  · cases h
    rfl
  · split at h
    · cases h
      rfl
    · cases h

/-- **Between two restarts no two builders give the same snapshot id**, whatever is applied,
installed and built in between, as long as the counter does not overflow; with overflow checks it
never does. -/
theorem builders_ids_distinct {db₀ : Db} {w₀ w : World σ} (hopen : opens A db₀ w₀)
    {tr : List (Event ρ)} (hrun : Run.exec (World.step A log) w₀ tr = some w)
    (hmax : BuildProfile.overflowChecks = true ∨ w.builders.length < UInt64.size) {i j : ℕ}
    {b b' : SnapshotBuilder} (hb : w.builders[i]? = some b) (hb' : w.builders[j]? = some b')
    (hid : snapshotId b = snapshotId b') : i = j := by
  have hcounted : Counted w := by
    refine Run.exec_induction
      (motive := fun _ w => (BuildProfile.overflowChecks = true ∨
        w.builders.length < UInt64.size) → Counted w)
      (fun _ => ?_) (fun tr w e w' _ ih hstep hmax => ?_) tr w hrun hmax
    · obtain ⟨hnew, -, hnone⟩ := hopen
      refine ⟨?_, fun i b hb => ?_⟩
      · rw [new_snapshotIdx hnew, hnone]
        rfl
      · rw [hnone] at hb
        cases hb
    · refine (ih (hmax.imp_right fun hlt => ?_)).step hstep hmax
      have hone : Run.exec (World.step A log) w [e] = some w' := by
        rw [Run.exec_cons, hstep]
        rfl
      have hle := List.IsPrefix.length_le <| builders_prefix hone
      omega
  have hidx := congrArg UInt64.toNat (snapshotId_injective hid).2
  rw [hcounted.numbers i b hb, hcounted.numbers j b' hb'] at hidx
  omega

end World

namespace World

open scoped Counter

/-- Two builders are taken at the same log id. -/
def twoBuilders : List (Event Unit) :=
  [.apply (unanswered Unit (Counter.entries.take 2)), .getSnapshotBuilder, .getSnapshotBuilder]

/-- The counter tells their ids apart. -/
theorem twoBuilders_ids_distinct :
    ∃ w, Run.exec (World.step counter Counter.log) fresh twoBuilders = some w ∧
      w.builders.map (fun b => b.lastAppliedLog) = [some ⟨1, 1⟩, some ⟨1, 1⟩] ∧
      ∀ (i j : ℕ) b b', w.builders[i]? = some b → w.builders[j]? = some b' →
        snapshotId b = snapshotId b' → i = j := by
  have htaken : (Run.exec (World.step counter Counter.log) fresh twoBuilders).map
      (fun w => w.builders.map fun b => b.lastAppliedLog) = some [some ⟨1, 1⟩, some ⟨1, 1⟩] := rfl
  obtain ⟨w, hrun, hbuilders⟩ := Option.map_eq_some_iff.1 htaken
  have hopen : opens counter Db.empty fresh := ⟨rfl, rfl, rfl⟩
  have hchecks : BuildProfile.overflowChecks = true := rfl
  exact ⟨w, hrun, hbuilders, fun i j b b' hb hb' hid =>
    builders_ids_distinct hopen hrun (Or.inl hchecks) hb hb' hid⟩

end World

end RaftService
