import RaftService.Lib.PartialOrd
import RaftService.Types

/-!
# The leader id

The comparisons of `raft/pb_impl/leader_id.rs`: of two leader ids, and of a leader id with a
committed one, which is a term. The derived equality of leader ids is that of their fields.

Leader ids are ordered by their terms, and two of one term are related only if they are equal
(`LeaderId.instPartialOrder`); the comparison of leader ids decides this order, and the one with a
committed id compares the terms. The equality with a committed id does not fit the comparison: it
never holds, while the comparison with the leader's own term is `Equal` (`coherent_iff`).
-/

namespace RaftService
namespace Pb.LeaderId

/-- `PartialOrd::partial_cmp` of two leader ids. -/
def partialCmp (self other : LeaderId) : Option Ordering :=
  match compare self.term other.term with
  | .eq => if self.nodeId = other.nodeId then some .eq else none
  | cmp => some cmp

/-- `PartialEq<u64>::eq` -/
def eqCommitted (_self : LeaderId) (_other : UInt64) : Bool := false

/-- `PartialOrd<u64>::partial_cmp` -/
def partialCmpCommitted (self : LeaderId) (other : UInt64) : Option Ordering :=
  some (compare self.term other)

/-- `RaftLeaderId::to_committed` -/
def toCommitted (self : LeaderId) : UInt64 := self.term

instance : PartialOrd LeaderId LeaderId := ⟨partialCmp⟩

instance : PartialEq LeaderId UInt64 := ⟨eqCommitted⟩

instance : PartialOrd LeaderId UInt64 := ⟨partialCmpCommitted⟩

/-- A leader id is below those of later terms. -/
instance instPartialOrder : PartialOrder LeaderId :=
  partialOrderOfSO (Order.Preimage term (· < ·))

theorem lt_iff_term_lt {a b : LeaderId} : a < b ↔ a.term < b.term := Iff.rfl

/-- The committed id of a later leader is greater. -/
theorem strictMono_toCommitted : StrictMono toCommitted := fun _ _ h => h

/-- The terms decide, unless they are equal. -/
theorem partialCmp_cases (a b : LeaderId) :
    (a.term < b.term ∧ PartialOrd.partialCmp a b = some .lt) ∨
      (a.term = b.term ∧
        PartialOrd.partialCmp a b = if a.nodeId = b.nodeId then some .eq else none) ∨
      (b.term < a.term ∧ PartialOrd.partialCmp a b = some .gt) := by
  show _ ∧ partialCmp a b = _ ∨ _ ∧ partialCmp a b = _ ∨ _ ∧ partialCmp a b = _
  unfold partialCmp
  cases h : compare a.term b.term with
  | lt => exact Or.inl ⟨compare_lt_iff_lt.1 h, rfl⟩
  | eq => exact Or.inr (Or.inl ⟨compare_eq_iff_eq.1 h, rfl⟩)
  | gt => exact Or.inr (Or.inr ⟨compare_gt_iff_gt.1 h, rfl⟩)

/-- The comparison of leader ids decides their order. -/
instance : PartialOrd.Decides LeaderId where
  lt_iff {a b} := by
    rw [lt_iff_term_lt]
    rcases partialCmp_cases a b with ⟨hterm, h⟩ | ⟨hterm, h⟩ | ⟨hterm, h⟩
    · simp [h, hterm]
    · by_cases hnode : a.nodeId = b.nodeId <;> simp [h, hterm, hnode]
    · simp [h, hterm.le]
  eq_iff {a b} := by
    have heq : a = b ↔ a.term = b.term ∧ a.nodeId = b.nodeId := by
      cases a; cases b; simp
    rw [heq]
    rcases partialCmp_cases a b with ⟨hterm, h⟩ | ⟨hterm, h⟩ | ⟨hterm, h⟩
    · simp [h, hterm.ne]
    · by_cases hnode : a.nodeId = b.nodeId <;> simp [h, hterm, hnode]
    · simp [h, hterm.ne']
  gt_iff {a b} := by
    rw [lt_iff_term_lt]
    rcases partialCmp_cases a b with ⟨hterm, h⟩ | ⟨hterm, h⟩ | ⟨hterm, h⟩
    · simp [h, hterm.le]
    · by_cases hnode : a.nodeId = b.nodeId <;> simp [h, hterm, hnode]
    · simp [h, hterm]

/-- A leader id is compared with a committed one as its own committed id is. -/
theorem comparesBy_toCommitted : PartialOrd.ComparesBy toCommitted := fun _ _ => rfl

/-- Two nodes of one term are incomparable. -/
theorem partialCmp_of_ne {a b : LeaderId} (hterm : a.term = b.term) (hnode : a.nodeId ≠ b.nodeId) :
    PartialOrd.partialCmp a b = none := by
  rcases partialCmp_cases a b with ⟨hlt, -⟩ | ⟨-, h⟩ | ⟨hlt, -⟩
  · exact absurd hterm hlt.ne
  · rw [h, if_neg hnode]
  · exact absurd hterm hlt.ne'

/-- The two implementations for a leader id and a committed one fit together unless the committed
id is that of the leader's own term. -/
theorem consistent_iff {a : LeaderId} {t : UInt64} :
    PartialOrd.Consistent a t ↔ a.term ≠ t := by
  have heq : PartialOrd.partialCmp a t = some .eq ↔ a.term = t := comparesBy_toCommitted.eq_iff
  have hne : PartialEq.eq a t = false := rfl
  unfold PartialOrd.Consistent
  rw [heq, hne]
  simp

open PartialOrd (lt le Consistent)

/-- The comparisons form one order, for three leader ids and a committed one: that of leader ids is
a partial order which agrees with equality, the one with committed ids keeps the contract of the
two traits, and both are transitive together. -/
structure Coherent (a b c : LeaderId) (t : UInt64) : Prop where
  equal : PartialOrd.partialCmp a b = some .eq ↔ a = b
  dual : PartialOrd.partialCmp b a = (PartialOrd.partialCmp a b).map Ordering.swap
  lt_trans : lt a b = true → lt b c = true → lt a c = true
  le_trans : le a b = true → le b c = true → le a c = true
  incomparable : a.term = b.term → a.nodeId ≠ b.nodeId → PartialOrd.partialCmp a b = none
  consistent : Consistent a t
  lt_of_lt_of_le : lt a b = true → le b t = true → lt a t = true
  lt_toCommitted : lt a b = true → lt a b.toCommitted = true

/-- **When the comparisons of leader ids are coherent.** For all leader ids and all committed ids:
all the laws hold, but for the contract between the equality and the comparison of a leader id with
a committed one, which holds exactly when the committed id is not that of the leader's own
term. -/
theorem coherent_iff (a b c : LeaderId) (t : UInt64) : Coherent a b c t ↔ a.term ≠ t := by
  constructor
  · intro h
    exact consistent_iff.1 h.consistent
  · intro hterm
    exact
      { equal := PartialOrd.Decides.eq_iff
        dual := PartialOrd.partialCmp_swap a b
        lt_trans := fun hab hbc => PartialOrd.lt_trans hab hbc
        le_trans := fun hab hbc => PartialOrd.le_trans hab hbc
        incomparable := partialCmp_of_ne
        consistent := consistent_iff.2 hterm
        lt_of_lt_of_le := fun hab hbt =>
          comparesBy_toCommitted.lt_of_lt_of_le strictMono_toCommitted hab hbt
        lt_toCommitted := fun hab => comparesBy_toCommitted.lt_key strictMono_toCommitted hab }

/-- The leader of term 1 and the committed id of that term: the comparison says `Equal`, the
equality does not. -/
theorem ownTerm_inconsistent :
    PartialOrd.partialCmp (⟨1, 1⟩ : LeaderId) (1 : UInt64) = some .eq ∧
      PartialEq.eq (⟨1, 1⟩ : LeaderId) (1 : UInt64) = false ∧
      ¬ Coherent ⟨1, 1⟩ ⟨1, 1⟩ ⟨1, 1⟩ 1 := by
  refine ⟨by decide, rfl, fun h => ?_⟩
  have heq := h.consistent.1 (by decide)
  cases heq

end Pb.LeaderId
end RaftService
