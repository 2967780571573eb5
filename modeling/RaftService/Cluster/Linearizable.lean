import RaftService.Cluster.SafeReads

/-!
# `read_safe` is linearizable

Every read, safe or not, on any node, sees the state of a prefix of the log. A safe read sees
every write that was acknowledged before the call, by any node, and no less than any read that
had ended before the call, on any node (`reads_linearizable`). The argument is that what had been
seen or acknowledged before was committed then, that the read log id is not below, and that the
reader starts when the node has applied as much. A process that opens a database in the middle of
the run has not been read from, so nothing depends on what its predecessor had applied.
-/

namespace RaftService

open StateMachineStore
open Readers (Before)

variable {N σ Req Resp Snap ρ : Type}

namespace ReadCluster

/-- What a call of `read_safe` may rely on at the point where it is. -/
def Relies (node : ReadNode σ Req Resp ρ) (floor : Option LogId) : SafeRead → Prop
  | .awaiting readLogId => floor ≤ readLogId
  | .reading readLogId r =>
    floor ≤ readLogId ∧ Before (.acknowledged readLogId) (.started r) node.readers.history
  | _ => True

theorem Relies.mono {node node' : ReadNode σ Req Resp ρ} {floor : Option LogId} {point : SafeRead}
    (h : Relies node floor point) (hhistory : node.readers.history <+: node'.readers.history) :
    Relies node' floor point := by
  cases point with
  | reading readLogId r => exact ⟨h.1, h.2.trans hhistory.sublist⟩
  | awaiting readLogId => exact h
  | linearizing | failed | panicked => trivial

variable [Serde Req] {A : ApplicationStateMachine σ Req Resp Snap} {log : ReferenceLog Req}
  {c c' : ReadCluster N σ Req Resp ρ} {idx : N → ℕ → ℕ}

/-- The invariant, when the reader `r` of the node `n` has seen the first `idx n r` proposals. -/
structure Inv (A : ApplicationStateMachine σ Req Resp Snap) (log : ReferenceLog Req)
    (c : ReadCluster N σ Req Resp ρ) (idx : N → ℕ → ℕ) : Prop where
  nodes : ∀ n, ∃ pos, ReadNode.Inv A log c.committed (c.nodes n) pos (idx n)
  called : ∀ i, .called i ∈ c.history → i < c.calls.length
  ended : ∀ n r, .ended n r ∈ c.history → (c.nodes n).readers.Locked r
  acknowledged : ∀ w, .acknowledged w ∈ c.history →
    some w ≤ c.committed ∧ ∃ p ∈ log.proposals, p.1 = w
  ended_le : ∀ n r (i : ℕ) (call : ReadCall N), Before (.ended n r) (.called i) c.history →
    c.calls[i]? = some call → idx n r ≤ log.position call.floor
  acknowledged_le : ∀ w (i : ℕ) (call : ReadCall N),
    Before (.acknowledged w) (.called i) c.history → c.calls[i]? = some call →
      some w ≤ call.floor
  relies : ∀ (i : ℕ) (call : ReadCall N), c.calls[i]? = some call →
    Relies (c.nodes call.node) call.floor call.point

/-! ### The rules -/

theorem Inv.commit (h : Inv A log c idx) {logId : Option LogId} (hle : c.committed ≤ logId) :
    Inv A log { c with committed := logId } idx where
  nodes n := by
    obtain ⟨pos, hpos⟩ := h.nodes n
    exact ⟨pos, hpos.commit hle⟩
  called := h.called
  ended := h.ended
  acknowledged w hw := ⟨(h.acknowledged w hw).1.trans hle, (h.acknowledged w hw).2⟩
  ended_le := h.ended_le
  acknowledged_le := h.acknowledged_le
  relies := h.relies

/-- One node moves, and what its readers have seen stays the same. -/
theorem Inv.setNode [DecidableEq N] (h : Inv A log c idx) {n : N} {node : ReadNode σ Req Resp ρ}
    {pos : ℕ} {idx' : ℕ → ℕ} (hnode : ReadNode.Inv A log c.committed node pos idx')
    (hlocked : ∀ r, (c.nodes n).readers.Locked r → node.readers.Locked r ∧ idx' r = idx n r)
    (hhistory : (c.nodes n).readers.history <+: node.readers.history) :
    Inv A log { c with nodes := Function.update c.nodes n node } (Function.update idx n idx') := by
  have hkeeps : ∀ q r, (c.nodes q).readers.Locked r →
      (Function.update c.nodes n node q).readers.Locked r ∧
        Function.update idx n idx' q r = idx q r := by
    intro q r hr
    by_cases hq : q = n
    · subst hq
      rw [Function.update_self, Function.update_self]
      exact hlocked r hr
    · rw [Function.update_of_ne hq, Function.update_of_ne hq]
      exact ⟨hr, rfl⟩
  refine ⟨fun q => ?_, h.called, fun q r hr => (hkeeps q r (h.ended q r hr)).1, h.acknowledged,
    fun q r i call hb hcall => ?_, h.acknowledged_le, fun i call hcall => ?_⟩
  · by_cases hq : q = n
    · subst hq
      rw [Function.update_self]
      exact ⟨pos, by simpa only [Function.update_self] using hnode⟩
    · rw [Function.update_of_ne hq]
      simpa only [Function.update_of_ne hq] using h.nodes q
  · rw [(hkeeps q r (h.ended q r hb.mem_left)).2]
    exact h.ended_le q r i call hb hcall
  · have hrelies := h.relies i call hcall
    by_cases hq : call.node = n
    · rw [← hq] at hhistory ⊢
      simp only [Function.update_self]
      exact hrelies.mono hhistory
    · simpa only [Function.update_of_ne hq] using hrelies

/-- A read ends, or a response is sent. -/
theorem Inv.record (h : Inv A log c idx) {seen : ReadRecord N} (hseen : ∀ i, seen ≠ .called i)
    (hended : ∀ n r, seen = .ended n r → (c.nodes n).readers.Locked r)
    (hack : ∀ w, seen = .acknowledged w → some w ≤ c.committed ∧ ∃ p ∈ log.proposals, p.1 = w) :
    Inv A log { c with history := c.history ++ [seen] } idx := by
  have hmem : ∀ s, s ∈ c.history ++ [seen] → s ∈ c.history ∨ s = seen := by
    intro s hs
    rcases List.mem_append.1 hs with hs | hs
    · exact Or.inl hs
    · exact Or.inr (List.mem_singleton.1 hs)
  have hbefore : ∀ s i, Before s (.called i) (c.history ++ [seen]) →
      Before s (.called i) c.history := by
    intro s i hb
    rcases Readers.before_snoc hb with hb | ⟨-, hcalled⟩
    · exact hb
    · exact absurd hcalled.symm (hseen i)
  refine ⟨h.nodes, fun i hi => ?_, fun n r hr => ?_, fun w hw => ?_, fun n r i call hb hcall => ?_,
    fun w i call hb hcall => ?_, h.relies⟩
  · rcases hmem _ hi with hi | hi
    · exact h.called i hi
    · exact absurd hi.symm (hseen i)
  · rcases hmem _ hr with hr | hr
    · exact h.ended n r hr
    · exact hended n r hr.symm
  · rcases hmem _ hw with hw | hw
    · exact h.acknowledged w hw
    · exact hack w hw.symm
  · exact h.ended_le n r i call (hbefore _ i hb) hcall
  · exact h.acknowledged_le w i call (hbefore _ i hb) hcall

/-- `read_safe` is called: what has been seen or acknowledged so far is committed. -/
theorem Inv.call (h : Inv A log c idx) (n : N) :
    Inv A log { c with
      calls := c.calls ++ [⟨n, c.committed, .linearizing⟩]
      history := c.history ++ [.called c.calls.length] } idx := by
  have hold : ∀ (i : ℕ) (call : ReadCall N),
      (c.calls ++ [⟨n, c.committed, .linearizing⟩])[i]? = some call → c.calls[i]? = some call ∨
        i = c.calls.length ∧ call = ⟨n, c.committed, .linearizing⟩ := by
    intro i call hcall
    rcases Nat.lt_trichotomy i c.calls.length with hlt | rfl | hgt
    · rw [List.getElem?_append_left hlt] at hcall
      exact Or.inl hcall
    · rw [List.getElem?_append_right le_rfl, Nat.sub_self] at hcall
      exact Or.inr ⟨rfl, (Option.some.inj hcall).symm⟩
    · rw [List.getElem?_eq_none (by simp; omega)] at hcall
      cases hcall
  refine ⟨h.nodes, fun i hi => ?_, fun q r hr => ?_, fun w hw => ?_, fun q r i call hb hcall => ?_,
    fun w i call hb hcall => ?_, fun i call hcall => ?_⟩
  · rw [List.length_append, List.length_singleton]
    rcases List.mem_append.1 hi with hi | hi
    · exact (h.called i hi).trans (Nat.lt_succ_self _)
    · cases List.mem_singleton.1 hi
      exact Nat.lt_succ_self _
  · simp only [List.mem_append, List.mem_singleton, reduceCtorEq, or_false] at hr
    exact h.ended q r hr
  · simp only [List.mem_append, List.mem_singleton, reduceCtorEq, or_false] at hw
    exact h.acknowledged w hw
  · rcases Readers.before_snoc hb with hb | ⟨hended, hi⟩
    · rcases hold i call hcall with hcall | ⟨rfl, -⟩
      · exact h.ended_le q r i call hb hcall
      · exact absurd (h.called _ (hb.subset (by simp))) (lt_irrefl _)
    · obtain rfl : i = c.calls.length := ReadRecord.called.inj hi
      rcases hold _ call hcall with hcall | ⟨-, rfl⟩
      · rw [List.getElem?_eq_none le_rfl] at hcall
        cases hcall
      · obtain ⟨pos, hnode⟩ := h.nodes q
        exact (hnode.readers.idx_le r (h.ended q r hended)).trans hnode.pos_le
  · rcases Readers.before_snoc hb with hb | ⟨hack, hi⟩
    · rcases hold i call hcall with hcall | ⟨rfl, -⟩
      · exact h.acknowledged_le w i call hb hcall
      · exact absurd (h.called _ (hb.subset (by simp))) (lt_irrefl _)
    · obtain rfl : i = c.calls.length := ReadRecord.called.inj hi
      rcases hold _ call hcall with hcall | ⟨-, rfl⟩
      · rw [List.getElem?_eq_none le_rfl] at hcall
        cases hcall
      · exact (h.acknowledged w hack).1
  · rcases hold i call hcall with hcall | ⟨-, rfl⟩
    · exact h.relies i call hcall
    · trivial

theorem Inv.setPoint (h : Inv A log c idx) {i : ℕ} {n : N} {floor : Option LogId}
    {point point' : SafeRead} (hcall : c.calls[i]? = some ⟨n, floor, point⟩)
    (hrelies : Relies (c.nodes n) floor point') :
    Inv A log { c with calls := c.calls.set i ⟨n, floor, point'⟩ } idx := by
  have hcases : ∀ (j : ℕ) (call : ReadCall N), (c.calls.set i ⟨n, floor, point'⟩)[j]? = some call →
      ∃ old, c.calls[j]? = some old ∧ old.floor = call.floor ∧
        (old = call ∨ call = ⟨n, floor, point'⟩) := by
    intro j call hj
    rw [List.getElem?_set] at hj
    split_ifs at hj with hij hlt
    · subst hij
      cases hj
      exact ⟨_, hcall, rfl, Or.inr rfl⟩
    · exact ⟨call, hj, rfl, Or.inl rfl⟩
  refine ⟨h.nodes, fun j hj => ?_, h.ended, h.acknowledged, fun q r j call hb hj => ?_,
    fun w j call hb hj => ?_, fun j call hj => ?_⟩
  · rw [List.length_set]
    exact h.called j hj
  · obtain ⟨old, hold, hfloor, -⟩ := hcases j call hj
    rw [← hfloor]
    exact h.ended_le q r j old hb hold
  · obtain ⟨old, hold, hfloor, -⟩ := hcases j call hj
    rw [← hfloor]
    exact h.acknowledged_le w j old hb hold
  · obtain ⟨old, hold, -, rfl | rfl⟩ := hcases j call hj
    · exact h.relies j old hold
    · exact hrelies

/-! ### The steps -/

section Given

variable [Serde Snap] [Serde StoredSnapshot]

/-- The nodes are given snapshots of the log: the ones that they install, and the ones in the
databases that they open. -/
structure GivenExact (A : ApplicationStateMachine σ Req Resp Snap) (log : ReferenceLog Req)
    (tr : List (Event N σ ρ)) : Prop where
  installs : ∀ n md data, .owner n (.install md data) ∈ tr →
    (StoredSnapshot.mk md data).Exact A log
  opens : ∀ n db, .new n db ∈ tr → HoldsExact A log db

theorem GivenExact.of_subset {tr tr' : List (Event N σ ρ)} (h : GivenExact A log tr)
    (hsub : tr' ⊆ tr) : GivenExact A log tr' :=
  ⟨fun n md data hmem => h.installs n md data (hsub hmem),
    fun n db hmem => h.opens n db (hsub hmem)⟩

end Given

section Steps

variable [DecidableEq N] [Serde Snap] [Serde StoredSnapshot] [Openraft]

theorem Inv.new (h : Inv A log c idx) {n : N} {db : Db} (hdb : HoldsExact A log db)
    (hstep : step A log c (.new n db) = some c') : ∃ idx', Inv A log c' idx' := by
  simp only [step] at hstep
  split at hstep
  · next st hnew =>
    simp only [Option.ite_none_right_eq_some, Option.some.injEq, List.isEmpty_iff] at hstep
    obtain ⟨⟨hreads, hhistory, hle⟩, rfl⟩ := hstep
    have hopened : ∃ pos, ReadNode.Inv A log c.committed
        (.opened st db : ReadNode σ Req Resp ρ) pos fun _ => 0 :=
      ReadNode.inv_opened hdb hnew hle
    obtain ⟨pos, hnode⟩ := hopened
    refine ⟨_, h.setNode hnode (fun r hr => ?_) ?_⟩
    · -- no one has read there
      exact absurd (hreads ▸ hr.1) (Nat.not_lt_zero r)
    · rw [hhistory]
      exact List.nil_prefix
  · cases hstep

theorem Inv.reader (h : Inv A log c idx) {n : N} {e : Readers.Event}
    (hstep : step A log c (.reader n e) = some c') : ∃ idx', Inv A log c' idx' := by
  simp only [step, Option.map_eq_some_iff] at hstep
  obtain ⟨readers, hread, rfl⟩ := hstep
  obtain ⟨pos, hnode⟩ := h.nodes n
  obtain ⟨idx', hnode', hkeeps⟩ := hnode.reader hread
  have hlocked : ∀ r, (c.nodes n).readers.Locked r → readers.Locked r :=
    fun r hr => Readers.locked_step hread hr
  have hset := h.setNode hnode' (fun r hr => ⟨hlocked r hr, hkeeps r hr⟩)
    (Readers.history_step hread)
  cases e with
  | finish r =>
    refine ⟨_, hset.record (by simp) (fun q r' hr => ?_) (by simp)⟩
    cases hr
    simp only [Function.update_self]
    refine hlocked r (hnode.readers.holding_locked r ?_)
    simp only [Readers.step, Option.ite_none_right_eq_some] at hread
    exact hread.1
  | start | lock r | observe r =>
    exact ⟨_, by simpa only [ending, List.append_nil] using hset⟩

theorem Inv.linearize (h : Inv A log c idx) {i : ℕ} {answer : Except String (Option LogId)}
    (hstep : step A log c (.linearize i answer) = some c') : Inv A log c' idx := by
  simp only [step] at hstep
  split at hstep
  · next n floor hcall =>
    cases answer with
    | error err =>
      cases hstep
      exact h.setPoint hcall trivial
    | ok readLogId =>
      simp only [Option.ite_none_right_eq_some, Option.some.injEq] at hstep
      obtain ⟨hle, rfl⟩ := hstep
      exact h.setPoint hcall hle
  · cases hstep

/-- What `await_ready` returns; the reader starts. -/
theorem Inv.awaitReady (h : Inv A log c idx) {i : ℕ} {ok : Bool}
    (hstep : step A log c (.awaitReady i ok) = some c') : ∃ idx', Inv A log c' idx' := by
  simp only [step] at hstep
  split at hstep
  · next n floor readLogId hcall =>
    cases ok with
    | false =>
      cases hstep
      exact ⟨idx, h.setPoint hcall trivial⟩
    | true =>
      simp only [Bool.true_eq_false, if_false, Option.ite_none_right_eq_some,
        Option.map_eq_some_iff] at hstep
      obtain ⟨hle, readers, hread, rfl⟩ := hstep
      obtain ⟨pos, hnode⟩ := h.nodes n
      obtain ⟨idx', hnode', hkeeps⟩ := (hnode.ready hle).reader hread
      have hset := h.setNode hnode'
        (fun r hr => ⟨Readers.locked_step hread hr, hkeeps r hr⟩)
        ((List.prefix_append _ _).trans (Readers.history_step hread))
      refine ⟨_, hset.setPoint hcall ⟨h.relies i _ hcall, ?_⟩⟩
      -- the reader starts right after the record
      cases hread
      simp only [Function.update_self, Readers.acknowledge, List.append_assoc]
      exact (List.suffix_append _ _).sublist
  · cases hstep

variable [LawfulSerde Req] [LawfulOpenraft]

theorem Inv.owner (h : Inv A log c idx) {n : N} {m : Move σ ρ}
    (hinst : ∀ md data, m = .install md data → (StoredSnapshot.mk md data).Exact A log)
    (hstep : step A log c (.owner n m) = some c') : ∃ idx', Inv A log c' idx' := by
  simp only [step, Option.ite_none_left_eq_some, Option.map_eq_some_iff, not_or, not_and,
    Bool.not_eq_false, not_not] at hstep
  obtain ⟨⟨hallows, hlock⟩, ⟨o, sent⟩, hmove, rfl⟩ := hstep
  obtain ⟨pos, hnode⟩ := h.nodes n
  obtain ⟨⟨pos', hnode'⟩, hsent⟩ := hnode.owner hallows hlock hinst hmove
  have hset := h.setNode hnode' (fun r hr => ⟨hr, rfl⟩) List.prefix_rfl
  cases sent with
  | none => exact ⟨_, by simpa only [acknowledgement, List.append_nil] using hset⟩
  | some s =>
    refine ⟨_, hset.record (by simp) (by simp) fun w hw => ?_⟩
    cases hw
    exact hsent s rfl

/-- **Every step keeps the invariant.** -/
theorem Inv.step (h : Inv A log c idx) {e : Event N σ ρ} (hgiven : GivenExact A log [e])
    (hstep : ReadCluster.step A log c e = some c') : ∃ idx', Inv A log c' idx' := by
  cases e with
  | commit logId =>
    simp only [ReadCluster.step, Option.ite_none_right_eq_some, Option.some.injEq] at hstep
    obtain ⟨hle, rfl⟩ := hstep
    exact ⟨idx, h.commit hle⟩
  | new n db => exact h.new (hgiven.opens n db (List.mem_singleton_self _)) hstep
  | owner n m =>
    refine h.owner (fun md data hm => hgiven.installs n md data ?_) hstep
    rw [hm]
    exact List.mem_singleton_self _
  | report n =>
    obtain ⟨pos, hnode⟩ := h.nodes n
    simp only [ReadCluster.step] at hstep
    split at hstep
    · next hidle =>
      cases hstep
      exact ⟨_, h.setNode (hnode.report hidle) (fun r hr => ⟨hr, rfl⟩) List.prefix_rfl⟩
    · cases hstep
  | reader n e => exact h.reader hstep
  | call n =>
    cases hstep
    exact ⟨idx, h.call n⟩
  | linearize i answer => exact ⟨idx, h.linearize hstep⟩
  | awaitReady i ok => exact h.awaitReady hstep

end Steps

section Reads

theorem Inv.observed (h : Inv A log c idx) {n : N} {r : ℕ} {x : σ}
    (hx : .observed r x ∈ (c.nodes n).readers.history) :
    idx n r ≤ log.proposals.length ∧ x = stateOf A (log.proposals.take (idx n r)) := by
  obtain ⟨pos, hnode⟩ := h.nodes n
  obtain ⟨hle, hval⟩ := hnode.readers.reads_are_versions.1 r x hx
  exact ⟨hle.trans hnode.le, hval⟩

/-- A safe read has the prefix of what was committed when it was called. -/
theorem Inv.floor_le (h : Inv A log c idx) {i : ℕ} {n : N} {floor readLogId : Option LogId}
    {r : ℕ} {x : σ} (hcall : c.calls[i]? = some ⟨n, floor, .reading readLogId r⟩)
    (hx : .observed r x ∈ (c.nodes n).readers.history) : log.position floor ≤ idx n r := by
  obtain ⟨pos, hnode⟩ := h.nodes n
  obtain ⟨hfloor, hready⟩ := h.relies i _ hcall
  -- the reader started when the node had applied what was committed at the call
  exact (ReferenceLog.position_mono hfloor).trans
    (hnode.readers.reads_are_versions.2.2 readLogId r x hready hx)

/-- A safe read sees no less than what had ended before its call. -/
theorem Inv.ended_le_idx (h : Inv A log c idx) {i : ℕ} {n n' : N} {floor readLogId : Option LogId}
    {r r' : ℕ} {x : σ} (hcall : c.calls[i]? = some ⟨n, floor, .reading readLogId r⟩)
    (hx : .observed r x ∈ (c.nodes n).readers.history)
    (hb : Before (.ended n' r') (.called i) c.history) : idx n' r' ≤ idx n r :=
  (h.ended_le n' r' i _ hb hcall).trans (h.floor_le hcall hx)

/-- A safe read sees what was acknowledged before its call. -/
theorem Inv.acknowledged_mem (h : Inv A log c idx) {i : ℕ} {n : N}
    {floor readLogId : Option LogId} {r : ℕ} {x : σ} {w : LogId}
    (hcall : c.calls[i]? = some ⟨n, floor, .reading readLogId r⟩)
    (hx : .observed r x ∈ (c.nodes n).readers.history)
    (hb : Before (.acknowledged w) (.called i) c.history) :
    ∃ p ∈ log.proposals.take (idx n r), p.1 = w := by
  obtain ⟨-, p, hp, rfl⟩ := h.acknowledged w hb.mem_left
  exact ⟨p, ReferenceLog.mem_take_of_position_le (h.floor_le hcall hx) hp
    (h.acknowledged_le _ i _ hb hcall), rfl⟩

end Reads

section Runs

variable [Serde Snap] [Serde StoredSnapshot]

/-- Every node has opened its database, with a snapshot of the log or none. -/
structure Opens (A : ApplicationStateMachine σ Req Resp Snap) (log : ReferenceLog Req)
    (c : ReadCluster N σ Req Resp ρ) : Prop where
  nodes : ∀ n, ∃ db st, HoldsExact A log db ∧ StateMachineStore.new A db = .ok st ∧
    st.stateMachine.lastAppliedLog ≤ c.committed ∧ c.nodes n = .opened st db
  calls : c.calls = []
  history : c.history = []

theorem inv_of_opens (h : Opens A log c) : Inv A log c fun _ _ => 0 := by
  refine ⟨fun n => ?_, ?_, ?_, ?_, ?_, ?_, ?_⟩
  · obtain ⟨db, st, hdb, hnew, hle, hnode⟩ := h.nodes n
    rw [hnode]
    exact ReadNode.inv_opened hdb hnew hle
  all_goals simp [h.calls, h.history, Before]

variable [DecidableEq N] [Openraft] [LawfulSerde Req] [LawfulOpenraft]

/-- **Every state of a run satisfies the invariant.** -/
theorem exists_inv_of_run {c₀ : ReadCluster N σ Req Resp ρ} (hopens : Opens A log c₀)
    {tr : List (Event N σ ρ)} (hgiven : GivenExact A log tr)
    (hrun : Run.exec (step A log) c₀ tr = some c) : ∃ idx, Inv A log c idx := by
  refine Run.exec_induction
    (motive := fun tr c => GivenExact A log tr → ∃ idx, Inv A log c idx)
    (fun _ => ⟨_, inv_of_opens hopens⟩) (fun tr c e c' _ ih hstep hgiven => ?_) tr c hrun hgiven
  obtain ⟨idx, h⟩ := ih (hgiven.of_subset (List.subset_append_left _ _))
  exact h.step (hgiven.of_subset (List.subset_append_right _ _)) hstep

/-- **`read_safe` is linearizable.** In every run of any number of nodes, started at any time, with
any number of reads on each of them, there is a prefix index for every read that looks at the
application data, such that
* the read, safe or not, sees exactly the state of that prefix, every time it looks;
* a safe read has no smaller index than any read, safe or not, on any node, that had ended before
  `read_safe` was called;
* a safe read has in its prefix every entry whose response was sent by any node before `read_safe`
  was called. -/
theorem reads_linearizable {c₀ : ReadCluster N σ Req Resp ρ} (hopens : Opens A log c₀)
    {tr : List (Event N σ ρ)} (hgiven : GivenExact A log tr)
    (hrun : Run.exec (step A log) c₀ tr = some c) :
    ∃ idx : N → ℕ → ℕ,
      (∀ n r x, .observed r x ∈ (c.nodes n).readers.history →
        idx n r ≤ log.proposals.length ∧ x = stateOf A (log.proposals.take (idx n r))) ∧
      ∀ (i : ℕ) n floor readLogId r x, c.calls[i]? = some ⟨n, floor, .reading readLogId r⟩ →
        .observed r x ∈ (c.nodes n).readers.history →
        (∀ n' r', Before (.ended n' r') (.called i) c.history → idx n' r' ≤ idx n r) ∧
        ∀ w, Before (.acknowledged w) (.called i) c.history →
          ∃ p ∈ log.proposals.take (idx n r), p.1 = w := by
  obtain ⟨idx, h⟩ := exists_inv_of_run hopens hgiven hrun
  exact ⟨idx, fun n r x hx => h.observed hx, fun i n floor readLogId r x hcall hx =>
    ⟨fun n' r' hb => h.ended_le_idx hcall hx hb, fun w hb => h.acknowledged_mem hcall hx hb⟩⟩

end Runs

end ReadCluster

/-! ### A run of two counters -/

namespace ReadCluster

open scoped Counter

/-- Two counters on databases just created. -/
def fresh : ReadCluster Bool ℕ ℕ ℕ Unit :=
  ⟨fun _ => .opened ⟨⟨none, .default, 0⟩, 0⟩ Db.empty, none, [], []⟩

/-- `apply` of the entries up to the first request. -/
def applyFirst (n : Bool) : List (Event Bool ℕ Unit) :=
  [.owner n (.apply [.ok (⟨1, 0, none, some (Membership.toPb Counter.cluster)⟩, none),
      .ok (⟨1, 1, some (ascii "5"), none⟩, some ())]),
    .owner n .next, .owner n .next, .owner n .lock, .owner n .unlock, .owner n .respond,
    .owner n .next]

/-- A database with the snapshot of the first request. -/
def snapshotDb : Db := Db.empty.write (putSnapshot (Counter.snapshotAt 1 "1-1-1" (ascii "5")))

/-- One node answers a request. The other one has crashed, and opens a database with a snapshot; it
is then asked to read. -/
def writeThenReadSafe : List (Event Bool ℕ Unit) :=
  (.commit (some ⟨1, 1⟩) :: applyFirst false) ++
    [.new true snapshotDb, .call true, .linearize 0 (.ok (some ⟨1, 1⟩)), .report true,
      .awaitReady 0 true, .reader true (.lock 0), .reader true (.observe 0),
      .reader true (.finish 0)]

theorem writeThenReadSafe_given : GivenExact counter Counter.log writeThenReadSafe where
  installs := by simp [writeThenReadSafe, applyFirst]
  opens n db hmem := by
    obtain ⟨rfl, rfl⟩ : n = true ∧ db = snapshotDb := by
      simpa [writeThenReadSafe, applyFirst] using hmem
    exact holdsExact_putSnapshot _ (exists_toVecIn (by decide +kernel)) ⟨5, rfl, rfl⟩

set_option maxRecDepth 8000 in
/-- The safe read sees a prefix that contains the request. -/
theorem writeThenReadSafe_sees :
    ∃ c, Run.exec (step counter Counter.log) fresh writeThenReadSafe = some c ∧
      .observed 0 5 ∈ (c.nodes true).readers.history ∧
      ∃ n, 5 = stateOf counter (Counter.log.proposals.take n) ∧
        ∃ p ∈ Counter.log.proposals.take n, p.1 = ⟨1, 1⟩ := by
  obtain ⟨c, hrun, hcalls, hhistory, hreads⟩ :
      ∃ c, Run.exec (step counter Counter.log) fresh writeThenReadSafe = some c ∧
        c.calls = [⟨true, some ⟨1, 1⟩, .reading (some ⟨1, 1⟩) 0⟩] ∧
        c.history = [.acknowledged ⟨1, 1⟩, .called 0, .ended true 0] ∧
        (c.nodes true).readers.history =
          [.acknowledged (some ⟨1, 1⟩), .started 0, .observed 0 5, .ended 0] := by
    refine ⟨_, rfl, ?_, ?_, ?_⟩
    · rfl
    · rfl
    · rfl
  have hopens : Opens counter Counter.log fresh :=
    ⟨fun n => ⟨Db.empty, _, holdsExact_empty, rfl, le_rfl, rfl⟩, rfl, rfl⟩
  obtain ⟨idx, hseen, hsafe⟩ := reads_linearizable hopens writeThenReadSafe_given hrun
  have hobs : .observed 0 5 ∈ (c.nodes true).readers.history := by simp [hreads]
  have hcall : c.calls[0]? = some ⟨true, some ⟨1, 1⟩, .reading (some ⟨1, 1⟩) 0⟩ := by
    rw [hcalls]
    rfl
  have hbefore : Before (.acknowledged ⟨1, 1⟩) (.called 0) c.history := by
    rw [hhistory]
    exact (List.prefix_append _ _).sublist
  exact ⟨c, hrun, hobs, idx true 0, (hseen true 0 5 hobs).2,
    (hsafe 0 true _ _ 0 5 hcall hobs).2 _ hbefore⟩

end ReadCluster

end RaftService
