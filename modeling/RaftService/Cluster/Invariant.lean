import RaftService.Cluster.Machine

/-!
# The invariant of a cluster

Every node satisfies the invariant of a single node; every snapshot on a disk, or on its way there,
has been built in the run; and every transfer carries such a snapshot (`Cluster.Inv`). Each step
keeps this unless it installs what has come of a stream with messages left: that is not what the
sender has sent. Where no message is left, it is (`Transfer.Carries.installs`).
-/

namespace RaftService

open RocksLogStore StateMachineStore

variable {N σ Req Resp Snap ρ : Type}

/-! ### The membership of an exact snapshot -/

/-- The last membership among proposals with valid memberships is valid. -/
theorem lastMembershipOf_valid {ps : List (Proposal Req)}
    (hvalid : ∀ p ∈ ps, ∀ m, p.2 = .membership m → m.Valid) :
    (lastMembershipOf ps).membership.Valid := by
  unfold lastMembershipOf
  cases hfind : ps.reverse.findSome? fun p =>
      p.2.membership?.map (StoredMembership.mk (some p.1)) with
  | none =>
    intro config hconfig
    cases hconfig
  | some stored =>
    obtain ⟨p, hp, hstored⟩ := List.exists_of_findSome?_eq_some hfind
    obtain ⟨m, hm, rfl⟩ := Option.map_eq_some_iff.1 hstored
    refine hvalid p (List.mem_reverse.1 hp) m ?_
    rcases p with ⟨id, _ | _ | _⟩ <;> cases hm
    rfl

/-- So is that of an exact snapshot. -/
theorem StoredSnapshot.Exact.valid [Serde Req] [Serde Snap]
    {A : ApplicationStateMachine σ Req Resp Snap} {log : ReferenceLog Req} {snap : StoredSnapshot}
    (h : snap.Exact A log) : snap.snapshotMeta.lastMembership.membership.Valid := by
  obtain ⟨data, -, hat⟩ := h
  have hmem := congrArg StateMachineData.lastMembership hat
  simp only [replay] at hmem
  rw [hmem]
  exact lastMembershipOf_valid fun p hp => log.valid p ((log.upTo_prefix _).subset hp)

/-! ### Transfers -/

/-- The transfer carries a snapshot with the property. -/
def Transfer.Carries (P : StoredSnapshot → Prop) (t : Transfer N) : Prop :=
  ∃ vote snap, P snap ∧
    Streaming.Of (fullSnapshotRequests vote ⟨snap.snapshotMeta, snap.data⟩) t.stream

theorem Transfer.Carries.mono {P Q : StoredSnapshot → Prop} {t : Transfer N} (h : t.Carries P)
    (hPQ : ∀ snap, P snap → Q snap) : t.Carries Q := by
  obtain ⟨vote, snap, hP, hof⟩ := h
  exact ⟨vote, snap, hPQ snap hP, hof⟩

namespace RaftServiceImpl

/-- Some of the first messages and an error are no transfer. -/
theorem not_isTransfer_of_error (sent : List Pb.SnapshotRequest) (status : Status) :
    ¬ IsTransfer (sent.map .ok ++ [.error status]) := by
  rintro ⟨m, chunks, heq⟩
  have hmem : (.error status : Except Status Pb.SnapshotRequest) ∈ transferOf m chunks := by
    rw [← heq]
    exact List.mem_append_right _ (List.mem_singleton_self _)
  simp [transferOf, chunkStream] at hmem

variable [Openraft] (raft : Pb.Vote → Snapshot → Except String Pb.Vote)

/-- All messages of the client. -/
theorem snapshot_whole [LawfulOpenraft] (vote : Pb.Vote) {s : Snapshot}
    (hvalid : s.snapshotMeta.lastMembership.membership.Valid) :
    snapshot raft ((fullSnapshotRequests vote s).map .ok) = installed raft vote s := by
  rw [fullSnapshotRequests_map_ok, snapshot_transferOf raft (readMeta_requestMeta vote hvalid),
    List.flatten_toChunks]

/-- A stream that is no transfer installs nothing, whatever its metadata. -/
theorem installs_of_not_transfer {stream : List (Except Status Pb.SnapshotRequest)}
    (h : ¬ IsTransfer stream) : (snapshot raft stream).installs = [] := by
  rcases stream with - | ⟨status | request, stream⟩
  · rfl
  · rfl
  · cases hmeta : request.intoMeta with
    | none => simp [snapshot, receiveMeta, hmeta]
    | some m =>
      obtain rfl := intoMeta_eq_some.1 hmeta
      rcases receiveData_cases stream [] with ⟨chunks, rfl, -⟩ | ⟨-, status, herr⟩
      · exact absurd ⟨m, chunks, rfl⟩ h
      · cases hread : readMeta m with
        | error fault => simp [snapshot, receiveMeta, hmeta, hread]
        | ok read => simp [snapshot, receiveMeta, hmeta, hread, herr]

end RaftServiceImpl

/-- **What the handler hands over when no message is left** is the snapshot that the transfer
carries. -/
theorem Transfer.Carries.installs [Openraft] [LawfulOpenraft] {P : StoredSnapshot → Prop}
    {t : Transfer N} (h : t.Carries P)
    (hvalid : ∀ snap, P snap → snap.snapshotMeta.lastMembership.membership.Valid)
    (hrest : t.stream.rest = []) {raft : Pb.Vote → Snapshot → Except String Pb.Vote}
    {vote : Pb.Vote} {snapshot : Snapshot}
    (hinst : (RaftServiceImpl.snapshot raft t.stream.received).installs = [(vote, snapshot)]) :
    P ⟨snapshot.snapshotMeta, snapshot.snapshot⟩ := by
  obtain ⟨vote₀, snap, hP, hof⟩ := h
  rcases Streaming.received_of_whole hof hrest with hall | ⟨status, hfailed⟩
  · rw [hall, RaftServiceImpl.snapshot_whole raft vote₀ (hvalid snap hP),
      RaftServiceImpl.installed] at hinst
    cases hinst
    exact hP
  · rw [hfailed, RaftServiceImpl.installs_of_not_transfer raft
      (RaftServiceImpl.not_isTransfer_of_error _ status)] at hinst
    cases hinst

/-- All messages of a snapshot have come only if the transfer carries this snapshot. -/
theorem Transfer.Carries.of_received {P : StoredSnapshot → Prop} {t : Transfer N}
    (h : t.Carries P) {vote : Pb.Vote} {snap : StoredSnapshot} (hrest : t.stream.rest = [])
    (hreceived : t.stream.received =
      (fullSnapshotRequests vote ⟨snap.snapshotMeta, snap.data⟩).map .ok) : P snap := by
  obtain ⟨vote₀, snap₀, hP, hof⟩ := h
  have hok : Function.Injective (.ok : Pb.SnapshotRequest → Except Status Pb.SnapshotRequest) :=
    fun _ _ h => Except.ok.inj h
  rcases Streaming.received_of_whole hof hrest with hall | ⟨status, hfailed⟩
  · rw [hreceived] at hall
    obtain ⟨-, hsnap⟩ := fullSnapshotRequests_injective (List.map_injective_iff.2 hok hall)
    cases snap
    cases snap₀
    cases hsnap
    exact hP
  · have hmem : (.error status : Except Status Pb.SnapshotRequest) ∈
        (fullSnapshotRequests vote ⟨snap.snapshotMeta, snap.data⟩).map .ok := by
      rw [← hreceived, hfailed]
      exact List.mem_append_right _ (List.mem_singleton_self _)
    simp at hmem

/-! ### The invariant -/

namespace Cluster

theorem transfersAfter_subset [DecidableEq N] (c : Cluster N σ) (n : N) (e : RaftNode.Event ρ) :
    c.transfersAfter n e ⊆ c.transfers := by
  cases e
  case crash => exact List.filter_subset_self _
  all_goals exact List.Subset.refl _

section Invariant

variable [Serde Req] [Serde Snap] [Serde StoredSnapshot] [Serde Pb.Entry] [Serde LogId]

/-- Every node is as a node should be, and the snapshots on the disks and on their way have the
property. -/
structure Inv (A : ApplicationStateMachine σ Req Resp Snap) (log : ReferenceLog Req)
    (P : StoredSnapshot → Prop) (c : Cluster N σ) : Prop where
  node : ∀ n, RaftNode.Inv A log (c.nodes n)
  stores : ∀ n, RaftNode.Stores P (c.nodes n)
  carries : ∀ t ∈ c.transfers, t.Carries P

variable {A : ApplicationStateMachine σ Req Resp Snap} {log : ReferenceLog Req}
  {P : StoredSnapshot → Prop} {c : Cluster N σ}

theorem Inv.mono {Q : StoredSnapshot → Prop} (h : Inv A log P c) (hPQ : ∀ snap, P snap → Q snap) :
    Inv A log Q c where
  node := h.node
  stores n := (h.stores n).mono hPQ
  carries t ht := (h.carries t ht).mono hPQ

theorem inv_start {store : StateMachineStore σ} (hnew : newStorage A Db.empty = .ok store) :
    Inv A log P (start store : Cluster N σ) where
  node _ := RaftNode.inv_opened recoverable_empty hnew (by simp)
  stores _ := RaftNode.stores_opened RaftNode.holdsOnly_empty store []
  carries t ht := by cases ht

theorem Inv.of_hasStored (h : Inv A log P c) {snap : StoredSnapshot} (hsnap : c.HasStored snap) :
    P snap := by
  obtain ⟨n, d, rfl | hcrash, hsnap⟩ := hsnap
  · exact (h.stores n).db snap hsnap
  · exact hcrash.of_since (h.stores n).disk (Nat.zero_le _) snap hsnap

/-- One node moves, and no transfer begins. -/
theorem Inv.update [DecidableEq N] (h : Inv A log P c) {n : N} {s : RaftNode σ}
    (hnode : RaftNode.Inv A log s) (hstores : RaftNode.Stores P s) {transfers : List (Transfer N)}
    (hsub : transfers ⊆ c.transfers) : Inv A log P ⟨Function.update c.nodes n s, transfers⟩ where
  node := (Function.forall_update_iff c.nodes fun _ s => RaftNode.Inv A log s).2
    ⟨hnode, fun m _ => h.node m⟩
  stores := (Function.forall_update_iff c.nodes fun _ s => RaftNode.Stores P s).2
    ⟨hstores, fun m _ => h.stores m⟩
  carries t ht := h.carries t (hsub ht)

variable [DecidableEq N] [BuildProfile] [Openraft] [LawfulOpenraft] [LawfulSerde Req]
  [LawfulSerde Snap] [LawfulSerde StoredSnapshot] [LawfulSerde Pb.Entry] [LawfulSerde LogId]
  {raft : Pb.Vote → Snapshot → Except String Pb.Vote} {c' : Cluster N σ} {e : Event N ρ}

/-- **Every step keeps the invariant**, if the snapshots it builds have the property and it does
not install a part of what was sent. -/
theorem Inv.step (hA : A.RoundTrips) (hlog : log.GapFree)
    (hser : ∀ e ∈ log.entries, Serializes e) (hids : ∀ x, log.Has (some x) → Serializes x)
    (hP : ∀ snap, P snap → snap.Exact A log) (h : Inv A log P c)
    (hbuilt : ∀ n store b snap, e = .node n .build →
      getSnapshotBuilder (c.nodes n).store = .ok (store, b) →
      (buildSnapshot A b store.stateMachine.applicationData).result = .ok snap →
      P ⟨snap.snapshotMeta, snap.snapshot⟩)
    (hends : ∀ k t, e = .install k → c.transfers[k]? = some t → t.stream.rest = [])
    (hstep : step raft A log c e = some c') : Inv A log P c' := by
  cases effect_of_step hstep with
  | @node n e s hs hinst =>
    have hnode := (h.node n).step hA hlog hser hids
      (fun m data he => absurd he (hinst m data)) hs
    have hstores := RaftNode.Stores.step hA (h.node n) (h.stores n)
      (fun store b snap he => hbuilt n store b snap (by rw [he]))
      (fun m data he => absurd he (hinst m data)) hs
    exact h.update hnode hstores (transfersAfter_subset c n e)
  | @call source snapshot hsnap target vote =>
    obtain ⟨snap, hstored, rfl⟩ := Option.map_eq_some_iff.1 hsnap
    refine ⟨h.node, h.stores, fun t ht => ?_⟩
    rcases List.mem_append.1 ht with ht | ht
    · exact h.carries t ht
    · rw [List.mem_singleton.1 ht]
      exact ⟨vote, snap, (h.stores source).db snap hstored, Streaming.start_of _⟩
  | @stream e k t s ht hmove =>
    refine ⟨h.node, h.stores, fun t' ht' => ?_⟩
    rcases List.mem_or_eq_of_mem_set ht' with ht' | rfl
    · exact h.carries t' ht'
    · obtain ⟨vote, snap, hsnap, hof⟩ := h.carries t (List.mem_of_getElem? ht)
      refine ⟨vote, snap, hsnap, ?_⟩
      rcases hmove with ⟨-, hs⟩ | ⟨status, -, hs⟩ | ⟨-, hs⟩
      · exact Streaming.deliver_of hof hs
      · exact Streaming.fail_of hof hs
      · exact Streaming.finish_of hof hs
  | @install k t vote snapshot s ht hended hinst hs =>
    have hsnap := (h.carries t (List.mem_of_getElem? ht)).installs
      (fun snap hsnap => (hP snap hsnap).valid) (hends k t rfl ht) hinst
    have hnode := (h.node t.target).step hA hlog hser hids
      (fun m data he => by cases he; exact hP _ hsnap) hs
    have hstores := RaftNode.Stores.step hA (h.node t.target) (h.stores t.target)
      (fun _ _ _ he => by cases he) (fun m data he => by cases he; exact hsnap) hs
    exact h.update hnode hstores List.eraseIdx_subset
  | ignore k => exact ⟨h.node, h.stores, fun t ht => h.carries t (List.eraseIdx_subset ht)⟩

end Invariant

end Cluster
end RaftService
