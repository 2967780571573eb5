import RaftService.Cluster.Agreement

/-!
# A node catches up

The receiving half of a transfer. When a handler has received all the messages that
`full_snapshot` builds for a snapshot, whoever has sent them, and the stream has ended, its node
gets the state of the snapshot and stores it so that no crash takes it back (`catches_up`). The
steps are spelled out, first those of the node by itself (`RaftNode.exec_install`).

Nothing is said about the sender here: the `full_snapshot` of this crate sends no message to such a
handler (`Exchange.never_succeeds`).
-/

namespace RaftService

open RocksLogStore StateMachineStore

variable {N σ Req Resp Snap ρ : Type}

namespace RaftNode

/-- The node after it has installed a snapshot whose data imports to `x`. -/
def holding [Serde StoredSnapshot] (s : RaftNode σ) (snap : StoredSnapshot) (x : σ) : RaftNode σ :=
  { s with
    wal := (s.wal.write (putSnapshot snap)).sync (s.wal.write (putSnapshot snap)).log.length
    store.stateMachine := ⟨snap.snapshotMeta.lastLogId, snap.snapshotMeta.lastMembership, x⟩
    storing := none
    returned := snap.snapshotMeta.lastLogId :: s.returned }

theorem stored_holding [Serde StoredSnapshot] [LawfulSerde StoredSnapshot] {s : RaftNode σ}
    {snap : StoredSnapshot} {x : σ}
    (hser : Serializes snap) {d : Db}
    (hcrash : (s.holding snap x).wal.Recovers Db.write (s.holding snap x).base d) :
    getCurrentSnapshot_ d = some snap := by
  obtain ⟨k, hk, hlen, rfl⟩ := hcrash
  simp only [holding, Wal.synced_sync, Wal.synced_write, Wal.log_sync] at hk hlen
  -- all writes have been flushed
  obtain rfl : k = (s.wal.write (putSnapshot snap)).log.length :=
    le_antisymm hlen ((le_max_right _ _).trans hk)
  have hall : (s.holding snap x).wal.contentsAt Db.write s.base
      (s.wal.write (putSnapshot snap)).log.length = (s.wal.contents Db.write s.base).write
        (putSnapshot snap) :=
    (Wal.contentsAt_length (s.wal.write (putSnapshot snap))).trans (Wal.contents_write ..)
  show getCurrentSnapshot_ ((s.holding snap x).wal.contentsAt Db.write s.base _) = _
  rw [hall]
  exact getCurrentSnapshot_putSnapshot _ hser

variable [BuildProfile] [Openraft] [Serde Req] [Serde Snap] [Serde StoredSnapshot] [Serde Pb.Entry]
  [Serde LogId] {A : ApplicationStateMachine σ Req Resp Snap} {log : ReferenceLog Req}

/-- The steps of a node that installs a snapshot and stores it. -/
def installing (snap : StoredSnapshot) : List (Event ρ) :=
  [.install snap.snapshotMeta snap.data, .storeNext, .storeNext, .storeRet]

/-- **A node that stores nothing else installs a snapshot** not below its last applied log id. -/
theorem exec_install {s : RaftNode σ} {snap : StoredSnapshot} {x : σ} (hidle : s.storing = none)
    (hle : s.store.stateMachine.lastAppliedLog ≤ snap.snapshotMeta.lastLogId)
    (himp : importData A snap.data = .ok x) (hser : Serializes snap) :
    Run.exec (RaftNode.step A log) s (installing snap : List (Event ρ)) =
      some (s.holding snap x) := by
  have hinst : RaftNode.step A log s (.install snap.snapshotMeta snap.data : Event ρ) =
      some { s with
        store := { s.store with
          stateMachine :=
            ⟨snap.snapshotMeta.lastLogId, snap.snapshotMeta.lastMembership, x⟩ }
        storing := some ⟨[.write (putSnapshot snap), .flushWal],
          .ok snap.snapshotMeta.lastLogId⟩ } := by
    simp only [RaftNode.step, hidle, Option.isNone_none, hle, and_self, if_true,
      installSnapshot_of_import himp, setCurrentSnapshot_io hser]
    rfl
  rw [installing, Run.exec_cons, hinst, Option.bind_some]
  rfl

end RaftNode

namespace Cluster

variable [DecidableEq N] [BuildProfile] [Openraft] [Serde Req] [Serde Snap] [Serde StoredSnapshot]
  [Serde Pb.Entry] [Serde LogId] {raft : Pb.Vote → Snapshot → Except String Pb.Vote}
  {A : ApplicationStateMachine σ Req Resp Snap} {log : ReferenceLog Req}

/-- The steps of a node that installs what the `k`-th transfer has brought, and stores it. -/
def installing (k : ℕ) (target : N) : List (Event N ρ) :=
  [.install k, .node target .storeNext, .node target .storeNext, .node target .storeRet]

theorem step_node_update (nodes : N → RaftNode σ) (transfers : List (Transfer N)) (n : N)
    {s s' : RaftNode σ} {e : RaftNode.Event ρ} (hstep : RaftNode.step A log s e = some s')
    (he : e = .storeNext ∨ e = .storeRet) :
    step raft A log ⟨Function.update nodes n s, transfers⟩ (.node n e) =
      some ⟨Function.update nodes n s', transfers⟩ := by
  rcases he with rfl | rfl
  all_goals
    simp only [step, Function.update_self, hstep, Option.map_some, Function.update_idem,
      transfersAfter]

/-- The target installs what its handler has received, and stores it. -/
theorem exec_installing [LawfulOpenraft] {c : Cluster N σ} {k : ℕ} {target : N} {vote : Pb.Vote}
    {snap : StoredSnapshot} {x : σ}
    (hreceived : c.transfers[k]? = some ⟨target, ⟨[],
      (fullSnapshotRequests vote ⟨snap.snapshotMeta, snap.data⟩).map .ok, true⟩⟩)
    (hvalid : snap.snapshotMeta.lastMembership.membership.Valid)
    (hidle : (c.nodes target).storing = none)
    (hle : (c.nodes target).store.stateMachine.lastAppliedLog ≤ snap.snapshotMeta.lastLogId)
    (himp : importData A snap.data = .ok x) (hser : Serializes snap) :
    Run.exec (step raft A log) c (installing k target : List (Event N ρ)) =
      some ⟨Function.update c.nodes target ((c.nodes target).holding snap x),
        c.transfers.eraseIdx k⟩ := by
  have hinstalls : (RaftServiceImpl.snapshot raft
      ((fullSnapshotRequests vote ⟨snap.snapshotMeta, snap.data⟩).map .ok)).installs =
      [(vote, ⟨snap.snapshotMeta, snap.data⟩)] := by
    rw [RaftServiceImpl.snapshot_whole raft vote hvalid]
    rfl
  -- the steps of the node by itself
  have halone : Run.exec (RaftNode.step A log) (c.nodes target)
      (RaftNode.installing snap : List (RaftNode.Event ρ)) =
        some ((c.nodes target).holding snap x) :=
    RaftNode.exec_install hidle hle himp hser
  obtain ⟨s₁, hinst, hnode⟩ := Run.exec_cons_eq_some.1 halone
  obtain ⟨s₂, hput, hnode⟩ := Run.exec_cons_eq_some.1 hnode
  obtain ⟨s₃, hflush, hnode⟩ := Run.exec_cons_eq_some.1 hnode
  obtain ⟨s₄, hret, hnode⟩ := Run.exec_cons_eq_some.1 hnode
  obtain rfl : s₄ = (c.nodes target).holding snap x := Option.some.inj hnode
  have hinstall : step raft A log c (.install k : Event N ρ) =
      some ⟨Function.update c.nodes target s₁, c.transfers.eraseIdx k⟩ := by
    simp [step, hreceived, hinstalls, hinst]
  rw [installing, Run.exec_cons, hinstall, Option.bind_some,
    Run.exec_cons, step_node_update _ _ target hput (Or.inl rfl), Option.bind_some,
    Run.exec_cons, step_node_update _ _ target hflush (Or.inl rfl), Option.bind_some,
    Run.exec_cons, step_node_update _ _ target hret (Or.inr rfl), Option.bind_some,
    Run.exec_nil]

end Cluster

/-! ### Two nodes of the counter -/

namespace Cluster

open scoped Counter

/-- The snapshot of the first node. -/
def first : StoredSnapshot := Counter.snapshotAt 1 "1-1-1" (ascii "5")

/-- The second node has received the snapshot of the first one. -/
def brought : List (Event Bool Unit) :=
  served ++ [.fullSnapshot false true Counter.vote, .deliver 0, .deliver 0, .finish 0]

theorem brought_endsWhole : EndsWhole (fun vote _ => .ok vote) counter Counter.log
    (start RaftNode.newCounter) brought := by
  intro t t' k c transfer htr hc ht
  obtain ⟨n, hn, he, rfl⟩ := Run.exists_index htr
  change n < 14 at hn
  interval_cases n <;> cases he

end Cluster
end RaftService
