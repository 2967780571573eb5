import RaftService.Lib.Streaming
import RaftService.Network.Truncation
import RaftService.Node.Provenance

/-!
# A cluster

The nodes of one log, and the snapshot transfers between them. A node makes the steps of
`RaftNode`, crashes included, except that it installs a snapshot only when its handler `snapshot`
has received one. A transfer starts with the snapshot that a node has stored: the messages that
`full_snapshot` builds for it are on their way one by one, beside anything else that happens in the
cluster. It may fail at any point, and the handler then receives an error; or the request stream
ends, with messages left or not.

What openraft decides is left open: when it sends a snapshot and to whom, and whether
`install_full_snapshot` hands the snapshot to the state machine or ignores it. So is the sender: any
part of the messages may arrive, and nothing says that they do. (From `full_snapshot` itself none
does as long as it awaits the response first, see `Exchange.deadlocks`.)
-/

namespace RaftService

open StateMachineStore

variable {N σ Req Resp Snap ρ : Type}

/-- The messages of a `full_snapshot` and the handler they go to. -/
structure Transfer (N : Type) where
  target : N
  stream : Streaming Pb.SnapshotRequest Status
  deriving DecidableEq

/-- The nodes, and the transfers on their way, oldest first. -/
structure Cluster (N σ : Type) where
  nodes : N → RaftNode σ
  transfers : List (Transfer N)

namespace Cluster

/-- The steps of a cluster; a transfer is given by its place. -/
inductive Event (N ρ : Type)
  | node (n : N) (e : RaftNode.Event ρ)
  | fullSnapshot (source target : N) (vote : Pb.Vote)
  | deliver (k : ℕ)
  | fail (k : ℕ) (status : Status)
  | finish (k : ℕ)
  | install (k : ℕ)
  | ignore (k : ℕ)

/-- All nodes have just opened an empty database. -/
def start (store : StateMachineStore σ) : Cluster N σ :=
  ⟨fun _ => RaftNode.opened Db.empty store [], []⟩

/-- The stream of a transfer moves. -/
def onStream (c : Cluster N σ) (k : ℕ)
    (f : Streaming Pb.SnapshotRequest Status → Option (Streaming Pb.SnapshotRequest Status)) :
    Option (Cluster N σ) :=
  match c.transfers[k]? with
  | some t =>
    (f t.stream).map fun s => { c with transfers := c.transfers.set k { t with stream := s } }
  | none => none

theorem onStream_eq_some {c c' : Cluster N σ} {k : ℕ}
    {f : Streaming Pb.SnapshotRequest Status → Option (Streaming Pb.SnapshotRequest Status)} :
    c.onStream k f = some c' ↔ ∃ t s, c.transfers[k]? = some t ∧ f t.stream = some s ∧
      c' = { c with transfers := c.transfers.set k { t with stream := s } } := by
  rw [onStream]
  cases c.transfers[k]? with
  | none => simp
  | some t => simp [eq_comm]

/-- The transfers that are left after a step of a node: a crash takes its handlers away. -/
def transfersAfter [DecidableEq N] (c : Cluster N σ) (n : N) :
    RaftNode.Event ρ → List (Transfer N)
  | .crash _ => c.transfers.filter fun t => t.target ≠ n
  | _ => c.transfers

/-- The snapshot is stored by some node, now or after a crash. -/
def HasStored [Serde StoredSnapshot] (c : Cluster N σ) (snap : StoredSnapshot) : Prop :=
  ∃ n d, (d = (c.nodes n).db ∨ (c.nodes n).wal.Recovers Db.write (c.nodes n).base d) ∧
    getCurrentSnapshot_ d = some snap

section Machine

variable [DecidableEq N] [BuildProfile] [Openraft] [Serde Req] [Serde Snap] [Serde StoredSnapshot]
  [Serde Pb.Entry] [Serde LogId]

/-- One step. `raft` is the answer of `install_full_snapshot`, which the handler passes on. -/
def step (raft : Pb.Vote → Snapshot → Except String Pb.Vote)
    (A : ApplicationStateMachine σ Req Resp Snap) (log : ReferenceLog Req) (c : Cluster N σ) :
    Event N ρ → Option (Cluster N σ)
  | .node _ (.install _ _) => none
  | .node n e =>
    (RaftNode.step A log (c.nodes n) e).map fun s =>
      ⟨Function.update c.nodes n s, c.transfersAfter n e⟩
  | .fullSnapshot source target vote =>
    match getCurrentSnapshot (c.nodes source).db with
    | some snapshot =>
      some { c with
        transfers := c.transfers ++ [⟨target, .start (fullSnapshotRequests vote snapshot)⟩] }
    | none => none
  | .deliver k => c.onStream k Streaming.deliver
  | .fail k status => c.onStream k (Streaming.fail status)
  | .finish k => c.onStream k Streaming.finish
  | .install k =>
    match c.transfers[k]? with
    | some ⟨target, ⟨_, received, true⟩⟩ =>
      match (RaftServiceImpl.snapshot raft received).installs with
      | [(_, snapshot)] =>
        let e : RaftNode.Event ρ := .install snapshot.snapshotMeta snapshot.snapshot
        (RaftNode.step A log (c.nodes target) e).map fun s =>
          ⟨Function.update c.nodes target s, c.transfers.eraseIdx k⟩
      | _ => none
    | _ => none
  | .ignore k =>
    match c.transfers[k]? with
    | some ⟨_, ⟨_, _, true⟩⟩ => some { c with transfers := c.transfers.eraseIdx k }
    | _ => none

variable (raft : Pb.Vote → Snapshot → Except String Pb.Vote)
  (A : ApplicationStateMachine σ Req Resp Snap) (log : ReferenceLog Req)

/-- No snapshot of the run is installed from a stream that has messages left: where the sender has
gone away in the middle, the transfer is ignored. -/
def EndsWhole (c₀ : Cluster N σ) (tr : List (Event N ρ)) : Prop :=
  ∀ t t' k c transfer, tr = t ++ .install k :: t' → Run.exec (step raft A log) c₀ t = some c →
    c.transfers[k]? = some transfer → transfer.stream.rest = []

/-- The snapshot was returned by a `build_snapshot` of some node in the run. -/
def BuiltIn (c₀ : Cluster N σ) (tr : List (Event N ρ)) (snap : StoredSnapshot) : Prop :=
  ∃ t t' n c store b built, tr = t ++ .node n .build :: t' ∧
    Run.exec (step raft A log) c₀ t = some c ∧
    getSnapshotBuilder (c.nodes n).store = .ok (store, b) ∧
    (buildSnapshot A b store.stateMachine.applicationData).result = .ok built ∧
    snap = ⟨built.snapshotMeta, built.snapshot⟩

/-! ### What a step does -/

/-- What a step does: a node moves; a transfer begins; a stream moves; a node installs what its
handler has received; or a transfer ends without a trace. -/
inductive Effect (c : Cluster N σ) : Event N ρ → Cluster N σ → Prop
  | node {n : N} {e : RaftNode.Event ρ} {s : RaftNode σ}
      (hstep : RaftNode.step A log (c.nodes n) e = some s) (hinst : ∀ m data, e ≠ .install m data) :
      Effect c (.node n e) ⟨Function.update c.nodes n s, c.transfersAfter n e⟩
  | call {source : N} {snapshot : Snapshot}
      (hsnap : getCurrentSnapshot (c.nodes source).db = some snapshot) (target : N)
      (vote : Pb.Vote) :
      Effect c (.fullSnapshot source target vote) { c with
        transfers := c.transfers ++ [⟨target, .start (fullSnapshotRequests vote snapshot)⟩] }
  | stream {e : Event N ρ} {k : ℕ} {t : Transfer N} {s : Streaming Pb.SnapshotRequest Status}
      (ht : c.transfers[k]? = some t)
      (hmove : e = .deliver k ∧ t.stream.deliver = some s ∨
        (∃ status, e = .fail k status ∧ t.stream.fail status = some s) ∨
        e = .finish k ∧ t.stream.finish = some s) :
      Effect c e { c with transfers := c.transfers.set k { t with stream := s } }
  | install {k : ℕ} {t : Transfer N} {vote : Pb.Vote} {snapshot : Snapshot} {s : RaftNode σ}
      (ht : c.transfers[k]? = some t) (hended : t.stream.ended = true)
      (hinst : (RaftServiceImpl.snapshot raft t.stream.received).installs = [(vote, snapshot)])
      (hstep : RaftNode.step A log (c.nodes t.target)
        (.install snapshot.snapshotMeta snapshot.snapshot : RaftNode.Event ρ) = some s) :
      Effect c (.install k) ⟨Function.update c.nodes t.target s, c.transfers.eraseIdx k⟩
  | ignore (k : ℕ) : Effect c (.ignore k) { c with transfers := c.transfers.eraseIdx k }

variable {raft A log} {c c' : Cluster N σ} {e : Event N ρ}

theorem effect_of_step (h : step raft A log c e = some c') : Effect raft A log c e c' := by
  cases e with
  | node n e =>
    cases e
    case install => cases h
    all_goals
      obtain ⟨s, hs, rfl⟩ := Option.map_eq_some_iff.1 h
      exact .node hs fun m data => by simp
  | fullSnapshot source target vote =>
    simp only [step] at h
    split at h
    · next snapshot hsnap => cases h; exact .call hsnap target vote
    · cases h
  | deliver k =>
    obtain ⟨t, s, ht, hs, rfl⟩ := onStream_eq_some.1 h
    exact .stream ht (Or.inl ⟨rfl, hs⟩)
  | fail k status =>
    obtain ⟨t, s, ht, hs, rfl⟩ := onStream_eq_some.1 h
    exact .stream ht (Or.inr (Or.inl ⟨status, rfl, hs⟩))
  | finish k =>
    obtain ⟨t, s, ht, hs, rfl⟩ := onStream_eq_some.1 h
    exact .stream ht (Or.inr (Or.inr ⟨rfl, hs⟩))
  | install k =>
    simp only [step] at h
    split at h
    · next target rest received ht =>
      split at h
      · next vote snapshot hinst =>
        obtain ⟨s, hs, rfl⟩ := Option.map_eq_some_iff.1 h
        exact .install ht rfl hinst hs
      · cases h
    · cases h
  | ignore k =>
    simp only [step] at h
    split at h
    · cases h; exact .ignore k
    · cases h

end Machine

end Cluster
end RaftService
