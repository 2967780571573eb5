import RaftService.Network.Snapshot
import RaftService.StateMachine.ReferenceLog

/-!
# The messages of the vote and append RPCs

The protobuf messages of `VoteRequest`, `VoteResponse`, `AppendEntriesRequest` and
`AppendEntriesResponse`, the openraft values they carry, and the `From` implementations between
them (`raft/pb_impl/{vote,append_entries}_{request,response}.rs`).

The append response encodes a sum of four by which of three fields are present. A partial success
without a log id sets none of them, and neither does a success.

* `RpcMessage.transported`: a message converted to protobuf and back;
* `RpcMessage.transported_iff`: it comes back as it was, unless it is that partial success;
* `membership_isomorphism`: memberships, on their own and inside an entry.
-/

namespace RaftService

/-! ### Protobuf messages -/

namespace Pb

/-- `internal.VoteRequest` -/
structure VoteRequest where
  vote : Option Vote
  lastLogId : Option LogId
  deriving DecidableEq

/-- `internal.VoteResponse` -/
structure VoteResponse where
  vote : Option Vote
  voteGranted : Bool
  lastLogId : Option LogId
  deriving DecidableEq

/-- `internal.AppendEntriesRequest` -/
structure AppendEntriesRequest where
  vote : Option Vote
  prevLogId : Option LogId
  entries : List Entry
  leaderCommit : Option LogId
  deriving DecidableEq

/-- `internal.AppendEntriesResponse` -/
structure AppendEntriesResponse where
  rejectedBy : Option Vote
  conflict : Bool
  lastLogId : Option LogId
  deriving DecidableEq

end Pb

/-! ### openraft types -/

/-- `openraft::raft::VoteRequest` -/
structure VoteRequest where
  vote : Pb.Vote
  lastLogId : Option LogId
  deriving DecidableEq

/-- `openraft::raft::VoteResponse` -/
structure VoteResponse where
  vote : Pb.Vote
  voteGranted : Bool
  lastLogId : Option LogId
  deriving DecidableEq

/-- `openraft::raft::AppendEntriesRequest` -/
structure AppendEntriesRequest where
  vote : Pb.Vote
  prevLogId : Option LogId
  entries : List Pb.Entry
  leaderCommit : Option LogId
  deriving DecidableEq

/-- `openraft::raft::AppendEntriesResponse` -/
inductive AppendEntriesResponse
  | success
  | partialSuccess (logId : Option LogId)
  | conflict
  | higherVote (vote : Pb.Vote)
  deriving DecidableEq

/-! ### Conversions -/

/-- `From<VoteRequest<C>> for PbVoteRequest` -/
def VoteRequest.toPb (req : VoteRequest) : Pb.VoteRequest where
  vote := some req.vote
  lastLogId := req.lastLogId.map LogId.toPb

/-- `From<PbVoteRequest> for VoteRequest<C>` -/
def VoteRequest.ofPb (req : Pb.VoteRequest) : Except Fault VoteRequest := do
  let vote ← unwrapOption req.vote
  pure ⟨vote, req.lastLogId.map LogId.ofPb⟩

/-- `From<VoteResponse<C>> for PbVoteResponse` -/
def VoteResponse.toPb (resp : VoteResponse) : Pb.VoteResponse where
  vote := some resp.vote
  voteGranted := resp.voteGranted
  lastLogId := resp.lastLogId.map LogId.toPb

/-- `From<PbVoteResponse> for VoteResponse<C>` -/
def VoteResponse.ofPb (resp : Pb.VoteResponse) : Except Fault VoteResponse := do
  let vote ← unwrapOption resp.vote
  pure ⟨vote, resp.voteGranted, resp.lastLogId.map LogId.ofPb⟩

/-- `From<AppendEntriesRequest<C>> for PbAppendEntriesRequest` -/
def AppendEntriesRequest.toPb (req : AppendEntriesRequest) : Pb.AppendEntriesRequest where
  vote := some req.vote
  prevLogId := req.prevLogId.map LogId.toPb
  entries := req.entries
  leaderCommit := req.leaderCommit.map LogId.toPb

/-- `From<PbAppendEntriesRequest> for AppendEntriesRequest<C>` -/
def AppendEntriesRequest.ofPb (req : Pb.AppendEntriesRequest) :
    Except Fault AppendEntriesRequest := do
  let vote ← unwrapOption req.vote
  pure ⟨vote, req.prevLogId.map LogId.ofPb, req.entries, req.leaderCommit.map LogId.ofPb⟩

/-- `From<AppendEntriesResponse<C>> for PbAppendEntriesResponse` -/
def AppendEntriesResponse.toPb : AppendEntriesResponse → Pb.AppendEntriesResponse
  | .success => ⟨none, false, none⟩
  | .partialSuccess logId => ⟨none, false, logId.map LogId.toPb⟩
  | .conflict => ⟨none, true, none⟩
  | .higherVote vote => ⟨some vote, false, none⟩

/-- `From<PbAppendEntriesResponse> for AppendEntriesResponse<C>` -/
def AppendEntriesResponse.ofPb (resp : Pb.AppendEntriesResponse) : AppendEntriesResponse :=
  match resp.rejectedBy with
  | some higher => .higherVote higher
  | none =>
    if resp.conflict then
      .conflict
    else
      match resp.lastLogId with
      | some logId => .partialSuccess (some (LogId.ofPb logId))
      | none => .success

/-! ### Round trips -/

@[simp] theorem LogId.ofPb_comp_toPb : LogId.ofPb ∘ LogId.toPb = id := rfl

theorem VoteRequest.ofPb_toPb (req : VoteRequest) :
    VoteRequest.ofPb (VoteRequest.toPb req) = .ok req := by
  simp [VoteRequest.ofPb, VoteRequest.toPb, bind, Except.bind, pure, Except.pure]

theorem VoteResponse.ofPb_toPb (resp : VoteResponse) :
    VoteResponse.ofPb (VoteResponse.toPb resp) = .ok resp := by
  simp [VoteResponse.ofPb, VoteResponse.toPb, bind, Except.bind, pure, Except.pure]

theorem AppendEntriesRequest.ofPb_toPb (req : AppendEntriesRequest) :
    AppendEntriesRequest.ofPb (AppendEntriesRequest.toPb req) = .ok req := by
  simp [AppendEntriesRequest.ofPb, AppendEntriesRequest.toPb, bind, Except.bind, pure, Except.pure]

theorem AppendEntriesResponse.ofPb_toPb {resp : AppendEntriesResponse}
    (h : resp ≠ .partialSuccess none) :
    AppendEntriesResponse.ofPb (AppendEntriesResponse.toPb resp) = resp := by
  cases resp with
  | success => rfl
  | partialSuccess logId =>
    cases logId with
    | none => exact absurd rfl h
    | some logId => rfl
  | conflict => rfl
  | higherVote vote => rfl

/-- A message that one node hands to the transport. -/
inductive RpcMessage
  | voteRequest (req : VoteRequest)
  | voteResponse (resp : VoteResponse)
  | appendEntriesRequest (req : AppendEntriesRequest)
  | appendEntriesResponse (resp : AppendEntriesResponse)
  deriving DecidableEq

namespace RpcMessage

/-- What the peer is given: the message converted to protobuf and back. -/
def transported : RpcMessage → Except Fault RpcMessage
  | .voteRequest req => (VoteRequest.ofPb (VoteRequest.toPb req)).map .voteRequest
  | .voteResponse resp => (VoteResponse.ofPb (VoteResponse.toPb resp)).map .voteResponse
  | .appendEntriesRequest req =>
    (AppendEntriesRequest.ofPb (AppendEntriesRequest.toPb req)).map .appendEntriesRequest
  | .appendEntriesResponse resp =>
    .ok (.appendEntriesResponse (AppendEntriesResponse.ofPb (AppendEntriesResponse.toPb resp)))

/-- **The peer is given the message that was sent**, unless it is a partial success that accepted
no log id. -/
theorem transported_iff (message : RpcMessage) :
    message.transported = .ok message ↔
      message ≠ .appendEntriesResponse (.partialSuccess none) := by
  constructor
  · rintro h rfl
    cases h
  · intro h
    cases message with
    | voteRequest req => rw [transported, VoteRequest.ofPb_toPb]; rfl
    | voteResponse resp => rw [transported, VoteResponse.ofPb_toPb]; rfl
    | appendEntriesRequest req => rw [transported, AppendEntriesRequest.ofPb_toPb]; rfl
    | appendEntriesResponse resp =>
      have hresp : resp ≠ .partialSuccess none := by
        rintro rfl
        exact h rfl
      rw [transported, AppendEntriesResponse.ofPb_toPb hresp]

/-- A reply that accepted no entry reaches the leader as one that accepted all of them. -/
theorem transported_partialSuccess_none :
    transported (.appendEntriesResponse (.partialSuccess none)) =
        .ok (.appendEntriesResponse .success) ∧
      transported (.appendEntriesResponse (.partialSuccess none)) ≠
        .ok (.appendEntriesResponse (.partialSuccess none)) :=
  ⟨rfl, by decide⟩

end RpcMessage

/-! ### Memberships -/

/-- What a valid message is rebuilt to. -/
theorem Membership.ofPb_of_valid [Openraft] [LawfulOpenraft] {p : Pb.Membership} (h : p.Valid) :
    Membership.ofPb p = .ok ⟨p.configs.map Pb.NodeIdSet.nodeIds, p.nodes⟩ := by
  rw [Membership.ofPb_eq, membershipNew_of_valid h, unwrap_ok]

/-- A membership built from the configs and the nodes of a message is converted to that message. -/
theorem Membership.toPb_mk (p : Pb.Membership) :
    Membership.toPb ⟨p.configs.map Pb.NodeIdSet.nodeIds, p.nodes⟩ = p := by
  have hmap : (p.configs.map Pb.NodeIdSet.nodeIds).map Pb.NodeIdSet.mk = p.configs := by
    rw [List.map_map]
    exact List.map_id p.configs
  rw [Membership.toPb_eq, hmap]

/-- An entry without a membership has none, whatever its application data. -/
theorem Pb.Entry.getMembership_of_none [Openraft] {e : Pb.Entry} (h : e.membership = none) :
    e.getMembership = .ok none := by
  unfold Pb.Entry.getMembership
  rw [h]

/-- **Memberships survive the wire.** Both conversions are inverse on the valid ones, and an entry
made of a valid membership gives it back, while one made of another payload gives none. -/
theorem membership_isomorphism [Openraft] [LawfulOpenraft] {Req : Type} [Serde Req] :
    (∀ m : Membership, m.Valid → Membership.ofPb (Membership.toPb m) = .ok m) ∧
    (∀ p : Pb.Membership, p.Valid →
      ∃ m, Membership.ofPb p = .ok m ∧ m.Valid ∧ Membership.toPb m = p) ∧
    (∀ id m, Membership.Valid m → ∃ e, Pb.Entry.new id (.membership m : EntryPayload Req) = .ok e ∧
      e.getMembership = .ok (some m)) ∧
    ∀ id (payload : EntryPayload Req) e, payload.membership? = none →
      Pb.Entry.new id payload = .ok e → e.getMembership = .ok none := by
  refine ⟨?_, ?_, ?_, ?_⟩
  · intro m hm
    exact Membership.ofPb_toPb hm
  · intro p hp
    exact ⟨_, Membership.ofPb_of_valid hp, hp, Membership.toPb_mk p⟩
  · intro id m hm
    refine ⟨_, rfl, ?_⟩
    unfold Pb.Entry.getMembership
    simp only [Membership.ofPb_toPb hm]
  · intro id payload e hpayload hnew
    obtain ⟨-, ⟨-, -, hmem⟩ | ⟨r, b, -, -, -, hmem⟩ | ⟨m, rfl, -⟩⟩ := Pb.Entry.new_cases hnew
    · exact Pb.Entry.getMembership_of_none hmem
    · exact Pb.Entry.getMembership_of_none hmem
    · cases hpayload

/-! ### A cluster that grows -/

section Counter

open scoped Counter

/-- The cluster of the counter on its way to two voters, with a learner. -/
def growingCluster : Membership :=
  ⟨[NodeSet.ofKeys [1], NodeSet.ofKeys [1, 2]],
    SortedMap.ofList [(1, ⟨1, "localhost:7000"⟩), (2, ⟨2, "localhost:7001"⟩),
      (3, ⟨3, "localhost:7002"⟩)]⟩

theorem growingCluster_valid : growingCluster.Valid := by decide +kernel

/-- The joint configs and the learner go to protobuf and back, and into an entry and back. -/
theorem membership_isomorphism_growingCluster :
    Membership.ofPb (Membership.toPb growingCluster) = .ok growingCluster ∧
      ∃ e, Pb.Entry.new ⟨1, 3⟩ (.membership growingCluster : EntryPayload ℕ) = .ok e ∧
        e.getMembership = .ok (some growingCluster) := by
  obtain ⟨hround, -, hentry, -⟩ := @membership_isomorphism _ _ ℕ _
  exact ⟨hround _ growingCluster_valid, hentry ⟨1, 3⟩ _ growingCluster_valid⟩

end Counter

end RaftService
