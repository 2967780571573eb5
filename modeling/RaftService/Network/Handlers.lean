import RaftService.Network.Codec

/-!
# What the handlers accept from the wire

The handlers `vote` and `append_entries` of `grpc/internal_service.rs`, beside `snapshot` of
`RaftService.Network.Snapshot`, and the client calls of `raft/network/grpc/v2.rs` that meet them.
Every message-typed field of a protobuf message may be absent. `snapshot` refuses a stream without
metadata with a status, but the fields inside the messages are unwrapped: by the handler itself
(`vote`), by the conversion of a membership, or later, when openraft asks a vote for its leader id
or an entry for its membership.

* `Vote.Readable`, `Entry.Readable`: the accessors that openraft calls do not panic;
* `handlers_safe_iff`: for each handler, the messages on which it neither panics nor hands
  over a request that is not readable.
-/

namespace RaftService

/-- `Membership::new` refuses an empty config and a voter without a node. -/
class CheckingOpenraft [Openraft] : Prop where
  rejects : ∀ {configs nodes}, ¬ (Membership.mk configs nodes).Valid →
    ∃ e, Openraft.membershipNew configs nodes = .error e

theorem CheckingOpenraft.checked : @CheckingOpenraft Openraft.checked := by
  refine @CheckingOpenraft.mk Openraft.checked ?_
  intro configs nodes h
  exact ⟨_, if_neg h⟩

/-- The call ends without a panic. -/
def NoPanic {α : Type*} (r : Except Fault α) : Prop := ∀ message, r ≠ .error (.panic message)

theorem noPanic_ok {α : Type*} (a : α) : NoPanic (.ok a : Except Fault α) := by
  intro message h
  cases h

/-! ### The accessors -/

/-- `RaftVote::leader_id` -/
def Pb.Vote.getLeaderId (vote : Pb.Vote) : Except Fault Pb.LeaderId := unwrapOption vote.leaderId

namespace Pb

/-- `RaftVote::leader_id` does not panic on the vote. -/
def Vote.Readable (vote : Vote) : Prop := NoPanic vote.getLeaderId

/-- `RaftPayload::get_membership` does not panic on the entry. -/
def Entry.Readable [Openraft] (entry : Entry) : Prop := NoPanic entry.getMembership

end Pb

/-- The request can be read by openraft. -/
def VoteRequest.Readable (req : VoteRequest) : Prop := req.vote.Readable

/-- The request can be read by openraft. -/
def AppendEntriesRequest.Readable [Openraft] (req : AppendEntriesRequest) : Prop :=
  req.vote.Readable ∧ ∀ entry ∈ req.entries, entry.Readable

/-! ### The handlers -/

namespace RaftServiceImpl

/-- What a handler leaves: the requests it hands to openraft, and how it ends, with a panic or
with the `Result` it returns. -/
structure Handover (Req Resp : Type) where
  requests : List Req
  result : Except Fault (Except Status Resp)

/-- The common body of `vote` and `append_entries`: the request is converted, openraft is called,
and its response is converted. -/
def unary {PbReq Req Resp PbResp : Type} (ofPb : PbReq → Except Fault Req)
    (toPb : Resp → PbResp) (failed : String) (raft : Req → Except String Resp) (request : PbReq) :
    Handover Req PbResp :=
  match ofPb request with
  | .error fault => ⟨[], .error fault⟩
  | .ok request =>
    ⟨[request],
      match raft request with
      | .ok response => .ok (.ok (toPb response))
      | .error e => .ok (.error (.internal (failed ++ e)))⟩

/-- `RaftServiceImpl::vote`; `raft` is the method of openraft. -/
def vote (raft : VoteRequest → Except String VoteResponse) :
    Pb.VoteRequest → Handover VoteRequest Pb.VoteResponse :=
  unary VoteRequest.ofPb VoteResponse.toPb "Vote operation failed: " raft

/-- `RaftServiceImpl::append_entries`; `raft` is the method of openraft. -/
def appendEntries (raft : AppendEntriesRequest → Except String AppendEntriesResponse) :
    Pb.AppendEntriesRequest → Handover AppendEntriesRequest Pb.AppendEntriesResponse :=
  unary AppendEntriesRequest.ofPb AppendEntriesResponse.toPb
    "Append entries operation failed: " raft

/-- The handler does not panic, and the requests it hands over satisfy `P`. -/
def Handover.Safe {Req Resp : Type} (h : Handover Req Resp) (P : Req → Prop) : Prop :=
  NoPanic h.result ∧ ∀ req ∈ h.requests, P req

/-- The same of the handler `snapshot`: the votes it hands over are readable. -/
def Handled.Safe (h : Handled) : Prop :=
  NoPanic h.result ∧ ∀ install ∈ h.installs, install.1.Readable

end RaftServiceImpl

/-! ### The messages they can take -/

namespace Pb

/-- The vote is present, and so is its leader id. -/
def VoteRequest.Complete (req : VoteRequest) : Prop :=
  ∃ vote, req.vote = some vote ∧ vote.leaderId.isSome

/-- The vote and its leader id are present, and the memberships of the entries are valid. -/
def AppendEntriesRequest.Complete (req : AppendEntriesRequest) : Prop :=
  (∃ vote, req.vote = some vote ∧ vote.leaderId.isSome) ∧
    ∀ entry ∈ req.entries, ∀ p, entry.membership = some p → p.Valid

end Pb

/-- Metadata at the head of the stream are complete and, if data chunks alone follow them, their
vote has a leader id. -/
def RaftServiceImpl.CompleteStream (stream : List (Except Status Pb.SnapshotRequest)) : Prop :=
  ∀ m rest, stream = .ok ⟨some (.metadata m)⟩ :: rest →
    m.Complete ∧ ((∃ chunks, rest = chunkStream chunks) →
      ∃ vote, m.vote = some vote ∧ vote.leaderId.isSome)

/-! ### What panics -/

theorem unwrapOption_noPanic_iff {α : Type*} (o : Option α) :
    NoPanic (unwrapOption o) ↔ o.isSome := by
  cases o with
  | none =>
    constructor
    · intro h
      exact absurd rfl (h _)
    · intro h
      cases h
  | some a =>
    constructor
    · intro _
      rfl
    · intro _
      exact noPanic_ok a

theorem Pb.Vote.readable_iff (vote : Pb.Vote) : vote.Readable ↔ vote.leaderId.isSome :=
  unwrapOption_noPanic_iff vote.leaderId

section Memberships

variable [Openraft] [LawfulOpenraft] [CheckingOpenraft]

/-- The conversion of a membership panics exactly when it is not valid. -/
theorem Membership.ofPb_noPanic_iff (p : Pb.Membership) :
    NoPanic (Membership.ofPb p) ↔ p.Valid := by
  constructor
  · intro h
    by_contra hvalid
    obtain ⟨e, he⟩ := CheckingOpenraft.rejects hvalid
    refine h ("called `Result::unwrap()` on an `Err` value: " ++ e) ?_
    rw [Membership.ofPb_eq, he]
    rfl
  · intro h
    rw [Membership.ofPb_of_valid h]
    exact noPanic_ok _

theorem Pb.Entry.readable_iff (entry : Pb.Entry) :
    entry.Readable ↔ ∀ p, entry.membership = some p → p.Valid := by
  unfold Pb.Entry.Readable
  cases hmem : entry.membership with
  | none =>
    rw [Pb.Entry.getMembership_of_none hmem]
    constructor
    · intro _ p hp
      cases hp
    · intro _
      exact noPanic_ok none
  | some p =>
    have hread : NoPanic entry.getMembership ↔ NoPanic (Membership.ofPb p) := by
      unfold Pb.Entry.getMembership
      rw [hmem]
      cases hp : Membership.ofPb p with
      | error e => simp [NoPanic, hp]
      | ok m => simp [NoPanic, hp]
    rw [hread, Membership.ofPb_noPanic_iff]
    constructor
    · intro h p' hp'
      cases hp'
      exact h
    · intro h
      exact h p rfl

end Memberships

namespace RaftServiceImpl

/-! ### The handlers of one request -/

/-- A handler of one request is as safe as the conversion of the request. -/
theorem unary_safe_iff {PbReq Req Resp PbResp : Type} {ofPb : PbReq → Except Fault Req}
    {toPb : Resp → PbResp} {failed : String} {raft : Req → Except String Resp} {request : PbReq}
    {P : Req → Prop} :
    (unary ofPb toPb failed raft request).Safe P ↔
      NoPanic (ofPb request) ∧ ∀ req, ofPb request = .ok req → P req := by
  unfold Handover.Safe unary
  cases ofPb request with
  | error fault => simp [NoPanic]
  | ok req =>
    have hresult : NoPanic (match raft req with
        | .ok response => (.ok (.ok (toPb response)) : Except Fault (Except Status PbResp))
        | .error e => .ok (.error (.internal (failed ++ e)))) := by
      split
      · exact noPanic_ok _
      · exact noPanic_ok _
    constructor
    · rintro ⟨-, hreq⟩
      refine ⟨noPanic_ok req, ?_⟩
      rintro _ ⟨⟩
      exact hreq req List.mem_cons_self
    · rintro ⟨-, hreq⟩
      refine ⟨hresult, ?_⟩
      intro req' hreq'
      rw [List.mem_singleton.1 hreq']
      exact hreq req rfl

/-- **The vote handler** is safe on the requests that are complete. -/
theorem vote_safe_iff (raft : VoteRequest → Except String VoteResponse)
    (request : Pb.VoteRequest) :
    (vote raft request).Safe VoteRequest.Readable ↔ request.Complete := by
  unfold vote Pb.VoteRequest.Complete VoteRequest.ofPb
  rw [unary_safe_iff]
  cases request.vote with
  | none => simp [unwrapOption, NoPanic, bind, Except.bind]
  | some v =>
    simp [NoPanic, bind, Except.bind, pure, Except.pure, VoteRequest.Readable, Pb.Vote.readable_iff]

variable [Openraft] [LawfulOpenraft] [CheckingOpenraft]

/-- **The append handler** is safe on the requests that are complete. -/
theorem appendEntries_safe_iff
    (raft : AppendEntriesRequest → Except String AppendEntriesResponse)
    (request : Pb.AppendEntriesRequest) :
    (appendEntries raft request).Safe AppendEntriesRequest.Readable ↔ request.Complete := by
  unfold appendEntries Pb.AppendEntriesRequest.Complete AppendEntriesRequest.ofPb
  rw [unary_safe_iff]
  cases request.vote with
  | none => simp [unwrapOption, NoPanic, bind, Except.bind]
  | some v =>
    simp [NoPanic, bind, Except.bind, pure, Except.pure, AppendEntriesRequest.Readable,
      Pb.Vote.readable_iff, Pb.Entry.readable_iff]

/-! ### The snapshot handler -/

omit [LawfulOpenraft] in
/-- Incomplete metadata make the handler panic. -/
theorem readMeta_of_not_complete {m : Pb.SnapshotRequestMeta} (h : ¬ m.Complete) :
    ∃ message, readMeta m = .error (.panic message) := by
  cases hvote : m.vote with
  | none => exact ⟨_, by rw [readMeta, hvote]; rfl⟩
  | some vote =>
    cases hmem : m.lastMembership with
    | none => exact ⟨_, by rw [readMeta, hvote, hmem]; rfl⟩
    | some p =>
      have hvalid : ¬ p.Valid := fun hp => h ⟨by rw [hvote]; rfl, p, hmem, hp⟩
      obtain ⟨e, he⟩ := CheckingOpenraft.rejects hvalid
      refine ⟨"called `Result::unwrap()` on an `Err` value: " ++ e, ?_⟩
      rw [readMeta, hvote, hmem, unwrapOption_some, unwrapOption_some]
      simp only [bind, Except.bind, Membership.ofPb_eq, he]
      rfl

omit [Openraft] [LawfulOpenraft] [CheckingOpenraft] in
theorem installed_noPanic (raft : Pb.Vote → Snapshot → Except String Pb.Vote) (vote : Pb.Vote)
    (snap : Snapshot) : NoPanic (installed raft vote snap).result := by
  unfold installed
  simp only
  split <;> exact noPanic_ok _

omit [Openraft] [LawfulOpenraft] [CheckingOpenraft] in
/-- What openraft is handed is safe when its vote has a leader id. -/
theorem installed_safe_iff (raft : Pb.Vote → Snapshot → Except String Pb.Vote) (vote : Pb.Vote)
    (snap : Snapshot) : (installed raft vote snap).Safe ↔ vote.leaderId.isSome := by
  unfold Handled.Safe
  simp only [installed_noPanic, true_and]
  simp [installed, Pb.Vote.readable_iff]

omit [Openraft] [LawfulOpenraft] [CheckingOpenraft] in
/-- The handler goes on past the first message only when it is the metadata. -/
theorem receiveMeta_eq_ok {stream rest : List (Except Status Pb.SnapshotRequest)}
    {m : Pb.SnapshotRequestMeta} (h : receiveMeta stream = .ok (m, rest)) :
    stream = .ok ⟨some (.metadata m)⟩ :: rest := by
  rcases stream with - | ⟨status | request, stream⟩
  · cases h
  · cases h
  · cases hm : request.intoMeta with
    | none => simp [receiveMeta, hm] at h
    | some m' =>
      simp only [receiveMeta, hm, Except.ok.injEq, Prod.mk.injEq] at h
      rw [← h.1, ← h.2, intoMeta_eq_some.1 hm]

omit [Openraft] [LawfulOpenraft] [CheckingOpenraft] in
theorem completeStream_cons {m : Pb.SnapshotRequestMeta}
    {rest : List (Except Status Pb.SnapshotRequest)} :
    CompleteStream (.ok ⟨some (.metadata m)⟩ :: rest) ↔
      m.Complete ∧ ((∃ chunks, rest = chunkStream chunks) →
        ∃ vote, m.vote = some vote ∧ vote.leaderId.isSome) := by
  unfold CompleteStream
  constructor
  · intro h
    exact h m rest rfl
  · rintro h m' rest' ⟨⟩
    exact h

/-- **The snapshot handler** is safe on the streams that are complete. -/
theorem snapshot_safe_iff (raft : Pb.Vote → Snapshot → Except String Pb.Vote)
    (stream : List (Except Status Pb.SnapshotRequest)) :
    (snapshot raft stream).Safe ↔ CompleteStream stream := by
  have refused : ∀ status, (⟨[], .ok (.error status)⟩ : Handled).Safe := by
    intro status
    exact ⟨noPanic_ok _, by simp⟩
  cases hmeta : receiveMeta stream with
  | error status =>
    -- nothing, a status or a message without metadata comes first
    have hsnap : snapshot raft stream = ⟨[], .ok (.error status)⟩ := by rw [snapshot, hmeta]
    rw [hsnap]
    constructor
    · rintro - m rest rfl
      cases hmeta
    · intro _
      exact refused status
  | ok mrest =>
    obtain ⟨m, rest⟩ := mrest
    obtain rfl := receiveMeta_eq_ok hmeta
    rw [completeStream_cons]
    by_cases hm : m.Complete
    · obtain ⟨vote, snapshotMeta, hread, hsays⟩ := readMeta_of_complete hm
      rcases receiveData_cases rest [] with ⟨chunks, hchunks, -⟩ | ⟨hnot, status, hdata⟩
      · -- data chunks alone: the snapshot is handed over with the vote
        subst hchunks
        have hsnap := snapshot_transferOf raft hread chunks
        unfold transferOf at hsnap
        rw [hsnap, installed_safe_iff, hsays.1]
        constructor
        · intro h
          exact ⟨hm, fun _ => ⟨vote, rfl, h⟩⟩
        · rintro ⟨-, h⟩
          obtain ⟨vote', hvote', h⟩ := h ⟨chunks, rfl⟩
          cases hvote'
          exact h
      · have hsnap : snapshot raft (.ok ⟨some (.metadata m)⟩ :: rest) =
            ⟨[], .ok (.error status)⟩ := by
          simp [snapshot, hmeta, hread, hdata]
        rw [hsnap]
        constructor
        · intro _
          exact ⟨hm, fun h => absurd h hnot⟩
        · intro _
          exact refused status
    · obtain ⟨message, hread⟩ := readMeta_of_not_complete hm
      have hsnap : snapshot raft (.ok ⟨some (.metadata m)⟩ :: rest) =
          ⟨[], .error (.panic message)⟩ := by
        simp [snapshot, hmeta, hread]
      rw [hsnap]
      constructor
      · intro h
        exact absurd rfl (h.1 message)
      · rintro ⟨h, -⟩
        exact absurd h hm

/-- **What each handler can take from the wire**: it neither panics nor hands openraft a request
that its accessors panic on exactly when
* `vote`: the vote and its leader id are present;
* `append_entries`: so are they, and the membership of every entry that has one is valid;
* `snapshot`: metadata at the head of the stream have a vote and a valid membership and, when only
  data chunks follow, the vote has a leader id. -/
theorem handlers_safe_iff (raftVote : VoteRequest → Except String VoteResponse)
    (raftAppend : AppendEntriesRequest → Except String AppendEntriesResponse)
    (raftInstall : Pb.Vote → Snapshot → Except String Pb.Vote) :
    (∀ request, (vote raftVote request).Safe VoteRequest.Readable ↔ request.Complete) ∧
    (∀ request, (appendEntries raftAppend request).Safe AppendEntriesRequest.Readable ↔
      request.Complete) ∧
    ∀ stream, (snapshot raftInstall stream).Safe ↔ CompleteStream stream := by
  refine ⟨?_, ?_, ?_⟩
  · intro request
    exact vote_safe_iff raftVote request
  · intro request
    exact appendEntries_safe_iff raftAppend request
  · intro stream
    exact snapshot_safe_iff raftInstall stream

end RaftServiceImpl

/-! ### The calls of the client -/

namespace GRPCNetworkConnection

/-- What the caller of an RPC is to be told: the response of openraft on the peer, or its error as
a status. -/
def answer {Resp : Type} (failed : String) : Except String Resp → Except Status Resp
  | .ok response => .ok response
  | .error e => .error (.internal (failed ++ e))

/-- `GRPCNetworkConnection::vote`, served by the handler of a peer. -/
def vote (raft : VoteRequest → Except String VoteResponse) (rpc : VoteRequest) :
    Except Fault (Except Status VoteResponse) :=
  match (RaftServiceImpl.vote raft (VoteRequest.toPb rpc)).result with
  | .error fault => .error fault
  | .ok (.error status) => .ok (.error status)
  | .ok (.ok response) => (VoteResponse.ofPb response).map .ok

/-- `GRPCNetworkConnection::append_entries`, served by the handler of a peer. -/
def appendEntries (raft : AppendEntriesRequest → Except String AppendEntriesResponse)
    (rpc : AppendEntriesRequest) : Except Fault (Except Status AppendEntriesResponse) :=
  match (RaftServiceImpl.appendEntries raft (AppendEntriesRequest.toPb rpc)).result with
  | .error fault => .error fault
  | .ok (.error status) => .ok (.error status)
  | .ok (.ok response) => .ok (.ok (AppendEntriesResponse.ofPb response))

/-- **A candidate is told what its peer decided** on the request it sent. -/
theorem vote_answer (raft : VoteRequest → Except String VoteResponse) (rpc : VoteRequest) :
    vote raft rpc = .ok (answer "Vote operation failed: " (raft rpc)) := by
  unfold vote RaftServiceImpl.vote RaftServiceImpl.unary
  rw [VoteRequest.ofPb_toPb]
  simp only
  cases raft rpc with
  | error e => rfl
  | ok response =>
    simp only [VoteResponse.ofPb_toPb]
    rfl

/-- **A leader is told what its follower did** with the request it sent, unless the follower
accepted no log id of it. -/
theorem appendEntries_answer_iff
    (raft : AppendEntriesRequest → Except String AppendEntriesResponse)
    (rpc : AppendEntriesRequest) :
    appendEntries raft rpc = .ok (answer "Append entries operation failed: " (raft rpc)) ↔
      raft rpc ≠ .ok (.partialSuccess none) := by
  unfold appendEntries RaftServiceImpl.appendEntries RaftServiceImpl.unary
  rw [AppendEntriesRequest.ofPb_toPb]
  simp only
  cases raft rpc with
  | error e => simp [answer]
  | ok response =>
    have hround : AppendEntriesResponse.ofPb (AppendEntriesResponse.toPb response) = response ↔
        response ≠ .partialSuccess none := by
      constructor
      · rintro h rfl
        cases h
      · intro h
        exact AppendEntriesResponse.ofPb_toPb h
    simpa [answer] using hround

end GRPCNetworkConnection

/-! ### Requests with and without a leader -/

namespace Counter

scoped instance : CheckingOpenraft := CheckingOpenraft.checked

end Counter

namespace RaftServiceImpl

open scoped Counter

/-- A peer that grants every vote. -/
def grant (req : VoteRequest) : Except String VoteResponse := .ok ⟨req.vote, true, req.lastLogId⟩

/-- A peer that accepts all entries. -/
def acceptAll (_ : AppendEntriesRequest) : Except String AppendEntriesResponse := .ok .success

/-- A peer that installs every snapshot. -/
def install (vote : Pb.Vote) (_ : Snapshot) : Except String Pb.Vote := .ok vote

/-- The only node of the counter asks for a vote, and is served. -/
theorem handlers_safe_counter :
    (vote grant ⟨some Counter.vote, none⟩).Safe VoteRequest.Readable ∧
      (appendEntries acceptAll ⟨some Counter.vote, none, Counter.entries, none⟩).Safe
        AppendEntriesRequest.Readable := by
  obtain ⟨hvote, happend, -⟩ := handlers_safe_iff grant acceptAll install
  have hleader : ∃ v, some Counter.vote = some v ∧ v.leaderId.isSome := ⟨_, rfl, rfl⟩
  refine ⟨(hvote _).2 hleader, (happend _).2 ⟨hleader, ?_⟩⟩
  simp only [Counter.entries, List.forall_mem_cons]
  refine ⟨?_, by simp, by simp, by simp⟩
  rintro p ⟨⟩
  show Membership.Valid ⟨(Membership.toPb Counter.cluster).configs.map _, _⟩
  decide +kernel

/-- A request without a vote panics; a vote without a leader id is handed over, and so is an entry
whose membership has an empty config. -/
theorem handlers_not_safe :
    (∃ message, (vote grant ⟨none, none⟩).result = .error (.panic message)) ∧
      ¬ (vote grant ⟨none, none⟩).Safe VoteRequest.Readable ∧
      ¬ (vote grant ⟨some ⟨none, false⟩, none⟩).Safe VoteRequest.Readable ∧
      ¬ (appendEntries acceptAll ⟨some Counter.vote, none,
          [⟨1, 0, none, some ⟨[⟨SortedMap.empty⟩], SortedMap.empty⟩⟩], none⟩).Safe
            AppendEntriesRequest.Readable := by
  refine ⟨⟨_, rfl⟩, ?_, ?_, ?_⟩
  · rintro ⟨h, -⟩
    exact h _ rfl
  · rintro ⟨-, h⟩
    exact h _ List.mem_cons_self _ rfl
  · rintro ⟨-, h⟩
    exact (h _ List.mem_cons_self).2 _ List.mem_cons_self _ rfl

end RaftServiceImpl

end RaftService
