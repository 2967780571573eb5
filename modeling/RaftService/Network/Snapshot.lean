import RaftService.Counter

/-!
# The snapshot transfer

The messages that `full_snapshot` sends (`raft/network/grpc/v2.rs`) and the handler `snapshot`
that receives them (`grpc/internal_service.rs`). The handler sees the request stream as a list of
items, each a message or a `Status`; besides what it returns, the model keeps the calls of
`install_full_snapshot` it makes.

* `snapshot_transferOf`, `snapshot_of_not_transfer`: what the handler does on a stream of one
  metadata message and data chunks, and on every other one;
* `snapshot_codec_exact`: the handler undoes what the client builds, and installs nothing else.
-/

/-- The chunks of a list are the list. -/
theorem List.flatten_toChunks {α : Type*} (n : ℕ) (l : List α) : (l.toChunks n).flatten = l := by
  have hgo : ∀ (rest : List α) (acc : Array α) (done : Array (List α)),
      (List.toChunks.go n rest acc done).flatten =
        done.toList.flatten ++ acc.toList ++ rest := by
    intro rest
    induction rest with
    | nil => simp [List.toChunks.go]
    | cons x rest ih =>
      intro acc done
      rw [List.toChunks.go]
      split_ifs with hfull
      · rw [ih]; simp
      · rw [ih]; simp
  cases l with
  | nil => cases n <;> rfl
  | cons x l =>
    cases n with
    | zero => simp [List.toChunks]
    | succ n => simp [List.toChunks, hgo]

namespace RaftService

/-- `tonic::Code` -/
inductive Code
  | ok
  | cancelled
  | unknown
  | invalidArgument
  | deadlineExceeded
  | notFound
  | alreadyExists
  | permissionDenied
  | resourceExhausted
  | failedPrecondition
  | aborted
  | outOfRange
  | unimplemented
  | internal
  | unavailable
  | dataLoss
  | unauthenticated
  deriving DecidableEq

/-- `tonic::Status` -/
structure Status where
  code : Code
  message : String
  deriving DecidableEq

/-- `Status::invalid_argument` -/
def Status.invalidArgument (message : String) : Status := ⟨.invalidArgument, message⟩

/-- `Status::internal` -/
def Status.internal (message : String) : Status := ⟨.internal, message⟩

/-- `Option::unwrap` -/
def unwrapOption {α : Type*} : Option α → Except Fault α
  | some a => .ok a
  | none => .error (.panic "called `Option::unwrap()` on a `None` value")

@[simp] theorem unwrapOption_some {α : Type*} (a : α) : unwrapOption (some a) = .ok a := rfl

/-! ### The client -/

/-- The size of the data chunks, 1 MiB. -/
def chunkSize : ℕ := 1024 * 1024

/-- The metadata that `full_snapshot` sends first. -/
def requestMeta (vote : Pb.Vote) (snapshotMeta : SnapshotMeta) : Pb.SnapshotRequestMeta where
  vote := some vote
  lastLogId := snapshotMeta.lastLogId.map LogId.toPb
  lastMembershipLogId := snapshotMeta.lastMembership.logId.map LogId.toPb
  lastMembership := some (Membership.toPb snapshotMeta.lastMembership.membership)
  snapshotId := snapshotMeta.snapshotId

/-- A data chunk of `full_snapshot`. -/
def chunkRequest (chunk : Bytes) : Pb.SnapshotRequest := ⟨some (.chunk chunk)⟩

/-- The messages that `full_snapshot` sends, in order. -/
def fullSnapshotRequests (vote : Pb.Vote) (snapshot : Snapshot) : List Pb.SnapshotRequest :=
  ⟨some (.metadata (requestMeta vote snapshot.snapshotMeta))⟩ ::
    (snapshot.snapshot.toChunks chunkSize).map chunkRequest

/-- The messages tell the vote and the snapshot. -/
theorem fullSnapshotRequests_injective {vote vote' : Pb.Vote} {s s' : Snapshot}
    (h : fullSnapshotRequests vote s = fullSnapshotRequests vote' s') : vote = vote' ∧ s = s' := by
  obtain ⟨hmeta, hchunks⟩ := List.cons.inj h
  have hdata : s.snapshot = s'.snapshot := by
    have hchunk : Function.Injective chunkRequest := by
      intro c c' hc
      cases hc
      rfl
    rw [← List.flatten_toChunks chunkSize s.snapshot, List.map_injective_iff.2 hchunk hchunks,
      List.flatten_toChunks]
  simp only [Pb.SnapshotRequest.mk.injEq, Option.some.injEq, Pb.Payload.metadata.injEq,
    requestMeta, Pb.SnapshotRequestMeta.mk.injEq] at hmeta
  obtain ⟨hvote, hlast, hmemId, hmem, hid⟩ := hmeta
  refine ⟨hvote, ?_⟩
  obtain ⟨⟨last, ⟨memId, mem⟩, id⟩, data⟩ := s
  obtain ⟨⟨last', ⟨memId', mem'⟩, id'⟩, data'⟩ := s'
  obtain rfl := Option.map_injective LogId.toPb_injective hlast
  obtain rfl := Option.map_injective LogId.toPb_injective hmemId
  obtain rfl := Membership.toPb_injective hmem
  obtain rfl : id = id' := hid
  obtain rfl : data = data' := hdata
  rfl

/-! ### Metadata -/

/-- The configs and the nodes of the message make a valid membership. -/
def Pb.Membership.Valid (p : Pb.Membership) : Prop :=
  (RaftService.Membership.mk (p.configs.map Pb.NodeIdSet.nodeIds) p.nodes).Valid

/-- The metadata carry a vote and a valid membership. -/
def Pb.SnapshotRequestMeta.Complete (m : Pb.SnapshotRequestMeta) : Prop :=
  m.vote.isSome ∧ ∃ p, m.lastMembership = some p ∧ p.Valid

/-- What complete metadata say. -/
def Pb.SnapshotRequestMeta.Says (m : Pb.SnapshotRequestMeta) (vote : Pb.Vote)
    (snapshotMeta : SnapshotMeta) : Prop :=
  m.vote = some vote ∧ snapshotMeta.lastLogId = m.lastLogId.map LogId.ofPb ∧
    snapshotMeta.lastMembership.logId = m.lastMembershipLogId.map LogId.ofPb ∧
    (∃ p, m.lastMembership = some p ∧
      snapshotMeta.lastMembership.membership = ⟨p.configs.map Pb.NodeIdSet.nodeIds, p.nodes⟩) ∧
    snapshotMeta.snapshotId = m.snapshotId

/-! ### The handler -/

namespace RaftServiceImpl

/-- What `snapshot` leaves: the calls of `install_full_snapshot`, and how it ends, with a panic or
with the `Result` it returns. -/
structure Handled where
  installs : List (Pb.Vote × Snapshot)
  result : Except Fault (Except Status Pb.SnapshotResponse)

/-- The first item of the stream has to be metadata; what remains of the stream is returned, too. -/
def receiveMeta : List (Except Status Pb.SnapshotRequest) →
    Except Status (Pb.SnapshotRequestMeta × List (Except Status Pb.SnapshotRequest))
  | [] => .error (.invalidArgument "Empty snapshot stream")
  | .error status :: _ => .error status
  | .ok firstChunk :: stream =>
    match firstChunk.intoMeta with
    | some m => .ok (m, stream)
    | none => .error (.invalidArgument "First snapshot chunk must be metadata")

/-- The vote and the snapshot meta of the metadata message. -/
def readMeta [Openraft] (m : Pb.SnapshotRequestMeta) : Except Fault (Pb.Vote × SnapshotMeta) := do
  let vote ← unwrapOption m.vote
  let lastMembership ← unwrapOption m.lastMembership
  let membership ← Membership.ofPb lastMembership
  pure (vote,
    { lastLogId := m.lastLogId.map LogId.ofPb
      lastMembership := ⟨m.lastMembershipLogId.map LogId.ofPb, membership⟩
      snapshotId := m.snapshotId })

/-- The loop that collects the data. -/
def receiveData : List (Except Status Pb.SnapshotRequest) → Bytes → Except Status Bytes
  | [], snapshotDataBytes => .ok snapshotDataBytes
  | .error status :: _, _ => .error status
  | .ok chunk :: stream, snapshotDataBytes =>
    match chunk.intoDataChunk with
    | some data => receiveData stream (snapshotDataBytes ++ data)
    | none => .error (.invalidArgument "Snapshot chunk must be data")

/-- `RaftServiceImpl::snapshot`, on the items of the request stream up to its end;
`installFullSnapshot` is the method of openraft, with the vote of its response. -/
def snapshot [Openraft] (installFullSnapshot : Pb.Vote → Snapshot → Except String Pb.Vote)
    (stream : List (Except Status Pb.SnapshotRequest)) : Handled :=
  match receiveMeta stream with
  | .error status => ⟨[], .ok (.error status)⟩
  | .ok (m, stream) =>
    match readMeta m with
    | .error fault => ⟨[], .error fault⟩
    | .ok (vote, snapshotMeta) =>
      match receiveData stream [] with
      | .error status => ⟨[], .ok (.error status)⟩
      | .ok snapshotDataBytes =>
        let snapshot : Snapshot := ⟨snapshotMeta, snapshotDataBytes⟩
        ⟨[(vote, snapshot)],
          match installFullSnapshot vote snapshot with
          | .ok vote => .ok (.ok ⟨some vote⟩)
          | .error e => .ok (.error (.internal ("Snapshot installation failed: " ++ e)))⟩

/-! ### Transfers -/

/-- A stream of data chunks. -/
def chunkStream (chunks : List Bytes) : List (Except Status Pb.SnapshotRequest) :=
  chunks.map fun chunk => .ok (chunkRequest chunk)

/-- The stream of a metadata message and data chunks. -/
def transferOf (m : Pb.SnapshotRequestMeta) (chunks : List Bytes) :
    List (Except Status Pb.SnapshotRequest) :=
  .ok ⟨some (.metadata m)⟩ :: chunkStream chunks

/-- The stream is one metadata message and data chunks. -/
def IsTransfer (stream : List (Except Status Pb.SnapshotRequest)) : Prop :=
  ∃ m chunks, stream = transferOf m chunks

theorem intoMeta_eq_some {request : Pb.SnapshotRequest} {m : Pb.SnapshotRequestMeta} :
    request.intoMeta = some m ↔ request = ⟨some (.metadata m)⟩ := by
  obtain ⟨_ | _ | _⟩ := request <;> simp [Pb.SnapshotRequest.intoMeta]

theorem intoDataChunk_eq_some {request : Pb.SnapshotRequest} {data : Bytes} :
    request.intoDataChunk = some data ↔ request = chunkRequest data := by
  obtain ⟨_ | _ | _⟩ := request <;> simp [Pb.SnapshotRequest.intoDataChunk, chunkRequest]

/-- A stream of data chunks is collected; on every other one the loop fails. -/
theorem receiveData_cases (stream : List (Except Status Pb.SnapshotRequest)) (acc : Bytes) :
    (∃ chunks, stream = chunkStream chunks ∧
      receiveData stream acc = .ok (acc ++ chunks.flatten)) ∨
    ((¬ ∃ chunks, stream = chunkStream chunks) ∧
      ∃ status, receiveData stream acc = .error status) := by
  induction stream generalizing acc with
  | nil => exact Or.inl ⟨[], rfl, by simp [receiveData]⟩
  | cons item stream ih =>
    rcases item with status | request
    · refine Or.inr ⟨?_, status, rfl⟩
      rintro ⟨_ | ⟨chunk, chunks⟩, h⟩ <;> cases h
    · cases hdata : request.intoDataChunk with
      | none =>
        refine Or.inr ⟨?_, _, by rw [receiveData, hdata]⟩
        rintro ⟨_ | ⟨chunk, chunks⟩, h⟩
        · cases h
        · cases h
          cases hdata
      | some data =>
        obtain rfl := intoDataChunk_eq_some.1 hdata
        rcases ih (acc ++ data) with ⟨chunks, rfl, hok⟩ | ⟨hnot, status, herr⟩
        · refine Or.inl ⟨data :: chunks, rfl, ?_⟩
          rw [receiveData, hdata]
          simpa using hok
        · refine Or.inr ⟨?_, status, by rw [receiveData, hdata]; exact herr⟩
          rintro ⟨_ | ⟨chunk, chunks⟩, h⟩
          · cases h
          · exact hnot ⟨chunks, (List.cons.inj h).2⟩

/-- The handler receives the messages of the client as a transfer. -/
theorem fullSnapshotRequests_map_ok (vote : Pb.Vote) (snapshot : Snapshot) :
    (fullSnapshotRequests vote snapshot).map .ok =
      transferOf (requestMeta vote snapshot.snapshotMeta)
        (snapshot.snapshot.toChunks chunkSize) := by
  rw [fullSnapshotRequests, transferOf, chunkStream, List.map_cons, List.map_map]
  rfl

variable [Openraft] (raft : Pb.Vote → Snapshot → Except String Pb.Vote)

/-- Complete metadata are read without a panic. -/
theorem readMeta_of_complete [LawfulOpenraft] {m : Pb.SnapshotRequestMeta} (h : m.Complete) :
    ∃ vote snapshotMeta, readMeta m = .ok (vote, snapshotMeta) ∧ m.Says vote snapshotMeta := by
  obtain ⟨hvote, p, hp, hvalid⟩ := h
  obtain ⟨vote, hvote⟩ := Option.isSome_iff_exists.1 hvote
  have hmembership : Membership.ofPb p = .ok ⟨p.configs.map Pb.NodeIdSet.nodeIds, p.nodes⟩ := by
    rw [Membership.ofPb_eq, membershipNew_of_valid hvalid, unwrap_ok]
  refine ⟨vote, ⟨m.lastLogId.map LogId.ofPb, ⟨m.lastMembershipLogId.map LogId.ofPb, _⟩,
    m.snapshotId⟩, ?_, hvote, rfl, rfl, ⟨p, hp, rfl⟩, rfl⟩
  simp [readMeta, hvote, hp, hmembership, bind, Except.bind, pure, Except.pure]

/-- The handler reads the metadata that the client sends back as they were. -/
theorem readMeta_requestMeta [LawfulOpenraft] (vote : Pb.Vote) {snapshotMeta : SnapshotMeta}
    (hvalid : snapshotMeta.lastMembership.membership.Valid) :
    readMeta (requestMeta vote snapshotMeta) = .ok (vote, snapshotMeta) := by
  have hmap : ∀ l : Option LogId, (l.map LogId.toPb).map LogId.ofPb = l := by
    rintro (_ | l) <;> rfl
  simp [readMeta, requestMeta, Membership.ofPb_toPb hvalid, hmap, bind, Except.bind, pure,
    Except.pure]

/-- What the handler returns when it has installed a snapshot. -/
def installed (vote : Pb.Vote) (snapshot : Snapshot) : Handled :=
  ⟨[(vote, snapshot)],
    match raft vote snapshot with
    | .ok vote => .ok (.ok ⟨some vote⟩)
    | .error e => .ok (.error (.internal ("Snapshot installation failed: " ++ e)))⟩

/-- **A transfer is installed**, with the concatenation of its chunks. -/
theorem snapshot_transferOf {m : Pb.SnapshotRequestMeta} {vote : Pb.Vote}
    {snapshotMeta : SnapshotMeta} (hm : readMeta m = .ok (vote, snapshotMeta))
    (chunks : List Bytes) :
    snapshot raft (transferOf m chunks) = installed raft vote ⟨snapshotMeta, chunks.flatten⟩ := by
  have hdata : receiveData (chunkStream chunks) [] = .ok chunks.flatten := by
    rcases receiveData_cases (chunkStream chunks) [] with ⟨chunks', heq, hok⟩ | ⟨hnot, -⟩
    · have hinj : Function.Injective fun chunk : Bytes =>
          (.ok (chunkRequest chunk) : Except Status Pb.SnapshotRequest) := by
        intro c c' hc
        cases hc
        rfl
      rw [hok, List.map_injective_iff.2 hinj heq, List.nil_append]
    · exact absurd ⟨chunks, rfl⟩ hnot
  simp [snapshot, transferOf, receiveMeta, Pb.SnapshotRequest.intoMeta, hm, hdata, installed]

/-- **Every other stream is refused**, and nothing is installed. -/
theorem snapshot_of_not_transfer [LawfulOpenraft] {stream : List (Except Status Pb.SnapshotRequest)}
    (hcomplete : ∀ m, .ok ⟨some (.metadata m)⟩ ∈ stream → m.Complete) (h : ¬ IsTransfer stream) :
    ∃ status, snapshot raft stream = ⟨[], .ok (.error status)⟩ := by
  rcases stream with - | ⟨status | request, stream⟩
  · exact ⟨_, rfl⟩
  · exact ⟨status, rfl⟩
  · cases hmeta : request.intoMeta with
    | none => exact ⟨_, by rw [snapshot, receiveMeta, hmeta]⟩
    | some m =>
      obtain rfl := intoMeta_eq_some.1 hmeta
      obtain ⟨vote, snapshotMeta, hread, -⟩ :=
        readMeta_of_complete (hcomplete m List.mem_cons_self)
      rcases receiveData_cases stream [] with ⟨chunks, rfl, -⟩ | ⟨-, status, herr⟩
      · exact absurd ⟨m, chunks, rfl⟩ h
      · exact ⟨status, by simp [snapshot, receiveMeta, hmeta, hread, herr]⟩

/-- **The codec of the snapshot transfer is exact.**
* On the messages that the client builds, the handler calls `install_full_snapshot` once, with the
  same vote, the same meta and the same data.
* On any stream whose metadata are complete, it makes a call only if the stream is one metadata
  message and data chunks, and then installs the concatenation of the chunks; on every other
  stream it returns an error status and installs nothing. -/
theorem snapshot_codec_exact [LawfulOpenraft] :
    (∀ vote snapshotMeta data, snapshotMeta.lastMembership.membership.Valid →
      snapshot raft ((fullSnapshotRequests vote ⟨snapshotMeta, data⟩).map .ok) =
        installed raft vote ⟨snapshotMeta, data⟩) ∧
    ∀ stream, (∀ m, .ok ⟨some (.metadata m)⟩ ∈ stream → Pb.SnapshotRequestMeta.Complete m) →
      (∀ m chunks, stream = transferOf m chunks → ∃ vote snapshotMeta, m.Says vote snapshotMeta ∧
        snapshot raft stream = installed raft vote ⟨snapshotMeta, chunks.flatten⟩) ∧
      (¬ IsTransfer stream → ∃ status, snapshot raft stream = ⟨[], .ok (.error status)⟩) := by
  refine ⟨fun vote snapshotMeta data hvalid => ?_, fun stream hcomplete => ⟨?_, ?_⟩⟩
  · rw [fullSnapshotRequests_map_ok, snapshot_transferOf raft (readMeta_requestMeta vote hvalid),
      List.flatten_toChunks]
  · rintro m chunks rfl
    obtain ⟨vote, snapshotMeta, hread, hsays⟩ :=
      readMeta_of_complete (hcomplete m List.mem_cons_self)
    exact ⟨vote, snapshotMeta, hsays, snapshot_transferOf raft hread chunks⟩
  · exact snapshot_of_not_transfer raft hcomplete

end RaftServiceImpl

/-! ### A snapshot of the counter -/

namespace RaftServiceImpl

open scoped Counter

/-- A snapshot of the counter. -/
def counterSnapshot : Snapshot :=
  ⟨(Counter.snapshotAt 2 "1-2-1" (ascii "12")).snapshotMeta, ascii "12"⟩

/-- It is installed as it was sent; a stream that starts with a chunk is refused. -/
theorem snapshot_counterSnapshot :
    snapshot (fun vote _ => .ok vote)
        ((fullSnapshotRequests Counter.vote counterSnapshot).map .ok) =
      ⟨[(Counter.vote, counterSnapshot)], .ok (.ok ⟨some Counter.vote⟩)⟩ ∧
    ∃ status, snapshot (fun vote _ => .ok vote) [.ok (chunkRequest (ascii "12"))] =
      ⟨[], .ok (.error status)⟩ := by
  obtain ⟨hsent, hstream⟩ := snapshot_codec_exact fun vote _ => .ok vote
  refine ⟨hsent Counter.vote _ _ Counter.cluster_valid, (hstream _ (by simp [chunkRequest])).2 ?_⟩
  rintro ⟨m, chunks, h⟩
  cases h

end RaftServiceImpl

end RaftService
