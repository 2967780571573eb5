import RaftService.Store.Log

/-!
# Conversions between openraft and protobuf

The `From` implementations of `raft/pb_impl` for log ids and memberships, the traits that
`internal.Entry` implements (`RaftPayload`, `RaftEntry`), and the accessors of
`SnapshotRequest`.

A membership is rebuilt with `Membership::new(..).unwrap()`, so the conversion from protobuf can
panic; on a valid membership it does not, and the two directions are inverse
(`Membership.ofPb_toPb`).
-/

namespace RaftService

/-! ### Log ids -/

/-- `From<LogId<C>> for PbLogId` -/
def LogId.toPb (logId : LogId) : Pb.LogId := ⟨logId.leaderId, logId.index⟩

/-- `From<PbLogId> for LogId<C>` -/
def LogId.ofPb (logId : Pb.LogId) : LogId := ⟨logId.term, logId.index⟩

@[simp] theorem LogId.ofPb_toPb (id : LogId) : LogId.ofPb (LogId.toPb id) = id := rfl

theorem LogId.toPb_injective : Function.Injective LogId.toPb :=
  Function.LeftInverse.injective LogId.ofPb_toPb

/-! ### Memberships -/

/-- Collect node ids into a `BTreeSet`. -/
def NodeSet.ofKeys (ks : List UInt64) : NodeSet := SortedMap.ofList (ks.map fun k => (k, ()))

@[simp] theorem NodeSet.ofKeys_keys (c : NodeSet) : NodeSet.ofKeys c.keys = c := by
  have hpairs : (c.keys.map fun k => (k, ())) = c.toList := by
    unfold SortedMap.keys
    rw [List.map_map]
    exact List.map_id c.toList
  rw [NodeSet.ofKeys, hpairs, SortedMap.ofList_toList]

/-- `From<PbMembership> for Membership<C>` -/
def Membership.ofPb [Openraft] (membership : Pb.Membership) : Except Fault Membership :=
  let configs := membership.configs.map fun c => NodeSet.ofKeys c.nodeIds.keys
  unwrap (Openraft.membershipNew configs membership.nodes)

/-- `From<Membership<C>> for PbMembership` -/
def Membership.toPb (membership : Membership) : Pb.Membership :=
  let configs := membership.configs.map fun c =>
    ⟨c.keys.foldl (fun nodeIds nid => nodeIds.insert nid ()) SortedMap.empty⟩
  let nodes := SortedMap.ofList (membership.nodes.toList.map fun (nid, n) => (nid, n))
  ⟨configs, nodes⟩

/-- The node ids of a config, inserted one by one, are the config. -/
theorem foldl_insert_keys (c : NodeSet) :
    c.keys.foldl (fun nodeIds nid => nodeIds.insert nid ()) SortedMap.empty = c := by
  have h := NodeSet.ofKeys_keys c
  rwa [NodeSet.ofKeys, SortedMap.ofList, List.foldl_map] at h

theorem Membership.toPb_eq (m : Membership) :
    Membership.toPb m = ⟨m.configs.map Pb.NodeIdSet.mk, m.nodes⟩ := by
  have hnodes : (m.nodes.toList.map fun (nid, n) => (nid, n)) = m.nodes.toList :=
    List.map_id m.nodes.toList
  simp only [Membership.toPb, foldl_insert_keys, hnodes, SortedMap.ofList_toList]

theorem Membership.toPb_injective : Function.Injective Membership.toPb := by
  intro m m' h
  rw [toPb_eq, toPb_eq, Pb.Membership.mk.injEq] at h
  obtain ⟨hconfigs, hnodes⟩ := h
  have hmk : Function.Injective Pb.NodeIdSet.mk := fun _ _ h => (Pb.NodeIdSet.mk.injEq ..).mp h
  cases m
  cases m'
  rw [Membership.mk.injEq]
  exact ⟨List.map_injective_iff.2 hmk hconfigs, hnodes⟩

theorem Membership.ofPb_eq [Openraft] (p : Pb.Membership) :
    Membership.ofPb p =
      unwrap (Openraft.membershipNew (p.configs.map Pb.NodeIdSet.nodeIds) p.nodes) := by
  simp only [Membership.ofPb, NodeSet.ofKeys_keys]

/-- `Membership::new` accepts what is valid and stores it. -/
theorem membershipNew_of_valid [Openraft] [LawfulOpenraft] {m : Membership} (h : m.Valid) :
    Openraft.membershipNew m.configs m.nodes = .ok m := by
  cases hnew : Openraft.membershipNew m.configs m.nodes with
  | error e => exact absurd h (LawfulOpenraft.err_only hnew)
  | ok m' => rw [LawfulOpenraft.stores hnew]

/-- **A valid membership survives the conversion to protobuf and back.** -/
theorem Membership.ofPb_toPb [Openraft] [LawfulOpenraft] {m : Membership}
    (h : m.Valid) : Membership.ofPb (Membership.toPb m) = .ok m := by
  have hmap : (m.configs.map Pb.NodeIdSet.mk).map Pb.NodeIdSet.nodeIds = m.configs := by
    rw [List.map_map]
    exact List.map_id m.configs
  rw [Membership.ofPb_eq, Membership.toPb_eq, hmap, membershipNew_of_valid h, unwrap_ok]

/-! ### Entries -/

namespace Pb.Entry

/-- `RaftPayload::get_membership` -/
def getMembership [Openraft] (entry : Pb.Entry) : Except Fault (Option RaftService.Membership) :=
  match entry.membership with
  | none => .ok none
  | some m =>
    match Membership.ofPb m with
    | .ok m => .ok (some m)
    | .error e => .error e

/-- `RaftEntry::new` -/
def new {Req : Type} [Serde Req] (logId : RaftService.LogId) :
    EntryPayload Req → Except Fault Pb.Entry
  | .blank => .ok ⟨logId.leaderId, logId.index, none, none⟩
  | .normal data =>
    match unwrap (Serde.toVec data) with
    | .ok appData => .ok ⟨logId.leaderId, logId.index, some appData, none⟩
    | .error e => .error e
  | .membership m => .ok ⟨logId.leaderId, logId.index, none, some (RaftService.Membership.toPb m)⟩

/-- `RaftEntry::log_id_parts` -/
instance : RaftEntry Pb.Entry := ⟨fun entry => (entry.term, entry.index)⟩

/-- What `RaftEntry::new` builds, by the payload. -/
theorem new_cases {Req : Type} [Serde Req] {id : RaftService.LogId} {payload : EntryPayload Req}
    {e : Pb.Entry} (h : new id payload = .ok e) :
    RaftEntry.logId e = id ∧
      ((payload = .blank ∧ e.appData = none ∧ e.membership = none) ∨
        (∃ r b, payload = .normal r ∧ Serde.toVec r = .ok b ∧ e.appData = some b ∧
          e.membership = none) ∨
        ∃ m, payload = .membership m ∧ e.appData = none ∧
          e.membership = some (RaftService.Membership.toPb m)) := by
  cases payload with
  | blank => cases h; exact ⟨rfl, Or.inl ⟨rfl, rfl, rfl⟩⟩
  | normal r =>
    cases hb : Serde.toVec r with
    | error s => simp [new, hb, unwrap] at h
    | ok b =>
      simp only [new, hb, unwrap_ok, Except.ok.injEq] at h
      cases h
      exact ⟨rfl, Or.inr (Or.inl ⟨r, b, rfl, hb, rfl, rfl⟩)⟩
  | membership m => cases h; exact ⟨rfl, Or.inr (Or.inr ⟨m, rfl, rfl, rfl⟩)⟩

end Pb.Entry

/-! ### Snapshot requests -/

namespace Pb.SnapshotRequest

/-- `SnapshotRequest::into_meta` -/
def intoMeta (request : Pb.SnapshotRequest) : Option Pb.SnapshotRequestMeta :=
  match request.payload with
  | some (.metadata m) => some m
  | some (.chunk _) => none
  | none => none

/-- `SnapshotRequest::into_data_chunk` -/
def intoDataChunk (request : Pb.SnapshotRequest) : Option Bytes :=
  match request.payload with
  | some (.metadata _) => none
  | some (.chunk chunk) => some chunk
  | none => none

end Pb.SnapshotRequest

end RaftService
