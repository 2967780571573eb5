import RaftService.Cluster.Agreement
import RaftService.Cluster.Linearizable

/-!
# The key-value application

The application of `single_node.rs` and of `kv_cluster.rs`, which differ in the types of keys and
values only. A request inserts a pair into a `HashMap`; snapshots are the map. What is meant to be
in the map is the value of the last request for each key (`lastWritten`).

* `Cluster.maps_hold_last_written`: so it is at every node of a cluster, and in every snapshot that
  any of them has stored;
* `ReadCluster.read_safe_sees_write`: `read_safe` after an acknowledged write finds that write, or
  a later one of the same key;
* `ReadCluster.lengths_ascend`: the lengths that `ReadingService` logs do not go down.
-/

namespace RaftService

/-- `KeyValueData` -/
structure KeyValueData (K V : Type) [LinearOrder K] where
  map : SortedMap K V

namespace KeyValueData

variable {K V : Type}

/-- `Request` -/
structure Request (K V : Type) where
  key : K
  value : V
  deriving DecidableEq

/-- `Response` -/
inductive Response
  | response
  deriving DecidableEq

variable [LinearOrder K]

/-- `Snapshot` -/
structure Snapshot (K V : Type) [LinearOrder K] where
  map : SortedMap K V
  deriving DecidableEq

/-- `impl ApplicationStateMachine for KeyValueData` -/
def application : ApplicationStateMachine (KeyValueData K V) (Request K V) Response
    (Snapshot K V) where
  default := ⟨SortedMap.empty⟩
  exportSnapshot data := .ok ⟨data.map⟩
  importSnapshot snapshot := .ok ⟨snapshot.map⟩
  apply data request := (⟨data.map.insert request.key request.value⟩, .ok .response)

/-- The closure that `ReadingService` reads with. -/
def len (store : KeyValueData K V) : ℕ := store.map.toList.length

theorem application_roundTrips : (application : ApplicationStateMachine (KeyValueData K V)
    (Request K V) Response (Snapshot K V)).RoundTrips := by
  rintro data snapshot h
  cases h
  rfl

/-! ### What is written -/

omit [LinearOrder K] in
/-- The pairs of the requests, oldest first. -/
def written (ps : List (Proposal (Request K V))) : List (K × V) :=
  (ps.filterMap fun p => p.2.request?).map fun r => (r.key, r.value)

/-- The value of the last request for the key. -/
def lastWritten (k : K) (ps : List (Proposal (Request K V))) : Option V :=
  (written ps).reverse.lookup k

omit [LinearOrder K] in
theorem written_snoc (ps : List (Proposal (Request K V))) (id : LogId)
    (payload : EntryPayload (Request K V)) :
    written (ps ++ [(id, payload)]) =
      match payload.request? with
      | some r => written ps ++ [(r.key, r.value)]
      | none => written ps := by
  unfold written
  rw [List.filterMap_append, List.map_append]
  cases h : payload.request? <;> simp [h]

/-- The map collects the pairs. -/
theorem map_stateOf (ps : List (Proposal (Request K V))) :
    (stateOf application ps).map = SortedMap.ofList (written ps) := by
  induction ps using List.reverseRecOn with
  | nil => rfl
  | append_singleton ps p ih =>
    obtain ⟨id, payload⟩ := p
    rw [stateOf_snoc, written_snoc]
    cases payload.request? with
    | none => exact ih
    | some r =>
      rw [SortedMap.ofList_snoc, ← ih]
      rfl

/-- The map holds the last values. -/
theorem get?_stateOf (ps : List (Proposal (Request K V))) (k : K) :
    (stateOf application ps).map.get? k = lastWritten k ps := by
  rw [map_stateOf, SortedMap.get?_ofList]
  rfl

/-- The length is the number of keys. -/
theorem len_stateOf (ps : List (Proposal (Request K V))) :
    (stateOf application ps).len = ((written ps).map Prod.fst).dedup.length := by
  rw [len, map_stateOf, SortedMap.length_ofList]

/-- More requests have no fewer keys. -/
theorem len_stateOf_mono {ps qs : List (Proposal (Request K V))} (h : ps <+: qs) :
    (stateOf application ps).len ≤ (stateOf application qs).len := by
  rw [len_stateOf, len_stateOf]
  refine (List.Nodup.subperm (List.nodup_dedup _) fun k hk => ?_).length_le
  rw [List.mem_dedup] at hk ⊢
  have hpre : written ps <+: written qs := (h.filterMap _).map _
  exact (hpre.map Prod.fst).subset hk

/-- The last request for a key that has been written is that write or a later one. -/
theorem lastWritten_of_mem {ps : List (Proposal (Request K V))}
    (hasc : ps.Pairwise fun a b => a.1 < b.1) {w : LogId} {k : K} {v : V}
    (hw : (w, .normal ⟨k, v⟩) ∈ ps) :
    ∃ w' v', w ≤ w' ∧ (w', .normal ⟨k, v'⟩) ∈ ps ∧ lastWritten k ps = some v' := by
  induction ps using List.reverseRecOn with
  | nil => exact absurd hw List.not_mem_nil
  | append_singleton ps p ih =>
    obtain ⟨id, payload⟩ := p
    obtain ⟨hps, -, hlt⟩ := List.pairwise_append.1 hasc
    have hlast : ∀ {v'}, payload = .normal ⟨k, v'⟩ →
        lastWritten k (ps ++ [(id, payload)]) = some v' := by
      rintro v' rfl
      rw [lastWritten, written_snoc]
      simp [EntryPayload.request?]
    by_cases hsame : ∃ v', payload = .normal ⟨k, v'⟩
    · -- the last request is for the key
      obtain ⟨v', hv'⟩ := hsame
      refine ⟨id, v', ?_, by simp [hv'], hlast hv'⟩
      rcases List.mem_append.1 hw with hw | hw
      · exact (hlt _ hw _ (List.mem_singleton_self _)).le
      · cases List.mem_singleton.1 hw
        exact le_rfl
    · -- it is not, and changes nothing for the key
      have hw' : (w, .normal ⟨k, v⟩) ∈ ps := by
        refine (List.mem_append.1 hw).resolve_right fun hw => hsame ⟨v, ?_⟩
        cases List.mem_singleton.1 hw
        rfl
      obtain ⟨w', v', hle, hmem, hv'⟩ := ih hps hw'
      refine ⟨w', v', hle, List.mem_append_left _ hmem, ?_⟩
      rw [lastWritten, written_snoc]
      cases hr : payload.request? with
      | none => exact hv'
      | some r =>
        have hne : k ≠ r.key := by
          rintro rfl
          cases payload with
          | normal r' =>
            cases hr
            exact hsame ⟨r.value, rfl⟩
          | blank | membership => cases hr
        show ((written ps ++ [(r.key, r.value)]).reverse).lookup k = some v'
        rw [List.reverse_append, List.reverse_singleton, List.singleton_append, List.lookup_cons,
          beq_false_of_ne hne]
        exact hv'

end KeyValueData

/-! ### In a cluster -/

open StateMachineStore
open KeyValueData hiding Snapshot
open Readers (Before)

section Clusters

variable {N ρ K V : Type} [LinearOrder K] [DecidableEq N] [Openraft] [LawfulOpenraft]
  [Serde (Request K V)] [LawfulSerde (Request K V)] [Serde (KeyValueData.Snapshot K V)]
  [Serde StoredSnapshot]

namespace Cluster

variable [BuildProfile] [Serde Pb.Entry] [Serde LogId] [LawfulSerde (KeyValueData.Snapshot K V)]
  [LawfulSerde StoredSnapshot] [LawfulSerde Pb.Entry] [LawfulSerde LogId]

/-- **Every map holds the last values written.** In every state that a run reaches, the map of a
node has for each key the value of the last request for it, among the entries up to the last
applied log id of the node. So has the map that a stored snapshot imports to, up to the log id of
the snapshot. -/
theorem maps_hold_last_written {raft : Pb.Vote → Snapshot → Except String Pb.Vote}
    {log : ReferenceLog (Request K V)} {store : StateMachineStore (KeyValueData K V)}
    {tr : List (Event N ρ)} {c : Cluster N (KeyValueData K V)} (hlog : log.GapFree)
    (hser : ∀ e ∈ log.entries, Serializes e) (hids : ∀ x, log.Has (some x) → Serializes x)
    (hnew : newStorage application Db.empty = .ok store)
    (hends : EndsWhole raft application log (start store) tr)
    (hrun : Run.exec (step raft application log) (start store) tr = some c) :
    (∀ n k, (c.nodes n).store.stateMachine.applicationData.map.get? k =
      lastWritten k (log.upTo (appliedState (c.nodes n).store).1)) ∧
    ∀ snap, c.HasStored snap → ∃ x, importData application snap.data = .ok x ∧
      ∀ k, x.map.get? k = lastWritten k (log.upTo snap.snapshotMeta.lastLogId) := by
  have hinv := inv_of_run application_roundTrips hlog hser hids hnew hends hrun
  refine ⟨fun n k => ?_, fun snap hsnap => ?_⟩
  · have hmem : (c.nodes n).store.stateMachine =
        replay application (log.upTo (appliedState (c.nodes n).store).1) := (hinv.node n).memory
    calc (c.nodes n).store.stateMachine.applicationData.map.get? k
        = (stateOf application (log.upTo (appliedState (c.nodes n).store).1)).map.get? k := by
          conv_lhs => rw [hmem]
          rfl
      _ = lastWritten k (log.upTo (appliedState (c.nodes n).store).1) := get?_stateOf ..
  · obtain ⟨-, x, himp, hat⟩ := hinv.of_hasStored hsnap
    refine ⟨x, himp, fun k => ?_⟩
    have hx : x = stateOf application (log.upTo snap.snapshotMeta.lastLogId) :=
      congrArg StateMachineData.applicationData hat
    rw [hx, get?_stateOf]

end Cluster

namespace ReadCluster

variable {log : ReferenceLog (Request K V)} {c₀ c : ReadCluster N (KeyValueData K V)
  (Request K V) Response ρ} {tr : List (Event N (KeyValueData K V) ρ)}

/-- **`read_safe` finds what was written.** After the response to a request has been sent, by any
node, a `read_safe` called on any node finds the key of the request in the map, with the value of
that request or of a later one. -/
theorem read_safe_sees_write (hopens : Opens application log c₀)
    (hgiven : GivenExact application log tr)
    (hrun : Run.exec (step application log) c₀ tr = some c) {i : ℕ} {n : N}
    {floor readLogId : Option LogId} {r : ℕ} {x : KeyValueData K V}
    (hcall : c.calls[i]? = some ⟨n, floor, .reading readLogId r⟩)
    (hx : .observed r x ∈ (c.nodes n).readers.history) {w : LogId} {k : K} {v : V}
    (hack : Before (.acknowledged w) (.called i) c.history)
    (hw : (w, .normal ⟨k, v⟩) ∈ log.proposals) :
    ∃ w' v', w ≤ w' ∧ (w', .normal ⟨k, v'⟩) ∈ log.proposals ∧ x.map.get? k = some v' := by
  obtain ⟨idx, h⟩ := exists_inv_of_run hopens hgiven hrun
  obtain ⟨p, hp, hpw⟩ := h.acknowledged_mem hcall hx hack
  obtain ⟨-, rfl⟩ := h.observed hx
  -- a log id stands in the log once
  have hnodup : (log.proposals.map Prod.fst).Nodup :=
    List.pairwise_map.2 (log.ascending.imp ne_of_lt)
  obtain rfl : p = (w, .normal ⟨k, v⟩) :=
    List.inj_on_of_nodup_map hnodup (List.mem_of_mem_take hp) hw hpw
  obtain ⟨w', v', hle, hmem, hv'⟩ :=
    lastWritten_of_mem (log.ascending.sublist (List.take_sublist ..)) hp
  exact ⟨w', v', hle, List.mem_of_mem_take hmem, by rw [get?_stateOf, hv']⟩

/-- **The lengths ascend.** A `read_safe` that is called after another read has ended, on any two
nodes, finds no fewer keys. -/
theorem lengths_ascend (hopens : Opens application log c₀)
    (hgiven : GivenExact application log tr)
    (hrun : Run.exec (step application log) c₀ tr = some c) {i : ℕ} {n n' : N}
    {floor readLogId : Option LogId} {r r' : ℕ} {x x' : KeyValueData K V}
    (hx' : .observed r' x' ∈ (c.nodes n').readers.history)
    (hended : Before (.ended n' r') (.called i) c.history)
    (hcall : c.calls[i]? = some ⟨n, floor, .reading readLogId r⟩)
    (hx : .observed r x ∈ (c.nodes n).readers.history) : x'.len ≤ x.len := by
  obtain ⟨idx, h⟩ := exists_inv_of_run hopens hgiven hrun
  obtain ⟨-, rfl⟩ := h.observed hx
  obtain ⟨-, rfl⟩ := h.observed hx'
  exact len_stateOf_mono (List.take_prefix_take_left (h.ended_le_idx hcall hx hended))

end ReadCluster

end Clusters

/-! ### Two writes of the key `0` -/

namespace TwoWrites

/-- The JSON of the requests. -/
def requests : List (Request UInt64 Bytes × Bytes) :=
  [(⟨0, [1]⟩, ascii "\x7b\"key\":0,\"value\":[1]\x7d"),
    (⟨0, [2]⟩, ascii "\x7b\"key\":0,\"value\":[2]\x7d")]

/-- The entries of the log: the membership, and the requests. -/
def entries : List Pb.Entry :=
  [⟨1, 0, none, some (Membership.toPb Counter.cluster)⟩,
    ⟨1, 1, some (ascii "\x7b\"key\":0,\"value\":[1]\x7d"), none⟩,
    ⟨1, 2, some (ascii "\x7b\"key\":0,\"value\":[2]\x7d"), none⟩]

/-- The entries with their JSON. -/
def entryTable : List (Pb.Entry × Bytes) :=
  entries.zip
    [ascii ("\x7b\"term\":1,\"index\":0,\"app_data\":null,\"membership\":\x7b\"configs\":" ++
      "[\x7b\"node_ids\":\x7b\"1\":null\x7d\x7d],\"nodes\":\x7b\"1\":\x7b\"node_id\":1," ++
      "\"rpc_addr\":\"localhost:7000\"\x7d\x7d\x7d\x7d"),
    ascii ("\x7b\"term\":1,\"index\":1,\"app_data\":[123,34,107,101,121,34,58,48,44,34,118,97," ++
      "108,117,101,34,58,91,49,93,125],\"membership\":null\x7d"),
    ascii ("\x7b\"term\":1,\"index\":2,\"app_data\":[123,34,107,101,121,34,58,48,44,34,118,97," ++
      "108,117,101,34,58,91,50,93,125],\"membership\":null\x7d")]

/-- The map after the first write. -/
def firstMap : KeyValueData UInt64 Bytes := ⟨SortedMap.empty.insert 0 [1]⟩

/-- The JSON of the snapshot of this map. -/
def snapshots : List (KeyValueData.Snapshot UInt64 Bytes × Bytes) :=
  [(⟨firstMap.map⟩, ascii "\x7b\"map\":\x7b\"0\":[1]\x7d\x7d")]

/-- The snapshot of the first write. -/
def firstSnapshot : StoredSnapshot :=
  Counter.snapshotAt 1 "1-1-1" (ascii "\x7b\"map\":\x7b\"0\":[1]\x7d\x7d")

/-- Its JSON. -/
def storedSnapshots : List (StoredSnapshot × Bytes) :=
  [(firstSnapshot, Counter.snapshotJson "1" "1-1-1"
    "[123,34,109,97,112,34,58,123,34,48,34,58,91,49,93,125,125]")]

scoped instance : Serde (Request UInt64 Bytes) := Serde.ofTable requests
scoped instance : Serde (KeyValueData.Snapshot UInt64 Bytes) := Serde.ofTable snapshots
scoped instance : Serde StoredSnapshot := Serde.ofTable storedSnapshots
scoped instance : Serde LogId := Serde.ofTable Counter.logIds
scoped instance : Serde Pb.Entry := Serde.ofTable entryTable
scoped instance : Openraft := Openraft.checked
scoped instance : BuildProfile := ⟨true⟩

scoped instance : LawfulSerde (Request UInt64 Bytes) := LawfulSerde.ofTable (by decide +kernel)
scoped instance : LawfulSerde (KeyValueData.Snapshot UInt64 Bytes) :=
  LawfulSerde.ofTable (List.nodup_singleton _)
scoped instance : LawfulSerde StoredSnapshot := LawfulSerde.ofTable (List.nodup_singleton _)
scoped instance : LawfulSerde LogId := LawfulSerde.ofTable (by decide +kernel)
scoped instance : LawfulSerde Pb.Entry := LawfulSerde.ofTable (by decide +kernel)
scoped instance : LawfulOpenraft := LawfulOpenraft.checked

/-- The log. -/
def log : ReferenceLog (Request UInt64 Bytes) where
  proposals := [(⟨1, 0⟩, .membership Counter.cluster), (⟨1, 1⟩, .normal ⟨0, [1]⟩),
    (⟨1, 2⟩, .normal ⟨0, [2]⟩)]
  entries := entries
  encodes := .cons rfl (.cons rfl (.cons rfl .nil))
  ascending := by simp [LogId.lt_iff]
  valid := by simp [Counter.cluster_valid]

theorem log_gapFree : log.GapFree where
  contiguous := ⟨rfl, rfl, rfl, trivial⟩
  bounded := by
    show ∀ e ∈ entries, RaftEntry.index e < u64Max
    decide +kernel

theorem log_ids {x : LogId} (h : log.Has (some x)) : Serializes x := by
  obtain ⟨k, hk, hx⟩ := h
  refine exists_toVecIn ?_
  change k ≤ 3 at hk
  interval_cases k
  · cases hx
  all_goals
    obtain rfl := Option.some.inj hx
    decide +kernel

/-- A node that has opened an empty database. -/
def newStore : StateMachineStore (KeyValueData UInt64 Bytes) := ⟨⟨none, .default, ⟨.empty⟩⟩, 0⟩

/-- The first node applies the first write and stores a snapshot. The second one installs it,
crashes, and opens it again, while the first one applies the second write. -/
def applied : List (Cluster.Event Bool Unit) :=
  [.node false (.append entries), .node false .logNext, .node false .logNext,
    .node false .logNext, .node false .logNext,
    .node false (.apply (unanswered Unit (entries.take 2))), .node false .build,
    .node false .storeNext, .node false .storeNext, .node false .storeRet,
    .fullSnapshot false true Counter.vote, .deliver 0, .deliver 0, .finish 0, .install 0,
    .node true .storeNext, .node true .storeNext, .node true .storeRet, .node true (.crash 1),
    .node false (.apply (unanswered Unit (entries.drop 2)))]

theorem applied_endsWhole : Cluster.EndsWhole (fun vote _ => .ok vote) application log
    (Cluster.start newStore) applied := by
  intro t t' k c transfer htr hc ht
  obtain ⟨n, hn, he, rfl⟩ := Run.exists_index htr
  change n < 20 at hn
  obtain rfl : n = 14 := by interval_cases n <;> first | rfl | cases he
  obtain rfl : 0 = k := by cases he; rfl
  have hrest : (Run.exec (Cluster.step (fun vote _ => .ok vote) application log)
      (Cluster.start newStore) (applied.take 14)).map
        (fun c => c.transfers[0]?.map fun t => t.stream.rest) = some (some []) := by
    decide +kernel
  rw [hc, Option.map_some, ht, Option.map_some] at hrest
  exact Option.some.inj (Option.some.inj hrest)

/-- The first node has the second value, the second node has the first one, and so has its
snapshot. -/
theorem applied_holds : ∃ c,
    Run.exec (Cluster.step (fun vote _ => .ok vote) application log) (Cluster.start newStore)
      applied = some c ∧
    (c.nodes false).store.stateMachine.applicationData.map.get? 0 = some [2] ∧
    (c.nodes true).store.stateMachine.applicationData.map.get? 0 = some [1] ∧
    getCurrentSnapshot_ (c.nodes true).db = some firstSnapshot ∧
    ∃ x : KeyValueData UInt64 Bytes, importData application firstSnapshot.data = .ok x ∧
      x.map.get? 0 = some [1] := by
  have hseen : (Run.exec (Cluster.step (fun vote _ => .ok vote) application log)
      (Cluster.start newStore) applied).map (fun c =>
        ((appliedState (c.nodes false).store).1, (appliedState (c.nodes true).store).1,
          getCurrentSnapshot_ (c.nodes true).db)) =
      some (some ⟨1, 2⟩, some ⟨1, 1⟩, some firstSnapshot) := by decide +kernel
  obtain ⟨c, hrun, hs⟩ := Option.map_eq_some_iff.1 hseen
  simp only [Prod.mk.injEq] at hs
  obtain ⟨hfalse, htrue, hstored⟩ := hs
  obtain ⟨hmaps, hsnapshots⟩ := Cluster.maps_hold_last_written log_gapFree
    (fun e he => exists_toVecIn he) (fun x => log_ids) rfl applied_endsWhole hrun
  obtain ⟨x, himport, hx⟩ := hsnapshots firstSnapshot ⟨true, _, Or.inl rfl, hstored⟩
  refine ⟨c, hrun, ?_, ?_, hstored, x, himport, ?_⟩
  · rw [hmaps false 0, hfalse]
    decide +kernel
  · rw [hmaps true 0, htrue]
    decide +kernel
  · rw [hx 0]
    decide +kernel

/-- The entries up to the first write. -/
def firstWrite (response : Option Unit) : List (Except IoError (Pb.Entry × Option Unit)) :=
  [.ok (⟨1, 0, none, some (Membership.toPb Counter.cluster)⟩, none),
    .ok (⟨1, 1, some (ascii "\x7b\"key\":0,\"value\":[1]\x7d"), none⟩, response)]

/-- The moves of `apply` on these entries. -/
def applying (n : Bool) (response : Option Unit) :
    List (ReadCluster.Event Bool (KeyValueData UInt64 Bytes) Unit) :=
  [.owner n (.apply (firstWrite response)), .owner n .next, .owner n .next, .owner n .lock,
    .owner n .unlock, .owner n .respond, .owner n .next]

/-- The moves of call number `i` of `read_safe`, at a node that has not read before. -/
def reading (n : Bool) (i : ℕ) : List (ReadCluster.Event Bool (KeyValueData UInt64 Bytes) Unit) :=
  [.report n, .awaitReady i true, .reader n (.lock 0), .reader n (.observe 0),
    .reader n (.finish 0)]

/-- A database with the snapshot. -/
def snapshotDb : Db := Db.empty.write (putSnapshot firstSnapshot)

/-- The first node answers the write. The second one opens a database with a snapshot and reads,
and then the first one. -/
def writeThenReads : List (ReadCluster.Event Bool (KeyValueData UInt64 Bytes) Unit) :=
  (.commit (some ⟨1, 1⟩) :: applying false (some ())) ++
    ([.new true snapshotDb, .call true, .linearize 0 (.ok (some ⟨1, 1⟩))] ++ (reading true 0 ++
      ([.call false, .linearize 1 (.ok (some ⟨1, 1⟩))] ++ reading false 1)))

/-- Two nodes on databases just created. -/
def fresh : ReadCluster Bool (KeyValueData UInt64 Bytes) (Request UInt64 Bytes) Response Unit :=
  ⟨fun _ => .opened newStore Db.empty, none, [], []⟩

theorem fresh_opens : ReadCluster.Opens application log fresh :=
  ⟨fun _ => ⟨Db.empty, _, holdsExact_empty, rfl, le_rfl, rfl⟩, rfl, rfl⟩

theorem writeThenReads_given : ReadCluster.GivenExact application log writeThenReads where
  installs := by simp [writeThenReads, applying, reading]
  opens n db hmem := by
    obtain ⟨rfl, rfl⟩ : n = true ∧ db = snapshotDb := by
      simpa [writeThenReads, applying, reading] using hmem
    exact holdsExact_putSnapshot _ (exists_toVecIn (by decide +kernel)) ⟨firstMap, rfl, rfl⟩

set_option maxRecDepth 8000 in
/-- What is recorded of the run. -/
theorem writeThenReads_records : ∃ c,
    Run.exec (ReadCluster.step application log) fresh writeThenReads = some c ∧
      c.calls = [⟨true, some ⟨1, 1⟩, .reading (some ⟨1, 1⟩) 0⟩,
        ⟨false, some ⟨1, 1⟩, .reading (some ⟨1, 1⟩) 0⟩] ∧
      c.history = [.acknowledged ⟨1, 1⟩, .called 0, .ended true 0, .called 1, .ended false 0] ∧
      ∀ n, (c.nodes n).readers.history =
        [.acknowledged (some ⟨1, 1⟩), .started 0, .observed 0 firstMap, .ended 0] := by
  refine ⟨_, rfl, ?_, ?_, fun n => ?_⟩
  · rfl
  · rfl
  · cases n <;> rfl

/-- The second node has the write when it reads safely. -/
theorem writeThenReads_finds : ∃ c x,
    Run.exec (ReadCluster.step application log) fresh writeThenReads = some c ∧
      .observed 0 x ∈ (c.nodes true).readers.history ∧
      ∃ w' v', ⟨1, 1⟩ ≤ w' ∧ (w', .normal ⟨0, v'⟩) ∈ log.proposals ∧ x.map.get? 0 = some v' := by
  obtain ⟨c, hrun, hcalls, hhistory, hreads⟩ := writeThenReads_records
  have hobs : .observed 0 firstMap ∈ (c.nodes true).readers.history := by simp [hreads]
  have hcall : c.calls[0]? = some ⟨true, some ⟨1, 1⟩, .reading (some ⟨1, 1⟩) 0⟩ := by simp [hcalls]
  have hack : Before (.acknowledged ⟨1, 1⟩) (.called 0) c.history := by
    rw [hhistory]
    exact (List.prefix_append _ _).sublist
  exact ⟨c, firstMap, hrun, hobs, ReadCluster.read_safe_sees_write fresh_opens
    writeThenReads_given hrun hcall hobs hack (v := [1])
    (by simp [log])⟩

/-- The first node finds no fewer keys than the second one found before. -/
theorem writeThenReads_ascends : ∃ c x x',
    Run.exec (ReadCluster.step application log) fresh writeThenReads = some c ∧
      .observed 0 x' ∈ (c.nodes true).readers.history ∧
      .observed 0 x ∈ (c.nodes false).readers.history ∧ x'.len ≤ x.len := by
  obtain ⟨c, hrun, hcalls, hhistory, hreads⟩ := writeThenReads_records
  have hobs : ∀ n, .observed 0 firstMap ∈ (c.nodes n).readers.history := by simp [hreads]
  have hcall : c.calls[1]? = some ⟨false, some ⟨1, 1⟩, .reading (some ⟨1, 1⟩) 0⟩ := by simp [hcalls]
  have hended : Before (.ended true 0) (.called 1) c.history := by
    rw [hhistory]
    exact .cons _ (.cons _ (List.prefix_append _ _).sublist)
  exact ⟨c, firstMap, firstMap, hrun, hobs true, hobs false, ReadCluster.lengths_ascend fresh_opens
    writeThenReads_given hrun (hobs true) hended hcall (hobs false)⟩

end TwoWrites

end RaftService
