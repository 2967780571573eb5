import RaftService.Network.Snapshot

/-!
# Snapshot streams that end early

The handler when the stream ends cleanly after a part of the messages that `full_snapshot` sends.
Neither the metadata nor the chunks say how much data there is, and the loop of the handler takes
the end of the stream for the end of the data.

* `prefix_cases`: a part of the messages is empty, or it is the metadata and a part of the chunks;
* `snapshot_of_prefix`: the handler installs the data of these chunks, which are less than those of
  the snapshot unless all messages have come;
* `refused_iff`: of the proper prefixes, only the empty one is refused.
-/

theorem List.ne_nil_of_mem_toChunks {α : Type*} {n : ℕ} {l c : List α} (hc : c ∈ l.toChunks n) :
    c ≠ [] := by
  have hgo : ∀ (rest : List α) (acc : Array α) (done : Array (List α)), acc.toList ≠ [] →
      (∀ c ∈ done.toList, c ≠ []) → ∀ c ∈ List.toChunks.go n rest acc done, c ≠ [] := by
    intro rest
    induction rest with
    | nil =>
      intro acc done hacc hdone c hc
      rw [List.toChunks.go, Array.toList_push, List.mem_append, List.mem_singleton] at hc
      rcases hc with hc | rfl
      · exact hdone c hc
      · exact hacc
    | cons x rest ih =>
      intro acc done hacc hdone
      rw [List.toChunks.go]
      split_ifs with hfull
      · refine ih _ _ (by simp) fun c hc => ?_
        rw [Array.toList_push, List.mem_append, List.mem_singleton] at hc
        rcases hc with hc | rfl
        · exact hdone c hc
        · exact hacc
      · exact ih _ _ (by simp) hdone
  cases l with
  | nil => cases n <;> cases hc
  | cons x l =>
    cases n with
    | zero =>
      have hone : List.toChunks 0 (x :: l) = [x :: l] := by simp [List.toChunks]
      rw [hone, List.mem_singleton] at hc
      simp [hc]
    | succ n => exact hgo l #[x] #[] (by simp) (by simp) c hc

theorem List.toChunks_eq_nil_iff {α : Type*} {n : ℕ} {l : List α} : l.toChunks n = [] ↔ l = [] := by
  constructor
  · intro h
    rw [← List.flatten_toChunks n l, h, List.flatten_nil]
  · rintro rfl
    cases n <;> rfl

/-- A full chunk, and one element more. -/
theorem List.toChunks_concat {α : Type*} {n : ℕ} {l : List α} (hl : l.length = n) (hn : 0 < n)
    (y : α) : (l ++ [y]).toChunks n = [l, [y]] := by
  have hgo : ∀ (l : List α) (acc : Array α) (done : Array (List α)), acc.size + l.length = n →
      List.toChunks.go n (l ++ [y]) acc done = done.toList ++ [acc.toList ++ l, [y]] := by
    intro l
    induction l with
    | nil =>
      intro acc done hsize
      have hfull : acc.size = n := by simpa using hsize
      simp [List.toChunks.go, hfull]
    | cons x l ih =>
      intro acc done hsize
      rw [List.length_cons] at hsize
      have hroom : acc.size ≠ n := by omega
      have hpush : (acc.push x).size + l.length = n := by
        rw [Array.size_push]
        omega
      simp [List.toChunks.go, hroom, ih _ done hpush]
  obtain ⟨n, rfl⟩ := Nat.exists_eq_succ_of_ne_zero hn.ne'
  cases l with
  | nil => cases hl
  | cons x l =>
    rw [List.length_cons] at hl
    have hsize : (#[x] : Array α).size + l.length = n.succ := by
      rw [List.size_toArray, List.length_singleton]
      omega
    simp [List.toChunks, hgo l #[x] #[] hsize]

/-- A proper prefix of a list of lists without empty ones is a proper prefix of its elements. -/
theorem List.flatten_ne_of_prefix {α : Type*} {ls ls' : List (List α)} (hpre : ls <+: ls')
    (hne : ls ≠ ls') (hnil : ∀ l ∈ ls', l ≠ []) : ls.flatten ≠ ls'.flatten := by
  obtain ⟨rest, rfl⟩ := hpre
  intro h
  have hrest : rest.flatten = [] := by
    rw [List.flatten_append] at h
    exact List.append_right_eq_self.1 h.symm
  cases rest with
  | nil => exact hne (by simp)
  | cons l rest =>
    rw [List.flatten_cons, List.append_eq_nil_iff] at hrest
    exact hnil l (by simp) hrest.1

namespace RaftService
namespace RaftServiceImpl

/-- The handler returns an error status and installs nothing. -/
def Refused (handled : Handled) : Prop := ∃ status, handled = ⟨[], .ok (.error status)⟩

/-- The first messages of the client: none, or the metadata and the first chunks. -/
theorem prefix_cases {vote : Pb.Vote} {s : Snapshot} {pre : List Pb.SnapshotRequest}
    (hpre : pre <+: fullSnapshotRequests vote s) :
    pre = [] ∨ ∃ chunks, chunks <+: s.snapshot.toChunks chunkSize ∧
      pre = ⟨some (.metadata (requestMeta vote s.snapshotMeta))⟩ :: chunks.map chunkRequest := by
  rw [fullSnapshotRequests, List.prefix_cons_iff] at hpre
  refine hpre.imp_right ?_
  rintro ⟨rest, rfl, hrest⟩
  obtain ⟨chunks, hchunks, rfl⟩ := List.prefix_map_iff.1 hrest
  exact ⟨chunks, hchunks, rfl⟩

theorem map_ok_chunks (m : Pb.SnapshotRequestMeta) (chunks : List Bytes) :
    (⟨some (.metadata m)⟩ :: chunks.map chunkRequest : List Pb.SnapshotRequest).map .ok =
      transferOf m chunks := by
  rw [transferOf, chunkStream, List.map_cons, List.map_map]
  rfl

variable [Openraft] (raft : Pb.Vote → Snapshot → Except String Pb.Vote)

theorem refused_nil : Refused (snapshot raft []) := ⟨_, rfl⟩

/-- A stream with metadata and chunks only is not refused: it is installed, or its metadata make
the handler panic. -/
theorem not_refused_transferOf (m : Pb.SnapshotRequestMeta) (chunks : List Bytes) :
    ¬ Refused (snapshot raft (transferOf m chunks)) := by
  rintro ⟨status, h⟩
  cases hm : readMeta m with
  | error fault =>
    have hfault : snapshot raft (transferOf m chunks) = ⟨[], .error fault⟩ := by
      simp [snapshot, transferOf, receiveMeta, Pb.SnapshotRequest.intoMeta, hm]
    rw [hfault] at h
    cases h
  | ok read =>
    obtain ⟨vote, snapshotMeta⟩ := read
    rw [snapshot_transferOf raft hm] at h
    have hinstalls := congrArg Handled.installs h
    cases hinstalls

/-- **A truncated snapshot is installed.** When the stream ends after the metadata and before the
last chunk, `install_full_snapshot` is called with the meta of the snapshot and only a part of its
data. -/
theorem snapshot_of_prefix [LawfulOpenraft] {vote : Pb.Vote} {s : Snapshot}
    (hvalid : s.snapshotMeta.lastMembership.membership.Valid) {pre : List Pb.SnapshotRequest}
    (hpre : pre <+: fullSnapshotRequests vote s) (hne : pre ≠ fullSnapshotRequests vote s)
    (hnil : pre ≠ []) :
    ∃ data, data <+: s.snapshot ∧ data ≠ s.snapshot ∧
      snapshot raft (pre.map .ok) = installed raft vote ⟨s.snapshotMeta, data⟩ := by
  obtain ⟨chunks, hchunks, rfl⟩ := (prefix_cases hpre).resolve_left hnil
  have hall : (s.snapshot.toChunks chunkSize).flatten = s.snapshot := List.flatten_toChunks _ _
  have hproper : chunks ≠ s.snapshot.toChunks chunkSize := by
    rintro rfl
    exact hne rfl
  refine ⟨chunks.flatten, ?_, ?_, ?_⟩
  · obtain ⟨rest, hrest⟩ := hchunks
    exact ⟨rest.flatten, by rw [← List.flatten_append, hrest, hall]⟩
  · intro h
    refine List.flatten_ne_of_prefix hchunks hproper
      (fun c hc => List.ne_nil_of_mem_toChunks hc) ?_
    rw [h, hall]
  · rw [map_ok_chunks, snapshot_transferOf raft (readMeta_requestMeta vote hvalid)]

/-- **Which truncated streams are refused.** For every vote and every snapshot, the handler refuses
the stream that ends after a part of the messages that the client sends exactly when this part is
empty. -/
theorem refused_iff {vote : Pb.Vote} {s : Snapshot} {pre : List Pb.SnapshotRequest}
    (hpre : pre <+: fullSnapshotRequests vote s) :
    Refused (snapshot raft (pre.map .ok)) ↔ pre = [] := by
  constructor
  · intro hrefused
    rcases prefix_cases hpre with h | ⟨chunks, -, rfl⟩
    · exact h
    · rw [map_ok_chunks] at hrefused
      exact absurd hrefused (not_refused_transferOf raft _ chunks)
  · rintro rfl
    exact refused_nil raft

/-- So all truncated streams of a snapshot are refused only where it has no data. -/
theorem forall_refused_iff (vote : Pb.Vote) (s : Snapshot) :
    (∀ pre, pre <+: fullSnapshotRequests vote s → pre ≠ fullSnapshotRequests vote s →
      Refused (snapshot raft (pre.map .ok))) ↔ s.snapshot = [] := by
  constructor
  · intro h
    by_contra hdata
    -- the metadata alone are a proper prefix
    have hne : [⟨some (.metadata (requestMeta vote s.snapshotMeta))⟩] ≠
        fullSnapshotRequests vote s := by
      intro heq
      exact hdata (List.toChunks_eq_nil_iff.1 (List.map_eq_nil_iff.1 (List.cons.inj heq).2.symm))
    exact not_refused_transferOf raft _ [] (h _ ⟨_, rfl⟩ hne)
  · intro hdata pre hpre hne
    rcases prefix_cases hpre with rfl | ⟨chunks, hchunks, rfl⟩
    · exact refused_nil raft
    · have hnil : s.snapshot.toChunks chunkSize = [] := List.toChunks_eq_nil_iff.2 hdata
      rw [hnil, List.prefix_nil] at hchunks
      exact absurd (by rw [fullSnapshotRequests, hnil, hchunks]) hne

end RaftServiceImpl

/-! ### The first chunk of a snapshot -/

namespace RaftServiceImpl

open scoped Counter

/-- The data of the first chunk. -/
def firstMiB : Bytes := List.replicate chunkSize 49

/-- A snapshot of two chunks. -/
def twoChunks : Snapshot := ⟨counterSnapshot.snapshotMeta, firstMiB ++ [50]⟩

/-- The messages for it up to the first chunk. -/
def firstChunk : List Pb.SnapshotRequest := (fullSnapshotRequests Counter.vote twoChunks).take 2

theorem toChunks_twoChunks : twoChunks.snapshot.toChunks chunkSize = [firstMiB, [50]] :=
  List.toChunks_concat List.length_replicate (by decide) 50

theorem firstChunk_eq : firstChunk =
    [⟨some (.metadata (requestMeta Counter.vote twoChunks.snapshotMeta))⟩,
      chunkRequest firstMiB] := by
  rw [firstChunk, fullSnapshotRequests, toChunks_twoChunks]
  rfl

/-- They are not refused. -/
theorem firstChunk_not_refused :
    firstChunk <+: fullSnapshotRequests Counter.vote twoChunks ∧
      ¬ Refused (snapshot (fun vote _ => .ok vote) (firstChunk.map .ok)) := by
  have hpre : firstChunk <+: fullSnapshotRequests Counter.vote twoChunks := List.take_prefix 2 _
  refine ⟨hpre, fun hrefused => ?_⟩
  have hnil := (refused_iff (fun vote _ => .ok vote) hpre).1 hrefused
  rw [firstChunk_eq] at hnil
  cases hnil

/-- They are installed, as a snapshot without its last byte. -/
theorem firstChunk_isInstalled :
    firstChunk <+: fullSnapshotRequests Counter.vote twoChunks ∧
      firstChunk ≠ fullSnapshotRequests Counter.vote twoChunks ∧
      snapshot (fun vote _ => .ok vote) (firstChunk.map .ok) =
        ⟨[(Counter.vote, ⟨twoChunks.snapshotMeta, firstMiB⟩)], .ok (.ok ⟨some Counter.vote⟩)⟩ ∧
      ¬ Refused (snapshot (fun vote _ => .ok vote) (firstChunk.map .ok)) := by
  have hmap : firstChunk.map .ok =
      transferOf (requestMeta Counter.vote twoChunks.snapshotMeta) [firstMiB] := by
    rw [firstChunk_eq]
    rfl
  refine ⟨List.take_prefix 2 _, fun h => ?_, ?_, ?_⟩
  · have hlength := congrArg List.length h
    rw [firstChunk_eq, fullSnapshotRequests, toChunks_twoChunks] at hlength
    exact absurd hlength (by decide)
  · rw [hmap, snapshot_transferOf _ (readMeta_requestMeta Counter.vote Counter.cluster_valid),
      List.flatten_singleton]
    rfl
  · rw [hmap]
    exact not_refused_transferOf _ _ [firstMiB]

end RaftServiceImpl
end RaftService
