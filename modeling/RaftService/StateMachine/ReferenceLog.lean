import RaftService.StateMachine.Store
import RaftService.Lib.Ascending

/-!
# The reference: folding a log from the default state

What the state machine is for: its state is a function of the log entries applied. A log is a
list of proposals, a log id with a payload each, whose log ids ascend, together with the entries
that `RaftEntry::new` makes of them (`ReferenceLog`).

* `replay A ps`: the last log id, the last membership, and the fold of the application's `apply`
  over the requests of `ps`, in order, from the default;
* `AtLog`: a state is the replay of exactly the entries up to its own last applied log id;
* `apply_replay`: `StateMachineStore.apply` continues a replay;
* `StoredSnapshot.Exact`: a snapshot is one of its own meta.
-/

namespace RaftService

variable {σ Req Resp Snap ρ : Type}

/-- The request of a payload. -/
def EntryPayload.request? : EntryPayload Req → Option Req
  | .normal data => some data
  | _ => none

/-- The membership of a payload. -/
def EntryPayload.membership? : EntryPayload Req → Option Membership
  | .membership m => some m
  | _ => none

/-- A proposal: its log id and its payload. -/
abbrev Proposal (Req : Type) := LogId × EntryPayload Req

/-! ### The fold -/

/-- The log id of the last proposal. -/
def lastLogIdOf (ps : List (Proposal Req)) : Option LogId := ps.getLast?.map Prod.fst

/-- The last membership, with its log id. -/
def lastMembershipOf (ps : List (Proposal Req)) : StoredMembership :=
  (ps.reverse.findSome? fun p => p.2.membership?.map (StoredMembership.mk (some p.1))).getD .default

/-- The fold of the application's `apply` over the requests. -/
def stateOf (A : ApplicationStateMachine σ Req Resp Snap) (ps : List (Proposal Req)) : σ :=
  (ps.filterMap fun p => p.2.request?).foldl (fun x r => (A.apply x r).1) A.default

/-- The state after applying `ps` from the default. -/
def replay (A : ApplicationStateMachine σ Req Resp Snap) (ps : List (Proposal Req)) :
    StateMachineData σ :=
  ⟨lastLogIdOf ps, lastMembershipOf ps, stateOf A ps⟩

@[simp] theorem lastLogIdOf_snoc (ps : List (Proposal Req)) (p : Proposal Req) :
    lastLogIdOf (ps ++ [p]) = some p.1 := by
  simp [lastLogIdOf]

theorem lastMembershipOf_snoc (ps : List (Proposal Req)) (id : LogId) (payload : EntryPayload Req) :
    lastMembershipOf (ps ++ [(id, payload)]) =
      match payload.membership? with
      | some m => ⟨some id, m⟩
      | none => lastMembershipOf ps := by
  unfold lastMembershipOf
  rw [List.reverse_append, List.reverse_singleton, List.singleton_append, List.findSome?_cons]
  cases payload.membership? <;> rfl

theorem stateOf_snoc (A : ApplicationStateMachine σ Req Resp Snap) (ps : List (Proposal Req))
    (id : LogId) (payload : EntryPayload Req) :
    stateOf A (ps ++ [(id, payload)]) =
      match payload.request? with
      | some r => (A.apply (stateOf A ps) r).1
      | none => stateOf A ps := by
  unfold stateOf
  rw [List.filterMap_append, List.foldl_append]
  cases h : payload.request? <;> simp [h]

/-! ### Logs -/

/-- A log: proposals with ascending log ids and valid memberships, and the entries that
`RaftEntry::new` makes of them. -/
structure ReferenceLog (Req : Type) [Serde Req] where
  proposals : List (Proposal Req)
  entries : List Pb.Entry
  encodes : List.Forall₂ (fun p e => Pb.Entry.new p.1 p.2 = .ok e) proposals entries
  ascending : proposals.Pairwise fun a b => a.1 < b.1
  valid : ∀ p ∈ proposals, ∀ m, p.2 = .membership m → m.Valid

namespace ReferenceLog

variable [Serde Req] (log : ReferenceLog Req)

/-- The proposals up to and including a log id. -/
def upTo (last : Option LogId) : List (Proposal Req) :=
  Ascending.upTo (fun p => some p.1) last log.proposals

/-- The entries up to and including a log id. -/
def entriesUpTo (last : Option LogId) : List Pb.Entry :=
  Ascending.upTo (fun e => some (RaftEntry.logId e)) last log.entries

/-- The entries after a log id. -/
def entriesAfter (last : Option LogId) : List Pb.Entry :=
  Ascending.above (fun e => some (RaftEntry.logId e)) last log.entries

theorem ascending_some : log.proposals.Pairwise fun a b => some a.1 < some b.1 :=
  log.ascending.imp fun h => Option.some_lt_some.2 h

theorem upTo_prefix (last : Option LogId) : log.upTo last <+: log.proposals :=
  Ascending.upTo_prefix log.ascending_some

/-- The entries up to a log id encode the proposals up to it. -/
theorem encodes_entriesUpTo (last : Option LogId) :
    List.Forall₂ (fun p e => Pb.Entry.new p.1 p.2 = .ok e) (log.upTo last)
      (log.entriesUpTo last) := by
  refine List.rel_filter (R := fun (p : Proposal Req) e => Pb.Entry.new p.1 p.2 = .ok e)
    (fun p e hpe => ?_) log.encodes
  simp only [(Pb.Entry.new_cases hpe).1]

variable {log}

/-- The cut of a log at the last log id of a prefix is that prefix. -/
theorem upTo_lastLogIdOf {ps : List (Proposal Req)} (h : ps <+: log.proposals) :
    log.upTo (lastLogIdOf ps) = ps := by
  obtain ⟨rest, hrest⟩ := h
  have hasc := log.ascending_some
  rw [← hrest] at hasc
  unfold upTo
  rw [← hrest]
  rcases List.eq_nil_or_concat ps with hps | ⟨qs, p, hps⟩
  · rw [hps]
    exact Ascending.upTo_of_forall_lt fun p _ => Option.none_lt_some
  · rw [List.concat_eq_append] at hps
    rw [hps, List.append_assoc, List.singleton_append] at hasc
    rw [hps, lastLogIdOf_snoc, List.append_assoc, List.singleton_append]
    exact Ascending.upTo_of_append hasc

/-- The last log id of a longer prefix is above that of a shorter one. -/
theorem lastLogIdOf_lt {ps qs : List (Proposal Req)} (h : ps ++ qs <+: log.proposals)
    (hne : qs ≠ []) : lastLogIdOf ps < lastLogIdOf (ps ++ qs) := by
  rcases List.eq_nil_or_concat qs with hqs | ⟨qs', q, hqs⟩
  · exact absurd hqs hne
  · rw [List.concat_eq_append] at hqs
    rcases List.eq_nil_or_concat ps with hps | ⟨ps', p, hps⟩
    · rw [hps, List.nil_append, hqs, lastLogIdOf_snoc]
      exact Option.none_lt_some
    · rw [List.concat_eq_append] at hps
      have hasc := List.Pairwise.sublist h.sublist log.ascending
      have hlt := (List.pairwise_append.1 hasc).2.2 p (by simp [hps]) q (by simp [hqs])
      rw [hqs, hps, lastLogIdOf_snoc, ← List.append_assoc, lastLogIdOf_snoc]
      exact Option.some_lt_some.2 hlt

theorem lastLogIdOf_le {ps qs : List (Proposal Req)} (h : ps ++ qs <+: log.proposals) :
    lastLogIdOf ps ≤ lastLogIdOf (ps ++ qs) := by
  by_cases hqs : qs = []
  · rw [hqs, List.append_nil]
  · exact (lastLogIdOf_lt h hqs).le

/-- The entries after the last log id of a prefix are those of the rest of the log. -/
theorem encodes_entriesAfter {ps rest : List (Proposal Req)} (h : ps ++ rest = log.proposals) :
    List.Forall₂ (fun p e => Pb.Entry.new p.1 p.2 = .ok e) rest
      (log.entriesAfter (lastLogIdOf ps)) := by
  have hasc := log.ascending_some
  rw [← h] at hasc
  have hrest : Ascending.above (fun p => some p.1) (lastLogIdOf ps) log.proposals = rest := by
    rw [← h]
    rcases List.eq_nil_or_concat ps with hps | ⟨qs, p, hps⟩
    · rw [hps]
      exact Ascending.above_of_forall_lt fun p _ => Option.none_lt_some
    · rw [List.concat_eq_append] at hps
      rw [hps, List.append_assoc, List.singleton_append] at hasc
      rw [hps, lastLogIdOf_snoc, List.append_assoc, List.singleton_append]
      exact Ascending.above_of_append hasc
  rw [← hrest]
  refine List.rel_filter (R := fun (p : Proposal Req) e => Pb.Entry.new p.1 p.2 = .ok e)
    (fun p e hpe => ?_) log.encodes
  simp only [(Pb.Entry.new_cases hpe).1]

/-- The first entry after a prefix is that of the next proposal. -/
theorem exists_next {ps : List (Proposal Req)} (hps : ps <+: log.proposals) {e : Pb.Entry}
    {es : List Pb.Entry} (h : e :: es <+: log.entriesAfter (lastLogIdOf ps)) :
    ∃ p, ps ++ [p] <+: log.proposals ∧ Pb.Entry.new p.1 p.2 = .ok e ∧
      es <+: log.entriesAfter (lastLogIdOf (ps ++ [p])) := by
  obtain ⟨rest, hrest⟩ := hps
  obtain ⟨tail, htail⟩ := h
  have henc := encodes_entriesAfter hrest
  rw [← htail, List.cons_append] at henc
  obtain ⟨p, rest', hp, henc', rfl⟩ := List.forall₂_cons_right_iff.1 henc
  have hsplit : (ps ++ [p]) ++ rest' = log.proposals := by rw [← hrest]; simp
  -- `RaftEntry::new` is a function, so the two lists of entries are the same
  have hunique : Relator.RightUnique
      fun (p : Proposal Req) e => Pb.Entry.new p.1 p.2 = .ok e := by
    intro p e e' he he'
    rw [he] at he'
    exact Except.ok.inj he'
  have heq := List.right_unique_forall₂' hunique (encodes_entriesAfter hsplit) henc'
  exact ⟨p, ⟨rest', hsplit⟩, hp, tail, heq.symm⟩

end ReferenceLog

/-! ### Applying entries -/

section Apply

variable [Serde Req] [LawfulSerde Req] [Openraft] [LawfulOpenraft]
  {A : ApplicationStateMachine σ Req Resp Snap}

open StateMachineStore

/-- **Applying the entry of a proposal extends the replay by it**, however the application's
`apply` ends. -/
theorem applyEntry_replay (ps : List (Proposal Req)) {p : Proposal Req} {e : Pb.Entry}
    (h : Pb.Entry.new p.1 p.2 = .ok e) (hvalid : ∀ m, p.2 = .membership m → m.Valid) :
    (applyEntry A (replay A ps) e).1 = replay A (ps ++ [p]) := by
  obtain ⟨id, payload⟩ := p
  obtain ⟨hid, hcases⟩ := Pb.Entry.new_cases h
  simp only at hid hcases hvalid
  have hlast : replay A (ps ++ [(id, payload)]) =
      ⟨some id, lastMembershipOf (ps ++ [(id, payload)]), stateOf A (ps ++ [(id, payload)])⟩ := by
    rw [replay, lastLogIdOf_snoc]
  rw [hlast, lastMembershipOf_snoc, stateOf_snoc]
  rcases hcases with ⟨rfl, happ, hmem⟩ | ⟨r, b, rfl, hb, happ, hmem⟩ | ⟨m, rfl, happ, hmem⟩
  · simp [applyEntry, happ, hmem, hid, replay, EntryPayload.membership?, EntryPayload.request?]
  · have hread : (Serde.fromSlice b : Except String Req) = .ok r := LawfulSerde.fromSlice_toVec hb
    simp only [applyEntry, happ, hread, mapIo_ok, hid, replay, EntryPayload.membership?,
      EntryPayload.request?]
    rcases A.apply (stateOf A ps) r with ⟨data, response | response⟩ <;> rfl
  · simp [applyEntry, happ, hmem, hid, replay, EntryPayload.membership?, EntryPayload.request?,
      Membership.ofPb_toPb (hvalid m rfl)]

/-- The entries a stream delivers before its first error. -/
def delivered : List (Except IoError (Pb.Entry × Option ρ)) → List Pb.Entry
  | [] => []
  | .error _ :: _ => []
  | .ok (entry, _) :: entries => entry :: delivered entries

/-- **`apply` continues the replay** by the entries the stream delivers, up to the one it fails
at if it does. -/
theorem apply_replay {strm : List (Except IoError (Pb.Entry × Option ρ))}
    {ps qs : List (Proposal Req)}
    (h : List.Forall₂ (fun p e => Pb.Entry.new p.1 p.2 = .ok e) qs (delivered strm))
    (hvalid : ∀ p ∈ qs, ∀ m, p.2 = .membership m → m.Valid) :
    ∃ done, done <+: qs ∧ (apply A (replay A ps) strm).stateMachine = replay A (ps ++ done) ∧
      ((apply A (replay A ps) strm).result = .ok () → done = qs) := by
  induction strm generalizing ps qs with
  | nil => cases h; exact ⟨[], List.nil_prefix, by simp [apply], fun _ => rfl⟩
  | cons item strm ih =>
    rcases item with err | ⟨e, response⟩
    · cases h
      exact ⟨[], List.nil_prefix, by simp [apply], fun _ => rfl⟩
    · obtain ⟨q, qs, hq, hqs, rfl⟩ := List.forall₂_cons_right_iff.1 h
      have hstep := applyEntry_replay (A := A) ps hq (hvalid q List.mem_cons_self)
      cases happ : applyEntry A (replay A ps) e with
      | mk sm r =>
        rw [happ] at hstep
        simp only at hstep
        subst hstep
        cases r with
        | error err =>
          exact ⟨[q], by simp, by simp [apply, happ], fun hok => by simp [apply, happ] at hok⟩
        | ok value =>
          obtain ⟨done, hdone, hsm, hres⟩ :=
            @ih (ps ++ [q]) _ hqs fun p hp => hvalid p (List.mem_cons_of_mem q hp)
          refine ⟨q :: done, by simpa using hdone, ?_, fun hok => ?_⟩
          · simp [apply, happ, hsm]
          · simp only [apply, happ] at hok
            rw [hres hok]

/-- The application accepts every request of the log. -/
def Accepts (A : ApplicationStateMachine σ Req Resp Snap) (log : ReferenceLog Req) : Prop :=
  ∀ ps id r, ps ++ [(id, .normal r)] <+: log.proposals →
    ∃ resp, (A.apply (stateOf A ps) r).2 = .ok resp

/-- Entries that are applied again after a restart: nobody waits for a response. -/
def unanswered (ρ : Type) (es : List Pb.Entry) : List (Except IoError (Pb.Entry × Option ρ)) :=
  es.map fun e => .ok (e, none)

theorem applyEntry_accepted {log : ReferenceLog Req} (hacc : Accepts A log)
    {ps : List (Proposal Req)} {p : Proposal Req} {e : Pb.Entry}
    (h : Pb.Entry.new p.1 p.2 = .ok e) (hlog : ps ++ [p] <+: log.proposals) :
    ∃ value, applyEntry A (replay A ps) e = (replay A (ps ++ [p]), .ok value) := by
  have hvalid : ∀ m, p.2 = .membership m → m.Valid := fun m hm =>
    log.valid p (hlog.subset (List.mem_append_right ps (List.mem_singleton_self p))) m hm
  have hfst := applyEntry_replay (A := A) ps h hvalid
  obtain ⟨id, payload⟩ := p
  obtain ⟨hid, hcases⟩ := Pb.Entry.new_cases h
  simp only at hid hcases hvalid
  suffices hsnd : ∃ value, (applyEntry A (replay A ps) e).2 = .ok value by
    obtain ⟨value, hvalue⟩ := hsnd
    exact ⟨value, Prod.ext hfst hvalue⟩
  rcases hcases with ⟨rfl, happ, hmem⟩ | ⟨r, b, rfl, hb, happ, hmem⟩ | ⟨m, rfl, happ, hmem⟩
  · exact ⟨none, by simp [applyEntry, happ, hmem]⟩
  · have hread : (Serde.fromSlice b : Except String Req) = .ok r := LawfulSerde.fromSlice_toVec hb
    obtain ⟨resp, hresp⟩ := hacc ps id r hlog
    refine ⟨some resp, ?_⟩
    simp only [applyEntry, happ, hread, mapIo_ok, replay]
    rcases hA : A.apply (stateOf A ps) r with ⟨data, response⟩
    rw [hA] at hresp
    simp only at hresp
    rw [hresp]
  · exact ⟨none, by simp [applyEntry, happ, hmem, Membership.ofPb_toPb (hvalid m rfl)]⟩

/-- **Applying accepted entries again succeeds**, and extends the replay by them. -/
theorem apply_accepted {log : ReferenceLog Req} (hacc : Accepts A log)
    {ps qs : List (Proposal Req)} {es : List Pb.Entry}
    (h : List.Forall₂ (fun p e => Pb.Entry.new p.1 p.2 = .ok e) qs es)
    (hlog : ps ++ qs <+: log.proposals) :
    apply A (replay A ps) (unanswered ρ es) = ⟨replay A (ps ++ qs), [], .ok ()⟩ := by
  induction h generalizing ps with
  | nil => simp [unanswered, apply]
  | @cons q e qs es hqe _ ih =>
    rw [List.append_cons] at hlog ⊢
    obtain ⟨value, hvalue⟩ := applyEntry_accepted hacc hqe ((List.prefix_append _ qs).trans hlog)
    have hrest := ih hlog
    unfold unanswered at hrest
    simp [unanswered, apply, hvalue, hrest, respond]

end Apply

/-! ### States and snapshots of a log -/

section AtLog

variable [Serde Req] {A : ApplicationStateMachine σ Req Resp Snap} {log : ReferenceLog Req}

/-- The state is that of exactly the entries up to its last applied log id. -/
def AtLog (A : ApplicationStateMachine σ Req Resp Snap) (log : ReferenceLog Req)
    (sm : StateMachineData σ) : Prop :=
  sm = replay A (log.upTo sm.lastAppliedLog)

/-- A state is at a log exactly when it is the replay of a prefix. -/
theorem atLog_iff {sm : StateMachineData σ} :
    AtLog A log sm ↔ ∃ ps, ps <+: log.proposals ∧ sm = replay A ps := by
  constructor
  · intro h
    exact ⟨_, log.upTo_prefix _, h⟩
  · rintro ⟨ps, hps, rfl⟩
    show replay A ps = replay A (log.upTo (lastLogIdOf ps))
    rw [ReferenceLog.upTo_lastLogIdOf hps]

theorem atLog_default : AtLog A log ⟨none, .default, A.default⟩ :=
  atLog_iff.2 ⟨[], List.nil_prefix, rfl⟩

/-- **Applying the next entries of a log keeps the state at the log**, and the last applied log
id does not go down. -/
theorem atLog_apply [LawfulSerde Req] [Openraft] [LawfulOpenraft] {sm : StateMachineData σ}
    {strm : List (Except IoError (Pb.Entry × Option ρ))} (h : AtLog A log sm)
    (hnext : delivered strm <+: log.entriesAfter sm.lastAppliedLog) :
    AtLog A log (StateMachineStore.apply A sm strm).stateMachine ∧
      sm.lastAppliedLog ≤ (StateMachineStore.apply A sm strm).stateMachine.lastAppliedLog := by
  obtain ⟨ps, ⟨rest, hrest⟩, rfl⟩ := atLog_iff.1 h
  -- the entries delivered encode the proposals that follow `ps`
  have henc := ReferenceLog.encodes_entriesAfter hrest
  obtain ⟨tail, htail⟩ := hnext
  rw [show (replay A ps).lastAppliedLog = lastLogIdOf ps from rfl] at htail
  rw [← htail] at henc
  have hqs := List.forall₂_take_append rest _ _ henc
  have htake : rest.take (delivered strm).length <+: rest := List.take_prefix ..
  have hvalid : ∀ p ∈ rest.take (delivered strm).length, ∀ m, p.2 = .membership m → m.Valid := by
    intro p hp
    refine log.valid p ?_
    rw [← hrest]
    exact List.mem_append_right ps (htake.subset hp)
  obtain ⟨done, hdone, hsm, -⟩ := apply_replay (A := A) hqs hvalid
  obtain ⟨rest', hrest'⟩ := hdone.trans htake
  have hmore : ps ++ done <+: log.proposals := ⟨rest', by rw [List.append_assoc, hrest', hrest]⟩
  rw [hsm]
  exact ⟨atLog_iff.2 ⟨_, hmore, rfl⟩, ReferenceLog.lastLogIdOf_le hmore⟩

/-- The snapshot is one of its own meta: its data imports to the state of exactly the entries up
to `last_log_id`, and its membership is the last one among them. -/
def StoredSnapshot.Exact [Serde Snap] (A : ApplicationStateMachine σ Req Resp Snap)
    (log : ReferenceLog Req) (snap : StoredSnapshot) : Prop :=
  ∃ data, StateMachineStore.importData A snap.data = .ok data ∧
    AtLog A log ⟨snap.snapshotMeta.lastLogId, snap.snapshotMeta.lastMembership, data⟩

end AtLog

end RaftService
