import RaftService.Counter

/-!
# Applying a stream that fails

`StateMachineStore::apply` stops at the first item it cannot apply. What comes before that item is
described without the store: `accepted A x items` is the application state after `items` when all
of them are entries that the application accepts.

* `apply_of_accepted`, `apply_append`: a stream that is accepted, and what follows it;
* `exists_first_refused`, `first_refused_unique`: the item that a stream fails at;
* `apply_unclaimed_iff`: what the store claims to have applied when it fails.
-/

namespace RaftService

variable {σ Req Resp Snap ρ : Type}

/-- A failing `apply` of the application leaves its state as it was. -/
def ApplicationStateMachine.FailsCleanly (A : ApplicationStateMachine σ Req Resp Snap) : Prop :=
  ∀ x r e, (A.apply x r).2 = .error e → (A.apply x r).1 = x

/-- The conversion of a membership fails with a panic only. -/
theorem Membership.ofPb_fault [Openraft] {p : Pb.Membership} {fault : Fault}
    (h : Membership.ofPb p = .error fault) : ∃ message, fault = .panic message := by
  rw [Membership.ofPb_eq] at h
  cases hnew : Openraft.membershipNew (p.configs.map Pb.NodeIdSet.nodeIds) p.nodes with
  | ok m => simp [hnew] at h
  | error e =>
    rw [hnew] at h
    cases h
    exact ⟨_, rfl⟩

/-! ### Entries -/

section Entry

variable [Openraft] [Serde Req] (A : ApplicationStateMachine σ Req Resp Snap)

/-- The application state after an entry; `none` when the application data does not decode, the
application fails on it, or the membership cannot be converted. -/
def Pb.Entry.effect (x : σ) (entry : Pb.Entry) : Option σ :=
  match entry.appData with
  | some bytes =>
    match (Serde.fromSlice bytes : Except String Req) with
    | .error _ => none
    | .ok req =>
      match A.apply x req with
      | (x, .ok _) => some x
      | (_, .error _) => none
  | none =>
    match entry.membership with
    | some membership =>
      match Membership.ofPb membership with
      | .ok _ => some x
      | .error _ => none
    | none => some x

/-- What the application returns for the request of an entry. -/
def Pb.Entry.value (x : σ) (entry : Pb.Entry) : Option Resp :=
  match entry.appData with
  | some bytes =>
    match (Serde.fromSlice bytes : Except String Req) with
    | .error _ => none
    | .ok req => (A.apply x req).2.toOption
  | none => none

/-- The application state after a stream of entries that all have an effect. -/
def accepted (x : σ) : List (Except IoError (Pb.Entry × Option ρ)) → Option σ
  | [] => some x
  | .error _ :: _ => none
  | .ok (entry, _) :: items => (entry.effect A x).bind fun x => accepted x items

end Entry

namespace StateMachineStore

section Apply

variable [Openraft] [Serde Req] {A : ApplicationStateMachine σ Req Resp Snap}

/-- An entry with an effect is applied, and its value is there to respond with. -/
theorem applyEntry_of_effect {sm : StateMachineData σ} {entry : Pb.Entry} {x : σ}
    (h : entry.effect A sm.applicationData = some x) :
    ∃ m, applyEntry A sm entry =
      (⟨some (RaftEntry.logId entry), m, x⟩, .ok (entry.value A sm.applicationData)) := by
  unfold Pb.Entry.effect at h
  unfold applyEntry Pb.Entry.value
  cases happ : entry.appData with
  | some bytes =>
    rw [happ] at h
    cases hreq : (Serde.fromSlice bytes : Except String Req) with
    | error e => simp [hreq] at h
    | ok req =>
      rcases hA : A.apply sm.applicationData req with ⟨y, e | response⟩
      · simp [hreq, hA] at h
      · simp only [hreq, hA, Option.some.injEq] at h
        subst h
        exact ⟨sm.lastMembership, by simp [hreq, hA, Except.toOption]⟩
  | none =>
    rw [happ] at h
    cases hmem : entry.membership with
    | none =>
      simp only [hmem, Option.some.injEq] at h
      subst h
      exact ⟨sm.lastMembership, rfl⟩
    | some p =>
      cases hp : Membership.ofPb p with
      | error e => simp [hmem, hp] at h
      | ok m =>
        simp only [hmem, hp, Option.some.injEq] at h
        subst h
        exact ⟨⟨some (RaftEntry.logId entry), m⟩, by simp [hp]⟩

/-- An entry without an effect makes the loop fail after its log id has been assigned. The failure
is an error when the entry has application data, and a panic when it has a membership. -/
theorem applyEntry_of_effect_none {sm : StateMachineData σ} {entry : Pb.Entry}
    (h : entry.effect A sm.applicationData = none) :
    ∃ fault, (applyEntry A sm entry).2 = .error fault ∧
      (entry.appData.isSome ↔ ∃ e, fault = .io e) ∧
      (A.FailsCleanly → (applyEntry A sm entry).1 =
        { sm with lastAppliedLog := some (RaftEntry.logId entry) }) := by
  unfold Pb.Entry.effect at h
  unfold applyEntry
  cases happ : entry.appData with
  | some bytes =>
    rw [happ] at h
    cases hreq : (Serde.fromSlice bytes : Except String Req) with
    | error e =>
      exact ⟨.io (.apply (RaftEntry.logId entry) e), by simp [hreq, mapIo], by simp,
        fun _ => by simp [hreq, mapIo]⟩
    | ok req =>
      rcases hA : A.apply sm.applicationData req with ⟨y, e | response⟩
      · refine ⟨.io (.apply (RaftEntry.logId entry) e), by simp [hreq, hA], by simp, ?_⟩
        intro hclean
        have hy : y = sm.applicationData := by
          have hsame := hclean sm.applicationData req e (by rw [hA])
          rwa [hA] at hsame
        simp [hreq, hA, hy]
      · simp [hreq, hA] at h
  | none =>
    rw [happ] at h
    cases hmem : entry.membership with
    | none => simp [hmem] at h
    | some p =>
      cases hp : Membership.ofPb p with
      | ok m => simp [hmem, hp] at h
      | error fault =>
        obtain ⟨message, rfl⟩ := Membership.ofPb_fault hp
        exact ⟨.panic message, by simp [hp], by simp, fun _ => by simp [hp]⟩

/-! ### Streams -/

theorem accepted_append (x : σ) (s t : List (Except IoError (Pb.Entry × Option ρ))) :
    accepted A x (s ++ t) = (accepted A x s).bind fun y => accepted A y t := by
  induction s generalizing x with
  | nil => rfl
  | cons item s ih =>
    rcases item with e | ⟨entry, response⟩
    · rfl
    · rw [List.cons_append, accepted, accepted]
      cases entry.effect A x with
      | none => rfl
      | some y => exact ih y

/-- **The item that a stream fails at** comes after an accepted prefix. -/
theorem exists_first_refused {x : σ} {stream : List (Except IoError (Pb.Entry × Option ρ))}
    (h : accepted A x stream = none) :
    ∃ done item rest y, stream = done ++ item :: rest ∧ accepted A x done = some y ∧
      accepted A y [item] = none := by
  induction stream generalizing x with
  | nil => cases h
  | cons item stream ih =>
    cases hitem : accepted A x [item] with
    | none => exact ⟨[], item, stream, x, rfl, rfl, hitem⟩
    | some y =>
      have hrest : accepted A y stream = none := by
        rw [← List.singleton_append, accepted_append, hitem] at h
        exact h
      obtain ⟨done, item', rest, z, rfl, hdone, hitem'⟩ := ih hrest
      refine ⟨item :: done, item', rest, z, rfl, ?_, hitem'⟩
      rw [← List.singleton_append, accepted_append, hitem]
      exact hdone

/-- The first item of an accepted stream is an entry; it is applied, and the loop goes on with the
rest. -/
theorem apply_cons_of_accepted {sm : StateMachineData σ} {x : σ}
    {item : Except IoError (Pb.Entry × Option ρ)}
    {stream : List (Except IoError (Pb.Entry × Option ρ))}
    (h : accepted A sm.applicationData (item :: stream) = some x) :
    ∃ entry response, ∃ sm' : StateMachineData σ, item = .ok (entry, response) ∧
      sm'.lastAppliedLog = some (RaftEntry.logId entry) ∧
      entry.effect A sm.applicationData = some sm'.applicationData ∧
      accepted A sm'.applicationData stream = some x ∧
      ∀ items, apply A sm (item :: items) =
        ⟨(apply A sm' items).stateMachine,
          respond response (entry.value A sm.applicationData) ++ (apply A sm' items).sent,
          (apply A sm' items).result⟩ := by
  rcases item with e | ⟨entry, response⟩
  · cases h
  · obtain ⟨y, hy, hx⟩ := Option.bind_eq_some_iff.1 h
    obtain ⟨m, hm⟩ := applyEntry_of_effect hy
    refine ⟨entry, response, ⟨some (RaftEntry.logId entry), m, y⟩, rfl, rfl, hy, hx, ?_⟩
    intro items
    rw [apply, hm]

/-- **A stream that is accepted is applied.** -/
theorem apply_of_accepted {sm : StateMachineData σ} {x : σ}
    {stream : List (Except IoError (Pb.Entry × Option ρ))}
    (h : accepted A sm.applicationData stream = some x) :
    (apply A sm stream).result = .ok () ∧
      (apply A sm stream).stateMachine.applicationData = x := by
  induction stream generalizing sm with
  | nil =>
    cases h
    exact ⟨rfl, rfl⟩
  | cons item stream ih =>
    obtain ⟨entry, response, sm', -, -, -, hrest, happly⟩ := apply_cons_of_accepted h
    rw [happly]
    exact ih hrest

/-- What follows an accepted stream is applied to the state it leaves. -/
theorem apply_append {sm : StateMachineData σ} {x : σ}
    {s : List (Except IoError (Pb.Entry × Option ρ))}
    (h : accepted A sm.applicationData s = some x)
    (t : List (Except IoError (Pb.Entry × Option ρ))) :
    apply A sm (s ++ t) =
      ⟨(apply A (apply A sm s).stateMachine t).stateMachine,
        (apply A sm s).sent ++ (apply A (apply A sm s).stateMachine t).sent,
        (apply A (apply A sm s).stateMachine t).result⟩ := by
  induction s generalizing sm with
  | nil => rfl
  | cons item s ih =>
    obtain ⟨entry, response, sm', -, -, -, hrest, happly⟩ := apply_cons_of_accepted h
    rw [List.cons_append, happly, happly, ih hrest, List.append_assoc]

/-- An item that is not accepted ends the loop, and nothing is sent for it. -/
theorem apply_refused {sm : StateMachineData σ}
    {item : Except IoError (Pb.Entry × Option ρ)}
    (h : accepted A sm.applicationData [item] = none)
    (rest : List (Except IoError (Pb.Entry × Option ρ))) :
    ∃ fault, apply A sm (item :: rest) =
      ⟨(apply A sm [item]).stateMachine, [], .error fault⟩ := by
  rcases item with e | ⟨entry, response⟩
  · exact ⟨.io e, rfl⟩
  · have heffect : entry.effect A sm.applicationData = none := by
      cases hx : entry.effect A sm.applicationData with
      | none => rfl
      | some x => simp [accepted, hx] at h
    obtain ⟨fault, hfault, -⟩ := applyEntry_of_effect_none heffect
    refine ⟨fault, ?_⟩
    rw [apply, apply]
    rcases happ : applyEntry A sm entry with ⟨sm', result⟩
    rw [happ] at hfault
    simp only at hfault
    rw [hfault]

/-- The call returns `Ok` exactly on the streams that are accepted. -/
theorem apply_ok_iff {sm : StateMachineData σ}
    {stream : List (Except IoError (Pb.Entry × Option ρ))} :
    (apply A sm stream).result = .ok () ↔ (accepted A sm.applicationData stream).isSome := by
  constructor
  · intro h
    cases hacc : accepted A sm.applicationData stream with
    | some x => rfl
    | none =>
      obtain ⟨done, item, rest, y, rfl, hdone, hitem⟩ := exists_first_refused hacc
      rw [← (apply_of_accepted hdone).2] at hitem
      obtain ⟨fault, hfault⟩ := apply_refused hitem rest
      rw [apply_append hdone, hfault] at h
      cases h
  · intro h
    obtain ⟨x, hx⟩ := Option.isSome_iff_exists.1 h
    exact (apply_of_accepted hx).1

/-- A stream is not accepted beyond its first item that is not. -/
theorem accepted_refused {x y : σ} {done : List (Except IoError (Pb.Entry × Option ρ))}
    {item : Except IoError (Pb.Entry × Option ρ)} (hdone : accepted A x done = some y)
    (hitem : accepted A y [item] = none) (rest : List (Except IoError (Pb.Entry × Option ρ))) :
    accepted A x (done ++ item :: rest) = none := by
  rw [accepted_append, hdone, Option.bind_some, ← List.singleton_append, accepted_append, hitem]
  rfl

/-- The item that a stream fails at stands at one place only. -/
theorem first_refused_unique {x y y' : σ}
    {done done' rest rest' : List (Except IoError (Pb.Entry × Option ρ))}
    {item item' : Except IoError (Pb.Entry × Option ρ)}
    (h : done ++ item :: rest = done' ++ item' :: rest')
    (hdone : accepted A x done = some y) (hitem : accepted A y [item] = none)
    (hdone' : accepted A x done' = some y') (hitem' : accepted A y' [item'] = none) :
    done = done' ∧ item = item' := by
  rcases List.append_eq_append_iff.1 h with ⟨l, hl, hl'⟩ | ⟨l, hl, hl'⟩
  · cases l with
    | nil => exact ⟨by rw [hl, List.append_nil], (List.cons.inj hl').1⟩
    | cons a l =>
      obtain ⟨rfl, -⟩ := List.cons.inj hl'
      rw [hl, accepted_refused hdone hitem] at hdone'
      cases hdone'
  · cases l with
    | nil => exact ⟨by rw [hl, List.append_nil], (List.cons.inj hl').1.symm⟩
    | cons a l =>
      obtain ⟨rfl, -⟩ := List.cons.inj hl'
      rw [hl, accepted_refused hdone' hitem'] at hdone
      cases hdone

/-- The item that the call fails at, after items it applies, is the first that is not accepted. -/
theorem refused_of_fails {sm : StateMachineData σ}
    {done : List (Except IoError (Pb.Entry × Option ρ))}
    {item : Except IoError (Pb.Entry × Option ρ)} (hdone : (apply A sm done).result = .ok ())
    (hitem : (apply A sm (done ++ [item])).result ≠ .ok ()) :
    ∃ y, accepted A sm.applicationData done = some y ∧ accepted A y [item] = none := by
  obtain ⟨y, hy⟩ := Option.isSome_iff_exists.1 (apply_ok_iff.1 hdone)
  refine ⟨y, hy, ?_⟩
  rw [Ne, apply_ok_iff, accepted_append, hy] at hitem
  simpa using hitem

theorem fails_of_refused {sm : StateMachineData σ} {y : σ}
    {done : List (Except IoError (Pb.Entry × Option ρ))}
    {item : Except IoError (Pb.Entry × Option ρ)}
    (hdone : accepted A sm.applicationData done = some y) (hitem : accepted A y [item] = none) :
    ∃ fault, (apply A sm (done ++ [item])).result = .error fault := by
  rw [← (apply_of_accepted hdone).2] at hitem
  obtain ⟨fault, hfault⟩ := apply_refused hitem []
  exact ⟨fault, by rw [apply_append hdone, hfault]⟩

/-! ### The last applied log id of a stream that fails -/

/-- The last applied log id after the entries of a stream. -/
def lastIdAfter (sm : StateMachineData σ) (items : List (Except IoError (Pb.Entry × Option ρ))) :
    Option LogId :=
  ((delivered items).getLast?.map RaftEntry.logId).or sm.lastAppliedLog

theorem apply_lastAppliedLog {sm : StateMachineData σ} {x : σ}
    {stream : List (Except IoError (Pb.Entry × Option ρ))}
    (h : accepted A sm.applicationData stream = some x) :
    (apply A sm stream).stateMachine.lastAppliedLog = lastIdAfter sm stream := by
  induction stream generalizing sm with
  | nil => rfl
  | cons item stream ih =>
    obtain ⟨entry, response, sm', rfl, hlast, -, hrest, happly⟩ := apply_cons_of_accepted h
    rw [happly, ih hrest]
    unfold lastIdAfter
    rw [delivered, List.getLast?_cons, hlast]
    cases (delivered stream).getLast? <;> rfl

/-- When the call returns `Err`, the store is left as the items before the failing one leave it. -/
def FailureUnclaimed (A : ApplicationStateMachine σ Req Resp Snap) (sm : StateMachineData σ)
    (stream : List (Except IoError (Pb.Entry × Option ρ))) : Prop :=
  ∀ e, (apply A sm stream).result = .error (.io e) →
    ∃ done item rest, stream = done ++ item :: rest ∧ (apply A sm done).result = .ok () ∧
      (apply A sm (done ++ [item])).result ≠ .ok () ∧
      (apply A sm stream).stateMachine = (apply A sm done).stateMachine

/-- An entry that fails on its application data, after items that are accepted, has the log id
that was applied last. -/
def FailsAtLastApplied (A : ApplicationStateMachine σ Req Resp Snap) (sm : StateMachineData σ)
    (stream : List (Except IoError (Pb.Entry × Option ρ))) : Prop :=
  ∀ done entry response rest x, stream = done ++ .ok (entry, response) :: rest →
    accepted A sm.applicationData done = some x → entry.appData.isSome → entry.effect A x = none →
    lastIdAfter sm done = some (RaftEntry.logId entry)

theorem accepted_entry_eq_none {x : σ} {entry : Pb.Entry} {response : Option ρ} :
    accepted A x [.ok (entry, response)] = none ↔ entry.effect A x = none := by
  simp [accepted]

/-- An entry that is refused leaves its log id behind, and nothing else. -/
theorem apply_refused_entry (hA : A.FailsCleanly) {sm : StateMachineData σ} {entry : Pb.Entry}
    (h : entry.effect A sm.applicationData = none) (response : Option ρ)
    (rest : List (Except IoError (Pb.Entry × Option ρ))) :
    ∃ fault, (entry.appData.isSome ↔ ∃ e, fault = .io e) ∧
      apply A sm (.ok (entry, response) :: rest) =
        ⟨{ sm with lastAppliedLog := some (RaftEntry.logId entry) }, [], .error fault⟩ := by
  obtain ⟨fault, hfault, hio, hclaims⟩ := applyEntry_of_effect_none h
  have happ : applyEntry A sm entry =
      ({ sm with lastAppliedLog := some (RaftEntry.logId entry) }, .error fault) :=
    Prod.ext (hclaims hA) hfault
  refine ⟨fault, hio, ?_⟩
  rw [apply, happ]

/-- A stream that fails leaves what the items before the failing one leave when that item is an
error of the stream; when it is an entry, only if the log id of the entry was applied last. -/
theorem apply_refused_iff (hA : A.FailsCleanly) {sm : StateMachineData σ} {y : σ}
    {done : List (Except IoError (Pb.Entry × Option ρ))}
    {item : Except IoError (Pb.Entry × Option ρ)}
    (hdone : accepted A sm.applicationData done = some y) (hitem : accepted A y [item] = none)
    (rest : List (Except IoError (Pb.Entry × Option ρ))) :
    (apply A sm (done ++ item :: rest)).stateMachine = (apply A sm done).stateMachine ↔
      ∀ entry response, item = .ok (entry, response) →
        lastIdAfter sm done = some (RaftEntry.logId entry) := by
  rw [apply_append hdone, ← apply_lastAppliedLog hdone]
  rcases item with e | ⟨entry, response⟩
  · constructor
    · rintro - entry response ⟨⟩
    · intro _
      rfl
  · rw [accepted_entry_eq_none, ← (apply_of_accepted hdone).2] at hitem
    obtain ⟨fault, -, hfault⟩ := apply_refused_entry hA hitem response rest
    rw [hfault]
    constructor
    · rintro h entry' response' ⟨⟩
      rw [← h]
    · intro h
      simp only [← h entry response rfl]

/-- A stream that fails at an entry returns `Err` when the entry has application data; otherwise it
panics. -/
theorem apply_refused_io_iff (hA : A.FailsCleanly) {sm : StateMachineData σ} {y : σ}
    {done : List (Except IoError (Pb.Entry × Option ρ))} {entry : Pb.Entry} {response : Option ρ}
    (hdone : accepted A sm.applicationData done = some y)
    (hitem : accepted A y [.ok (entry, response)] = none)
    (rest : List (Except IoError (Pb.Entry × Option ρ))) :
    (∃ e, (apply A sm (done ++ .ok (entry, response) :: rest)).result = .error (.io e)) ↔
      entry.appData.isSome := by
  rw [accepted_entry_eq_none, ← (apply_of_accepted hdone).2] at hitem
  obtain ⟨fault, hio, hfault⟩ := apply_refused_entry hA hitem response rest
  rw [apply_append hdone, hfault, hio]
  simp

/-- **A failing `apply` claims the entry it failed at**: the log id is assigned first. It leaves
what the entries before leave only if the stream itself failed, or if the failing entry has the
log id that was applied last. -/
theorem apply_unclaimed_iff (hA : A.FailsCleanly) (sm : StateMachineData σ)
    (stream : List (Except IoError (Pb.Entry × Option ρ))) :
    FailureUnclaimed A sm stream ↔ FailsAtLastApplied A sm stream := by
  cases hacc : accepted A sm.applicationData stream with
  | some x =>
    constructor
    · rintro - done entry response rest y rfl hdone - heffect
      rw [accepted_refused hdone (accepted_entry_eq_none.2 heffect)] at hacc
      cases hacc
    · intro _ e he
      rw [(apply_of_accepted hacc).1] at he
      cases he
  | none =>
    obtain ⟨done, item, rest, y, rfl, hdone, hitem⟩ := exists_first_refused hacc
    have hsame := apply_refused_iff hA hdone hitem rest
    constructor
    · intro h done' entry response rest' y' h' hdone' hsome heffect
      obtain ⟨rfl, rfl⟩ := first_refused_unique h' hdone hitem hdone'
        (accepted_entry_eq_none.2 heffect)
      -- an entry with application data fails with an error, so the hypothesis speaks of it
      obtain ⟨e, he⟩ := (apply_refused_io_iff hA hdone hitem rest).2 hsome
      obtain ⟨d, i, r, hsplit, hd, hi, hstate⟩ := h e he
      obtain ⟨z, hz, hiz⟩ := refused_of_fails hd hi
      obtain ⟨rfl, -⟩ := first_refused_unique hsplit hdone hitem hz hiz
      exact hsame.1 hstate entry response rfl
    · intro h e he
      have hfails : (apply A sm (done ++ [item])).result ≠ .ok () := by
        obtain ⟨fault, hfault⟩ := fails_of_refused hdone hitem
        rw [hfault]
        simp
      refine ⟨done, item, rest, rfl, (apply_of_accepted hdone).1, hfails, hsame.2 ?_⟩
      rintro entry response rfl
      -- a refused entry without application data panics, and the call returned an error
      have hsome := (apply_refused_io_iff hA hdone hitem rest).1 ⟨e, he⟩
      exact h done entry response rest y rfl hdone hsome (accepted_entry_eq_none.1 hitem)

end Apply

/-! ### The counter is sent what it cannot read -/

section Counter

open scoped Counter

theorem counter_failsCleanly : counter.FailsCleanly := by
  intro total amount e h
  cases h

/-- A request, and an entry whose data is no request. -/
def unreadable : List (Except IoError (Pb.Entry × Option Unit)) :=
  [.ok (⟨1, 1, some (ascii "5"), none⟩, none), .ok (⟨1, 2, some (ascii "x"), none⟩, none)]

/-- A request, and an error of the stream. -/
def interrupted : List (Except IoError (Pb.Entry × Option Unit)) :=
  [.ok (⟨1, 1, some (ascii "5"), none⟩, none), .error (.other "closed")]

/-- An interrupted stream leaves what was applied before. -/
theorem apply_unclaimed_interrupted :
    FailureUnclaimed counter ⟨none, .default, 0⟩ interrupted := by
  refine (apply_unclaimed_iff counter_failsCleanly _ _).2 ?_
  rintro (_ | ⟨_, _ | ⟨_, done⟩⟩) entry response rest x hsplit hdone - heffect
  · cases hsplit
    cases hdone
    exact absurd heffect (by decide +kernel)
  · cases hsplit
  · simp [interrupted] at hsplit

/-- The entry that was not read is the last applied one, and the sum is that of the entry before. -/
theorem apply_claims_unreadable :
    (apply counter ⟨none, .default, 0⟩ unreadable).stateMachine = ⟨some ⟨1, 2⟩, .default, 5⟩ ∧
      ¬ FailureUnclaimed counter ⟨none, .default, 0⟩ unreadable := by
  refine ⟨by decide +kernel, ?_⟩
  intro h
  obtain ⟨done, item, rest, hsplit, -, -, hstate⟩ :=
    h (.apply ⟨1, 2⟩ "not in the table") (by decide +kernel)
  rcases done with _ | ⟨_, _ | ⟨_, done⟩⟩
  · exact absurd hstate (by decide +kernel)
  · cases hsplit
    exact absurd hstate (by decide +kernel)
  · simp [unreadable] at hsplit

end Counter

end StateMachineStore

end RaftService
