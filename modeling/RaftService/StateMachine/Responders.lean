import RaftService.StateMachine.Failures

/-!
# The responders of a stream

`apply` answers a responder when it has both a responder and a value, and only an entry with
application data yields a value. The responses that are due are described from the proposals:
`due A x items` has one row for each responder, in log order, with the value of the application
when the proposal is a request.

* `apply_sent`: what an accepted stream sends are the rows of `due` that have a value;
* `apply_answers_iff`: every responder is answered exactly when only requests have responders.
-/

namespace RaftService

variable {σ Req Resp Snap ρ : Type}

/-- The payload is a request. -/
def EntryPayload.IsNormal (payload : EntryPayload Req) : Prop := ∃ data, payload = .normal data

section Due

variable (A : ApplicationStateMachine σ Req Resp Snap)

/-- The value of the application for a payload. -/
def EntryPayload.value (x : σ) : EntryPayload Req → Option Resp
  | .normal data => (A.apply x data).2.toOption
  | _ => none

/-- The application state after a payload. -/
def EntryPayload.next (x : σ) : EntryPayload Req → σ
  | .normal data => (A.apply x data).1
  | _ => x

/-- The responses that the responders of a list of proposals are due. -/
def due (x : σ) : List (Proposal Req × Option ρ) → List (ρ × Option Resp)
  | [] => []
  | ((_, payload), response) :: items =>
    (response.map fun r => (r, payload.value A x)).toList ++ due (payload.next A x) items

end Due

/-- The responses answer what is due: one for each responder, in order, and with the value of the
application where there is one. -/
def Answers (want : List (ρ × Option Resp)) (sent : List (ρ × Resp)) : Prop :=
  List.Forall₂ (fun w got => got.1 = w.1 ∧ ∀ value, w.2 = some value → got.2 = value) want sent

/-- The stream delivers the entries that `RaftEntry::new` makes of the proposals, with their
responders. -/
def Delivers [Serde Req] (items : List (Proposal Req × Option ρ))
    (stream : List (Except IoError (Pb.Entry × Option ρ))) : Prop :=
  List.Forall₂ (fun item s => ∃ e, Pb.Entry.new item.1.1 item.1.2 = .ok e ∧ s = .ok (e, item.2))
    items stream

theorem Delivers.take [Serde Req] {items : List (Proposal Req × Option ρ)}
    {done rest : List (Except IoError (Pb.Entry × Option ρ))} (h : Delivers items (done ++ rest)) :
    Delivers (items.take done.length) done := by
  have htake := List.forall₂_take done.length h
  rwa [List.take_left] at htake

/-- The responses that answer exactly the rows with a value answer all of them only if every row
has one. -/
theorem answers_filterMap_iff (want : List (ρ × Option Resp)) :
    Answers want (want.filterMap fun w => w.2.map fun value => (w.1, value)) ↔
      ∀ w ∈ want, w.2.isSome := by
  constructor
  · intro h
    have hlength := List.Forall₂.length_eq h
    have hall := List.filterMap_length_eq_length.1 hlength.symm
    intro w hw
    have := hall w hw
    rwa [Option.isSome_map] at this
  · intro h
    induction want with
    | nil => exact List.Forall₂.nil
    | cons w want ih =>
      obtain ⟨value, hvalue⟩ := Option.isSome_iff_exists.1 (h w List.mem_cons_self)
      rw [List.filterMap_cons, hvalue]
      refine List.Forall₂.cons ⟨rfl, ?_⟩ (ih fun v hv => h v (List.mem_cons_of_mem w hv))
      rintro v hv
      rw [hvalue] at hv
      exact Option.some.inj hv

namespace StateMachineStore

section Stream

variable [Openraft] [Serde Req] [LawfulSerde Req] {A : ApplicationStateMachine σ Req Resp Snap}

/-- What an entry does and yields is what its payload does and yields. -/
theorem effect_of_new {id : LogId} {payload : EntryPayload Req} {e : Pb.Entry} {x y : σ}
    (h : Pb.Entry.new id payload = .ok e) (hy : e.effect A x = some y) :
    y = payload.next A x ∧ e.value A x = payload.value A x ∧
      (payload.IsNormal ↔ (payload.value A x).isSome) := by
  obtain ⟨-, hcases⟩ := Pb.Entry.new_cases h
  unfold Pb.Entry.effect at hy
  unfold Pb.Entry.value
  rcases hcases with ⟨rfl, happ, hmem⟩ | ⟨r, b, rfl, hb, happ, -⟩ | ⟨m, rfl, happ, hmem⟩
  · rw [happ, hmem] at hy
    cases hy
    rw [happ]
    exact ⟨rfl, rfl, by simp [EntryPayload.IsNormal, EntryPayload.value]⟩
  · have hread : (Serde.fromSlice b : Except String Req) = .ok r := LawfulSerde.fromSlice_toVec hb
    rw [happ] at hy ⊢
    simp only [hread] at hy ⊢
    rcases hA : A.apply x r with ⟨z, e | resp⟩
    · simp [hA] at hy
    · simp only [hA, Option.some.injEq] at hy
      subst hy
      simp [EntryPayload.next, EntryPayload.value, EntryPayload.IsNormal, hA, Except.toOption]
  · rw [happ, hmem] at hy
    rw [happ]
    cases hp : Membership.ofPb (Membership.toPb m) with
    | error fault => simp [hp] at hy
    | ok m' =>
      simp only [hp, Option.some.injEq] at hy
      exact ⟨hy.symm, rfl, by simp [EntryPayload.IsNormal, EntryPayload.value]⟩

/-- **What an accepted stream sends**: the rows of what is due that have a value. -/
theorem apply_sent {items : List (Proposal Req × Option ρ)}
    {stream : List (Except IoError (Pb.Entry × Option ρ))} (h : Delivers items stream)
    {sm : StateMachineData σ} {y : σ} (hacc : accepted A sm.applicationData stream = some y) :
    (apply A sm stream).sent =
      (due A sm.applicationData items).filterMap fun w => w.2.map fun value => (w.1, value) := by
  induction h generalizing sm with
  | nil => rfl
  | @cons item s items stream hitem _ ih =>
    obtain ⟨⟨id, payload⟩, response⟩ := item
    obtain ⟨e, hnew, rfl⟩ := hitem
    obtain ⟨_, _, sm', hfirst, -, hx, hrest, happly⟩ := apply_cons_of_accepted hacc
    cases hfirst
    obtain ⟨hnext, hvalue, -⟩ := effect_of_new hnew hx
    rw [happly, due, List.filterMap_append, ih hrest, hvalue, hnext]
    cases response with
    | none => rfl
    | some r => cases payload.value A sm.applicationData <;> rfl

/-- In an accepted stream, everything due has a value when only requests have responders. -/
theorem due_isSome_iff {items : List (Proposal Req × Option ρ)}
    {stream : List (Except IoError (Pb.Entry × Option ρ))} (h : Delivers items stream)
    {x y : σ} (hacc : accepted A x stream = some y) :
    (∀ w ∈ due A x items, w.2.isSome) ↔
      ∀ item ∈ items, item.2.isSome → item.1.2.IsNormal := by
  induction h generalizing x with
  | nil => simp [due]
  | @cons item s items stream hitem _ ih =>
    obtain ⟨⟨id, payload⟩, response⟩ := item
    obtain ⟨e, hnew, rfl⟩ := hitem
    obtain ⟨z, hz, hrest⟩ := Option.bind_eq_some_iff.1 hacc
    obtain ⟨hnext, -, hnormal⟩ := effect_of_new hnew hz
    rw [due, List.forall_mem_append, List.forall_mem_cons, ← hnext, ih hrest, hnormal]
    cases response <;> simp

/-- An accepted stream answers its responders when only requests have one. -/
theorem answers_of_accepted_iff {items : List (Proposal Req × Option ρ)}
    {stream : List (Except IoError (Pb.Entry × Option ρ))} (h : Delivers items stream)
    {sm : StateMachineData σ} {y : σ} (hacc : accepted A sm.applicationData stream = some y) :
    Answers (due A sm.applicationData items) (apply A sm stream).sent ↔
      ∀ item ∈ items, item.2.isSome → item.1.2.IsNormal := by
  rw [apply_sent h hacc, answers_filterMap_iff, due_isSome_iff h hacc]

/-- When the call returns `Ok`, every responder of the stream has been answered; when it fails at
an item, exactly those of the items before have. -/
def RespondersAnswered (A : ApplicationStateMachine σ Req Resp Snap) (sm : StateMachineData σ)
    (items : List (Proposal Req × Option ρ))
    (stream : List (Except IoError (Pb.Entry × Option ρ))) : Prop :=
  ((apply A sm stream).result = .ok () →
    Answers (due A sm.applicationData items) (apply A sm stream).sent) ∧
  ∀ done item rest fault, stream = done ++ item :: rest → (apply A sm done).result = .ok () →
    (apply A sm (done ++ [item])).result = .error fault →
      Answers (due A sm.applicationData (items.take done.length)) (apply A sm stream).sent

/-- Among the entries before the first that fails, those with a responder are requests. -/
def OnlyRequestsAwaited (A : ApplicationStateMachine σ Req Resp Snap) (sm : StateMachineData σ)
    (items : List (Proposal Req × Option ρ))
    (stream : List (Except IoError (Pb.Entry × Option ρ))) : Prop :=
  ∀ done rest, stream = done ++ rest → (accepted A sm.applicationData done).isSome →
    ∀ item ∈ items.take done.length, item.2.isSome → item.1.2.IsNormal

theorem apply_answers_iff_of_accepted {items : List (Proposal Req × Option ρ)}
    {stream : List (Except IoError (Pb.Entry × Option ρ))} (h : Delivers items stream)
    {sm : StateMachineData σ} {y : σ} (hacc : accepted A sm.applicationData stream = some y) :
    RespondersAnswered A sm items stream ↔ OnlyRequestsAwaited A sm items stream := by
  have hiff := answers_of_accepted_iff h hacc
  constructor
  · rintro ⟨hok, -⟩ done rest - - item hitem
    exact hiff.1 (hok (apply_of_accepted hacc).1) item (List.mem_of_mem_take hitem)
  · intro hcond
    constructor
    · intro _
      have hall := hcond stream [] (by simp) (by rw [hacc]; rfl)
      rw [← List.Forall₂.length_eq h, List.take_length] at hall
      exact hiff.2 hall
    · rintro done item rest fault rfl hdone hfault
      -- an accepted stream has no item that is refused
      obtain ⟨z, hz, hitem⟩ := refused_of_fails hdone (by rw [hfault]; simp)
      rw [accepted_refused hz hitem] at hacc
      cases hacc

theorem apply_answers_iff_of_refused {items : List (Proposal Req × Option ρ)}
    {done rest : List (Except IoError (Pb.Entry × Option ρ))}
    {item : Except IoError (Pb.Entry × Option ρ)} (h : Delivers items (done ++ item :: rest))
    {sm : StateMachineData σ} {y : σ} (hdone : accepted A sm.applicationData done = some y)
    (hitem : accepted A y [item] = none) :
    RespondersAnswered A sm items (done ++ item :: rest) ↔
      OnlyRequestsAwaited A sm items (done ++ item :: rest) := by
  have hsent : (apply A sm (done ++ item :: rest)).sent = (apply A sm done).sent := by
    have hitem' := hitem
    rw [← (apply_of_accepted hdone).2] at hitem'
    obtain ⟨fault, hfault⟩ := apply_refused hitem' rest
    rw [apply_append hdone, hfault, List.append_nil]
  have hiff := answers_of_accepted_iff h.take hdone
  rw [← hsent] at hiff
  constructor
  · rintro ⟨-, herr⟩ done' rest' hsplit hdone' p hp
    obtain ⟨fault, hfault⟩ := fails_of_refused hdone hitem
    have hall := hiff.1 (herr done item rest fault rfl (apply_of_accepted hdone).1 hfault)
    -- an accepted prefix ends before the item that is refused
    have hle : done'.length ≤ done.length := by
      rcases List.append_eq_append_iff.1 hsplit with ⟨_ | ⟨a, l⟩, hl, hl'⟩ | ⟨l, hl, -⟩
      · simp [hl]
      · obtain ⟨rfl, -⟩ := List.cons.inj hl'
        rw [hl, accepted_refused hdone hitem] at hdone'
        cases hdone'
      · simp [hl]
    exact hall p (List.take_subset_take_left items hle hp)
  · intro hcond
    constructor
    · intro hok
      rw [apply_ok_iff, accepted_refused hdone hitem] at hok
      cases hok
    · intro done' item' rest' fault hsplit hok hfault
      obtain ⟨z, hz, hiz⟩ := refused_of_fails hok (by rw [hfault]; simp)
      obtain ⟨rfl, -⟩ := first_refused_unique hsplit hdone hitem hz hiz
      exact hiff.2 (hcond done (item :: rest) rfl (by rw [hdone]; rfl))

/-- **Every responder is answered exactly when only requests have responders**: a blank entry or a
membership is applied without a value, and whoever waits for it is not answered. -/
theorem apply_answers_iff {items : List (Proposal Req × Option ρ)}
    {stream : List (Except IoError (Pb.Entry × Option ρ))} (h : Delivers items stream)
    (sm : StateMachineData σ) :
    RespondersAnswered A sm items stream ↔ OnlyRequestsAwaited A sm items stream := by
  cases hacc : accepted A sm.applicationData stream with
  | some y => exact apply_answers_iff_of_accepted h hacc
  | none =>
    obtain ⟨done, item, rest, y, rfl, hdone, hitem⟩ := exists_first_refused hacc
    exact apply_answers_iff_of_refused h hdone hitem

end Stream

/-! ### The counter is asked for a membership change -/

section Counter

open scoped Counter

/-- The proposals of the counter's log with the responders `0`, `1` and `2`, of which the first
waits for the membership. -/
def awaited (first : Option ℕ) : List (Proposal ℕ × Option ℕ) :=
  Counter.log.proposals.zip [first, some 1, some 2]

/-- The stream of these proposals. -/
def awaitedStream (first : Option ℕ) : List (Except IoError (Pb.Entry × Option ℕ)) :=
  (Counter.entries.zip [first, some 1, some 2]).map .ok

theorem delivers_awaited (first : Option ℕ) : Delivers (awaited first) (awaitedStream first) :=
  .cons ⟨_, rfl, rfl⟩ (.cons ⟨_, rfl, rfl⟩ (.cons ⟨_, rfl, rfl⟩ .nil))

/-- When nobody waits for the membership, both requests are answered with the sums. -/
theorem apply_answers_requests :
    RespondersAnswered counter ⟨none, .default, 0⟩ (awaited none) (awaitedStream none) := by
  refine (apply_answers_iff (delivers_awaited none) _).2 ?_
  intro done rest _ _ item hitem hsome
  have hmem : item ∈ awaited none := List.mem_of_mem_take hitem
  simp only [awaited, Counter.log, List.zip_cons_cons, List.zip_nil_left, List.mem_cons,
    List.not_mem_nil, or_false] at hmem
  rcases hmem with rfl | rfl | rfl
  · cases hsome
  · exact ⟨5, rfl⟩
  · exact ⟨7, rfl⟩

/-- The caller that waits for the membership is not answered, though the call returns `Ok`. -/
theorem apply_leaves_unanswered :
    (apply counter ⟨none, .default, 0⟩ (awaitedStream (some 0))).result = .ok () ∧
      (apply counter ⟨none, .default, 0⟩ (awaitedStream (some 0))).sent = [(1, 5), (2, 12)] ∧
      ¬ RespondersAnswered counter ⟨none, .default, 0⟩ (awaited (some 0))
        (awaitedStream (some 0)) := by
  have hok : (apply counter ⟨none, .default, 0⟩ (awaitedStream (some 0))).result = .ok () := by
    decide +kernel
  have hsent : (apply counter ⟨none, .default, 0⟩ (awaitedStream (some 0))).sent =
      [(1, 5), (2, 12)] := by
    decide +kernel
  refine ⟨hok, hsent, ?_⟩
  rintro ⟨h, -⟩
  have hlength := List.Forall₂.length_eq (h hok)
  rw [hsent] at hlength
  exact absurd hlength (by decide +kernel)

end Counter

end StateMachineStore

end RaftService
