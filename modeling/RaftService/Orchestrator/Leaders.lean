import RaftService.Orchestrator.Steps

/-!
# Leader services and the shutdown of the orchestrator

Where a generation of leader services can be: with the start callback that spawns it, in the shared
`Option`, with the task that has taken it out, and from then on cancelled, its handles being
awaited. The invariant says that there is one place at most for a generation not cancelled
(`live`), and that every service is joined or its handle is in one of the places (`pending`).

`leader_services_stopped_iff`: at most one generation is ever live, and when `run` returns `Ok`, all
leader services are stopped exactly when every generation published was taken out again. The
shutdown sequence takes the `Option` before it closes the watcher, so a start callback may publish
after that.
-/

namespace RaftService

/-- The generation that the watcher task has. -/
def Watcher.generation? : Watcher → Option Generation
  | .starting g _ => some g
  | .stopping (.took g) => some g
  | _ => none

/-- The services whose handles the watcher task awaits. -/
def Watcher.awaiting : Watcher → List ℕ
  | .stopping (.joining handles) => handles.map Prod.snd
  | _ => []

/-- The generation that `run` has. -/
def Main.generation? : Main → Option Generation
  | .stopping (.took g) => some g
  | _ => none

/-- The services whose handles `run` awaits. -/
def Main.awaiting : Main → List ℕ
  | .stopping (.joining handles) => handles.map Prod.snd
  | _ => []

/-- `run` is past the close of the watcher, and has not returned an error. -/
def Main.PastClose : Main → Prop
  | .joiningStatic => True
  | .stoppingApplication => True
  | .joiningInternal => True
  | .stoppingRaft => True
  | .returned true => True
  | _ => False

theorem Main.Quiet.generation? {main : Main} (h : main.Quiet) :
    main.generation? = none ∧ main.awaiting = [] := by
  rcases main with _ | _ | (_ | g | handles) | _ | _ | _ | _ | _ | _ | _
  case stopping.took => cases h _ rfl
  case stopping.joining => cases h _ rfl
  all_goals exact ⟨rfl, rfl⟩

theorem Watcher.Quiet.generation? {watcher : Watcher} (h : watcher.Quiet) :
    watcher.generation? = none ∧ watcher.awaiting = [] := by
  rcases watcher with _ | _ | (_ | g | handles) | _ | _
  case starting => exact absurd rfl (h.1 _ _)
  case stopping.took => cases h.2 _ rfl
  case stopping.joining => cases h.2 _ rfl
  all_goals exact ⟨rfl, rfl⟩

theorem Watcher.generation?_of_not_busy {watcher : Watcher} (h : ¬ watcher.Busy) :
    watcher.generation? = none ∧ watcher.awaiting = [] := (quiet_of_not_busy h).generation?

namespace Orchestrator

/-- The generations not cancelled. -/
def live (o : Orchestrator) : List Generation :=
  o.slot.toList ++ o.watcher.generation?.toList ++ o.main.generation?.toList

/-- The services whose handles are kept somewhere. -/
def pending (o : Orchestrator) : List ℕ :=
  o.live.flatMap Generation.ids ++ o.watcher.awaiting ++ o.main.awaiting

/-- Every token given to a service is cancelled or that of a generation in `live`, and every service
is joined or in `pending`. -/
structure Accounts (given : List ℕ) (tokens : ℕ) (cancelled joined : List ℕ)
    (live : List Generation) (pending : List ℕ) : Prop where
  fresh : ∀ g ∈ live, g.shutdown < tokens ∧ g.shutdown ∉ cancelled
  cancelled_lt : ∀ t ∈ cancelled, t < tokens
  covered : ∀ t ∈ given, t ∈ cancelled ∨ ∃ g ∈ live, g.shutdown = t
  accounted : ∀ id < given.length, id ∈ joined ∨ id ∈ pending

/-- The invariant of all runs in which no service panics. -/
structure Inv (names : List String) (o : Orchestrator) : Prop where
  guard : ∀ p, o.guard = some p ↔ o.Holds p
  busy : o.watcher.Busy → o.slot = none ∧ o.main.generation? = none
  took : o.main.generation? ≠ none → o.slot = none
  accounts : Accounts o.given o.tokens o.cancelled o.joined o.live o.pending
  starting : ∀ g todo, o.watcher = .starting g todo →
    todo.Nodup ∧ (∀ name ∈ todo, name ∈ names ∧ name ∉ g.handles.keys) ∧
      (todo = names ∨ g.shutdown ∈ o.given)
  published : ∀ g, o.slot = some g → names = [] ∨ g.shutdown ∈ o.given
  alive : ∀ s ∈ o.services, s.status ≠ .panicked
  empty : names = [] → o.services = []

variable {names : List String} {o o' : Orchestrator}

/-! ### Accounts -/

section Accounts

variable {given : List ℕ} {tokens : ℕ} {cancelled joined pending pending' : List ℕ} {g : Generation}

theorem Accounts.new (h : Accounts given tokens cancelled joined [] pending)
    (hp : ∀ id ∈ pending, id ∈ pending') :
    Accounts given (tokens + 1) cancelled joined [⟨tokens, SortedMap.empty⟩] pending' where
  fresh g hg := by
    rw [List.mem_singleton.1 hg]
    exact ⟨Nat.lt_succ_self _, fun hc => lt_irrefl _ (h.cancelled_lt _ hc)⟩
  cancelled_lt t ht := (h.cancelled_lt t ht).trans (Nat.lt_succ_self _)
  covered t ht := Or.inl ((h.covered t ht).resolve_right (by simp))
  accounted id hid := (h.accounted id hid).imp_right (hp id)

/-- A new service of the only generation. -/
theorem Accounts.spawn (h : Accounts given tokens cancelled joined [g] pending)
    (handles : SortedMap String ℕ) (hp : ∀ id ∈ pending, id ∈ pending')
    (hnew : given.length ∈ pending') :
    Accounts (given ++ [g.shutdown]) tokens cancelled joined [⟨g.shutdown, handles⟩] pending' where
  fresh g' hg' := by
    rw [List.mem_singleton.1 hg']
    exact h.fresh g (List.mem_singleton_self g)
  cancelled_lt := h.cancelled_lt
  covered t ht := by
    rcases List.mem_append.1 ht with ht | ht
    · refine (h.covered t ht).imp_right ?_
      rintro ⟨g', hg', rfl⟩
      rw [List.mem_singleton.1 hg']
      exact ⟨_, List.mem_singleton_self _, rfl⟩
    · rw [List.mem_singleton.1 ht]
      exact Or.inr ⟨_, List.mem_singleton_self _, rfl⟩
  accounted id hid := by
    rw [List.length_append, List.length_singleton, Nat.lt_succ_iff_lt_or_eq] at hid
    rcases hid with hid | rfl
    · exact (h.accounted id hid).imp_right (hp id)
    · exact Or.inr hnew

/-- The only generation is cancelled. -/
theorem Accounts.cancel (h : Accounts given tokens cancelled joined [g] pending)
    (hp : ∀ id ∈ pending, id ∈ pending') :
    Accounts given tokens (g.shutdown :: cancelled) joined [] pending' where
  fresh := by simp
  cancelled_lt t ht := by
    rcases List.mem_cons.1 ht with rfl | ht
    · exact (h.fresh g (List.mem_singleton_self g)).1
    · exact h.cancelled_lt t ht
  covered t ht := by
    refine Or.inl ?_
    rcases h.covered t ht with hc | ⟨g', hg', rfl⟩
    · exact List.mem_cons_of_mem _ hc
    · rw [List.mem_singleton.1 hg']
      exact List.mem_cons_self
  accounted id hid := (h.accounted id hid).imp_right (hp id)

theorem Accounts.join {live : List Generation}
    (h : Accounts given tokens cancelled joined live pending) {id : ℕ}
    (hp : ∀ i ∈ pending, i = id ∨ i ∈ pending') :
    Accounts given tokens cancelled (id :: joined) live pending' where
  fresh := h.fresh
  cancelled_lt := h.cancelled_lt
  covered := h.covered
  accounted i hi := by
    rcases h.accounted i hi with hj | hpend
    · exact Or.inl (List.mem_cons_of_mem _ hj)
    · rcases hp i hpend with rfl | hi
      · exact Or.inl List.mem_cons_self
      · exact Or.inr hi

end Accounts

theorem inv_start : Inv names start where
  guard p := by cases p <;> simp [start, Holds, stopping?]
  busy _ := ⟨rfl, rfl⟩
  took _ := rfl
  accounts := ⟨by simp [start, live, Watcher.generation?, Main.generation?], by simp [start],
    by simp [start, given], by simp [start, given]⟩
  starting := by simp [start]
  published := by simp [start]
  alive := by simp [start]
  empty _ := rfl

/-! ### The tasks outside `leader_services_shutdown` -/

/-- The tasks move between points at which they have no generation and no lock. -/
theorem Inv.move (h : Inv names o) (watcher : Watcher) (main : Main)
    (hw : watcher.generation? = o.watcher.generation? ∧ watcher.awaiting = o.watcher.awaiting)
    (hm : main.generation? = o.main.generation? ∧ main.awaiting = o.main.awaiting)
    (hbusy : watcher.Busy → o.slot = none ∧ o.main.generation? = none)
    (hholds : ∀ p, Holds { o with watcher := watcher, main := main } p ↔ o.Holds p)
    (hstart : ∀ g todo, watcher = .starting g todo → o.watcher = .starting g todo) :
    Inv names { o with watcher := watcher, main := main } := by
  have hlive : live { o with watcher := watcher, main := main } = o.live := by
    simp only [live, hw.1, hm.1]
  have hpending : pending { o with watcher := watcher, main := main } = o.pending := by
    simp only [pending, hlive, hw.2, hm.2]
  exact
    { guard := fun p => (h.guard p).trans (hholds p).symm
      busy := fun hb => by simpa only [hm.1] using hbusy hb
      took := fun ht => h.took (by simpa only [hm.1] using ht)
      accounts := by rw [hlive, hpending]; exact h.accounts
      starting := fun g todo hg => h.starting g todo (hstart g todo hg)
      published := h.published
      alive := h.alive
      empty := h.empty }

/-- A service finishes. -/
theorem Inv.finish (h : Inv names o) {id : ℕ} (hstep : step names o (.finish id) = some o') :
    Inv names o' := by
  obtain ⟨token, -, rfl, hgiven⟩ := endService_cases hstep
  exact
    { guard := h.guard
      busy := h.busy
      took := h.took
      accounts := by rw [hgiven]; exact h.accounts
      starting := by rw [hgiven]; exact h.starting
      published := by rw [hgiven]; exact h.published
      alive := fun s hs => by
        rcases List.mem_or_eq_of_mem_set hs with hs | rfl
        · exact h.alive s hs
        · simp
      empty := fun hn => by simp [h.empty hn] }

/-- When the watcher is busy, it has the only generation there may be. -/
theorem Inv.live_of_busy (h : Inv names o) (hb : o.watcher.Busy) :
    o.live = o.watcher.generation?.toList := by
  obtain ⟨hslot, hmain⟩ := h.busy hb
  simp [live, hslot, hmain]

theorem Inv.becomeLeader (h : Inv names o) (hstep : step names o .becomeLeader = some o')
    (hnames : names.Nodup) : Inv names o' := by
  obtain ⟨hw, rfl⟩ := becomeLeader_cases hstep
  have hbusy : o.watcher.Busy := by rw [hw]; trivial
  obtain ⟨hslot, hmain⟩ := h.busy hbusy
  have hlive : o.live = [] := by rw [h.live_of_busy hbusy, hw]; rfl
  have hacc := h.accounts
  rw [hlive] at hacc
  refine ⟨fun p => (h.guard p).trans ?_, fun _ => ⟨hslot, hmain⟩, fun _ => hslot, ?_, ?_,
    fun g hg => absurd (hslot.symm.trans hg) (by simp), h.alive, h.empty⟩
  · cases p <;> simp [Holds, stopping?, hw]
  · have hlive' : live { o with
        watcher := .starting ⟨o.tokens, SortedMap.empty⟩ names
        tokens := o.tokens + 1 } = [⟨o.tokens, SortedMap.empty⟩] := by
      simp [live, hslot, hmain, Watcher.generation?]
    rw [hlive']
    refine hacc.new fun id hid => ?_
    simpa [pending, hlive, hlive', hw, Watcher.awaiting, Generation.ids] using hid
  · rintro g todo hg
    cases hg
    exact ⟨hnames, fun name hname => ⟨hname, by simp [SortedMap.keys]⟩, Or.inl rfl⟩

theorem mem_ids_insert {handles : SortedMap String ℕ} {name : String} (hnew : name ∉ handles.keys)
    (t new id : ℕ) :
    id ∈ Generation.ids ⟨t, handles.insert name new⟩ ↔
      id = new ∨ id ∈ Generation.ids ⟨t, handles⟩ := by
  simp only [Generation.ids, List.mem_map, SortedMap.mem_insert_of_not_mem_keys hnew]
  constructor
  · rintro ⟨b, rfl | hb, rfl⟩
    · exact Or.inl rfl
    · exact Or.inr ⟨b, hb, rfl⟩
  · rintro (rfl | ⟨b, hb, rfl⟩)
    · exact ⟨_, Or.inl rfl, rfl⟩
    · exact ⟨b, Or.inr hb, rfl⟩

theorem Inv.spawn (h : Inv names o) (hstep : step names o .spawn = some o') : Inv names o' := by
  obtain ⟨g, name, todo, hw, rfl⟩ := spawn_cases hstep
  have hbusy : o.watcher.Busy := by rw [hw]; trivial
  obtain ⟨hslot, hmain⟩ := h.busy hbusy
  obtain ⟨hnodup, hnew, -⟩ := h.starting g (name :: todo) hw
  obtain ⟨hname, htodo⟩ := List.nodup_cons.1 hnodup
  obtain ⟨hmem, hname'⟩ := hnew name List.mem_cons_self
  have hlive : o.live = [g] := by rw [h.live_of_busy hbusy, hw]; rfl
  have hacc := h.accounts
  rw [hlive] at hacc
  refine ⟨fun p => (h.guard p).trans ?_, fun _ => ⟨hslot, hmain⟩, fun _ => hslot, ?_, ?_,
    fun g hg => absurd (hslot.symm.trans hg) (by simp), ?_, fun hn => ?_⟩
  · cases p <;> simp [Holds, stopping?, hw]
  · have hlive' : live { o with
        services := o.services ++ [⟨g.shutdown, .running⟩]
        watcher := .starting ⟨g.shutdown, g.handles.insert name o.services.length⟩ todo } =
        [⟨g.shutdown, g.handles.insert name o.services.length⟩] := by
      simp [live, hslot, hmain, Watcher.generation?]
    have hgiven' : given { o with
        services := o.services ++ [⟨g.shutdown, .running⟩]
        watcher := .starting ⟨g.shutdown, g.handles.insert name o.services.length⟩ todo } =
        o.given ++ [g.shutdown] := by
      simp [given]
    rw [hlive', hgiven']
    refine hacc.spawn _ (fun id hid => ?_) ?_
    · simp only [pending, hlive, hlive', hw, Watcher.awaiting, List.flatMap_singleton,
        List.append_nil, List.mem_append, mem_ids_insert hname'] at hid ⊢
      exact hid.imp_left Or.inr
    · simp [pending, hlive', mem_ids_insert hname', given]
  · rintro g' todo' hg'
    cases hg'
    refine ⟨htodo, fun n hn => ⟨(hnew n (List.mem_cons_of_mem _ hn)).1, fun hkey => ?_⟩,
      Or.inr (by simp [given])⟩
    obtain ⟨b, hb, rfl⟩ := List.mem_map.1 hkey
    rcases (SortedMap.mem_insert_of_not_mem_keys hname' _ b).1 hb with rfl | hb
    · exact hname hn
    · exact (hnew b.1 (List.mem_cons_of_mem _ hn)).2 (List.mem_map_of_mem hb)
  · intro s hs
    rcases List.mem_append.1 hs with hs | hs
    · exact h.alive s hs
    · rw [List.mem_singleton.1 hs]; simp
  · rw [hn] at hmem; cases hmem

/-- The start callback publishes its generation: the `Option` was empty. -/
theorem Inv.publish (h : Inv names o) (hstep : step names o .publish = some o') : Inv names o' := by
  obtain ⟨g, hw, hguard, rfl⟩ := publish_cases hstep
  have hbusy : o.watcher.Busy := by rw [hw]; trivial
  obtain ⟨hslot, hmain⟩ := h.busy hbusy
  obtain ⟨-, -, hgiven⟩ := h.starting g [] hw
  have hlive : o.live = [g] := by rw [h.live_of_busy hbusy, hw]; rfl
  have hlive' : live { o with slot := some g, watcher := .idle true } = o.live := by
    rw [hlive]
    simp [live, hmain, Watcher.generation?]
  have hpending' : pending { o with slot := some g, watcher := .idle true } = o.pending := by
    simp [pending, hlive', hw, Watcher.awaiting]
  refine ⟨fun p => (h.guard p).trans ?_, fun hb => hb.elim, fun hne => absurd hmain hne,
    ?_, by simp, fun g' hg' => ?_, h.alive, h.empty⟩
  · cases p <;> simp [Holds, stopping?, hw]
  · rw [hlive', hpending']; exact h.accounts
  · cases hg'
    exact hgiven.imp_left Eq.symm

/-! ### `leader_services_shutdown` -/

theorem generation?_of_not_holds (hm : ¬ o.Holds .main) :
    o.main.generation? = none ∧ o.main.awaiting = [] := by
  cases hmain : o.main with
  | stopping point =>
    cases point with
    | locking => exact ⟨rfl, rfl⟩
    | took g => exact absurd ⟨.took g, stopping?_main.2 hmain, by simp⟩ hm
    | joining handles => exact absurd ⟨.joining handles, stopping?_main.2 hmain, by simp⟩ hm
  | _ => exact ⟨rfl, rfl⟩

/-- `leader_services_shutdown` takes the generation out, or finds none. -/
theorem Inv.take (h : Inv names o) {p : Party} (hstep : step names o (.take p) = some o') :
    Inv names o' := by
  obtain ⟨hpoint, hguard, hcases⟩ := take_cases hstep
  have hnot := not_holds h.guard hguard
  obtain ⟨hmain, hmain'⟩ := generation?_of_not_holds (hnot .main)
  rcases hcases with ⟨g, hslot, rfl⟩ | ⟨hslot, rfl⟩
  · have hidle : ¬ o.watcher.Busy := fun hb => by
      have := (h.busy hb).1
      rw [hslot] at this
      cases this
    obtain ⟨hw, hw'⟩ := Watcher.generation?_of_not_busy hidle
    have hlive : o.live = [g] := by simp [live, hslot, hmain, hw]
    have hacc := h.accounts
    have hpending : o.pending = g.ids := by simp [pending, hlive, hmain', hw']
    rw [hlive, hpending] at hacc
    cases p with
    | watcher =>
      refine ⟨fun p => ?_, fun _ => ⟨rfl, hmain⟩, fun _ => rfl, ?_, by simp [setStopping],
        by simp [setStopping], h.alive, h.empty⟩
      · cases p with
        | watcher => simp [Holds, stopping?, setStopping]
        | main => simpa [Holds, stopping?, setStopping] using hnot .main
      · simpa [live, pending, given, setStopping, Watcher.generation?, Watcher.awaiting, hmain,
          hmain'] using hacc
    | main =>
      refine ⟨fun p => ?_, fun hb => absurd hb hidle, fun _ => rfl, ?_, h.starting,
        by simp [setStopping], h.alive, h.empty⟩
      · cases p with
        | watcher => simpa [Holds, stopping?, setStopping] using hnot .watcher
        | main => simp [Holds, stopping?, setStopping]
      · simpa [live, pending, given, setStopping, Main.generation?, Main.awaiting, hw, hw']
          using hacc
  · cases p with
    | watcher =>
      have hwatcher := stopping?_watcher.1 hpoint
      refine h.move (.idle false) o.main ?_ ⟨rfl, rfl⟩
        (fun _ => ⟨hslot, hmain⟩) (fun p => ?_) (by simp)
      · rw [hwatcher]; exact ⟨rfl, rfl⟩
      · cases p <;> simp [Holds, stopping?, hwatcher]
    | main =>
      have hmain := stopping?_main.1 hpoint
      refine h.move o.watcher .closing ⟨rfl, rfl⟩ ?_ h.busy
        (fun p => ?_) (fun g todo hg => hg)
      · rw [hmain]; exact ⟨rfl, rfl⟩
      · cases p <;> simp [Holds, stopping?, hmain]

theorem Inv.cancel (h : Inv names o) {p : Party} (hstep : step names o (.cancel p) = some o') :
    Inv names o' := by
  obtain ⟨g, hpoint, rfl⟩ := cancel_cases hstep
  have hacc := h.accounts
  cases p with
  | watcher =>
    have hw := stopping?_watcher.1 hpoint
    have hbusy : o.watcher.Busy := by rw [hw]; trivial
    obtain ⟨hslot, hmain⟩ := h.busy hbusy
    have hlive : o.live = [g] := by rw [h.live_of_busy hbusy, hw]; rfl
    rw [hlive] at hacc
    refine ⟨fun p => (h.guard p).trans ?_, fun _ => ⟨hslot, hmain⟩, fun _ => hslot, ?_,
      by simp [setStopping], by simp [setStopping, hslot], h.alive, h.empty⟩
    · cases p <;> simp [Holds, stopping?, setStopping, hw]
    · have hids : ∀ id ∈ o.pending, id ∈ g.ids ++ o.main.awaiting := by
        simp [pending, hlive, hw, Watcher.awaiting]
      have := hacc.cancel hids
      simpa [live, pending, given, setStopping, Watcher.generation?, Watcher.awaiting, hslot,
        hmain, Generation.ids] using this
  | main =>
    have hm := stopping?_main.1 hpoint
    have hslot := h.took (by rw [hm]; simp [Main.generation?])
    have hidle : ¬ o.watcher.Busy := fun hb => by
      have := (h.busy hb).2
      rw [hm] at this
      cases this
    obtain ⟨hw, hw'⟩ := Watcher.generation?_of_not_busy hidle
    have hlive : o.live = [g] := by simp [live, hslot, hw, hm, Main.generation?]
    rw [hlive] at hacc
    refine ⟨fun p => (h.guard p).trans ?_, fun hb => absurd hb hidle, fun _ => hslot, ?_,
      h.starting, by simp [setStopping, hslot], h.alive, h.empty⟩
    · cases p <;> simp [Holds, stopping?, setStopping, hm]
    · have hids : ∀ id ∈ o.pending, id ∈ g.ids := by
        simp [pending, hlive, hw', hm, Main.awaiting]
      have := hacc.cancel hids
      simpa [live, pending, given, setStopping, Main.generation?, Main.awaiting, hslot, hw, hw',
        Generation.ids] using this

/-- `leader_services_shutdown` has awaited a handle; no service panics, so the `unwrap` does not. -/
theorem Inv.join (h : Inv names o) {p : Party} (hstep : step names o (.join p) = some o') :
    Inv names o' := by
  obtain ⟨name, id, handles, token, hpoint, ⟨-, rfl⟩ | ⟨hid, -⟩⟩ := join_cases hstep
  · have hacc := h.accounts
    cases p with
    | watcher =>
      have hw := stopping?_watcher.1 hpoint
      obtain ⟨hslot, hmain⟩ := h.busy (by rw [hw]; trivial)
      have hids : ∀ i ∈ o.pending, i = id ∨ i ∈ handles.map Prod.snd ++ o.main.awaiting := by
        simp [pending, live, hslot, hmain, hw, Watcher.generation?, Watcher.awaiting]
      refine ⟨fun p => (h.guard p).trans ?_, fun _ => ⟨hslot, hmain⟩, fun _ => hslot, ?_,
        by simp [setStopping], by simp [setStopping, hslot], h.alive, h.empty⟩
      · cases p <;> simp [Holds, stopping?, setStopping, hw]
      · have := hacc.join hids
        simpa [live, pending, given, setStopping, Watcher.generation?, Watcher.awaiting, hslot,
          hmain, hw] using this
    | main =>
      have hm := stopping?_main.1 hpoint
      have hids : ∀ i ∈ o.pending, i = id ∨ i ∈
          o.live.flatMap Generation.ids ++ o.watcher.awaiting ++ handles.map Prod.snd := by
        intro i hi
        simp only [pending, hm, Main.awaiting, List.map_cons, List.mem_append,
          List.mem_cons] at hi ⊢
        tauto
      refine ⟨fun p => (h.guard p).trans ?_, fun hb => ⟨(h.busy hb).1, rfl⟩,
        by simp [setStopping, Main.generation?], ?_, h.starting, h.published, h.alive, h.empty⟩
      · cases p <;> simp [Holds, stopping?, setStopping, hm]
      · have := hacc.join hids
        simpa [live, pending, given, setStopping, Main.generation?, Main.awaiting, hm] using this
  · exact absurd rfl (h.alive _ (List.mem_of_getElem? hid))

theorem Inv.unlock (h : Inv names o) {p : Party} (hstep : step names o (.unlock p) = some o') :
    Inv names o' := by
  obtain ⟨hpoint, rfl⟩ := unlock_cases hstep
  have hholds : o.Holds p := ⟨_, hpoint, by simp⟩
  have hacc := h.accounts
  cases p with
  | watcher =>
    have hw := stopping?_watcher.1 hpoint
    obtain ⟨hslot, hmain⟩ := h.busy (by rw [hw]; trivial)
    have hnot : ¬ o.Holds .main := fun hm => by cases holds_unique h.guard hholds hm
    refine ⟨fun p => ?_, fun _ => ⟨hslot, hmain⟩, fun _ => hslot, ?_, by simp [stopped],
      by simp [stopped, hslot], h.alive, h.empty⟩
    · cases p with
      | watcher => simp [Holds, stopping?, stopped]
      | main => simpa [Holds, stopping?, stopped] using hnot
    · simpa [live, pending, given, stopped, Watcher.generation?, Watcher.awaiting, hslot, hmain,
        hw] using hacc
  | main =>
    have hm := stopping?_main.1 hpoint
    have hnot : ¬ o.Holds .watcher := fun hw => by cases holds_unique h.guard hholds hw
    refine ⟨fun p => ?_, fun hb => ⟨(h.busy hb).1, rfl⟩, by simp [stopped, Main.generation?], ?_,
      h.starting, h.published, h.alive, h.empty⟩
    · cases p with
      | watcher => simpa [Holds, stopping?, stopped] using hnot
      | main => simp [Holds, stopping?, stopped]
    · simpa [live, pending, given, stopped, Main.generation?, Main.awaiting, hm] using hacc

/-! ### Runs -/

/-- The tasks move outside of the calls. -/
theorem Inv.outside (h : Inv names o) {watcher : Watcher} {main : Main}
    (hmoves : o.Moves watcher main) : Inv names { o with watcher := watcher, main := main } := by
  refine h.move watcher main ?_ ?_ (fun hb => ?_) hmoves.holds_iff fun g todo hw => ?_
  · rcases hmoves.watcher with rfl | ⟨hold, hnew⟩
    · exact ⟨rfl, rfl⟩
    · obtain ⟨hg, ha⟩ := hold.generation?
      obtain ⟨hg', ha'⟩ := Watcher.generation?_of_not_busy hnew
      exact ⟨hg'.trans hg.symm, ha'.trans ha.symm⟩
  · rcases hmoves.main with rfl | ⟨hold, hnew⟩
    · exact ⟨rfl, rfl⟩
    · obtain ⟨hg, ha⟩ := hold.generation?
      obtain ⟨hg', ha'⟩ := hnew.generation?
      exact ⟨hg'.trans hg.symm, ha'.trans ha.symm⟩
  · exact h.busy (hmoves.watcher_eq hb ▸ hb)
  · rw [← hmoves.watcher_eq (by rw [hw]; trivial), hw]

/-- **Every step keeps the invariant**, as long as no service panics. -/
theorem Inv.step (h : Inv names o) (hnames : names.Nodup) {e : Event} (he : ∀ id, e ≠ .panic id)
    (hstep : Orchestrator.step names o e = some o') : Inv names o' := by
  cases e with
  | becomeLeader => exact h.becomeLeader hstep hnames
  | spawn => exact h.spawn hstep
  | publish => exact h.publish hstep
  | take p => exact h.take hstep
  | cancel p => exact h.cancel hstep
  | join p => exact h.join hstep
  | unlock p => exact h.unlock hstep
  | finish id => exact h.finish hstep
  | panic id => exact absurd rfl (he id)
  | stepDown | close | parse ok | shutdown | joinStatic | stopApplication ok | joinInternal ok
  | stopRaft ok =>
    obtain ⟨watcher, main, rfl, hmoves⟩ := outside_cases (by trivial) hstep
    exact h.outside hmoves

theorem closed_of_closed (hw : o.watcher = .closed) {e : Event}
    (hstep : Orchestrator.step names o e = some o') : o'.watcher = .closed := by
  have hpoint : o.stopping? .watcher = none := by simp [stopping?, hw]
  cases e with
  | becomeLeader | spawn | publish | stepDown => simp [Orchestrator.step, hw] at hstep
  | take p | cancel p | join p | unlock p =>
    cases p with
    | watcher => simp [Orchestrator.step, hpoint] at hstep
    | main =>
      simp only [Orchestrator.step] at hstep
      repeat' split at hstep
      all_goals first
        | cases hstep; exact hw
        | cases hstep
  | finish id | panic id =>
    simp only [Orchestrator.step, endService] at hstep
    split at hstep <;> cases hstep
    exact hw
  | close =>
    simp only [Orchestrator.step] at hstep
    split at hstep <;> cases hstep <;> rfl
  | parse ok | shutdown | joinStatic | stopApplication ok | joinInternal ok | stopRaft ok =>
    simp only [Orchestrator.step] at hstep
    split at hstep <;> cases hstep
    exact hw

/-- `run` gets past the close of the watcher by closing it. -/
theorem closed_of_pastClose {e : Event} (hstep : Orchestrator.step names o e = some o')
    (hp : o'.main.PastClose) : o.main.PastClose ∨ o'.watcher = .closed := by
  cases e with
  | becomeLeader | spawn | publish | stepDown =>
    simp only [Orchestrator.step] at hstep
    split at hstep <;> cases hstep
    exact Or.inl hp
  | take p | cancel p | join p | unlock p =>
    simp only [Orchestrator.step] at hstep
    repeat' split at hstep
    all_goals cases p
    all_goals first
      | cases hstep; exact Or.inl hp
      | cases hstep; exact hp.elim
      | cases hstep
  | finish id | panic id =>
    simp only [Orchestrator.step, endService] at hstep
    split at hstep <;> cases hstep
    exact Or.inl hp
  | close =>
    simp only [Orchestrator.step] at hstep
    split at hstep <;> cases hstep <;> exact Or.inr rfl
  | parse ok | shutdown =>
    simp only [Orchestrator.step] at hstep
    split at hstep <;> cases hstep
    first
      | exact hp.elim
      | cases ok <;> exact hp.elim
  | joinStatic | stopApplication ok | joinInternal ok | stopRaft ok =>
    simp only [Orchestrator.step] at hstep
    split at hstep
    · next hm => exact Or.inl (by rw [hm]; trivial)
    · cases hstep

/-- The watcher is closed once `run` is past that. -/
theorem closed_step (h : o.main.PastClose → o.watcher = .closed) {e : Event}
    (hstep : Orchestrator.step names o e = some o') (hp : o'.main.PastClose) :
    o'.watcher = .closed :=
  (closed_of_pastClose hstep hp).elim (fun hp => closed_of_closed (h hp) hstep) id

/-! ### The shared `Option` -/

/-- What a step does to the `Option`: the start callback fills it, `leader_services_shutdown`
empties it, and no other step touches it. -/
theorem slot_cases {e : Event} (hstep : Orchestrator.step names o e = some o') :
    (e = .publish ∧ o'.slot ≠ none) ∨ ((∃ p, e = .take p) ∧ o'.slot = none) ∨
      (e ≠ .publish ∧ (∀ p, e ≠ .take p) ∧ o'.slot = o.slot) := by
  cases e with
  | publish =>
    obtain ⟨g, -, -, rfl⟩ := publish_cases hstep
    exact Or.inl ⟨rfl, by simp⟩
  | take p =>
    refine Or.inr (Or.inl ⟨⟨p, rfl⟩, ?_⟩)
    obtain ⟨-, -, ⟨g, -, rfl⟩ | ⟨hslot, rfl⟩⟩ := take_cases hstep
    · rw [slot_setStopping]
    · rw [slot_stopped, hslot]
  | cancel p =>
    obtain ⟨g, -, rfl⟩ := cancel_cases hstep
    exact Or.inr (Or.inr ⟨by simp, by simp, slot_setStopping _ _⟩)
  | join p =>
    refine Or.inr (Or.inr ⟨by simp, by simp, ?_⟩)
    obtain ⟨name, id, handles, token, -, ⟨-, rfl⟩ | ⟨-, rfl⟩⟩ := join_cases hstep
    · rw [slot_setStopping]
    · rw [slot_panics]
  | unlock p =>
    obtain ⟨-, rfl⟩ := unlock_cases hstep
    exact Or.inr (Or.inr ⟨by simp, by simp, slot_stopped _⟩)
  | finish id | panic id =>
    obtain ⟨token, -, rfl, -⟩ := endService_cases hstep
    exact Or.inr (Or.inr ⟨by simp, by simp, rfl⟩)
  | becomeLeader =>
    obtain ⟨-, rfl⟩ := becomeLeader_cases hstep
    exact Or.inr (Or.inr ⟨by simp, by simp, rfl⟩)
  | spawn =>
    obtain ⟨g, name, todo, -, rfl⟩ := spawn_cases hstep
    exact Or.inr (Or.inr ⟨by simp, by simp, rfl⟩)
  | stepDown | close | parse ok | shutdown | joinStatic | stopApplication ok | joinInternal ok
  | stopRaft ok =>
    obtain ⟨watcher, main, rfl, -⟩ := outside_cases (by trivial) hstep
    exact Or.inr (Or.inr ⟨by simp, by simp, rfl⟩)

@[simp] theorem everyPublishTaken_nil : EveryPublishTaken [] := by
  rintro (_ | _) t' h <;> cases h

@[simp] theorem everyPublishTaken_cons {tr : List Event} {e : Event} :
    EveryPublishTaken (e :: tr) ↔
      (e = .publish → ∃ p, .take p ∈ tr) ∧ EveryPublishTaken tr := by
  constructor
  · intro h
    refine ⟨fun he => h [] tr (by rw [he, List.nil_append]), fun t t' ht => ?_⟩
    exact h (e :: t) t' (by rw [ht, List.cons_append])
  · rintro ⟨he, h⟩ (_ | ⟨e', t⟩) t' ht
    · cases ht
      exact he rfl
    · cases ht
      exact h t t' rfl

/-- A generation published last is not taken out; the earlier ones are when the last event takes
the `Option`. -/
theorem everyPublishTaken_append {tr : List Event} {e : Event} :
    EveryPublishTaken (tr ++ [e]) ↔
      e ≠ .publish ∧ ((∃ p, e = .take p) ∨ EveryPublishTaken tr) := by
  induction tr with
  | nil => simp
  | cons e' tr ih =>
    rw [List.cons_append, everyPublishTaken_cons, everyPublishTaken_cons, ih]
    constructor
    · rintro ⟨he', hne, h⟩
      refine ⟨hne, ?_⟩
      by_cases he : ∃ p, e = .take p
      · exact Or.inl he
      · refine Or.inr ⟨fun hp => ?_, h.resolve_left he⟩
        obtain ⟨p, hp⟩ := he' hp
        refine ⟨p, (List.mem_append.1 hp).resolve_right fun hp => he ⟨p, ?_⟩⟩
        exact (List.mem_singleton.1 hp).symm
    · rintro ⟨hne, ⟨p, rfl⟩ | ⟨he', h⟩⟩
      · exact ⟨fun _ => ⟨p, by simp⟩, hne, Or.inl ⟨p, rfl⟩⟩
      · refine ⟨fun hp => ?_, hne, Or.inr h⟩
        obtain ⟨p, hp⟩ := he' hp
        exact ⟨p, List.mem_append_left _ hp⟩

/-- The `Option` is empty exactly when every generation published so far was taken out again. -/
theorem slot_step {tr : List Event} (h : o.slot = none ↔ EveryPublishTaken tr) {e : Event}
    (hstep : Orchestrator.step names o e = some o') :
    o'.slot = none ↔ EveryPublishTaken (tr ++ [e]) := by
  rw [everyPublishTaken_append]
  rcases slot_cases hstep with ⟨rfl, hslot⟩ | ⟨⟨p, rfl⟩, hslot⟩ | ⟨hne, htake, hslot⟩
  · simp [hslot]
  · simp [hslot]
  · rw [hslot, h]
    refine ⟨fun h => ⟨hne, Or.inr h⟩, fun h => h.2.resolve_left ?_⟩
    rintro ⟨p, rfl⟩
    exact htake p rfl

/-! ### What the invariant says -/

/-- What the invariant says when the watcher is closed and `run` has returned. -/
theorem Inv.allStopped_iff (h : Inv names o) (hw : o.watcher = .closed)
    (hm : o.main = .returned true) : o.AllStopped ↔ names = [] ∨ o.slot = none := by
  have hacc := h.accounts
  have hlive : o.live = o.slot.toList := by
    simp [live, hw, hm, Watcher.generation?, Main.generation?]
  have hpending : o.pending = o.slot.toList.flatMap Generation.ids := by
    simp [pending, hlive, hw, hm, Watcher.awaiting, Main.awaiting]
  constructor
  · intro hall
    cases hslot : o.slot with
    | none => exact Or.inr rfl
    | some g =>
      refine (h.published g hslot).imp_right fun hgiven => ?_
      obtain ⟨s, hs, htoken⟩ := List.mem_map.1 hgiven
      obtain ⟨id, hid⟩ := List.mem_iff_getElem?.1 hs
      refine absurd (htoken ▸ (hall id s hid).1) (hacc.fresh g ?_).2
      simp [hlive, hslot]
  · rintro (hnames | hslot) id s hid
    · rw [h.empty hnames] at hid
      cases hid
    · rw [hlive, hpending, hslot] at hacc
      have hlt := (List.getElem?_eq_some_iff.1 hid).1
      refine ⟨(hacc.covered s.token ?_).resolve_right (by simp), ?_⟩
      · exact List.mem_map_of_mem (List.mem_of_getElem? hid)
      · exact (hacc.accounted id (by simpa [given] using hlt)).resolve_right (by simp)

/-- There is one generation at most that is not cancelled. -/
theorem Inv.live_length_le (h : Inv names o) : o.live.length ≤ 1 := by
  by_cases hb : o.watcher.Busy
  · rw [h.live_of_busy hb]
    exact Option.length_toList_le
  · obtain ⟨hw, -⟩ := Watcher.generation?_of_not_busy hb
    cases hm : o.main.generation? with
    | none => simp [live, hw, hm, Option.length_toList_le]
    | some g => simp [live, hw, hm, h.took (by simp [hm])]

/-- The tokens that are not cancelled are that of one generation. -/
theorem Inv.atMostOneLive (h : Inv names o) : o.AtMostOneLive := by
  intro s hs s' hs' hlive hlive'
  obtain ⟨g, hg, hgs⟩ := (h.accounts.covered _ (List.mem_map_of_mem hs)).resolve_left hlive
  obtain ⟨g', hg', hgs'⟩ := (h.accounts.covered _ (List.mem_map_of_mem hs')).resolve_left hlive'
  obtain ⟨g₀, hone⟩ := List.length_eq_one_iff.1
    (le_antisymm h.live_length_le (List.length_pos_of_mem hg))
  rw [hone, List.mem_singleton] at hg hg'
  rw [← hgs, ← hgs', hg, hg']

/-- **When the orchestrator leaves no leader service behind.** For builders with distinct names,
in every run in which no service panics: at every moment at most one generation of leader services
is spawned and not cancelled; and when `run` has returned `Ok`, every leader service ever spawned
has had its token cancelled and has been joined, exactly when there is no builder or every
generation that a start callback published was taken out of the `Option` later, by a step-down or
by the shutdown sequence. -/
theorem leader_services_stopped_iff (hnames : names.Nodup) {tr : List Event}
    (hrun : Run.exec (Orchestrator.step names) start tr = some o)
    (hpanic : ∀ id, .panic id ∉ tr) :
    o.AtMostOneLive ∧
      (o.main = .returned true → (o.AllStopped ↔ names = [] ∨ EveryPublishTaken tr)) := by
  have hinv : Inv names o ∧ (o.main.PastClose → o.watcher = .closed) ∧
      (o.slot = none ↔ EveryPublishTaken tr) := by
    refine Run.exec_induction
      (motive := fun tr o => (∀ id, .panic id ∉ tr) → Inv names o ∧
        (o.main.PastClose → o.watcher = .closed) ∧ (o.slot = none ↔ EveryPublishTaken tr))
      (fun _ => ⟨inv_start, fun h => h.elim, by simp [start]⟩)
      (fun tr o e o' _ ih hstep hpanic => ?_) tr o hrun hpanic
    obtain ⟨h, hclosed, hslot⟩ := ih fun id hid => hpanic id (List.mem_append_left _ hid)
    refine ⟨h.step hnames (fun id he => hpanic id (by simp [he])) hstep, closed_step hclosed hstep,
      slot_step hslot hstep⟩
  obtain ⟨h, hclosed, hslot⟩ := hinv
  refine ⟨h.atMostOneLive, fun hm => ?_⟩
  rw [h.allStopped_iff (hclosed (by rw [hm]; trivial)) hm, hslot]

/-- A leader is elected and serves until the shutdown. -/
def serve : List Event :=
  [.parse true, .becomeLeader, .spawn, .publish, .shutdown, .take .main, .cancel .main, .finish 0,
    .join .main, .unlock .main, .close, .joinStatic, .stopApplication true, .joinInternal true,
    .stopRaft true]

/-- Its service is stopped when `run` returns. -/
theorem serve_stops :
    ∃ o, Run.exec (Orchestrator.step ["service"]) start serve = some o ∧
      o.main = .returned true ∧ o.AllStopped := by
  have hnames : ["service"].Nodup := by simp
  have hpanic : ∀ id, Event.panic id ∉ serve := by simp [serve]
  have htaken : EveryPublishTaken serve := by simp [serve]
  refine ⟨_, rfl, rfl, ?_⟩
  exact ((leader_services_stopped_iff hnames rfl hpanic).2 rfl).2 (Or.inr htaken)

/-- The start callback has not got the lock yet when the shutdown sequence finds the `Option`
empty. -/
def lateStart : List Event :=
  [.parse true, .becomeLeader, .spawn, .shutdown, .take .main, .publish, .close, .joinStatic,
    .stopApplication true, .joinInternal true, .stopRaft true]

/-- Its service outlives `run`. -/
theorem lateStart_outlives :
    ["service"].Nodup ∧ (∀ id, .panic id ∉ lateStart) ∧
      ∃ o, Run.exec (Orchestrator.step ["service"]) start lateStart = some o ∧
        o.main = .returned true ∧ ¬ o.AllStopped := by
  refine ⟨by simp, by simp [lateStart], _, rfl, rfl, fun hall => ?_⟩
  exact List.not_mem_nil (hall 0 _ rfl).1

end Orchestrator

end RaftService
