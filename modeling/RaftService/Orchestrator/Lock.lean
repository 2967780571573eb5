import RaftService.Orchestrator.Steps

/-!
# The lock of the shared `Option`

Here builders may share a name, and services may panic at any time. The start callback keeps the
handles of a generation in a map by name (`Spawned`), so the handle of a service is lost when the
name is used again.

* `Spawned.forall_kept_iff`: all handles are kept exactly when the names are distinct;
* `Sound`: the invariant of all runs; a task that has the lock has the only generation there is,
  and no start callback runs meanwhile;
* `sound_exec`: it holds after every run.
-/

namespace RaftService

namespace Orchestrator

variable {names : List String} {o o' : Orchestrator} {p : Party} {g : Generation}

/-! ### The services of a generation -/

/-- The services of the generation are the last ones, one for each builder called, and the map
collects their handles by the name of the builder. -/
def Spawned (given : List ℕ) (called : List String) (g : Generation) : Prop :=
  ∃ earlier, given = earlier ++ List.replicate called.length g.shutdown ∧ g.shutdown ∉ earlier ∧
    g.handles = SortedMap.ofList (called.zipIdx earlier.length)

theorem spawned_nil {given : List ℕ} {token : ℕ} (h : token ∉ given) :
    Spawned given [] ⟨token, SortedMap.empty⟩ := ⟨given, by simp, h, rfl⟩

theorem Spawned.snoc {given : List ℕ} {called : List String} (h : Spawned given called g)
    (name : String) : Spawned (given ++ [g.shutdown]) (called ++ [name])
      { g with handles := g.handles.insert name given.length } := by
  obtain ⟨earlier, hgiven, hnot, hhandles⟩ := h
  refine ⟨earlier, ?_, hnot, ?_⟩
  · rw [hgiven, List.length_append, List.length_singleton, List.replicate_succ', List.append_assoc]
  · rw [List.zipIdx_append, List.zipIdx_singleton, SortedMap.ofList_snoc, ← hhandles, hgiven]
    simp

/-- The services that were given the token are those of the builders called. -/
theorem mem_zipIdx_iff {earlier : List ℕ} {called : List String} {token id : ℕ}
    (hnot : token ∉ earlier) :
    (∃ name, (name, id) ∈ called.zipIdx earlier.length) ↔
      (earlier ++ List.replicate called.length token)[id]? = some token := by
  simp only [List.mk_mem_zipIdx_iff_le_and_getElem?_sub]
  by_cases hle : earlier.length ≤ id
  · rw [List.getElem?_append_right hle, List.getElem?_replicate]
    simp only [hle, true_and]
    constructor
    · rintro ⟨name, hname⟩
      rw [if_pos (List.getElem?_eq_some_iff.1 hname).1]
    · intro h
      by_cases hlt : id - earlier.length < called.length
      · exact ⟨_, List.getElem?_eq_getElem hlt⟩
      · rw [if_neg hlt] at h
        cases h
  · constructor
    · rintro ⟨name, hle', -⟩
      exact absurd hle' hle
    · intro h
      rw [List.getElem?_append_left (not_le.1 hle)] at h
      exact absurd (List.mem_of_getElem? h) hnot

/-- A handle that is kept is that of a service of the generation. -/
theorem Spawned.kept {given : List ℕ} {called : List String} (h : Spawned given called g) {id : ℕ}
    (hid : id ∈ g.ids) : given[id]? = some g.shutdown := by
  obtain ⟨earlier, rfl, hnot, hhandles⟩ := h
  obtain ⟨b, hb, rfl⟩ := List.mem_map.1 hid
  rw [hhandles] at hb
  exact (mem_zipIdx_iff hnot).1 ⟨b.1, SortedMap.mem_of_mem_ofList hb⟩

/-- The handles of all services of a generation are kept exactly when no name was used twice. -/
theorem Spawned.forall_kept_iff {given : List ℕ} {called : List String}
    (h : Spawned given called g) :
    (∀ id, given[id]? = some g.shutdown → id ∈ g.ids) ↔ called.Nodup := by
  obtain ⟨earlier, rfl, hnot, hhandles⟩ := h
  have hsnd : ((called.zipIdx earlier.length).map Prod.snd).Nodup := by
    rw [List.zipIdx_map_snd]
    exact List.nodup_range'
  have hiff := SortedMap.forall_mem_ofList_iff (hsnd.of_map Prod.snd)
  rw [List.zipIdx_map_fst, ← hhandles] at hiff
  rw [← hiff]
  constructor
  · intro hall b hb
    obtain ⟨b', hb', heq⟩ := List.mem_map.1 (hall b.2 ((mem_zipIdx_iff hnot).1 ⟨b.1, hb⟩))
    have hmem : b' ∈ called.zipIdx earlier.length := by
      rw [hhandles] at hb'
      exact SortedMap.mem_of_mem_ofList hb'
    rwa [← List.inj_on_of_nodup_map hsnd hmem hb heq]
  · intro hall id hid
    obtain ⟨name, hname⟩ := (mem_zipIdx_iff hnot).2 hid
    exact List.mem_map.2 ⟨_, hall _ hname, rfl⟩

/-! ### The invariant of all runs -/

/-- The token exists, and is not cancelled. -/
def Fresh (o : Orchestrator) (g : Generation) : Prop :=
  g.shutdown < o.tokens ∧ g.shutdown ∉ o.cancelled

/-- The token that the service was given is cancelled. -/
def Settled (o : Orchestrator) (id : ℕ) : Prop := ∃ t ∈ o.cancelled, o.given[id]? = some t

/-- The invariant of all runs. A task that has the lock has emptied the `Option`, and there is no
such task while a start callback runs; only services with a cancelled token are awaited. -/
structure Sound (names : List String) (o : Orchestrator) : Prop where
  guard : ∀ p, o.guard = some p ↔ o.Holds p
  between : o.watcher.Between → o.slot = none ∧ ∀ p, ¬ o.Holds p
  held : ∀ p, o.Holds p → o.slot = none
  given_lt : ∀ t ∈ o.given, t < o.tokens
  cancelled_lt : ∀ t ∈ o.cancelled, t < o.tokens
  starting : ∀ g todo, o.watcher = .starting g todo →
    o.Fresh g ∧ ∃ called, names = called ++ todo ∧ Spawned o.given called g
  published : ∀ g, o.slot = some g → o.Fresh g ∧ Spawned o.given names g
  took : ∀ p g, o.stopping? p = some (.took g) → o.Fresh g ∧ Spawned o.given names g
  awaited : ∀ p handles, o.stopping? p = some (.joining handles) → ∀ b ∈ handles, o.Settled b.2
  joined : ∀ id ∈ o.joined, o.Settled id

theorem sound_start : Sound names start where
  guard p := by cases p <;> simp [start, Holds, stopping?]
  between _ := ⟨rfl, fun p => by cases p <;> simp [start, Holds, stopping?]⟩
  held _ _ := rfl
  given_lt := by simp [start, given]
  cancelled_lt := by simp [start]
  starting := by simp [start]
  published := by simp [start]
  took p := by cases p <;> simp [start, stopping?]
  awaited p := by cases p <;> simp [start, stopping?]
  joined := by simp [start]

theorem Settled.mono {id : ℕ} (h : o.Settled id) (hgiven : o.given <+: o'.given)
    (hcancelled : o.cancelled ⊆ o'.cancelled) : o'.Settled id := by
  obtain ⟨t, ht, hid⟩ := h
  obtain ⟨later, hlater⟩ := hgiven
  refine ⟨t, hcancelled ht, ?_⟩
  rw [← hlater, List.getElem?_append_left (List.getElem?_eq_some_iff.1 hid).1, hid]

/-- The tasks move outside of the calls. -/
theorem Sound.move (h : Sound names o) {watcher : Watcher} {main : Main}
    (hpoint : ∀ q point, point ≠ .locking →
      (stopping? { o with watcher := watcher, main := main } q = some point ↔
        o.stopping? q = some point))
    (hbetween : watcher.Between → o.slot = none ∧ ∀ p, ¬ o.Holds p)
    (hstart : ∀ g todo, watcher = .starting g todo → o.watcher = .starting g todo) :
    Sound names { o with watcher := watcher, main := main } := by
  have hholds : ∀ q, Holds { o with watcher := watcher, main := main } q ↔ o.Holds q := by
    intro q
    constructor
    · rintro ⟨point, hq, hne⟩
      exact ⟨point, (hpoint q point hne).1 hq, hne⟩
    · rintro ⟨point, hq, hne⟩
      exact ⟨point, (hpoint q point hne).2 hq, hne⟩
  exact
    { guard := fun q => (h.guard q).trans (hholds q).symm
      between := fun hb => ⟨(hbetween hb).1, fun q hq => (hbetween hb).2 q ((hholds q).1 hq)⟩
      held := fun q hq => h.held q ((hholds q).1 hq)
      given_lt := h.given_lt
      cancelled_lt := h.cancelled_lt
      starting := fun g todo hw => h.starting g todo (hstart g todo hw)
      published := h.published
      took := fun q g hq => h.took q g ((hpoint q _ (by simp)).1 hq)
      awaited := fun q handles hq => h.awaited q handles ((hpoint q _ (by simp)).1 hq)
      joined := h.joined }

/-- A service ends. -/
theorem Sound.endService (h : Sound names o) {id : ℕ} {status : TaskStatus}
    (hstep : o.endService id status = some o') : Sound names o' := by
  obtain ⟨token, -, rfl, hgiven⟩ := endService_cases hstep
  exact
    { guard := h.guard
      between := h.between
      held := h.held
      given_lt := hgiven ▸ h.given_lt
      cancelled_lt := h.cancelled_lt
      starting := fun g todo hw => by rw [hgiven]; exact h.starting g todo hw
      published := fun g hg => by rw [hgiven]; exact h.published g hg
      took := fun q g hq => by rw [hgiven]; exact h.took q g hq
      awaited := fun q handles hq b hb => by
        unfold Settled
        rw [hgiven]
        exact h.awaited q handles hq b hb
      joined := fun i hi => by
        unfold Settled
        rw [hgiven]
        exact h.joined i hi }

/-- A start callback takes a step: no task has the lock. -/
theorem Sound.callback (h : Sound names o) (hb : o.watcher.Between)
    (hsame : ∀ q, o'.stopping? q = o.stopping? q) (hguard : o'.guard = o.guard)
    (hslot : o'.watcher.Between → o'.slot = none) (hgiven : o.given <+: o'.given)
    (hgiven_lt : ∀ t ∈ o'.given, t < o'.tokens) (htokens : o.tokens ≤ o'.tokens)
    (hcancelled : o'.cancelled = o.cancelled) (hjoined : o'.joined = o.joined)
    (hstarting : ∀ g todo, o'.watcher = .starting g todo →
      o'.Fresh g ∧ ∃ called, names = called ++ todo ∧ Spawned o'.given called g)
    (hpublished : ∀ g, o'.slot = some g → o'.Fresh g ∧ Spawned o'.given names g) :
    Sound names o' := by
  have hnone : ∀ q point, o'.stopping? q = some point → point = .locking := by
    intro q point hq
    by_contra hne
    exact (h.between hb).2 q ⟨point, (hsame q).symm.trans hq, hne⟩
  have hnot : ∀ q, ¬ o'.Holds q := by
    rintro q ⟨point, hq, hne⟩
    exact hne (hnone q point hq)
  exact
    { guard := fun q => by
        rw [hguard]
        constructor
        · intro hq
          exact absurd ((h.guard q).1 hq) ((h.between hb).2 q)
        · intro hq
          exact absurd hq (hnot q)
      between := fun hb' => ⟨hslot hb', hnot⟩
      held := fun q hq => absurd hq (hnot q)
      given_lt := hgiven_lt
      cancelled_lt := fun t ht => (h.cancelled_lt t (hcancelled ▸ ht)).trans_le htokens
      starting := hstarting
      published := hpublished
      took := fun q g hq => by cases hnone q _ hq
      awaited := fun q handles hq => by cases hnone q _ hq
      joined := fun i hi =>
        (h.joined i (hjoined ▸ hi)).mono hgiven (by rw [hcancelled]; exact List.Subset.refl _) }

/-- The start callback begins. -/
theorem Sound.becomeLeader (h : Sound names o) (hstep : step names o .becomeLeader = some o') :
    Sound names o' := by
  obtain ⟨hw, rfl⟩ := becomeLeader_cases hstep
  have hb : o.watcher.Between := by rw [hw]; trivial
  have hnone := (h.between hb).1
  refine h.callback hb (fun q => ?_) rfl (fun _ => hnone) (List.prefix_refl _)
    (fun t ht => (h.given_lt t ht).trans (Nat.lt_succ_self _)) (Nat.le_succ _) rfl rfl ?_ ?_
  · cases q <;> simp [stopping?, hw]
  · rintro g todo hg
    cases hg
    refine ⟨⟨Nat.lt_succ_self _, fun hc => lt_irrefl _ (h.cancelled_lt _ hc)⟩, [], rfl, ?_⟩
    exact spawned_nil fun ht => lt_irrefl _ (h.given_lt _ ht)
  · intro g hg
    rw [hnone] at hg
    cases hg

/-- The start callback calls the next builder. -/
theorem Sound.spawn (h : Sound names o) (hstep : step names o .spawn = some o') :
    Sound names o' := by
  obtain ⟨g, name, todo, hw, rfl⟩ := spawn_cases hstep
  have hb : o.watcher.Between := by rw [hw]; trivial
  have hnone := (h.between hb).1
  obtain ⟨hfresh, called, hcalled, hspawned⟩ := h.starting g (name :: todo) hw
  have hgiven : given { o with
      services := o.services ++ [⟨g.shutdown, .running⟩]
      watcher := .starting { g with handles := g.handles.insert name o.services.length } todo } =
      o.given ++ [g.shutdown] := by
    simp [given]
  refine h.callback hb (fun q => ?_) rfl (fun _ => hnone) ?_ (fun t ht => ?_) le_rfl rfl rfl ?_ ?_
  · cases q <;> simp [stopping?, hw]
  · rw [hgiven]
    exact List.prefix_append _ _
  · rw [hgiven] at ht
    rcases List.mem_append.1 ht with ht | ht
    · exact h.given_lt t ht
    · rw [List.mem_singleton.1 ht]
      exact hfresh.1
  · rintro g' todo' hg'
    cases hg'
    refine ⟨hfresh, called ++ [name], by rw [hcalled]; simp, ?_⟩
    rw [hgiven]
    have := hspawned.snoc name
    rwa [given, List.length_map] at this
  · intro g' hg'
    rw [hnone] at hg'
    cases hg'

/-- The start callback publishes a generation with all services spawned. -/
theorem Sound.publish (h : Sound names o) (hstep : step names o .publish = some o') :
    Sound names o' := by
  obtain ⟨g, hw, hguard, rfl⟩ := publish_cases hstep
  have hb : o.watcher.Between := by rw [hw]; trivial
  obtain ⟨hfresh, called, hcalled, hspawned⟩ := h.starting g [] hw
  rw [List.append_nil] at hcalled
  subst hcalled
  refine h.callback hb (fun q => ?_) rfl (fun hb' => hb'.elim) (List.prefix_refl _) h.given_lt
    le_rfl rfl rfl (by simp) ?_
  · cases q <;> simp [stopping?, hw]
  · rintro g' hg'
    cases hg'
    exact ⟨hfresh, hspawned⟩

/-- The only task that may have the lock takes a step of `leader_services_shutdown`; the `Option` is
empty after it. -/
theorem Sound.call (h : Sound names o) {point : Option Stopping}
    (halone : ¬ o.watcher.Between ∧ ∀ q, q ≠ p → ¬ o.Holds q)
    (hpoint : ∀ q, o'.stopping? q = if q = p then point else o.stopping? q)
    (hguard : (o'.guard = some p ∧ ∃ reached, point = some reached ∧ reached ≠ .locking) ∨
      (o'.guard = none ∧ point = none))
    (hbetween : o'.watcher.Between → point = none) (hslot : o'.slot = none)
    (hservices : o'.services = o.services) (htokens : o'.tokens = o.tokens)
    (hcancelled : o.cancelled ⊆ o'.cancelled) (hlt : ∀ t ∈ o'.cancelled, t < o'.tokens)
    (hstart : ∀ g todo, o'.watcher = .starting g todo → o.watcher = .starting g todo)
    (htook : ∀ g, point = some (.took g) → o'.Fresh g ∧ Spawned o.given names g)
    (hawaited : ∀ handles, point = some (.joining handles) → ∀ b ∈ handles, o'.Settled b.2)
    (hjoined : ∀ id ∈ o'.joined, id ∈ o.joined ∨ o'.Settled id) : Sound names o' := by
  obtain ⟨hb, hothers⟩ := halone
  have hgiven : o'.given = o.given := by rw [given, given, hservices]
  have hp : o'.stopping? p = point := by rw [hpoint, if_pos rfl]
  have hne : ∀ q, q ≠ p → ¬ o'.Holds q := by
    rintro q hq ⟨reached, hat, hlocking⟩
    rw [hpoint, if_neg hq] at hat
    exact hothers q hq ⟨reached, hat, hlocking⟩
  have honly : ∀ q reached, o'.stopping? q = some reached → reached ≠ .locking →
      point = some reached := by
    intro q reached hat hlocking
    by_cases hq : q = p
    · rw [← hp, ← hq, hat]
    · exact absurd ⟨reached, hat, hlocking⟩ (hne q hq)
  refine
    { guard := fun q => ?_
      between := fun hb' => ⟨hslot, ?_⟩
      held := fun _ _ => hslot
      given_lt := by rw [hgiven, htokens]; exact h.given_lt
      cancelled_lt := hlt
      starting := fun g todo hw => ?_
      published := fun g hg => ?_
      took := fun q g hq => by rw [hgiven]; exact htook g (honly q _ hq (by simp))
      awaited := fun q handles hq => hawaited handles (honly q _ hq (by simp))
      joined := fun id hid => (hjoined id hid).elim (fun hid => ?_) fun hid => hid }
  · by_cases hq : q = p
    · subst hq
      rcases hguard with ⟨hg, reached, hat, hlocking⟩ | ⟨hg, hnone⟩
      · exact ⟨fun _ => ⟨reached, hp.trans hat, hlocking⟩, fun _ => hg⟩
      · constructor
        · intro hg'
          rw [hg] at hg'
          cases hg'
        · rintro ⟨reached, hat, -⟩
          rw [hp, hnone] at hat
          cases hat
    · constructor
      · intro hg'
        rcases hguard with ⟨hg, -⟩ | ⟨hg, -⟩
        · rw [hg] at hg'
          exact absurd (Option.some.inj hg').symm hq
        · rw [hg] at hg'
          cases hg'
      · intro hq'
        exact absurd hq' (hne q hq)
  · rintro q ⟨reached, hat, hlocking⟩
    have := honly q reached hat hlocking
    rw [hbetween hb'] at this
    cases this
  · exact absurd (by rw [hstart g todo hw]; trivial) hb
  · rw [hslot] at hg
    cases hg
  · exact (h.joined id hid).mono (by rw [hgiven]) hcancelled

/-- Beside a task with the lock, no start callback runs, and no other task has the lock. -/
theorem Sound.alone (h : Sound names o) (hp : o.Holds p) :
    ¬ o.watcher.Between ∧ ∀ q, q ≠ p → ¬ o.Holds q := by
  constructor
  · intro hb
    exact (h.between hb).2 p hp
  · intro q hne hq
    exact hne (holds_unique h.guard hq hp)

theorem Sound.take (h : Sound names o) (hstep : step names o (.take p) = some o') :
    Sound names o' := by
  obtain ⟨hp, hguard, ⟨g, hslot, rfl⟩ | ⟨hslot, rfl⟩⟩ := take_cases hstep
  · have hnot := not_holds h.guard hguard
    obtain ⟨w, m, heq, hpoint, hw, hstart⟩ :=
      setStopping_eq { o with slot := none, guard := some p } (.took g) p
    rw [heq]
    have hb : ¬ o.watcher.Between := fun hb => by
      have := (h.between hb).1
      rw [hslot] at this
      cases this
    exact h.call ⟨hb, fun q _ => hnot q⟩ hpoint (Or.inl ⟨rfl, _, rfl, by simp⟩)
      (fun hb' => absurd (hw hb') hb) rfl rfl rfl (List.Subset.refl _) h.cancelled_lt hstart
      (fun g' hg' => by cases hg'; exact h.published g hslot) (by simp) fun id hid => Or.inl hid
  · obtain ⟨w, m, heq, hpoint, hstart⟩ := stopped_eq o p
    rw [heq]
    refine h.move (fun q point hne => ?_) (fun _ => ⟨hslot, not_holds h.guard hguard⟩) hstart
    rw [hpoint]
    by_cases hq : q = p
    · rw [if_pos hq, hq, hp]
      simp [hne.symm]
    · rw [if_neg hq]

theorem Sound.cancel (h : Sound names o) (hstep : step names o (.cancel p) = some o') :
    Sound names o' := by
  obtain ⟨g, hp, rfl⟩ := cancel_cases hstep
  have hholds : o.Holds p := ⟨_, hp, by simp⟩
  obtain ⟨hfresh, hspawned⟩ := h.took p g hp
  obtain ⟨w, m, heq, hpoint, hw, hstart⟩ :=
    setStopping_eq { o with cancelled := g.shutdown :: o.cancelled } (.joining g.handles.toList) p
  rw [heq]
  refine h.call (h.alone hholds) hpoint
    (Or.inl ⟨(h.guard p).2 hholds, _, rfl, by simp⟩)
    (fun hb' => absurd (hw hb') (h.alone hholds).1) (h.held p hholds) rfl rfl
    (List.subset_cons_self _ _) (fun t ht => ?_) hstart (by simp) ?_ fun id hid => Or.inl hid
  · rcases List.mem_cons.1 ht with rfl | ht
    · exact hfresh.1
    · exact h.cancelled_lt t ht
  · intro handles hhandles b hb
    cases hhandles
    exact ⟨_, List.mem_cons_self, hspawned.kept (List.mem_map_of_mem hb)⟩

theorem Sound.join (h : Sound names o) (hstep : step names o (.join p) = some o') :
    Sound names o' := by
  obtain ⟨name, id, handles, token, hp, hcases⟩ := join_cases hstep
  have hholds : o.Holds p := ⟨_, hp, by simp⟩
  have hsettled := h.awaited p _ hp
  have hjoined : ∀ i ∈ id :: o.joined, i ∈ o.joined ∨ o.Settled i := by
    intro i hi
    rcases List.mem_cons.1 hi with rfl | hi
    · exact Or.inr (hsettled _ List.mem_cons_self)
    · exact Or.inl hi
  rcases hcases with ⟨hid, rfl⟩ | ⟨hid, rfl⟩
  · obtain ⟨w, m, heq, hpoint, hw, hstart⟩ :=
      setStopping_eq { o with joined := id :: o.joined } (.joining handles) p
    rw [heq]
    refine h.call (h.alone hholds) hpoint (Or.inl ⟨(h.guard p).2 hholds, _, rfl, by simp⟩)
      (fun hb => absurd (hw hb) (h.alone hholds).1) (h.held p hholds) rfl rfl
      (List.Subset.refl _) h.cancelled_lt hstart (by simp) ?_ hjoined
    intro handles' heq' b hb
    cases heq'
    exact hsettled b (List.mem_cons_of_mem _ hb)
  · obtain ⟨w, m, heq, hpoint, hw, hstart⟩ :=
      panics_eq { o with joined := id :: o.joined, guard := none } p
    rw [heq]
    exact h.call (h.alone hholds) hpoint (Or.inr ⟨rfl, rfl⟩) (fun _ => rfl) (h.held p hholds)
      rfl rfl (List.Subset.refl _) h.cancelled_lt hstart (by simp) (by simp) hjoined

theorem Sound.unlock (h : Sound names o) (hstep : step names o (.unlock p) = some o') :
    Sound names o' := by
  obtain ⟨hp, rfl⟩ := unlock_cases hstep
  have hholds : o.Holds p := ⟨_, hp, by simp⟩
  obtain ⟨w, m, heq, hpoint, hstart⟩ := stopped_eq { o with guard := none } p
  rw [heq]
  exact h.call (h.alone hholds) hpoint
    (Or.inr ⟨rfl, rfl⟩) (fun _ => rfl) (h.held p hholds) rfl rfl (List.Subset.refl _)
    h.cancelled_lt hstart (by simp) (by simp) fun id hid => Or.inl hid

/-- **Every step keeps the invariant**, whatever the names and the ends of the services. -/
theorem Sound.step (h : Sound names o) {e : Event} (hstep : Orchestrator.step names o e = some o') :
    Sound names o' := by
  cases e with
  | becomeLeader => exact h.becomeLeader hstep
  | spawn => exact h.spawn hstep
  | publish => exact h.publish hstep
  | take p => exact h.take hstep
  | cancel p => exact h.cancel hstep
  | join p => exact h.join hstep
  | unlock p => exact h.unlock hstep
  | finish id => exact h.endService hstep
  | panic id => exact h.endService hstep
  | stepDown | close | parse ok | shutdown | joinStatic | stopApplication ok | joinInternal ok
  | stopRaft ok =>
    obtain ⟨watcher, main, rfl, hmoves⟩ := outside_cases (by trivial) hstep
    refine h.move (fun q _ hne => hmoves.stopping?_iff q hne) (fun hb => ?_) fun g todo hw => ?_
    · exact h.between (hmoves.watcher_eq hb.busy ▸ hb)
    · rw [← hmoves.watcher_eq (by rw [hw]; trivial), hw]

theorem sound_exec {tr : List Event}
    (hrun : Run.exec (Orchestrator.step names) start tr = some o) : Sound names o :=
  Run.exec_invariant (fun _ _ _ h hstep => Sound.step h hstep) hrun sound_start

end Orchestrator

end RaftService
