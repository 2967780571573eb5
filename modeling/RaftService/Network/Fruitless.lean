import RaftService.Network.Exchange

/-!
# No transfer succeeds

The exchange waits as long as the transport works. Here it may break at any time, in any state:
then both sides return, and each of them returns an error. So against a peer with this handler
`full_snapshot` never returns `Ok`, and no snapshot reaches the state machine of the peer.
-/

namespace RaftService

namespace Exchange

variable [Openraft] {raft : Pb.Vote → Snapshot → Except String Pb.Vote} {vote : Pb.Vote}
  {snapshot : Snapshot}

/-- Nothing is sent and nothing installed, the handler has received nothing and does not respond
with `Ok`, and the client is before its first message or has returned an error. -/
structure Fruitless (x : Exchange) : Prop where
  channel : x.channel = []
  wire : x.wire = []
  installs : x.installs = []
  response : ∀ r, x.response ≠ some (.ok r)
  server : ∀ items, x.server = .receiving items → items = []
  client : x.client = .connecting ∨ x.client = .calling ∨ ∃ e, x.client = .returned (.error e)

omit [Openraft] in
/-- A handler that installs nothing and returns an error status. -/
theorem Fruitless.returns {x : Exchange} (h : Fruitless x) (status : Status) :
    Fruitless (x.returns ⟨[], .ok (.error status)⟩) where
  channel := h.channel
  wire := h.wire
  installs := by simp [Exchange.returns, h.installs]
  response r := by simp [Exchange.returns]
  server items := by simp [Exchange.returns]
  client := h.client

/-- **Every step keeps this**, whether the transport is broken or not. -/
theorem Fruitless.step {x x' : Exchange} {e : Event} (h : Fruitless x)
    (hstep : Exchange.step raft vote snapshot x e = some x') : Fruitless x' := by
  cases e with
  | connected =>
    simp only [Exchange.step] at hstep
    split at hstep <;> cases hstep
    exact { h with client := Or.inr (Or.inl rfl) }
  | unreachable message =>
    simp only [Exchange.step] at hstep
    split at hstep <;> cases hstep
    exact { h with client := Or.inr (Or.inr ⟨_, rfl⟩) }
  | accept =>
    simp only [Exchange.step] at hstep
    split at hstep <;> cases hstep
    refine { h with server := fun items hitems => ?_ }
    cases hitems
    rfl
  | resolve =>
    simp only [Exchange.step] at hstep
    split at hstep
    · next response hclient hresponse => exact absurd hresponse (h.response response)
    · cases hstep
      exact { h with client := Or.inr (Or.inr ⟨_, rfl⟩) }
    · cases hstep
  | send | finish =>
    -- the client never comes to send
    have hclient : ∀ response todo, x.client ≠ .sending response todo := by
      intro response todo hx
      rcases h.client with hc | hc | ⟨err, hc⟩ <;> simp [hc] at hx
    simp only [Exchange.step] at hstep
    split at hstep
    · next hx => exact absurd hx (hclient _ _)
    · cases hstep
  | drain =>
    simp [Exchange.step, h.channel] at hstep
  | close =>
    simp only [Exchange.step] at hstep
    split at hstep <;> cases hstep
    exact { h with }
  | receive =>
    simp [Exchange.step, h.wire] at hstep
  | handle =>
    simp only [Exchange.step] at hstep
    split at hstep
    · next items hserver =>
      obtain rfl := h.server items hserver
      simp only [Option.ite_none_right_eq_some, Option.some.injEq] at hstep
      obtain ⟨-, rfl⟩ := hstep
      exact h.returns _
    · cases hstep
  | breaks =>
    cases hstep
    exact { h with }
  | clientBroken =>
    simp only [Exchange.step] at hstep
    split at hstep <;> cases hstep <;> exact { h with client := Or.inr (Or.inr ⟨_, rfl⟩) }
  | serverBroken =>
    simp only [Exchange.step] at hstep
    split at hstep
    · next items hbroken hserver =>
      obtain rfl := h.server items hserver
      cases hstep
      exact h.returns _
    · cases hstep

/-- **`full_snapshot` never succeeds.** In every run, whatever the vote, the snapshot and the answer
of `install_full_snapshot`, and whenever the transport breaks: the client has not sent anything, it
has not returned `Ok`, and the peer has installed nothing. -/
theorem never_succeeds {tr : List Event} {x : Exchange}
    (hrun : Run.exec (Exchange.step raft vote snapshot) start tr = some x) :
    x.channel = [] ∧ x.wire = [] ∧ x.installs = [] ∧ ∀ vote', x.client ≠ .returned (.ok vote') := by
  have h : Fruitless x := by
    refine Run.exec_invariant (fun _ _ _ h hstep => Fruitless.step h hstep) hrun ?_
    refine ⟨rfl, rfl, rfl, ?_, ?_, Or.inl rfl⟩
    · simp [start]
    · simp [start]
  refine ⟨h.channel, h.wire, h.installs, fun vote' hclient => ?_⟩
  rcases h.client with hc | hc | ⟨err, hc⟩ <;> simp [hc] at hclient

end Exchange

namespace Exchange

open scoped Counter

/-- The transport breaks while both sides wait, and both return. -/
def breaking : List Event := [.connected, .accept, .breaks, .serverBroken, .clientBroken]

/-- The client returns an error, and nothing is installed. -/
theorem breaking_fails :
    ∃ x e, Run.exec (Exchange.step (fun vote _ => .ok vote) Counter.vote
        RaftServiceImpl.counterSnapshot) start breaking = some x ∧
      x.Returned ∧ x.client = .returned (.error e) ∧ x.installs = [] := by
  obtain ⟨x, hrun, hclient, hserver⟩ : ∃ x, Run.exec (Exchange.step (fun vote _ => .ok vote)
      Counter.vote RaftServiceImpl.counterSnapshot) start breaking = some x ∧
      x.client = .returned (.error (.network "transport error")) ∧ x.server = .returned :=
    ⟨_, rfl, rfl, rfl⟩
  exact ⟨x, _, hrun, ⟨⟨_, hclient⟩, Or.inl hserver⟩, hclient, (never_succeeds hrun).2.2.1⟩

end Exchange

end RaftService
