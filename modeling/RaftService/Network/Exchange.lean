import RaftService.Network.Snapshot
import RaftService.Lib.Run

/-!
# The exchange between `full_snapshot` and `snapshot`

The client and the server of one snapshot transfer, one step at a time, over the channel that
feeds the request stream and the messages in flight. The client awaits the response of the call
before it sends its first message; the handler awaits the first message before it can respond
(`Exchange.deadlocks`). What any run comes to is `Exchange.Blocked`: the call is made, and nothing
is ever sent.
-/

namespace RaftService

/-- The errors that `full_snapshot` returns: `RPCError::Unreachable` and `NetworkError`. -/
inductive StreamingError
  | unreachable (message : String)
  | network (message : String)

/-- Where the client is: in `new_client`; at the await of `client.snapshot(strm)`; at the await of
`tx.send`, with the response and the messages still to send; or returned, with `tx` dropped. -/
inductive ClientPoint
  | connecting
  | calling
  | sending (response : Pb.SnapshotResponse) (todo : List Pb.SnapshotRequest)
  | returned (result : Except StreamingError Pb.Vote)

/-- Where the server is: not called yet; in the handler, with the messages received so far; or
returned. -/
inductive ServerPoint
  | idle
  | receiving (items : List Pb.SnapshotRequest)
  | returned

/-- One transfer: the two parties, the bounded channel, the messages in flight, whether the request
stream has ended, the response in flight, the calls of `install_full_snapshot`, and whether the
transport is broken. -/
structure Exchange where
  client : ClientPoint
  channel : List Pb.SnapshotRequest
  wire : List Pb.SnapshotRequest
  ended : Bool
  server : ServerPoint
  response : Option (Except Status Pb.SnapshotResponse)
  installs : List (Pb.Vote × Snapshot)
  broken : Bool

namespace Exchange

/-- The capacity of the channel. -/
def capacity : ℕ := 1024

/-- The steps of the parties and of the transport; `breaks` is a transport error. -/
inductive Event
  | connected
  | unreachable (message : String)
  | accept
  | resolve
  | send
  | finish
  | drain
  | close
  | receive
  | handle
  | breaks
  | clientBroken
  | serverBroken
  deriving DecidableEq

/-- Before the call. -/
def start : Exchange := ⟨.connecting, [], [], false, .idle, none, [], false⟩

/-- The end of the handler: it responds with what it returns; a panic breaks the connection. -/
def returns (x : Exchange) (handled : RaftServiceImpl.Handled) : Exchange :=
  match handled.result with
  | .ok response =>
    { x with
      server := .returned
      response := some response
      installs := x.installs ++ handled.installs }
  | .error _ =>
    { x with
      server := .returned
      installs := x.installs ++ handled.installs
      broken := true }

theorem broken_returns {x : Exchange} (h : x.broken = true) (handled : RaftServiceImpl.Handled) :
    (x.returns handled).broken = true := by
  rw [returns]
  split
  · exact h
  · rfl

variable [Openraft]

/-- The handler goes on to await the next item after these. -/
def awaitsNext : List Pb.SnapshotRequest → Bool
  | [] => true
  | first :: rest =>
    match first.intoMeta with
    | none => false
    | some m =>
      (RaftServiceImpl.readMeta m).isOk && rest.all fun chunk => chunk.intoDataChunk.isSome

variable (raft : Pb.Vote → Snapshot → Except String Pb.Vote) (vote : Pb.Vote)
  (snapshot : Snapshot)

/-- One step of the transfer of a snapshot. The await of the call resolves when the response has
arrived; the request stream is drained in the background and ends when `tx` is dropped. -/
def step (x : Exchange) : Event → Option Exchange
  | .connected =>
    match x.client with
    | .connecting => some { x with client := .calling }
    | _ => none
  | .unreachable message =>
    match x.client with
    | .connecting => some { x with client := .returned (.error (.unreachable message)) }
    | _ => none
  | .accept =>
    match x.client, x.server with
    | .calling, .idle => some { x with server := .receiving [] }
    | _, _ => none
  | .resolve =>
    match x.client, x.response with
    | .calling, some (.ok response) =>
      some { x with client := .sending response (fullSnapshotRequests vote snapshot) }
    | .calling, some (.error status) =>
      some { x with client := .returned (.error (.network status.message)) }
    | _, _ => none
  | .send =>
    match x.client with
    | .sending response (request :: todo) =>
      if x.channel.length < capacity then
        some { x with client := .sending response todo, channel := x.channel ++ [request] }
      else none
    | _ => none
  | .finish =>
    match x.client with
    | .sending response [] =>
      match response.vote with
      | some vote => some { x with client := .returned (.ok vote) }
      | none =>
        some { x with
          client := .returned (.error (.network "Missing `vote` in snapshot response")) }
    | _ => none
  | .drain =>
    match x.channel with
    | request :: channel => some { x with channel := channel, wire := x.wire ++ [request] }
    | [] => none
  | .close =>
    match x.client, x.channel, x.ended with
    | .returned _, [], false => some { x with ended := true }
    | _, _, _ => none
  | .receive =>
    match x.server, x.wire with
    | .receiving items, request :: wire =>
      if awaitsNext items then
        some { x with server := .receiving (items ++ [request]), wire := wire }
      else none
    | _, _ => none
  | .handle =>
    match x.server with
    | .receiving items =>
      if awaitsNext items = false ∨ (x.wire = [] ∧ x.ended = true) then
        some (x.returns (RaftServiceImpl.snapshot raft (items.map .ok)))
      else none
    | _ => none
  | .breaks => some { x with broken := true }
  | .clientBroken =>
    match x.broken, x.client with
    | true, .calling => some { x with client := .returned (.error (.network "transport error")) }
    | true, .sending _ _ =>
      some { x with client := .returned (.error (.network "channel closed")) }
    | _, _ => none
  | .serverBroken =>
    match x.broken, x.server with
    | true, .receiving items =>
      some (x.returns (RaftServiceImpl.snapshot raft
        (items.map .ok ++ [.error ⟨.unknown, "transport error"⟩])))
    | _, _ => none

/-- The call has returned on both sides; the server side may never have been reached. -/
def Returned (x : Exchange) : Prop :=
  (∃ result, x.client = .returned result) ∧ (x.server = .returned ∨ x.server = .idle)

/-- No party has an enabled step. -/
def Stuck (x : Exchange) : Prop := ∀ e, e ≠ .breaks → step raft vote snapshot x e = none

/-- In every reachable state, some party has an enabled step, unless the call has returned on both
sides or the transport has broken. -/
def DeadlockFree : Prop :=
  ∀ tr x, Run.exec (step raft vote snapshot) start tr = some x → x.broken = false →
    ¬ x.Returned → ¬ Stuck raft vote snapshot x

/-- The call is not made, or it has failed to connect, or the client awaits the response while the
server has received nothing; nothing has been sent. -/
def Blocked (x : Exchange) : Prop :=
  x.channel = [] ∧ x.wire = [] ∧ x.response = none ∧ x.installs = [] ∧
    (x.client = .connecting ∧ x.ended = false ∧ x.server = .idle ∨
      (∃ e, x.client = .returned (.error e)) ∧ x.server = .idle ∨
      x.client = .calling ∧ x.ended = false ∧ (x.server = .idle ∨ x.server = .receiving []))

/-! ### Runs -/

variable {raft vote snapshot}

/-- **Until the transport breaks, every step keeps the exchange blocked.** -/
theorem Blocked.step {x x' : Exchange} {e : Event} (h : Blocked x) (hb : x.broken = false)
    (hstep : Exchange.step raft vote snapshot x e = some x') : x'.broken = true ∨ Blocked x' := by
  obtain ⟨client, channel, wire, ended, server, response, installs, broken⟩ := x
  obtain ⟨rfl, rfl, rfl, rfl, hcases⟩ := h
  simp only at hb hcases
  subst hb
  rcases hcases with ⟨rfl, rfl, rfl⟩ | ⟨⟨err, rfl⟩, rfl⟩ | ⟨rfl, rfl, rfl | rfl⟩
  · -- before the call: it is made, or the server is unreachable
    cases e <;> simp only [Exchange.step, Option.some.injEq, reduceCtorEq] at hstep <;> subst hstep
    case connected => exact Or.inr ⟨rfl, rfl, rfl, rfl, Or.inr (Or.inr ⟨rfl, rfl, Or.inl rfl⟩)⟩
    case unreachable m =>
      exact Or.inr ⟨rfl, rfl, rfl, rfl, Or.inr (Or.inl ⟨⟨_, rfl⟩, rfl⟩)⟩
    case breaks => exact Or.inl rfl
  · cases e <;> simp only [Exchange.step, Option.some.injEq, reduceCtorEq] at hstep
    case close =>
      cases ended <;> simp only [Option.some.injEq, reduceCtorEq] at hstep
      subst hstep
      exact Or.inr ⟨rfl, rfl, rfl, rfl, Or.inr (Or.inl ⟨⟨_, rfl⟩, rfl⟩)⟩
    case breaks => subst hstep; exact Or.inl rfl
  · cases e <;> simp only [Exchange.step, Option.some.injEq, reduceCtorEq] at hstep <;> subst hstep
    case accept => exact Or.inr ⟨rfl, rfl, rfl, rfl, Or.inr (Or.inr ⟨rfl, rfl, Or.inr rfl⟩)⟩
    case breaks => exact Or.inl rfl
  · -- the client waits for the response, the handler for the first message
    cases e <;> simp [Exchange.step, awaitsNext] at hstep
    subst hstep
    exact Or.inl rfl

/-- A broken transport stays broken. -/
theorem broken_step {x x' : Exchange} {e : Event} (h : x.broken = true)
    (hstep : Exchange.step raft vote snapshot x e = some x') : x'.broken = true := by
  cases e <;> simp only [Exchange.step] at hstep
  case breaks => cases hstep; rfl
  all_goals repeat' split at hstep
  all_goals cases hstep
  all_goals first | exact h | exact broken_returns h _

/-- **No snapshot is transferred**: in every state that a run reaches before the transport breaks,
nothing has been sent and nothing installed. -/
theorem blocked_of_run {tr : List Event} {x : Exchange}
    (hrun : Run.exec (Exchange.step raft vote snapshot) start tr = some x)
    (hb : x.broken = false) : Blocked x := by
  have hinv : x.broken = true ∨ Blocked x := by
    refine Run.exec_invariant (P := fun x => x.broken = true ∨ Blocked x) (fun x e x' h hstep => ?_)
      hrun (Or.inr ⟨rfl, rfl, rfl, rfl, Or.inl ⟨rfl, rfl, rfl⟩⟩)
    rcases h with hbroken | h
    · exact Or.inl (broken_step hbroken hstep)
    · cases hx : x.broken with
      | true => exact Or.inl (broken_step hx hstep)
      | false => exact h.step hx hstep
  exact hinv.resolve_left (by simp [hb])

/-- Once the handler has been called, no party can move. -/
theorem stuck_of_blocked {x : Exchange} {items : List Pb.SnapshotRequest} (h : Blocked x)
    (hb : x.broken = false) (hserver : x.server = .receiving items) :
    Stuck raft vote snapshot x := by
  obtain ⟨client, channel, wire, ended, server, response, installs, broken⟩ := x
  obtain ⟨rfl, rfl, rfl, rfl, hcases⟩ := h
  simp only at hb hserver hcases
  subst hb hserver
  obtain ⟨rfl, rfl, hitems⟩ : client = .calling ∧ ended = false ∧ items = [] := by
    simpa using hcases
  subst hitems
  intro e he
  cases e <;> simp [Exchange.step, awaitsNext] at he ⊢

/-- Two steps lead there. -/
theorem exists_stuck (raft : Pb.Vote → Snapshot → Except String Pb.Vote) (vote : Pb.Vote)
    (snapshot : Snapshot) :
    ∃ x, Run.exec (Exchange.step raft vote snapshot) start [.connected, .accept] = some x ∧
      x.broken = false ∧ ¬ x.Returned ∧ Stuck raft vote snapshot x := by
  have hrun : Run.exec (Exchange.step raft vote snapshot) start [.connected, .accept] =
      some ⟨.calling, [], [], false, .receiving [], none, [], false⟩ := rfl
  refine ⟨_, hrun, rfl, ?_, stuck_of_blocked (blocked_of_run hrun rfl) rfl rfl⟩
  rintro ⟨⟨result, hclient⟩, -⟩
  cases hclient

/-- **Every snapshot transfer can deadlock**, whatever the vote and the snapshot. -/
theorem deadlocks (raft : Pb.Vote → Snapshot → Except String Pb.Vote) (vote : Pb.Vote)
    (snapshot : Snapshot) : ¬ DeadlockFree raft vote snapshot := by
  obtain ⟨x, hrun, hbroken, hreturned, hstuck⟩ := exists_stuck raft vote snapshot
  exact fun hfree => hfree _ x hrun hbroken hreturned hstuck

end Exchange

/-! ### A snapshot of the counter -/

namespace Exchange

open scoped Counter

/-- The transfer of a snapshot of the counter is not free of deadlocks. -/
theorem counterSnapshot_stuck :
    ¬ DeadlockFree (fun vote _ => .ok vote) Counter.vote RaftServiceImpl.counterSnapshot := by
  intro hfree
  obtain ⟨x, hrun, hbroken, hreturned, hstuck⟩ :=
    exists_stuck (fun vote _ => .ok vote) Counter.vote RaftServiceImpl.counterSnapshot
  exact hfree [.connected, .accept] x hrun hbroken hreturned hstuck

end Exchange

end RaftService
