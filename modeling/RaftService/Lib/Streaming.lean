import Mathlib

/-!
# Streams of messages on their way

A sender hands a list of messages to a stream; the receiver gets them one by one, in order. The
stream may fail at any point, and the receiver sees an error as its last item; or it may end, and
the receiver sees the end, without a sign of the messages that have not come. `Of messages s` lists
where the stream of these messages can be: `deliver_of`, `fail_of` and `finish_of` say that it
stays there, and `received_of_whole` what the receiver has got of a stream with nothing left.
-/

/-- The messages not delivered yet, the items the receiver has got, and whether it has seen the
end. -/
structure Streaming (M E : Type*) where
  rest : List M
  received : List (Except E M)
  ended : Bool
  deriving DecidableEq

namespace Streaming

variable {M E : Type*}

/-- The stream of a list of messages. -/
def start (messages : List M) : Streaming M E := ⟨messages, [], false⟩

/-- The receiver gets the next message. -/
def deliver (s : Streaming M E) : Option (Streaming M E) :=
  match s.ended, s.rest with
  | false, message :: rest => some ⟨rest, s.received ++ [.ok message], false⟩
  | _, _ => none

/-- The receiver gets an error, and nothing after it. -/
def fail (e : E) (s : Streaming M E) : Option (Streaming M E) :=
  if s.ended then none else some ⟨s.rest, s.received ++ [.error e], true⟩

/-- The receiver sees the end. -/
def finish (s : Streaming M E) : Option (Streaming M E) :=
  if s.ended then none else some { s with ended := true }

/-- Where the stream of these messages is: it goes on, it has ended, or it has failed. -/
inductive Of (messages : List M) : Streaming M E → Prop
  | going {sent rest : List M} (h : sent ++ rest = messages) :
      Of messages ⟨rest, sent.map .ok, false⟩
  | ended {sent rest : List M} (h : sent ++ rest = messages) :
      Of messages ⟨rest, sent.map .ok, true⟩
  | failed {sent rest : List M} (h : sent ++ rest = messages) (e : E) :
      Of messages ⟨rest, sent.map .ok ++ [.error e], true⟩

variable {messages : List M} {s s' : Streaming M E}

theorem start_of (messages : List M) : Of messages (start messages : Streaming M E) :=
  .going (List.nil_append messages)

theorem map_ok_snoc (sent : List M) (message : M) :
    sent.map .ok ++ [(.ok message : Except E M)] = (sent ++ [message]).map .ok := by
  rw [List.map_append, List.map_singleton]

/-- A stream that has ended does not move any more. -/
theorem deliver_of (h : Of messages s) (hstep : s.deliver = some s') : Of messages s' := by
  cases h with
  | @going sent rest h =>
    cases rest with
    | nil => cases hstep
    | cons message rest =>
      cases hstep
      rw [map_ok_snoc]
      exact .going (by rw [List.append_assoc]; exact h)
  | ended h => simp [deliver] at hstep
  | failed h e => simp [deliver] at hstep

theorem fail_of {e : E} (h : Of messages s) (hstep : s.fail e = some s') : Of messages s' := by
  cases h with
  | going h =>
    cases hstep
    exact .failed h e
  | ended h => cases hstep
  | failed h e => cases hstep

theorem finish_of (h : Of messages s) (hstep : s.finish = some s') : Of messages s' := by
  cases h with
  | going h =>
    cases hstep
    exact .ended h
  | ended h => cases hstep
  | failed h e => cases hstep

/-- **What the receiver has got when nothing is left**: all messages, or all messages and an
error. -/
theorem received_of_whole (h : Of messages s) (hrest : s.rest = []) :
    s.received = messages.map .ok ∨ ∃ e, s.received = messages.map .ok ++ [.error e] := by
  have hall : ∀ {sent rest : List M}, sent ++ rest = messages → rest = [] → sent = messages := by
    rintro sent rest rfl rfl
    exact (List.append_nil sent).symm
  cases h with
  | going h => exact Or.inl (by rw [hall h hrest])
  | ended h => exact Or.inl (by rw [hall h hrest])
  | failed h e => exact Or.inr ⟨e, by rw [hall h hrest]⟩

end Streaming
