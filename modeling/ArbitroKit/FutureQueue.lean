import ArbitroKit.TransitionSystem
import Mathlib.Data.List.Infix

/-!
# A queue whose ends can be futures

What a bounded queue between one sender and one receiver is for, when a send or a receive
can be a future that is polled for a while and then completes or is dropped: a send takes
effect at one moment, and so does a receive, and only a future that has not yet taken
effect can be dropped.  Every step carries the event that the callers see of it.
-/

open Transition

/-- A bounded queue, its history, and the futures of its two ends. -/
structure FutureQueue (α : Type*) where
  queue : List α
  sent : List α
  received : List α
  /-- The value of the send future, and whether the queue has taken it. -/
  sending : Option (α × Bool)
  /-- The value that the receive future has taken. -/
  receiving : Option (Option α)
  closed : Bool

namespace FutureQueue

variable {α : Type*} {bound : Nat} {q after : FutureQueue α}

def empty : FutureQueue α where
  queue := []
  sent := []
  received := []
  sending := none
  receiving := none
  closed := false

/-- Values enter the queue. -/
def push (q : FutureQueue α) (values : List α) : FutureQueue α :=
  { q with queue := q.queue ++ values, sent := q.sent ++ values }

/-- The oldest value leaves the queue, the others stay. -/
def pop (q : FutureQueue α) (value : α) (rest : List α) : FutureQueue α :=
  { q with queue := rest, received := q.received ++ [value] }

/-- What the callers see of a step. -/
inductive Event (α : Type*) where
  -- inside a call that is no future, inside a poll, or while a handle is being dropped
  | sendCall
  | recvCall
  | sendPoll
  | recvPoll
  | leaving
  -- a handle is dropped
  | closes
  -- the send future: made, `Ok`, `Err` with the value, dropped
  | sendStarts (value : α)
  | sendOk (value : α)
  | sendClosed (value : α)
  | sendDropped (value : α)
  -- the receive future: made, `Some`, `None`, dropped
  | recvStarts
  | recvSome (value : α)
  | recvNone
  | recvDropped
  deriving DecidableEq, Repr

/-- Nothing comes of the step for a caller. -/
def Event.silent : Event α → Bool
  | .sendCall => true
  | .recvCall => true
  | .sendPoll => true
  | .recvPoll => true
  | .leaving => true
  | _ => false

/-- One step of either end, under its event. -/
inductive Moves (bound : Nat) (q : FutureQueue α) : Event α → FutureQueue α → Prop
  | idles (event : Event α) (silent : event.silent = true) : Moves bound q event q
  -- a call that is no future
  | pushes (values : List α) (alone : q.sending = none)
      (room : q.queue.length + values.length ≤ bound) :
      Moves bound q .sendCall (q.push values)
  | pops (value : α) (rest : List α) (alone : q.receiving = none)
      (oldest : q.queue = value :: rest) : Moves bound q .recvCall (q.pop value rest)
  | closes : Moves bound q .closes { q with closed := true }
  -- the send future
  | startSend (value : α) (alone : q.sending = none) :
      Moves bound q (.sendStarts value) { q with sending := some (value, false) }
  | takesEffect (value : α) (offered : q.sending = some (value, false))
      (room : q.queue.length + 1 ≤ bound) :
      Moves bound q .sendPoll { q.push [value] with sending := some (value, true) }
  | completes (value : α) (taken : q.sending = some (value, true)) :
      Moves bound q (.sendOk value) { q with sending := none }
  | refused (value : α) (offered : q.sending = some (value, false))
      (closed : q.closed = true) : Moves bound q (.sendClosed value) { q with sending := none }
  | dropSend (value : α) (offered : q.sending = some (value, false)) :
      Moves bound q (.sendDropped value) { q with sending := none }
  -- the receive future
  | startRecv (alone : q.receiving = none) :
      Moves bound q .recvStarts { q with receiving := some none }
  | takes (value : α) (rest : List α) (asks : q.receiving = some none)
      (oldest : q.queue = value :: rest) :
      Moves bound q .recvPoll { q.pop value rest with receiving := some (some value) }
  | returns (value : α) (taken : q.receiving = some (some value)) :
      Moves bound q (.recvSome value) { q with receiving := none }
  | ends (asks : q.receiving = some none) (closed : q.closed = true) (drained : q.queue = []) :
      Moves bound q .recvNone { q with receiving := none }
  | dropRecv (asks : q.receiving = some none) :
      Moves bound q .recvDropped { q with receiving := none }

/-- Every interleaving of the two ends. -/
def system (bound : Nat) : System (FutureQueue α) (Event α) where
  Initial q := q = empty
  Step before event after := Moves bound before event after

/-- What the end of a future says of the queue. -/
def Means (q : FutureQueue α) (event : Event α) (after : FutureQueue α) : Prop :=
  match event with
  | .sendOk value => q.sending = some (value, true) ∧ q.sent.getLast? = some value ∧
      after = { q with sending := none }
  | .sendClosed value => q.sending = some (value, false) ∧ q.closed = true ∧
      after = { q with sending := none }
  | .sendDropped value => q.sending = some (value, false) ∧ after = { q with sending := none }
  | .recvSome value => q.receiving = some (some value) ∧ q.received.getLast? = some value ∧
      after = { q with receiving := none }
  | .recvNone => q.receiving = some none ∧ q.closed = true ∧ q.queue = [] ∧
      after = { q with receiving := none }
  | .recvDropped => q.receiving = some none ∧ after = { q with receiving := none }
  | _ => True

/-- First in, first out, each value once, never more than the bound, and what a future has
taken effect on is the newest of its end. -/
structure Sound (bound : Nat) (q : FutureQueue α) : Prop where
  conserved : q.received ++ q.queue = q.sent
  bounded : q.queue.length ≤ bound
  newestSent : ∀ value, q.sending = some (value, true) → q.sent.getLast? = some value
  newestReceived : ∀ value, q.receiving = some (some value) → q.received.getLast? = some value

theorem sound_empty : Sound bound (empty : FutureQueue α) where
  conserved := rfl
  bounded := Nat.zero_le bound
  newestSent value taken := by cases taken
  newestReceived value taken := by cases taken

theorem Sound.moves {event : Event α} (sound : Sound bound q)
    (moves : Moves bound q event after) : Sound bound after := by
  have conserved := sound.conserved
  cases moves with
  | idles event silent => exact sound
  | pushes values alone room =>
      refine ⟨?_, ?_, ?_, sound.newestReceived⟩
      · change q.received ++ (q.queue ++ values) = q.sent ++ values
        rw [← List.append_assoc, conserved]
      · change (q.queue ++ values).length ≤ bound
        rwa [List.length_append]
      · intro value taken
        change q.sending = _ at taken
        rw [alone] at taken
        cases taken
  | pops value rest alone oldest =>
      rw [oldest] at conserved
      refine ⟨?_, ?_, sound.newestSent, ?_⟩
      · change (q.received ++ [value]) ++ rest = q.sent
        rw [List.append_assoc, ← conserved]
        rfl
      · have bounded := sound.bounded
        rw [oldest] at bounded
        exact (Nat.le_succ _).trans bounded
      · intro value taken
        change q.receiving = _ at taken
        rw [alone] at taken
        cases taken
  | closes => exact ⟨conserved, sound.bounded, sound.newestSent, sound.newestReceived⟩
  | startSend value alone =>
      refine ⟨conserved, sound.bounded, ?_, sound.newestReceived⟩
      intro value taken
      cases taken
  | takesEffect value offered room =>
      refine ⟨?_, ?_, ?_, sound.newestReceived⟩
      · change q.received ++ (q.queue ++ [value]) = q.sent ++ [value]
        rw [← List.append_assoc, conserved]
      · change (q.queue ++ [value]).length ≤ bound
        rwa [List.length_append]
      · intro other taken
        cases taken
        exact List.getLast?_concat
  | completes value taken | refused value offered closed | dropSend value offered =>
      refine ⟨conserved, sound.bounded, ?_, sound.newestReceived⟩
      intro value taken
      cases taken
  | startRecv alone =>
      refine ⟨conserved, sound.bounded, sound.newestSent, ?_⟩
      intro value taken
      cases taken
  | takes value rest asks oldest =>
      rw [oldest] at conserved
      refine ⟨?_, ?_, sound.newestSent, ?_⟩
      · change (q.received ++ [value]) ++ rest = q.sent
        rw [List.append_assoc, ← conserved]
        rfl
      · have bounded := sound.bounded
        rw [oldest] at bounded
        exact (Nat.le_succ _).trans bounded
      · intro other taken
        cases taken
        exact List.getLast?_concat
  | returns value taken | ends asks closed drained | dropRecv asks =>
      refine ⟨conserved, sound.bounded, sound.newestSent, ?_⟩
      intro value taken
      cases taken

/-- A completed future has taken effect, a refused or dropped one has not, and the end of
the stream is the end. -/
theorem Sound.means {event : Event α} (sound : Sound bound q)
    (moves : Moves bound q event after) : Means q event after := by
  cases moves with
  | idles event silent => cases event <;> trivial
  | completes value taken => exact ⟨taken, sound.newestSent value taken, rfl⟩
  | refused value offered closed => exact ⟨offered, closed, rfl⟩
  | dropSend value offered => exact ⟨offered, rfl⟩
  | returns value taken => exact ⟨taken, sound.newestReceived value taken, rfl⟩
  | ends asks closed drained => exact ⟨asks, closed, drained, rfl⟩
  | dropRecv asks => exact ⟨asks, rfl⟩
  | pushes | pops | closes | startSend | takesEffect | startRecv | takes => trivial

theorem sound (reached : (system bound).Reachable q) : Sound bound q := by
  apply reached.invariant (Sound bound)
  · rintro - rfl
    exact sound_empty
  · intro before label after _ ok moves
    exact ok.moves moves

end FutureQueue
