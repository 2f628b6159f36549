import ArbitroKit.AsyncGate
import ArbitroKit.Waiter

/-!
# Waiting for a predicate over a wake gate

`NotifyWaiter::wait_until` between the tasks of a channel: the predicate on entry, the
notification, the predicate behind it, the await, and the predicate once more.  The
predicate is the caller's, and so are its loads: here only its answers count, and what of
it is left while it is evaluated.
-/

namespace ArbitroKit

/-- What follows once the notification is dropped: the predicate once more, the return of
`wait_until`, or nothing, when the future was dropped. -/
inductive AfterAwait where
  | again
  | finished
  | dropped
  deriving DecidableEq, Repr

/-- Where a task stands inside `wait_until`; `rest` is what is left of the predicate. -/
inductive AwaitPc (ρ : Type*) where
  | check (phase : WaitPhase) (rest : ρ)
  -- `notified()`
  | notified
  -- `notified.await`: its first poll, and suspended
  | poll
  | suspended
  | dropNotified (next : AfterAwait)
  | disarm (next : AfterAwait)
  deriving DecidableEq, Repr

/-- Where the call goes on. -/
inductive AwaitNext (ρ : Type*) where
  | goes (pc : AwaitPc ρ)
  | returned
  | dropped
  deriving DecidableEq, Repr

/-- A step of the wait, and what the task synchronises with by it. -/
structure Awaited (ρ : Type*) where
  gate : AsyncGate
  seen : Nat → Nat
  next : AwaitNext ρ

namespace AwaitPc

variable {ρ : Type*}

/-- The predicate came out. -/
def answered (phase : WaitPhase) (ready : Bool) : AwaitNext ρ :=
  match phase, ready with
  | .entry, true => .returned
  | .entry, false => .goes .notified
  | .announced, true => .goes (.dropNotified .finished)
  | .announced, false => .goes .poll

/-- One poll of the notification. -/
def pollNotified (gate : AsyncGate) (pending : AsyncGate → Option (Awaited ρ)) :
    Option (Awaited ρ) :=
  let (ready, gate) := gate.poll
  if ready then
    some ⟨gate, gate.delivered, .goes (.dropNotified .again)⟩
  else
    pending gate

/-- The guard is dropped. -/
def disarmed (first : ρ) : AfterAwait → AwaitNext ρ
  | .again => .goes (.check .entry first)
  | .finished => .returned
  | .dropped => .dropped

/-- A step that is not one of the predicate, which starts at `first`. -/
def tick (gate : AsyncGate) (first : ρ) : AwaitPc ρ → Option (Awaited ρ)
  | .check _ _ => none
  | .notified => some ⟨gate.arm, gate.probed, .goes (.check .announced first)⟩
  | .poll => pollNotified gate fun gate => some ⟨gate, fun _ => 0, .goes .suspended⟩
  | .suspended => pollNotified gate fun _ => none
  | .dropNotified next => some ⟨gate.dropNotified, fun _ => 0, .goes (.disarm next)⟩
  | .disarm next => some ⟨gate.disarm, fun _ => 0, disarmed first next⟩

/-- Where the task stands with its gate. -/
def phase : AwaitPc ρ → GatePhase
  | .check .entry _ => .away
  | .check .announced _ => .armed
  | .notified => .away
  | .poll => .armed
  | .suspended => .suspended
  | .dropNotified _ => .dropNotified
  | .disarm _ => .disarm

/-- The task stands with its gate as before, however far the predicate is. -/
theorem phase_check (phase : WaitPhase) (rest later : ρ) :
    (check phase later).phase = (check phase rest).phase := by
  cases phase <;> rfl

/-- The announced evaluation has found nothing, where `saw` says so of what is left of it
and of its end. -/
def Found (saw : Option ρ → Prop) : AwaitPc ρ → Prop
  | .check .announced rest => saw (some rest)
  | .poll => saw none
  | .suspended => saw none
  | _ => False

/-- How far the announced evaluation has come. -/
def looked : AwaitPc ρ → Option ρ
  | .check _ rest => some rest
  | _ => none

theorem looks_of_found {saw : Option ρ → Prop} {pc : AwaitPc ρ} (found : pc.Found saw) :
    pc.phase.looks = true := by
  unfold Found at found
  split at found <;> first | rfl | exact found.elim

end AwaitPc

namespace AwaitNext

variable {ρ : Type*}

/-- Where the task stands behind the step. -/
def phase : AwaitNext ρ → GatePhase
  | .goes pc => pc.phase
  | .returned => .away
  | .dropped => .away

def Found (saw : Option ρ → Prop) : AwaitNext ρ → Prop
  | .goes pc => pc.Found saw
  | .returned => False
  | .dropped => False

def looked : AwaitNext ρ → Option ρ
  | .goes pc => pc.looked
  | .returned => none
  | .dropped => none

theorem looks_of_found {saw : Option ρ → Prop} {next : AwaitNext ρ} (found : next.Found saw) :
    next.phase.looks = true := by
  cases next with
  | goes pc => exact AwaitPc.looks_of_found found
  | returned | dropped => exact found.elim

end AwaitNext

namespace AwaitPc

open AsyncGate

variable {ρ : Type*} {gate : AsyncGate} {first : ρ} {pc : AwaitPc ρ} {step : Awaited ρ}

/-- What a step of the wait can be. -/
inductive Steps (gate : AsyncGate) (first : ρ) : AwaitPc ρ → Awaited ρ → Prop
  | arm : Steps gate first .notified ⟨gate.arm, gate.probed, .goes (.check .announced first)⟩
  | ready {pc : AwaitPc ρ} (looks : pc = .poll ∨ pc = .suspended) (ready : gate.poll.1 = true) :
      Steps gate first pc ⟨gate.poll.2, gate.poll.2.delivered, .goes (.dropNotified .again)⟩
  | pending (pending : gate.poll.1 = false) :
      Steps gate first .poll ⟨gate.poll.2, fun _ => 0, .goes .suspended⟩
  | dropNotified (next : AfterAwait) :
      Steps gate first (.dropNotified next)
        ⟨gate.dropNotified, fun _ => 0, .goes (.disarm next)⟩
  | disarm (next : AfterAwait) :
      Steps gate first (.disarm next) ⟨gate.disarm, fun _ => 0, disarmed first next⟩

theorem phase_disarmed (first : ρ) (next : AfterAwait) : (disarmed first next).phase = .away := by
  cases next <;> rfl

theorem not_found_disarmed (first : ρ) (next : AfterAwait) (saw : Option ρ → Prop) :
    ¬ (disarmed first next).Found saw := by
  cases next <;> exact id

theorem tick_steps (taken : pc.tick gate first = some step) : Steps gate first pc step := by
  cases pc with
  | check phase rest => cases taken
  | notified =>
      cases taken
      exact .arm
  | poll =>
      simp only [tick, pollNotified] at taken
      split at taken <;> cases taken
      · exact .ready (.inl rfl) (by assumption)
      · exact .pending (eq_false_of_ne_true (by assumption))
  | suspended =>
      simp only [tick, pollNotified] at taken
      split at taken <;> cases taken
      exact .ready (.inr rfl) (by assumption)
  | dropNotified next =>
      cases taken
      exact .dropNotified next
  | disarm next =>
      cases taken
      exact .disarm next

/-- A step of the wait keeps what holds of the gate. -/
theorem ok_tick (ok : Ok gate pc.phase) (taken : pc.tick gate first = some step) :
    Ok step.gate step.next.phase := by
  cases tick_steps taken with
  | arm => exact Ok.arm ok
  | ready looks ready =>
      refine ok.finishes ?_ ready
      rcases looks with rfl | rfl <;> rfl
  | pending pending => exact Ok.awaits ok pending
  | dropNotified next => exact Ok.dropNotified ok
  | disarm next =>
      change Ok gate.disarm (disarmed first next).phase
      rw [phase_disarmed]
      exact Ok.disarm ok

variable {idx latest view : Nat} {onWay : Prop} {saw : Option ρ → Prop}
  {calm : Option ρ → Prop}

/-- A step of the wait keeps what the task hears of the cursor it waits for. -/
theorem listens_tick (ok : Ok gate pc.phase)
    (listens : Listens gate pc.phase idx latest view onWay (pc.Found saw) (calm pc.looked))
    (unseen : ¬ saw (some first)) (taken : pc.tick gate first = some step) :
    Listens step.gate step.next.phase idx latest (max view (step.seen idx)) onWay
      (step.next.Found saw) (calm step.next.looked) := by
  have heard := listens.toHeard
  cases tick_steps taken with
  | arm => exact .leaves (heard.arm ok) unseen
  | ready looks ready => exact .leaves heard.finishes id
  | pending pending =>
      change Listens gate.poll.2 .suspended idx latest (max view 0) onWay (saw none) (calm none)
      rw [Nat.max_zero]
      exact listens.awaits ok pending id
  | dropNotified next =>
      change Listens gate.dropNotified .disarm idx latest (max view 0) onWay False _
      rw [Nat.max_zero]
      exact .leaves heard.dropNotified id
  | disarm next =>
      change Listens gate.disarm (disarmed first next).phase idx latest (max view 0) onWay _ _
      rw [phase_disarmed, Nat.max_zero]
      exact .leaves heard.disarm (not_found_disarmed first next saw)

/-- The task never sees more than was stored. -/
theorem seen_le_tick (heard : Heard gate pc.phase idx latest view onWay)
    (taken : pc.tick gate first = some step) : step.seen idx ≤ latest := by
  cases tick_steps taken with
  | arm => exact heard.probed_le
  | ready looks ready =>
      change gate.poll.2.delivered idx ≤ latest
      unfold AsyncGate.delivered
      split
      · exact Nat.zero_le latest
      · exact heard.noted_le
  | pending pending | dropNotified next | disarm next => exact Nat.zero_le latest

/-- The future is dropped while it is suspended. -/
theorem listens_cancel (heard : Heard gate .suspended idx latest view onWay) {never : Prop}
    (impossible : ¬ never) {calmAfter : Prop} :
    Listens gate .dropNotified idx latest view onWay never calmAfter :=
  .leaves (heard.goto fun looking => by cases looking) impossible

/-- The answer of the predicate keeps what holds of the gate. -/
theorem ok_answered {phase : WaitPhase} {rest : ρ} {ready : Bool}
    (ok : Ok gate (check phase rest).phase) :
    Ok gate (answered phase ready : AwaitNext ρ).phase := by
  cases phase <;> cases ready
  · exact ok
  · exact ok
  · exact ok
  · exact Ok.cancel ok rfl

/-- The answer of the predicate keeps what the task hears, if a false one makes sure of the
calm. -/
theorem listens_answered {phase : WaitPhase} {rest : ρ} (ready : Bool)
    (listens : Listens gate (check phase rest).phase idx latest view onWay
      ((check phase rest).Found saw) (calm (some rest)))
    (settles : ready = false → saw none → saw (some rest) ∧ (calm (some rest) → calm none)) :
    Listens gate (answered phase ready : AwaitNext ρ).phase idx latest view onWay
      ((answered phase ready : AwaitNext ρ).Found saw)
      (calm (answered phase ready : AwaitNext ρ).looked) := by
  have heard := listens.toHeard
  cases phase with
  | entry => cases ready <;> exact .leaves heard id
  | announced =>
      cases ready with
      | true => exact .leaves (heard.goto fun looking => by cases looking) id
      | false =>
          exact
            { toHeard := heard
              looking := fun _ => rfl
              covered := fun found => by
                obtain ⟨was, stays⟩ := settles rfl found
                exact (listens.covered was).imp_left stays }

/-- A load of the predicate: what it has found so far stays so, or it has looked at the
newest value. -/
theorem listens_loads {phase : WaitPhase} {rest later : ρ} {seen : Nat}
    (listens : Listens gate (check phase rest).phase idx latest view onWay
      ((check phase rest).Found saw) (calm (some rest)))
    (le : view ≤ seen)
    (finds : saw (some later) → saw (some rest) ∧ (calm (some rest) → calm (some later)) ∨
      (latest ≤ seen → calm (some later))) :
    Listens gate (check phase later).phase idx latest seen onWay
      ((check phase later).Found saw) (calm (some later)) := by
  have heard := listens.toHeard.sees le
  cases phase with
  | entry => exact .leaves heard id
  | announced =>
      by_cases found : saw (some later)
      · rcases finds found with ⟨was, stays⟩ | newest
        · exact
            { toHeard := heard
              looking := fun _ => rfl
              covered := fun _ => (listens.covered was).imp_left stays }
        · exact .finds heard rfl newest
      · exact .leaves heard found

end AwaitPc

end ArbitroKit
