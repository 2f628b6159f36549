import ArbitroKit.WakeGate
import Mathlib.Order.Lattice
import Mathlib.Data.Nat.Basic

/-!
# Wake gates between the tasks of a channel

`waiter/notify.rs` where a task waits in a loop of its own: it arms the gate, looks for
work, and awaits the future.  A load may miss stores of the other side, but not those
that the gate has handed over: T1 sees what was stored in front of every earlier T3b,
and whoever consumes a notification sees what was stored in front of its `notify_one`.
Stores are counted in the order of their location.
-/

namespace ArbitroKit

/-- A `WakeGate`.  For the cursor of each ring, the history has how many of its stores
lie in front of a T3b of the gate, and in front of a `notify_one`. -/
structure AsyncGate where
  armed : BitVec 64
  notify : Notify
  probed : Nat → Nat
  noted : Nat → Nat

/-- Where a waker stands inside `wake`. -/
inductive WakeStage where
  -- T3a
  | probe
  -- T3b
  | fetchAdd
  | notifyOne
  deriving DecidableEq, Repr

/-- Where the task of a gate stands between two waits and inside one. -/
inductive GatePhase where
  | away
  -- the future is there and not polled yet
  | armed
  | suspended
  -- the fields of the future drop in order: `notified`, then the guard (T2)
  | dropNotified
  | disarm
  deriving DecidableEq, Repr

namespace AsyncGate

/-- `NotifyWaiter::default`. -/
def new : AsyncGate := ⟨0, .new, fun _ => 0, fun _ => 0⟩

/-- `WakeGate::notified`. -/
def arm (gate : AsyncGate) : AsyncGate :=
  { gate with armed := gate.armed + 1, notify := gate.notify.notified }

/-- One poll of the future, and whether it is ready. -/
def poll (gate : AsyncGate) : Bool × AsyncGate :=
  (gate.notify.poll.1, { gate with notify := gate.notify.poll.2 })

/-- What the task sees behind a poll that was ready.  With a permit left over, the
notification it has consumed need not be the last one. -/
def delivered (gate : AsyncGate) : Nat → Nat :=
  if gate.notify.permit then fun _ => 0 else gate.noted

def dropNotified (gate : AsyncGate) : AsyncGate :=
  { gate with notify := gate.notify.dropFuture }

/-- `DisarmOnDrop::drop`. -/
def disarm (gate : AsyncGate) : AsyncGate := { gate with armed := gate.armed - 1 }

/-- The waker's own stores, by ring and count, are in front of this step. -/
def record (counts : Nat → Nat) (stored : Option (Nat × Nat)) : Nat → Nat :=
  match stored with
  | some (idx, count) => Function.update counts idx count
  | none => counts

/-- One step of `wake`, and where the waker goes on; `saw` is what the relaxed load of
T3a makes of the count, which may be an earlier one. -/
def wakeStep (gate : AsyncGate) (stored : Option (Nat × Nat)) (saw : Bool) :
    WakeStage → AsyncGate × Option WakeStage
  | .probe => (gate, some (if saw then .notifyOne else .fetchAdd))
  | .fetchAdd =>
      ({ gate with probed := record gate.probed stored },
        if gate.armed ≠ 0 then some .notifyOne else none)
  | .notifyOne =>
      ({ gate with
          notify := gate.notify.notifyOne
          noted := record gate.noted stored }, none)

end AsyncGate

namespace GatePhase

/-- The number of live guarded futures. -/
def live : GatePhase → Nat
  | .away => 0
  | _ => 1

/-- The task looks for work, or is suspended because it has found none. -/
def looks : GatePhase → Bool
  | .armed => true
  | .suspended => true
  | _ => false

/-- Where a task goes without a step of its gate: on, or off to drop its future. -/
def Goes (phase later : GatePhase) : Prop :=
  later = phase ∨ phase.looks = true ∧ later = .dropNotified

theorem Goes.looks {phase later : GatePhase} (goes : phase.Goes later)
    (looking : later.looks = true) : phase.looks = true := by
  rcases goes with rfl | ⟨looks, rfl⟩
  · exact looking
  · exact looks

/-- How far the future can have come. -/
def NotifyAt (notify : Notify) : GatePhase → Prop
  | .away => notify.future = none
  | .armed => notify.future = some .created
  | .suspended =>
      notify = ⟨false, some .waiting⟩ ∨ notify.future = some .notified
  | .dropNotified => notify.future.isSome = true
  | .disarm => notify.future = none

end GatePhase

namespace AsyncGate

variable {gate : AsyncGate} {phase : GatePhase}

/-- What holds of the gate and its one task. -/
structure Ok (gate : AsyncGate) (phase : GatePhase) : Prop where
  armed : gate.armed = BitVec.ofNat 64 phase.live
  future : phase.NotifyAt gate.notify

theorem ok_new : Ok new .away := ⟨rfl, rfl⟩

/-! ### Steps of the task -/

theorem Ok.arm (ok : Ok gate .away) : Ok gate.arm .armed where
  armed := by
    rw [AsyncGate.arm, ok.armed]
    rfl
  future := rfl

theorem Ok.awaits (ok : Ok gate .armed) (pending : gate.poll.1 = false) :
    Ok gate.poll.2 .suspended where
  armed := ok.armed
  future := by
    have created : gate.notify.future = some .created := ok.future
    cases stored : gate.notify.permit with
    | true => simp [poll, Notify.poll, created, stored] at pending
    | false => exact .inl (by simp [poll, Notify.poll, created, stored])

theorem Ok.finishes (ok : Ok gate phase) (looks : phase.looks = true)
    (ready : gate.poll.1 = true) : Ok gate.poll.2 .dropNotified where
  armed := by
    cases phase <;> first | exact ok.armed | cases looks
  future := by
    change (Notify.poll gate.notify).2.future.isSome = true
    have ready : (Notify.poll gate.notify).1 = true := ready
    unfold Notify.poll at ready ⊢
    grind

theorem Ok.cancel (ok : Ok gate phase) (looks : phase.looks = true) : Ok gate .dropNotified where
  armed := by
    cases phase <;> first | exact ok.armed | cases looks
  future := by
    have here := ok.future
    cases phase with
    | armed =>
        rw [GatePhase.NotifyAt] at here
        rw [GatePhase.NotifyAt, here]
        rfl
    | suspended =>
        rw [GatePhase.NotifyAt]
        rcases here with waiting | notified
        · rw [waiting]
          rfl
        · rw [notified]
          rfl
    | _ => cases looks

theorem Ok.goes (ok : Ok gate phase) {later : GatePhase} (goes : phase.Goes later) :
    Ok gate later := by
  rcases goes with rfl | ⟨looks, rfl⟩
  · exact ok
  · exact ok.cancel looks

theorem Ok.dropNotified (ok : Ok gate .dropNotified) : Ok gate.dropNotified .disarm where
  armed := ok.armed
  future := by
    change (Notify.dropFuture gate.notify).future = none
    unfold Notify.dropFuture
    split <;> rfl

theorem Ok.disarm (ok : Ok gate .disarm) : Ok gate.disarm .away where
  armed := by
    rw [AsyncGate.disarm, ok.armed]
    rfl
  future := ok.future

/-! ### Steps of a waker -/

theorem Ok.armed_ne_zero (ok : Ok gate phase) (looks : phase.looks = true) : gate.armed ≠ 0 := by
  rw [ok.armed]
  cases phase <;> first | decide | cases looks

theorem Ok.wakeStep (ok : Ok gate phase) (stored : Option (Nat × Nat)) (saw : Bool)
    (stage : WakeStage) : Ok (gate.wakeStep stored saw stage).1 phase := by
  cases stage with
  | probe | fetchAdd => exact ⟨ok.armed, ok.future⟩
  | notifyOne =>
      refine ⟨ok.armed, ?_⟩
      have here := ok.future
      change phase.NotifyAt gate.notify.notifyOne
      cases phase with
      | suspended =>
          rcases here with waiting | notified
          · rw [waiting]
            exact .inr rfl
          · refine .inr ?_
            rw [Notify.notifyOne, notified]
      | dropNotified =>
          rw [GatePhase.NotifyAt] at here ⊢
          unfold Notify.notifyOne
          split
          · rfl
          · exact here
      | away | armed | disarm =>
          rw [GatePhase.NotifyAt] at here ⊢
          rw [Notify.notifyOne, here]

/-- A released task stays released under a waker's step. -/
theorem released_wakeStep (stored : Option (Nat × Nat)) (saw : Bool) (stage : WakeStage)
    (released : gate.notify.released = true) :
    (gate.wakeStep stored saw stage).1.notify.released = true := by
  cases stage with
  | probe | fetchAdd => exact released
  | notifyOne => exact gate.notify.released_notifyOne

/-- A waker that leaves the armed gate has released its task. -/
theorem Ok.leaves (ok : Ok gate phase) (looks : phase.looks = true)
    (stored : Option (Nat × Nat)) (saw : Bool) (stage : WakeStage) :
    (gate.wakeStep stored saw stage).1.notify.released = true ∨
      (gate.wakeStep stored saw stage).2.isSome = true := by
  cases stage with
  | probe => exact .inr rfl
  | fetchAdd =>
      refine .inr ?_
      rw [AsyncGate.wakeStep, if_pos (ok.armed_ne_zero looks)]
      rfl
  | notifyOne => exact .inl gate.notify.released_notifyOne

/-! ### What a looking task relies on -/

/-- The task has seen `calm`, or it has been released, or a waker is on its way. -/
def Covers (gate : AsyncGate) (calm onWay : Prop) : Prop :=
  calm ∨ gate.notify.released = true ∨ onWay

variable {calm onWay : Prop}

theorem Covers.wakeStep (covers : Covers gate calm onWay) (stored : Option (Nat × Nat))
    (saw : Bool) (stage : WakeStage) :
    Covers (gate.wakeStep stored saw stage).1 calm onWay := by
  rcases covers with quiet | released | coming
  · exact .inl quiet
  · exact .inr (.inl (released_wakeStep stored saw stage released))
  · exact .inr (.inr coming)

/-- The waker the task relies on takes a step. -/
theorem Covers.ownWakeStep (covers : Covers gate calm onWay) (ok : Ok gate phase)
    (looks : phase.looks = true) (stored : Option (Nat × Nat)) (saw : Bool)
    (stage : WakeStage) :
    Covers (gate.wakeStep stored saw stage).1 calm
      ((gate.wakeStep stored saw stage).2.isSome = true) := by
  rcases covers with quiet | released | -
  · exact .inl quiet
  · exact .inr (.inl (released_wakeStep stored saw stage released))
  · exact .inr (ok.leaves looks stored saw stage)

theorem Covers.mono (covers : Covers gate calm onWay) {calmAfter onWayAfter : Prop}
    (stays : calm → Covers gate calmAfter onWayAfter) (comes : onWay → onWayAfter) :
    Covers gate calmAfter onWayAfter := by
  rcases covers with quiet | released | coming
  · exact stays quiet
  · exact .inr (.inl released)
  · exact .inr (.inr (comes coming))

/-- What is seen of a cursor with `latest` stores by a task that has seen `view` of
them: whatever it misses, a waker on its way hands over, or a probe or a notification
has. -/
structure Heard (gate : AsyncGate) (phase : GatePhase) (idx latest view : Nat)
    (onWay : Prop) : Prop where
  probed_le : gate.probed idx ≤ latest
  noted_le : gate.noted idx ≤ latest
  handed : latest ≤ max (max view (gate.probed idx)) (gate.noted idx) ∨ onWay
  probed : Covers gate (latest ≤ max view (gate.probed idx)) onWay
  looked : phase.looks = true → Covers gate (latest ≤ view) onWay

variable {idx latest view : Nat}

theorem heard_new : Heard new .away idx 0 0 onWay where
  probed_le := le_rfl
  noted_le := le_rfl
  handed := .inl (Nat.zero_le _)
  probed := .inl (Nat.zero_le _)
  looked never := by cases never

/-- The phases without a look rely on less. -/
theorem Heard.goto (heard : Heard gate phase idx latest view onWay) {later : GatePhase}
    (looks : later.looks = true → phase.looks = true) :
    Heard gate later idx latest view onWay :=
  { heard with looked := fun looking => heard.looked (looks looking) }

/-- A load sees more. -/
theorem Heard.sees (heard : Heard gate phase idx latest view onWay) {seen : Nat}
    (le : view ≤ seen) : Heard gate phase idx latest seen onWay where
  probed_le := heard.probed_le
  noted_le := heard.noted_le
  handed := heard.handed.imp_left fun handed => by omega
  probed := heard.probed.imp_left fun handed => by omega
  looked looking := (heard.looked looking).imp_left fun handed => handed.trans le

/-- The writer stores, and is on its way. -/
theorem Heard.stores (heard : Heard gate phase idx latest view onWay) {stored : Nat}
    (le : latest ≤ stored) {coming : Prop} (comes : coming) :
    Heard gate phase idx stored view coming where
  probed_le := heard.probed_le.trans le
  noted_le := heard.noted_le.trans le
  handed := .inr comes
  probed := .inr (.inr comes)
  looked _ := .inr (.inr comes)

theorem Heard.comes (heard : Heard gate phase idx latest view onWay) {coming : Prop}
    (stays : onWay → coming) : Heard gate phase idx latest view coming where
  probed_le := heard.probed_le
  noted_le := heard.noted_le
  handed := heard.handed.imp_right stays
  probed := heard.probed.imp_right (Or.imp_right stays)
  looked looking := (heard.looked looking).imp_right (Or.imp_right stays)

/-- T1. -/
theorem Heard.arm (heard : Heard gate .away idx latest view onWay) (ok : Ok gate .away) :
    Heard gate.arm .armed idx latest (max view (gate.probed idx)) onWay := by
  have gone : gate.notify.future = none := ok.future
  have kept (released : gate.notify.released = true) : gate.arm.notify.released = true := by
    simpa [Notify.released, AsyncGate.arm, Notify.notified, gone] using released
  have looked : Covers gate.arm (latest ≤ max view (gate.probed idx)) onWay :=
    heard.probed.imp_right (Or.imp_left kept)
  exact
    { probed_le := heard.probed_le
      noted_le := heard.noted_le
      handed := heard.handed.imp_left fun handed => by
        change latest ≤ max (max (max view (gate.probed idx)) (gate.probed idx)) (gate.noted idx)
        omega
      probed := looked.imp_left fun seen => by
        change latest ≤ max (max view (gate.probed idx)) (gate.probed idx)
        omega
      looked := fun _ => looked }

/-- A release in front of the first poll makes it ready. -/
theorem Ok.released_poll (ok : Ok gate .armed) (pending : gate.poll.1 = false)
    (released : gate.notify.released = true) : gate.poll.2.notify.released = true := by
  have created : gate.notify.future = some .created := ok.future
  cases stored : gate.notify.permit <;>
    simp [Notify.released, AsyncGate.poll, Notify.poll, created, stored] at released pending

/-- The first poll leaves the task suspended. -/
theorem Heard.awaits (heard : Heard gate .armed idx latest view onWay) (ok : Ok gate .armed)
    (pending : gate.poll.1 = false) :
    Heard gate.poll.2 .suspended idx latest view onWay where
  probed_le := heard.probed_le
  noted_le := heard.noted_le
  handed := heard.handed
  probed := heard.probed.imp_right (Or.imp_left (ok.released_poll pending))
  looked _ := (heard.looked rfl).imp_right (Or.imp_left (ok.released_poll pending))

/-- A ready poll consumes a notification and what was stored in front of it. -/
theorem Heard.finishes (heard : Heard gate phase idx latest view onWay) :
    Heard gate.poll.2 .dropNotified idx latest (max view (gate.poll.2.delivered idx)) onWay where
  probed_le := heard.probed_le
  noted_le := heard.noted_le
  handed := heard.handed.imp_left fun handed => by
    change latest ≤ max (max (max view _) (gate.probed idx)) (gate.noted idx)
    omega
  probed := by
    cases stored : gate.poll.2.notify.permit with
    | true => exact .inr (.inl (by rw [Notify.released, stored, Bool.true_or]))
    | false =>
        have consumed : gate.poll.2.delivered idx = gate.noted idx := by
          rw [delivered, stored]
          rfl
        refine heard.handed.imp (fun handed => ?_) .inr
        change latest ≤ max (max view (gate.poll.2.delivered idx)) (gate.probed idx)
        omega
  looked never := by cases never

theorem Heard.dropNotified (heard : Heard gate .dropNotified idx latest view onWay) :
    Heard gate.dropNotified .disarm idx latest view onWay where
  probed_le := heard.probed_le
  noted_le := heard.noted_le
  handed := heard.handed
  probed := heard.probed.imp_right (Or.imp_left gate.notify.released_dropFuture.trans)
  looked never := by cases never

theorem Heard.disarm (heard : Heard gate .disarm idx latest view onWay) :
    Heard gate.disarm .away idx latest view onWay where
  probed_le := heard.probed_le
  noted_le := heard.noted_le
  handed := heard.handed
  probed := heard.probed
  looked never := by cases never

/-- A waker's step, if it records of this cursor only all of its stores. -/
theorem Heard.wakeStep (heard : Heard gate phase idx latest view onWay)
    {stored : Option (Nat × Nat)} (own : ∀ count, stored = some (idx, count) → count = latest)
    (saw : Bool) (stage : WakeStage) :
    Heard (gate.wakeStep stored saw stage).1 phase idx latest view onWay := by
  have recorded (counts : Nat → Nat) :
      record counts stored idx = counts idx ∨ record counts stored idx = latest := by
    cases stored with
    | none => exact .inl rfl
    | some pair =>
        by_cases same : pair.1 = idx
        · refine .inr ((?_ : record counts (some pair) idx = pair.2).trans ?_)
          · rw [← same]
            exact Function.update_self ..
          · exact own pair.2 (by rw [← same])
        · exact .inl (Function.update_of_ne (Ne.symm same) ..)
  have probed_le := heard.probed_le
  have noted_le := heard.noted_le
  have probed : (gate.wakeStep stored saw stage).1.probed idx = gate.probed idx ∨
      (gate.wakeStep stored saw stage).1.probed idx = latest := by
    cases stage <;> first | exact .inl rfl | exact recorded _
  have noted : (gate.wakeStep stored saw stage).1.noted idx = gate.noted idx ∨
      (gate.wakeStep stored saw stage).1.noted idx = latest := by
    cases stage <;> first | exact .inl rfl | exact recorded _
  exact
    { probed_le := by omega
      noted_le := by omega
      handed := heard.handed.imp_left fun handed => by omega
      probed := (heard.probed.wakeStep stored saw stage).imp_left fun handed => by omega
      looked := fun looking => (heard.looked looking).wakeStep stored saw stage }

/-- The writer's own step inside `wake`: what it leaves behind is handed over. -/
theorem Heard.ownWakeStep (heard : Heard gate phase idx latest view onWay) (ok : Ok gate phase)
    (saw : Bool) (stage : WakeStage) :
    Heard (gate.wakeStep (some (idx, latest)) saw stage).1 phase idx latest view
      ((gate.wakeStep (some (idx, latest)) saw stage).2.isSome = true) := by
  have own (counts : Nat → Nat) : record counts (some (idx, latest)) idx = latest :=
    Function.update_self ..
  have probed_le := heard.probed_le
  have noted_le := heard.noted_le
  have looked (looking : phase.looks = true) :=
    (heard.looked looking).ownWakeStep ok looking (some (idx, latest)) saw stage
  cases stage with
  | probe => exact ⟨probed_le, noted_le, .inr rfl, .inr (.inr rfl), looked⟩
  | fetchAdd =>
      refine ⟨(own _).le, noted_le, .inl ?_, .inl ?_, looked⟩
      · change latest ≤ max (max view (record gate.probed (some (idx, latest)) idx))
          (gate.noted idx)
        rw [own]
        omega
      · change latest ≤ max view (record gate.probed (some (idx, latest)) idx)
        rw [own]
        omega
  | notifyOne =>
      refine ⟨probed_le, (own _).le, .inl ?_, .inr (.inl gate.notify.released_notifyOne), looked⟩
      change latest ≤ max (max view (gate.probed idx))
        (record gate.noted (some (idx, latest)) idx)
      rw [own]
      omega

/-! ### A side of a channel that has looked -/

/-- What a side of a channel hears of the cursor it waits for: where it has `found`
nothing to do, it was `calm` then, or the task is released, or a waker is on its way. -/
structure Listens (gate : AsyncGate) (phase : GatePhase) (idx latest view : Nat)
    (onWay found calm : Prop) : Prop extends Heard gate phase idx latest view onWay where
  looking : found → phase.looks = true
  covered : found → Covers gate calm onWay

variable {found calmAfter : Prop}

theorem listens_new (never : ¬ found) : Listens new .away idx 0 0 onWay found calm where
  toHeard := heard_new
  looking here := absurd here never
  covered here := absurd here never

/-- Going on without a look at the cursor. -/
theorem Listens.goto (listens : Listens gate phase idx latest view onWay found calm)
    {later : GatePhase} {foundAfter : Prop} (looks : later.looks = true → phase.looks = true)
    (looking : foundAfter → later.looks = true) (was : foundAfter → found) :
    Listens gate later idx latest view onWay foundAfter calm where
  toHeard := listens.toHeard.goto looks
  looking := looking
  covered here := listens.covered (was here)

/-- A step that is over with the wait. -/
theorem Listens.leaves (heard : Heard gate phase idx latest view onWay) (never : ¬ found) :
    Listens gate phase idx latest view onWay found calm where
  toHeard := heard
  looking here := absurd here never
  covered here := absurd here never

/-- A look that has found nothing, which it could not with the newest value. -/
theorem Listens.finds (heard : Heard gate phase idx latest view onWay)
    (looks : phase.looks = true) (seen : latest ≤ view → calm) :
    Listens gate phase idx latest view onWay found calm where
  toHeard := heard
  looking _ := looks
  covered _ := (heard.looked looks).imp_left seen

theorem Listens.sees (listens : Listens gate phase idx latest view onWay found calm)
    {seen : Nat} (le : view ≤ seen) :
    Listens gate phase idx latest seen onWay found calm where
  toHeard := listens.toHeard.sees le
  looking := listens.looking
  covered := listens.covered

theorem Listens.comes (listens : Listens gate phase idx latest view onWay found calm)
    {coming : Prop} (stays : onWay → coming) :
    Listens gate phase idx latest view coming found calm where
  toHeard := listens.toHeard.comes stays
  looking := listens.looking
  covered here := (listens.covered here).imp_right (Or.imp_right stays)

/-- The other side stores, and has to wake. -/
theorem Listens.stores (listens : Listens gate phase idx latest view onWay found calm)
    {stored : Nat} (le : latest ≤ stored) {coming : Prop} (comes : coming) :
    Listens gate phase idx stored view coming found calmAfter where
  toHeard := listens.toHeard.stores le comes
  looking := listens.looking
  covered _ := .inr (.inr comes)

theorem Listens.awaits (listens : Listens gate .armed idx latest view onWay found calm)
    (ok : Ok gate .armed) (pending : gate.poll.1 = false) {foundAfter : Prop}
    (was : foundAfter → found) :
    Listens gate.poll.2 .suspended idx latest view onWay foundAfter calm where
  toHeard := listens.toHeard.awaits ok pending
  looking _ := rfl
  covered here := (listens.covered (was here)).imp_right (Or.imp_left (ok.released_poll pending))

theorem Listens.wakeStep (listens : Listens gate phase idx latest view onWay found calm)
    {stored : Option (Nat × Nat)} (own : ∀ count, stored = some (idx, count) → count = latest)
    (saw : Bool) (stage : WakeStage) :
    Listens (gate.wakeStep stored saw stage).1 phase idx latest view onWay found calm where
  toHeard := listens.toHeard.wakeStep own saw stage
  looking := listens.looking
  covered here := (listens.covered here).wakeStep stored saw stage

theorem Listens.ownWakeStep (listens : Listens gate phase idx latest view onWay found calm)
    (ok : Ok gate phase) (saw : Bool) (stage : WakeStage) :
    Listens (gate.wakeStep (some (idx, latest)) saw stage).1 phase idx latest view
      ((gate.wakeStep (some (idx, latest)) saw stage).2.isSome = true) found calm where
  toHeard := listens.toHeard.ownWakeStep ok saw stage
  looking := listens.looking
  covered here := (listens.covered here).ownWakeStep ok (listens.looking here) _ saw stage

/-- A suspended side that nothing has released, with no waker on its way. -/
theorem Listens.calm_of_suspended
    (listens : Listens gate .suspended idx latest view onWay found calm)
    (ok : Ok gate .suspended) (here : found)
    (unnotified : gate.notify.future ≠ some .notified) (quiet : ¬ onWay) : calm := by
  have waiting : gate.notify = ⟨false, some .waiting⟩ := ok.future.resolve_right unnotified
  have notReleased : ¬ gate.notify.released = true := by
    rw [waiting]
    decide
  rcases listens.covered here with seen | released | coming
  · exact seen
  · exact absurd released notReleased
  · exact absurd coming quiet

end AsyncGate

end ArbitroKit
