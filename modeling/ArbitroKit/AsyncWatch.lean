import ArbitroKit.AsyncWait

/-!
# A task that watches several locations

The predicate of a `wait_until` that looks at one location after the other, and is false when
it has found nothing at any of them.  Each location has wakers of its own, and the task has
seen some of its stores.  What holds of a task that sleeps is put together from what it hears
of each location.
-/

namespace ArbitroKit

/-- What there is to be heard of each location: its stores, how many of them the task has
seen, whether a waker is on its way because of it, and what the task can be sure of where it
has found nothing. -/
structure Watched where
  latest : Nat → Nat
  view : Nat → Nat
  onWay : Nat → Prop
  calm : Nat → Prop

namespace AwaitPc

/-- The evaluation has come past the `k`-th turn; it is over behind the last one. -/
def Passed (k : Nat) : Option Nat → Prop
  | none => True
  | some rest => k < rest

/-- The `k`-th of `count` turns came out; the predicate is true as soon as one says so. -/
def turned (phase : WaitPhase) (k count : Nat) (ready : Bool) : AwaitNext Nat :=
  if ready then answered phase true
  else if k + 1 < count then .goes (.check phase (k + 1))
  else answered phase false

end AwaitPc

namespace AwaitNext

variable {ρ : Type*}

/-- Where the task stands behind the step, as long as it waits. -/
def wait : AwaitNext ρ → Option (AwaitPc ρ)
  | .goes pc => some pc
  | .returned => none
  | .dropped => none

end AwaitNext

namespace AwaitPc

/-- Behind a step of its gate the evaluation is at its start. -/
theorem rest_of_tick {ρ : Type*} {gate : AsyncGate} {first rest : ρ} {pc : AwaitPc ρ}
    {step : Awaited ρ} {phase : WaitPhase} (taken : pc.tick gate first = some step)
    (goes : step.next.wait = some (.check phase rest)) : rest = first := by
  cases tick_steps taken with
  | arm =>
      cases goes
      rfl
  | ready | pending | dropNotified => cases goes
  | disarm next =>
      cases next <;> cases goes
      rfl

end AwaitPc

namespace AsyncGate

open AwaitPc

/-- Where a task stands with its gate, outside of a wait too. -/
def waitPhase : Option (AwaitPc Nat) → GatePhase
  | none => .away
  | some pc => pc.phase

/-- The announced evaluation has found nothing in its `k`-th turn. -/
def FoundAt (k : Nat) : Option (AwaitPc Nat) → Prop
  | none => False
  | some pc => pc.Found (Passed k)

theorem waitPhase_next (next : AwaitNext Nat) : waitPhase next.wait = next.phase := by
  cases next <;> rfl

theorem foundAt_next (k : Nat) (next : AwaitNext Nat) :
    FoundAt k next.wait = next.Found (Passed k) := by
  cases next <;> rfl

/-- What holds of a task that watches `count` locations, each in a turn of its own. -/
structure Watches (gate : AsyncGate) (wait : Option (AwaitPc Nat)) (turn : Nat → Nat)
    (count : Nat) (watched : Watched) : Prop where
  ok : gate.Ok (waitPhase wait)
  within : ∀ phase k, wait = some (.check phase k) → k < count
  listens : ∀ idx < count, Listens gate (waitPhase wait) idx (watched.latest idx)
    (watched.view idx) (watched.onWay idx) (FoundAt (turn idx) wait) (watched.calm idx)

variable {gate : AsyncGate} {wait : Option (AwaitPc Nat)} {turn : Nat → Nat} {count : Nat}
  {watched later : Watched}

theorem watches_new (unstored : ∀ idx < count, watched.latest idx = 0 ∧ watched.view idx = 0) :
    Watches new none turn count watched where
  ok := ok_new
  within phase k never := by cases never
  listens idx inside := by
    obtain ⟨latest, view⟩ := unstored idx inside
    rw [latest, view]
    exact listens_new id

/-- What happens elsewhere: the task may have seen more, and of each location nothing is new,
or there is a store with a waker behind it. -/
theorem Watches.keeps (watches : Watches gate wait turn count watched)
    (view : ∀ idx < count, watched.view idx ≤ later.view idx)
    (each : ∀ idx < count,
      (later.latest idx = watched.latest idx ∧ (watched.onWay idx → later.onWay idx) ∧
        (FoundAt (turn idx) wait → watched.calm idx → later.calm idx)) ∨
      (watched.latest idx ≤ later.latest idx ∧ later.onWay idx)) :
    Watches gate wait turn count later where
  ok := watches.ok
  within := watches.within
  listens idx inside := by
    have listens := watches.listens idx inside
    rcases each idx inside with ⟨same, stays, calm⟩ | ⟨le, comes⟩
    · rw [same]
      have heard := (listens.toHeard.sees (view idx inside)).comes stays
      exact
        { toHeard := heard
          looking := listens.looking
          covered := fun found => (listens.covered found).imp (calm found) (Or.imp_right stays) }
    · exact (listens.stores le comes).sees (view idx inside)

/-- A waker's step, if it records of a location only all of its stores. -/
theorem Watches.wakeStep (watches : Watches gate wait turn count watched)
    {stored : Option (Nat × Nat)}
    (own : ∀ idx < count, ∀ stores, stored = some (idx, stores) → stores = watched.latest idx)
    (saw : Bool) (stage : WakeStage) :
    Watches (gate.wakeStep stored saw stage).1 wait turn count watched where
  ok := watches.ok.wakeStep stored saw stage
  within := watches.within
  listens idx inside := (watches.listens idx inside).wakeStep (own idx inside) saw stage

/-- A step of a waker that has stored to the location: once it is gone, nobody needs to be on
the way for it. -/
theorem Watches.ownWakeStep (watches : Watches gate wait turn count watched) {idx : Nat}
    (saw : Bool) (stage : WakeStage) :
    Watches (gate.wakeStep (some (idx, watched.latest idx)) saw stage).1 wait turn count
      { watched with
        onWay := Function.update watched.onWay idx
          ((gate.wakeStep (some (idx, watched.latest idx)) saw stage).2.isSome = true) } where
  ok := watches.ok.wakeStep _ saw stage
  within := watches.within
  listens other inside := by
    have listens := watches.listens other inside
    by_cases same : other = idx
    · subst same
      change Listens _ _ _ _ _ (Function.update watched.onWay other _ other) _ _
      rw [Function.update_self]
      exact listens.ownWakeStep watches.ok saw stage
    · change Listens _ _ _ _ _ (Function.update watched.onWay idx _ other) _ _
      rw [Function.update_of_ne same]
      refine listens.wakeStep (fun stores equal => ?_) saw stage
      exact absurd (congrArg Prod.fst (Option.some.inj equal)).symm same

/-- A step of a waker, as it is seen behind the step. -/
theorem Watches.woken (watches : Watches gate wait turn count watched) {idx stores : Nat}
    (own : stores = watched.latest idx) {saw : Bool} {stage : WakeStage}
    (latest : ∀ other < count, later.latest other = watched.latest other)
    (view : ∀ other < count, watched.view other ≤ later.view other)
    (calm : ∀ other < count, watched.calm other → later.calm other)
    (others : ∀ other < count, other ≠ idx → watched.onWay other → later.onWay other)
    (goesOn : (gate.wakeStep (some (idx, stores)) saw stage).2.isSome = true →
      later.onWay idx) :
    Watches (gate.wakeStep (some (idx, stores)) saw stage).1 wait turn count later := by
  subst own
  refine (watches.ownWakeStep saw stage).keeps view fun other inside => ?_
  refine .inl ⟨latest other inside, fun coming => ?_, fun _ => calm other inside⟩
  dsimp only at coming
  by_cases same : other = idx
  · subst same
    rw [Function.update_self] at coming
    exact goesOn coming
  · rw [Function.update_of_ne same] at coming
    exact others other inside same coming

/-! ### Steps of the task -/

/-- The wait begins. -/
theorem Watches.starts (watches : Watches gate none turn count watched) (turns : 0 < count) :
    Watches gate (some (.check .entry 0)) turn count watched where
  ok := watches.ok
  within phase k first := by
    cases first
    exact turns
  listens idx inside := .leaves (watches.listens idx inside).toHeard id

/-- A step of the wait that is not one of the predicate. -/
theorem Watches.tick {pc : AwaitPc Nat} {step : Awaited Nat}
    (watches : Watches gate (some pc) turn count watched) (turns : 0 < count)
    (taken : pc.tick gate 0 = some step) :
    Watches step.gate step.next.wait turn count
      { watched with view := fun idx => max (watched.view idx) (step.seen idx) } where
  ok := by
    rw [waitPhase_next]
    exact ok_tick watches.ok taken
  within phase k first := by
    rw [rest_of_tick taken first]
    exact turns
  listens idx inside := by
    rw [waitPhase_next, foundAt_next]
    let sure : Option Nat → Prop := fun _ => watched.calm idx
    have before : Listens gate pc.phase idx (watched.latest idx) (watched.view idx)
        (watched.onWay idx) (pc.Found (Passed (turn idx))) (sure pc.looked) :=
      watches.listens idx inside
    exact listens_tick watches.ok before (Nat.not_lt_zero (turn idx)) taken

/-- What the gate hands over has been stored. -/
theorem Watches.seen_le {pc : AwaitPc Nat} {step : Awaited Nat}
    (watches : Watches gate (some pc) turn count watched) (taken : pc.tick gate 0 = some step)
    {idx : Nat} (inside : idx < count) : step.seen idx ≤ watched.latest idx :=
  seen_le_tick (watches.listens idx inside).toHeard taken

/-- The future is dropped while it is suspended. -/
theorem Watches.cancel (watches : Watches gate (some .suspended) turn count watched) :
    Watches gate (some (.dropNotified .dropped)) turn count watched where
  ok := watches.ok.cancel rfl
  within phase k never := by cases never
  listens idx inside := listens_cancel (watches.listens idx inside).toHeard id

/-- A turn of the predicate: its location is loaded at the store `seen`, and where nothing is
found with all stores seen, the task can be sure. -/
theorem Watches.turned {phase : WaitPhase} {idx seen : Nat} {ready : Bool}
    (watches : Watches gate (some (.check phase (turn idx))) turn count watched)
    (turns : ∀ other < count, turn other < count ∧ (turn other = turn idx → other = idx))
    (le : watched.view idx ≤ seen)
    (sure : ready = false → watched.latest idx ≤ seen → watched.calm idx) :
    Watches gate (AwaitPc.turned phase (turn idx) count ready).wait turn count
      { watched with view := Function.update watched.view idx seen } := by
  have heard (other : Nat) (inside : other < count) :
      Heard gate (AwaitPc.check phase (turn idx)).phase other (watched.latest other)
        (Function.update watched.view idx seen other) (watched.onWay other) := by
    have heard := (watches.listens other inside).toHeard
    by_cases same : other = idx
    · subst same
      rw [Function.update_self]
      exact heard.sees le
    · rw [Function.update_of_ne same]
      exact heard
  -- where the evaluation goes on, or is over, with nothing found
  have nothing (ready : ready = false) (later : Option Nat)
      (passed : ∀ other < count, Passed (turn other) later →
        turn other < turn idx ∨ other = idx) (phaseIs : phase = .announced)
      (other : Nat) (inside : other < count) (found : Passed (turn other) later) :
      Covers gate (watched.calm other) (watched.onWay other) := by
    subst phaseIs
    rcases passed other inside found with before | rfl
    · exact (watches.listens other inside).covered before
    · have heard := heard other inside
      rw [Function.update_self] at heard
      exact (heard.looked rfl).imp_left (sure ready)
  unfold AwaitPc.turned
  split
  · refine ⟨?_, ?_, fun other inside => ?_⟩
    · rw [waitPhase_next]
      exact ok_answered watches.ok
    · intro later k first
      cases phase <;> cases first
    · have heard := heard other inside
      cases phase with
      | entry => exact .leaves heard id
      | announced => exact .leaves (heard.goto fun looking => by cases looking) id
  · have unready : ready = false := eq_false_of_ne_true (by assumption)
    split
    · refine ⟨?_, ?_, fun other inside => ?_⟩
      · change gate.Ok (AwaitPc.check phase (turn idx + 1)).phase
        rw [phase_check phase (turn idx)]
        exact watches.ok
      · intro later k next
        cases next
        assumption
      · have heard := heard other inside
        change Listens gate (AwaitPc.check phase (turn idx + 1)).phase other _ _ _
          ((AwaitPc.check phase (turn idx + 1)).Found (Passed (turn other))) _
        rw [phase_check phase (turn idx)]
        cases phase with
        | entry => exact .leaves heard id
        | announced =>
            refine ⟨heard, fun _ => rfl, fun found => ?_⟩
            refine nothing unready (some (turn idx + 1)) ?_ rfl other inside found
            intro other inside passed
            rcases Nat.lt_or_eq_of_le (Nat.le_of_lt_succ passed) with before | same
            · exact .inl before
            · exact .inr ((turns other inside).2 same)
    · refine ⟨?_, ?_, fun other inside => ?_⟩
      · rw [waitPhase_next]
        exact ok_answered watches.ok
      · intro later k next
        cases phase <;> cases next
      · have heard := heard other inside
        cases phase with
        | entry => exact .leaves heard id
        | announced =>
            refine ⟨heard, fun _ => rfl, fun found => ?_⟩
            refine nothing unready none ?_ rfl other inside found
            intro other inside _
            have last := (turns other inside).1
            by_cases same : turn other = turn idx
            · exact .inr ((turns other inside).2 same)
            · exact .inl (by omega)

/-- A task that sleeps with nothing to wake it can be sure of every location without a waker
on its way. -/
theorem Watches.calm_of_suspended (watches : Watches gate (some .suspended) turn count watched)
    (unnotified : gate.notify.future ≠ some .notified) {idx : Nat} (inside : idx < count)
    (quiet : ¬ watched.onWay idx) : watched.calm idx :=
  (watches.listens idx inside).calm_of_suspended watches.ok trivial unnotified quiet

end AsyncGate

end ArbitroKit
