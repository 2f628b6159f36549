/-!
# The waiter contract

Every primitive blocks through a `Waiter`.  What the primitives rely on is the
contract of the trait: the one party that waits announces itself and evaluates
its predicate again before it sleeps, and a `wake` that starts after the
announcement releases it.  A release that arrives before the sleep is kept as a
token, and a token left over from an earlier episode only makes a sleep return
early, after which the predicate is evaluated again.
-/

namespace ArbitroKit

/-- A waiter bound to the party that blocks on it. -/
structure Waiter where
  /-- The party is past its announcement and has not left the wait. -/
  announced : Bool
  /-- A wake is pending: the next sleep returns at once. -/
  token : Bool
  deriving DecidableEq, Repr

namespace Waiter

def new : Waiter := ⟨false, false⟩

/-- `Waiter::wake`: release an announced party, do nothing otherwise. -/
def wake (waiter : Waiter) : Waiter :=
  if waiter.announced then { waiter with token := true } else waiter

/-- Enter the sleeping part of `wait_until`. -/
def announce (waiter : Waiter) : Waiter := { waiter with announced := true }

/-- Leave `wait_until` after an announcement. -/
def leave (waiter : Waiter) : Waiter := { waiter with announced := false }

/-- Wake up on the pending token. -/
def consume (waiter : Waiter) : Waiter := { waiter with token := false }

@[simp]
theorem wake_announced (waiter : Waiter) :
    waiter.wake.announced = waiter.announced := by
  unfold wake
  split <;> rfl

@[simp]
theorem wake_new : new.wake = new := rfl

theorem token_wake {waiter : Waiter} (announced : waiter.announced = true) :
    waiter.wake.token = true := by
  simp [wake, announced]

/-! ### What a waiting party relies on -/

/-- A step of another party leaves the waiter alone or wakes it. -/
def Kept (before after : Waiter) : Prop :=
  after = before ∨ after = before.wake

/-- What an announced party relies on when it has looked for a cause to go on: there
is none, its wake is pending, or somebody is on the way to the wake. -/
def Covers (waiter : Waiter) (calm coming : Prop) : Prop :=
  calm ∨ waiter.token = true ∨ coming

/-- A step under which a cause comes up only with somebody on the way to the wake, who
stays on the way until the wake. -/
structure Passes (before after : Waiter) (calm coming calmAfter comingAfter : Prop) : Prop where
  stays : calm → calmAfter ∨ comingAfter
  comes : coming → comingAfter ∨ after = before.wake

variable {before after : Waiter} {calm coming calmAfter comingAfter : Prop}

theorem Kept.refl (waiter : Waiter) : Kept waiter waiter := .inl rfl

theorem Kept.announced (kept : Kept before after) : after.announced = before.announced := by
  rcases kept with rfl | rfl
  · rfl
  · exact wake_announced before

theorem Kept.token (kept : Kept before after) (pending : before.token = true) :
    after.token = true := by
  rcases kept with rfl | rfl
  · exact pending
  · unfold wake
    split
    · rfl
    · exact pending

theorem Passes.refl (before after : Waiter) (calm coming : Prop) :
    Passes before after calm coming calm coming :=
  ⟨.inl, .inl⟩

/-- What an announced party relies on is kept by such a step. -/
theorem Covers.carried (covers : Covers before calm coming) (announced : before.announced = true)
    (kept : Kept before after)
    (passes : Passes before after calm coming calmAfter comingAfter) :
    Covers after calmAfter comingAfter := by
  rcases covers with quiet | pending | onWay
  · rcases passes.stays quiet with quiet | onWay
    · exact .inl quiet
    · exact .inr (.inr onWay)
  · exact .inr (.inl (kept.token pending))
  · rcases passes.comes onWay with onWay | rfl
    · exact .inr (.inr onWay)
    · exact .inr (.inl (token_wake announced))

/-- A cause that has come up without a pending wake has somebody on the way. -/
theorem Covers.of_cause (covers : Covers before calm coming) (noWake : before.token = false)
    (cause : ¬ calm) : coming := by
  rcases covers with quiet | pending | onWay
  · exact absurd quiet cause
  · rw [noWake] at pending
    cases pending
  · exact onWay

end Waiter

/-- Whether `wait_until` evaluates its predicate before or after the
announcement.  Before it, a false predicate leads to more spinning or to the
announcement; after it, to sleep. -/
inductive WaitPhase where
  | entry
  | announced
  deriving DecidableEq, Repr

end ArbitroKit
