import ArbitroKit.MpscFrames
import Mathlib.Algebra.BigOperators.Group.Finset.Basic

/-!
# Producers of the many-producer channel

How a producer handle and its half of the ring keep in step, how many items its
finished calls have acknowledged, and what `live_producers` counts.
-/

namespace ArbitroKit

open Coherent SlotLane Cyclic Transition

/-- Which call a ring handle is inside. -/
inductive RingActivity where
  | idle
  | single
  | bulk
  | blocking
  | closing
  | gone
  deriving DecidableEq

namespace RingState

variable {α : Type*} {cap : Cap} {s after : RingState α}

def sendActivity : SendCall → RingActivity
  | .trySend => .single
  | .send => .blocking

def producerActivity : ProducerPc α → RingActivity
  | .idle => .idle
  | .sendRefresh call _ _ => sendActivity call
  | .sendClosed call _ => sendActivity call
  | .sendWrite call _ _ => sendActivity call
  | .sendPublish call _ _ => sendActivity call
  | .sendWake call _ => sendActivity call
  | .bulkRefresh _ _ => .bulk
  | .bulkWrite _ _ _ _ => .bulk
  | .bulkPublish _ _ _ => .bulk
  | .bulkWake _ _ => .bulk
  | .dropWakeFull => .closing
  | .dropWakeEmpty => .closing
  | .gone => .gone
  | .returned (.trySend _) _ => .single
  | .returned (.trySendBulk _ _) _ => .bulk
  | _ => .blocking

/-- The running call goes on until it has returned, and a call that returns has
its values counted as accepted. -/
inductive ProducerProgress (before after : Producer α) : Prop
  | running (same : producerActivity after.pc = producerActivity before.pc)
      (notReturned : ∀ outcome accepted, before.pc ≠ .returned outcome accepted)
      (accepted : after.accepted = before.accepted)
  | closed (closing : producerActivity before.pc = .closing) (gone : after.pc = .gone)
      (accepted : after.accepted = before.accepted)
  | returned (outcome : ProducerOutcome α) (values : List α)
      (was : before.pc = .returned outcome values) (idle : after.pc = .idle)
      (accepted : after.accepted = before.accepted ++ values)

@[simp]
theorem producerActivity_trySendStart (call : SendCall) (value : α) :
    producerActivity (s.trySendStart cap call value).producer.pc = sendActivity call := by
  unfold trySendStart
  dsimp only
  split <;> rfl

@[simp]
theorem accepted_trySendStart (call : SendCall) (value : α) :
    (s.trySendStart cap call value).producer.accepted = s.producer.accepted := by
  unfold trySendStart
  dsimp only
  split <;> rfl

@[simp]
theorem producerActivity_bulkStart (items : List α) (head tail : Usize) :
    producerActivity (bulkStart cap items head tail) = .bulk := by
  unfold bulkStart
  dsimp only
  split <;> rfl

theorem producerTick_progress {index : Nat}
    (taken : s.producerTick cap index = some after) :
    ProducerProgress s.producer after.producer := by
  unfold producerTick at taken
  cases pcEq : s.producer.pc with
  | idle | gone => simp [pcEq] at taken
  | sendRefresh call value head | waitTail phase value head =>
      simp only [pcEq] at taken
      obtain ⟨⟨tail, loadedState⟩, loaded, rfl⟩ := Option.map_eq_some_iff.mp taken
      obtain ⟨-, rfl⟩ := loadTail_eq_some loaded
      dsimp only
      split <;> refine .running ?_ (by simp [pcEq]) rfl <;> rw [pcEq]
      all_goals first | rfl | (cases phase <;> rfl)
  | bulkRefresh items head =>
      simp only [pcEq] at taken
      obtain ⟨⟨tail, loadedState⟩, loaded, rfl⟩ := Option.map_eq_some_iff.mp taken
      obtain ⟨-, rfl⟩ := loadTail_eq_some loaded
      refine .running ?_ (by simp [pcEq]) rfl
      rw [pcEq]
      exact producerActivity_bulkStart _ _ _
  | bulkWrite items head left written =>
      simp only [pcEq] at taken
      split at taken
      · cases taken
      · split at taken <;> cases taken <;> refine .running ?_ (by simp [pcEq]) rfl <;>
          rw [pcEq] <;> rfl
  | waitPark value =>
      simp only [pcEq] at taken
      split at taken <;> cases taken
      exact .running (by rw [pcEq]; rfl) (by simp [pcEq]) rfl
  | sendClosed call value =>
      simp only [pcEq, Option.some.injEq] at taken
      subst taken
      refine .running ?_ (by simp [pcEq]) rfl
      rw [pcEq]
      cases call <;> cases closedEq : s.shared.closed <;> rfl
  | sendWake call value =>
      simp only [pcEq, Option.some.injEq] at taken
      subst taken
      refine .running ?_ (by simp [pcEq]) rfl
      rw [pcEq]
      cases call <;> rfl
  | waitClosed phase value =>
      simp only [pcEq, Option.some.injEq] at taken
      subst taken
      refine .running ?_ (by simp [pcEq]) rfl
      rw [pcEq]
      cases phase <;> cases closedEq : s.shared.closed <;> rfl
  | sendRetry value =>
      simp only [pcEq, Option.some.injEq] at taken
      subst taken
      exact .running (by rw [pcEq]; exact producerActivity_trySendStart _ _) (by simp [pcEq])
        (accepted_trySendStart _ _)
  | dropWakeEmpty =>
      simp only [pcEq, Option.some.injEq] at taken
      subst taken
      exact .closed (by rw [pcEq]; rfl) rfl rfl
  | returned outcome values =>
      simp only [pcEq, Option.some.injEq] at taken
      subst taken
      exact .returned outcome values pcEq rfl rfl
  | sendWrite call value head | sendPublish call value head | bulkPublish items head written
  | bulkWake items written | waitHead phase value | waitAnnounce value | waitLeave value
  | dropWakeFull =>
      simp only [pcEq, Option.some.injEq] at taken
      subst taken
      exact .running (by rw [pcEq]; rfl) (by simp [pcEq]) rfl

/-- What entering a call of the channel's rings does. -/
theorem producerStart_progress {action : ProducerAction α} {activity : RingActivity}
    (starts : (∃ value, action = .trySend value ∧ activity = .single) ∨
      (∃ items, action = .trySendBulk items ∧ activity = .bulk) ∨
        action = .drop ∧ activity = .closing)
    (taken : s.producerStep cap action = some after) :
    producerActivity after.producer.pc = activity ∧
      after.producer.accepted = s.producer.accepted := by
  rcases starts with ⟨value, rfl, rfl⟩ | ⟨items, rfl, rfl⟩ | ⟨rfl, rfl⟩
  · simp only [producerStep] at taken
    split at taken <;> cases taken
    exact ⟨producerActivity_trySendStart _ _, accepted_trySendStart _ _⟩
  · simp only [producerStep] at taken
    split at taken
    · split at taken
      · cases taken
        exact ⟨rfl, rfl⟩
      · split at taken <;> cases taken
        · exact ⟨rfl, rfl⟩
        · exact ⟨producerActivity_bulkStart _ _ _, rfl⟩
    · cases taken
  · simp only [producerStep] at taken
    split at taken <;> cases taken
    exact ⟨rfl, rfl⟩

end RingState

namespace MpscState

variable {α : Type*} {size : MpscSize} {s after : MpscState α} {i : Nat}

/-- What a producer handle's ring half is doing meanwhile. -/
def RingActivityAt : MpscProducerPc α → RingActivity → Prop
  | .inTrySend _ _, activity => activity = .single
  | .inBulk, activity => activity = .bulk
  | .inClose, activity => activity = .closing ∨ activity = .gone
  | .fetchSub, activity => activity = .gone
  | .wakeLast, activity => activity = .gone
  | .gone, activity => activity = .gone
  | _, activity => activity = .idle

/-- The items the ring took over in a call that has not returned yet. -/
def unacknowledged : MpscProducerPc α → Nat
  | .wakeFanin _ => 1
  | .bulkWakeFanin consumed _ => consumed
  | _ => 0

/-- The handle has not given up its place in `live_producers`. -/
def countedLive : MpscProducerPc α → Bool
  | .wakeLast => false
  | .gone => false
  | _ => true

/-- Producer `i` and its half of the ring are in step. -/
structure ProducerInStep (s : MpscState α) (i : Nat) : Prop where
  activity : RingActivityAt (s.producers i)
    (RingState.producerActivity (s.rings i).producer.pc)
  acked : (s.rings i).producer.accepted.length =
    s.history.acked i + unacknowledged (s.producers i)

theorem ProducerInStep.congr (ok : ProducerInStep s i)
    (producers : after.producers i = s.producers i)
    (ring : (after.rings i).producer = (s.rings i).producer)
    (acked : after.history.acked i = s.history.acked i) : ProducerInStep after i where
  activity := by rw [producers, ring]; exact ok.activity
  acked := by rw [producers, ring, acked]; exact ok.acked

/-- What a step of producer `i` does to `live_producers`. -/
inductive LiveStep (before after : MpscState α) (i : Nat) : Prop
  | same (live : after.liveProducers = before.liveProducers)
      (counted : countedLive (after.producers i) = countedLive (before.producers i))
  | leaves (live : after.liveProducers = before.liveProducers - 1)
      (was : before.producers i = .fetchSub) (out : countedLive (after.producers i) = false)

@[simp]
theorem producers_producerAt (s : MpscState α) (i : Nat) (pc : MpscProducerPc α) :
    (s.producerAt i pc).producers i = pc := by
  simp [producerAt]

/-- Going somewhere else with the same ring activity and nothing acknowledged. -/
theorem ProducerInStep.goto (ok : ProducerInStep s i) {pc : MpscProducerPc α}
    (rings : after.rings = s.rings) (acked : after.history.acked = s.history.acked)
    (activity : RingActivityAt (s.producers i)
      (RingState.producerActivity (s.rings i).producer.pc) →
        RingActivityAt pc (RingState.producerActivity (s.rings i).producer.pc))
    (count : unacknowledged pc = unacknowledged (s.producers i)) :
    ProducerInStep (after.producerAt i pc) i where
  activity := by
    rw [producers_producerAt]
    change RingActivityAt pc (RingState.producerActivity (after.rings i).producer.pc)
    rw [rings]
    exact activity ok.activity
  acked := by
    change (after.rings i).producer.accepted.length = after.history.acked i + _
    rw [producers_producerAt, count, rings, acked]
    exact ok.acked

theorem rings_disarm (s : MpscState α) (i : Nat) (call : MpscSendCall) :
    (s.disarm i call).rings = s.rings := by
  cases call <;> rfl

theorem history_disarm (s : MpscState α) (i : Nat) (call : MpscSendCall) :
    (s.disarm i call).history = s.history := by
  cases call <;> rfl

theorem live_disarm (s : MpscState α) (i : Nat) (call : MpscSendCall) :
    (s.disarm i call).liveProducers = s.liveProducers := by
  cases call <;> rfl

/-- A finished `try_send` of the ring and the state it comes back to. -/
theorem trySendReturned_inStep (s : MpscState α) (i : Nat) (call : MpscSendCall)
    {result : Except (TrySendError α) Unit}
    (activity : RingState.producerActivity (s.rings i).producer.pc = .idle)
    (acked : (s.rings i).producer.accepted.length = s.history.acked i +
      RingState.acceptedCount (.trySend result)) :
    ProducerInStep (s.trySendReturned i call result) i := by
  rcases result with (value | value) | ⟨⟩
  · constructor
    · rw [trySendReturned, producers_producerAt]
      cases call <;> exact activity
    · rw [trySendReturned, producers_producerAt]
      cases call <;> exact acked
  · constructor
    · rw [trySendReturned, producers_producerAt]
      cases call <;> exact activity
    · rw [trySendReturned, producers_producerAt]
      cases call <;> exact acked
  · constructor
    · rw [trySendReturned, producers_producerAt]
      exact activity
    · rw [trySendReturned, producers_producerAt]
      exact acked

theorem trySendReturned_live (s : MpscState α) (i : Nat) (call : MpscSendCall)
    (result : Except (TrySendError α) Unit) :
    (s.trySendReturned i call result).liveProducers = s.liveProducers ∧
      countedLive ((s.trySendReturned i call result).producers i) = true := by
  rcases result with (value | value) | ⟨⟩
  · rw [trySendReturned, producers_producerAt]
    exact ⟨rfl, by cases call <;> rfl⟩
  · rw [trySendReturned, producers_producerAt]
    exact ⟨live_disarm _ _ _, by cases call <;> rfl⟩
  · rw [trySendReturned, producers_producerAt]
    exact ⟨rfl, rfl⟩

theorem ringProducerTick_eq_some (taken : s.ringProducerTick size i = some after) :
    ∃ ring, (s.rings i).producerTick size.cap (s.rings i).shared.tail.latest = some ring ∧
      after = s.setRing i ring :=
  ringProducer_eq_some taken

@[simp]
theorem rings_setRing (s : MpscState α) (i : Nat) (ring : RingState α) :
    (s.setRing i ring).rings i = ring := by
  simp [setRing]

/-- A step inside the ring that does not finish the call. -/
theorem ring_running (ok : ProducerInStep s i)
    (notReturned : ∀ outcome accepted, (s.rings i).producer.pc ≠ .returned outcome accepted)
    (closes : RingState.producerActivity (s.rings i).producer.pc = .closing →
      s.producers i = .inClose)
    (taken : s.ringProducerTick size i = some after) : ProducerInStep after i := by
  obtain ⟨ring, ticked, rfl⟩ := ringProducerTick_eq_some taken
  cases RingState.producerTick_progress ticked with
  | running same _ accepted =>
      refine ⟨?_, ?_⟩
      · rw [rings_setRing, same]
        exact ok.activity
      · rw [rings_setRing, accepted]
        exact ok.acked
  | closed closing gone accepted =>
      refine ⟨?_, ?_⟩
      · change RingActivityAt (s.producers i) _
        rw [rings_setRing, closes closing, gone]
        exact .inr rfl
      · rw [rings_setRing, accepted]
        exact ok.acked
  | returned outcome values was => exact absurd was (notReturned outcome values)

/-- The ring's call comes back with as many values accepted as it says. -/
theorem ring_returned (ring : RingState.ProducerOk size.cap (s.rings i))
    {outcome : ProducerOutcome α} {values : List α}
    (returned : (s.rings i).producer.pc = .returned outcome values)
    (taken : s.ringProducerTick size i = some after) :
    ∃ ring, after = s.setRing i ring ∧
      RingState.producerActivity ring.producer.pc = .idle ∧
        ring.producer.accepted.length =
          (s.rings i).producer.accepted.length + RingState.acceptedCount outcome := by
  obtain ⟨known, fresh, facts⟩ := ring
  have here := facts.here
  rw [returned] at here
  obtain ⟨ring, ticked, rfl⟩ := ringProducerTick_eq_some taken
  refine ⟨ring, rfl, ?_⟩
  cases RingState.producerTick_progress ticked with
  | running _ notReturned _ => exact absurd returned (notReturned _ _)
  | closed closing _ _ =>
      rw [returned] at closing
      cases outcome <;> cases closing
  | returned found foundValues was idle accepted =>
      rw [returned] at was
      cases was
      refine ⟨by rw [idle]; rfl, ?_⟩
      rw [accepted, List.length_append]
      exact congrArg _ here

theorem producer_ownTick (ok : ProducerInStep s i)
    (ringOk : RingState.ProducerOk size.cap (s.rings i))
    (taken : s.producerTick size i = some after) : ProducerInStep after i := by
  have activity := ok.activity
  have acked := ok.acked
  unfold producerTick at taken
  cases pcEq : s.producers i with
  | idle | gone => simp [pcEq] at taken
  | sendLoop value | bulkLoadShutdown items =>
      simp only [pcEq] at taken
      split at taken <;> cases taken <;>
        exact ok.goto rfl rfl (by simp [pcEq, RingActivityAt]) (by simp [pcEq, unacknowledged])
  | loadShutdown call value =>
      simp only [pcEq] at taken
      split at taken <;> cases taken
      · cases call <;>
          exact ok.goto rfl rfl (by simp [pcEq, RingActivityAt, sendRejected])
            (by simp [pcEq, unacknowledged, sendRejected])
      · exact ok.goto rfl rfl (by simp [pcEq, RingActivityAt]) (by simp [pcEq, unacknowledged])
  | waitShutdown phase value =>
      simp only [pcEq] at taken
      split at taken <;> cases taken
      · cases phase <;>
          exact ok.goto rfl rfl (by simp [pcEq, RingActivityAt, sendWaited])
            (by simp [pcEq, unacknowledged, sendWaited])
      · exact ok.goto rfl rfl (by simp [pcEq, RingActivityAt]) (by simp [pcEq, unacknowledged])
  | asyncLoop value | fetchSub =>
      simp only [pcEq] at taken
      split at taken <;> cases taken <;>
        exact ok.goto rfl rfl (by simp [pcEq, RingActivityAt]) (by simp [pcEq, unacknowledged])
  | waitTail phase value head =>
      simp only [pcEq, Option.some.injEq] at taken
      subst taken
      generalize (!RingState.isFull size.cap head (s.rings i).shared.tail.current) = ready
      cases phase <;> cases ready <;>
        exact ok.goto rfl rfl (by simp [pcEq, RingActivityAt, sendWaited])
          (by simp [pcEq, unacknowledged, sendWaited])
  | waitHead phase value | returned outcome | asyncArm value | waitAnnounce value
  | waitLeave value | wakeLast =>
      simp only [pcEq, Option.some.injEq] at taken
      subst taken
      exact ok.goto rfl rfl (by simp [pcEq, RingActivityAt]) (by simp [pcEq, unacknowledged])
  | waitPark value | asyncAwait value =>
      simp only [pcEq] at taken
      split at taken <;> cases taken
      exact ok.goto rfl rfl (by simp [pcEq, RingActivityAt]) (by simp [pcEq, unacknowledged])
  | enterTrySend call value =>
      simp only [pcEq] at taken
      obtain ⟨inside, moved, rfl⟩ := Option.map_eq_some_iff.mp taken
      obtain ⟨ring, started, rfl⟩ := ringProducer_eq_some moved
      obtain ⟨single, accepted⟩ :=
        RingState.producerStart_progress (.inl ⟨value, rfl, rfl⟩) started
      constructor
      · simpa [producerAt, RingActivityAt] using single
      · simpa [producerAt, setRing, accepted, pcEq, unacknowledged] using acked
  | enterBulk items =>
      simp only [pcEq] at taken
      obtain ⟨inside, moved, rfl⟩ := Option.map_eq_some_iff.mp taken
      obtain ⟨ring, started, rfl⟩ := ringProducer_eq_some moved
      obtain ⟨bulk, accepted⟩ :=
        RingState.producerStart_progress (.inr (.inl ⟨items, rfl, rfl⟩)) started
      constructor
      · simpa [producerAt, RingActivityAt] using bulk
      · simpa [producerAt, setRing, accepted, pcEq, unacknowledged] using acked
  | enterClose =>
      simp only [pcEq] at taken
      obtain ⟨inside, moved, rfl⟩ := Option.map_eq_some_iff.mp taken
      obtain ⟨ring, started, rfl⟩ := ringProducer_eq_some moved
      obtain ⟨closing, accepted⟩ :=
        RingState.producerStart_progress (.inr (.inr ⟨rfl, rfl⟩)) started
      constructor
      · simpa [producerAt, RingActivityAt] using .inl closing
      · simpa [producerAt, setRing, accepted, pcEq, unacknowledged] using acked
  | inTrySend call value =>
      simp only [pcEq, RingActivityAt] at taken activity
      split at taken
      · rename_i result values returned
        obtain ⟨inside, moved, rfl⟩ := Option.map_eq_some_iff.mp taken
        obtain ⟨ring, rfl, idle, count⟩ := ring_returned ringOk returned moved
        rw [acked, pcEq] at count
        exact trySendReturned_inStep (s.setRing i ring) i call (by rwa [rings_setRing])
          (by rw [rings_setRing, count]; rfl)
      · rename_i notTrySend
        refine ring_running ok ?_ (fun closing => by rw [activity] at closing; cases closing)
          taken
        intro outcome values was
        rw [was] at activity
        cases outcome with
        | trySend result => exact notTrySend result values was
        | send result => cases activity
        | trySendBulk count items => cases activity
  | inBulk =>
      simp only [pcEq, RingActivityAt] at taken activity
      split at taken
      · rename_i consumed items values returned
        obtain ⟨inside, moved, rfl⟩ := Option.map_eq_some_iff.mp taken
        obtain ⟨ring, rfl, idle, count⟩ := ring_returned ringOk returned moved
        rw [acked, pcEq] at count
        split
        · constructor
          · simpa [producerAt, RingActivityAt] using idle
          · simpa [producerAt, setRing, unacknowledged, RingState.acceptedCount] using count
        · constructor
          · simpa [producerAt, RingActivityAt] using idle
          · simp only [RingState.acceptedCount, unacknowledged] at count
            simp only [producerAt, setRing, Function.update_self, unacknowledged]
            omega
      · rename_i notBulk
        refine ring_running ok ?_ (fun closing => by rw [activity] at closing; cases closing)
          taken
        intro outcome values was
        rw [was] at activity
        cases outcome with
        | trySendBulk count items => exact notBulk count items values was
        | send result => cases activity
        | trySend result => cases activity
  | inClose =>
      simp only [pcEq, RingActivityAt] at taken activity
      split at taken
      · rename_i gone
        cases taken
        exact ok.goto rfl rfl (by simp [gone, RingActivityAt, RingState.producerActivity])
          (by simp [pcEq, unacknowledged])
      · refine ring_running ok ?_ (fun _ => pcEq) taken
        intro outcome values was
        rw [was] at activity
        cases outcome <;> rcases activity with closing | closing <;> cases closing
  | wakeFanin call =>
      simp only [pcEq, Option.some.injEq, RingActivityAt, unacknowledged] at taken activity acked
      subst taken
      constructor
      · simpa [producerAt, RingActivityAt, acknowledge, rings_disarm, wakeFanin] using activity
      · simpa [producerAt, acknowledge, rings_disarm, history_disarm, wakeFanin,
          unacknowledged] using acked
  | bulkWakeFanin consumed items =>
      simp only [pcEq, Option.some.injEq, RingActivityAt, unacknowledged] at taken activity acked
      subst taken
      constructor
      · simpa [producerAt, RingActivityAt, acknowledge, wakeFanin] using activity
      · simpa [producerAt, acknowledge, wakeFanin, unacknowledged] using acked

theorem producer_ownStep (ok : ProducerInStep s i)
    (ringOk : RingState.ProducerOk size.cap (s.rings i)) {action : MpscProducerAction α}
    (taken : s.producerStep size i action = some after) : ProducerInStep after i := by
  cases action with
  | tick => exact producer_ownTick ok ringOk taken
  | trySendBulk items =>
      simp only [producerStep] at taken
      split at taken
      · rename_i pcEq
        split at taken <;> cases taken <;>
          exact ok.goto rfl rfl (by simp [pcEq, RingActivityAt]) (by simp [pcEq, unacknowledged])
      · cases taken
  | trySend value | send value | sendAsyncSend value | drop | spin | spurious =>
      simp only [producerStep] at taken
      split at taken
      · rename_i pcEq
        cases taken
        exact ok.goto rfl rfl (by simp [pcEq, RingActivityAt]) (by simp [pcEq, unacknowledged])
      · cases taken

theorem ringProducer_live {action : ProducerAction α}
    (taken : s.ringProducer size i action = some after) :
    after.liveProducers = s.liveProducers ∧ after.producers = s.producers := by
  obtain ⟨ring, -, rfl⟩ := ringProducer_eq_some taken
  exact ⟨rfl, rfl⟩

theorem producerTick_live (taken : s.producerTick size i = some after) :
    LiveStep s after i := by
  unfold producerTick at taken
  cases pcEq : s.producers i with
  | idle | gone => simp [pcEq] at taken
  | sendLoop value | bulkLoadShutdown items | asyncLoop value | waitPark value
  | asyncAwait value =>
      simp only [pcEq] at taken
      split at taken <;> cases taken <;> exact .same rfl (by simp [pcEq, countedLive])
  | loadShutdown call value =>
      simp only [pcEq] at taken
      split at taken <;> cases taken
      · exact .same rfl (by cases call <;> simp [pcEq, countedLive, sendRejected])
      · exact .same rfl (by simp [pcEq, countedLive])
  | waitShutdown phase value =>
      simp only [pcEq] at taken
      split at taken <;> cases taken
      · exact .same rfl (by cases phase <;> simp [pcEq, countedLive, sendWaited])
      · exact .same rfl (by simp [pcEq, countedLive])
  | waitTail phase value head =>
      simp only [pcEq, Option.some.injEq] at taken
      subst taken
      generalize (!RingState.isFull size.cap head (s.rings i).shared.tail.current) = ready
      exact .same rfl (by cases phase <;> cases ready <;> simp [pcEq, countedLive, sendWaited])
  | waitHead phase value | returned outcome | asyncArm value | waitAnnounce value
  | waitLeave value | bulkWakeFanin consumed items | wakeLast =>
      simp only [pcEq, Option.some.injEq] at taken
      subst taken
      exact .same rfl (by simp [pcEq, countedLive])
  | wakeFanin call =>
      simp only [pcEq, Option.some.injEq] at taken
      subst taken
      exact .same (live_disarm _ _ _) (by simp [pcEq, countedLive])
  | enterTrySend call value | enterBulk items | enterClose =>
      simp only [pcEq] at taken
      obtain ⟨inside, moved, rfl⟩ := Option.map_eq_some_iff.mp taken
      exact .same (ringProducer_live moved).1 (by simp [pcEq, countedLive])
  | inTrySend call value =>
      simp only [pcEq] at taken
      split at taken
      · obtain ⟨inside, moved, rfl⟩ := Option.map_eq_some_iff.mp taken
        obtain ⟨live, counted⟩ := trySendReturned_live inside i call _
        exact .same (live.trans (ringProducer_live moved).1) (by rw [counted, pcEq]; rfl)
      · obtain ⟨live, producers⟩ := ringProducer_live taken
        exact .same live (by rw [producers])
  | inBulk =>
      simp only [pcEq] at taken
      split at taken
      · obtain ⟨inside, moved, rfl⟩ := Option.map_eq_some_iff.mp taken
        have live := (ringProducer_live moved).1
        split <;> exact .same live (by simp [pcEq, countedLive])
      · obtain ⟨live, producers⟩ := ringProducer_live taken
        exact .same live (by rw [producers])
  | inClose =>
      simp only [pcEq] at taken
      split at taken
      · cases taken
        exact .same rfl (by simp [pcEq, countedLive])
      · obtain ⟨live, producers⟩ := ringProducer_live taken
        exact .same live (by rw [producers])
  | fetchSub =>
      simp only [pcEq] at taken
      split at taken <;> cases taken <;> exact .leaves rfl pcEq (by simp [countedLive])

theorem producerStep_live {action : MpscProducerAction α}
    (taken : s.producerStep size i action = some after) : LiveStep s after i := by
  cases action with
  | tick => exact producerTick_live taken
  | trySendBulk items =>
      simp only [producerStep] at taken
      split at taken
      · rename_i pcEq
        split at taken <;> cases taken <;> exact .same rfl (by simp [pcEq, countedLive])
      · cases taken
  | trySend value | send value | sendAsyncSend value | drop | spin | spurious =>
      simp only [producerStep] at taken
      split at taken
      · rename_i pcEq
        cases taken
        exact .same rfl (by simp [pcEq, countedLive])
      · cases taken

/-! ### Whole runs -/

/-- `live_producers` counts the handles that have not given up their place. -/
def LiveOk (size : MpscSize) (s : MpscState α) : Prop :=
  s.liveProducers = ∑ i ∈ Finset.range size.m, if countedLive (s.producers i) then 1 else 0

theorem LiveOk.step (ok : LiveOk size s) (inside : i < size.m)
    (frame : ProducerFrame size i s after) (live : LiveStep s after i) :
    LiveOk size after := by
  have member := Finset.mem_range.mpr inside
  have others : ∑ j ∈ (Finset.range size.m).erase i,
      (if countedLive (after.producers j) then 1 else 0) =
        ∑ j ∈ (Finset.range size.m).erase i,
          (if countedLive (s.producers j) then 1 else 0) := by
    refine Finset.sum_congr rfl fun j inErase => ?_
    rw [frame.producers j (Finset.ne_of_mem_erase inErase)]
  unfold LiveOk at ok ⊢
  rw [← Finset.add_sum_erase _ _ member] at ok ⊢
  rw [others]
  cases live with
  | same live counted => rw [live, counted, ok]
  | leaves live was out =>
      rw [was] at ok
      rw [live, out, ok]
      simp [countedLive]

theorem LiveOk.congr (ok : LiveOk size s) (producers : after.producers = s.producers)
    (live : after.liveProducers = s.liveProducers) : LiveOk size after := by
  rw [LiveOk, producers, live]
  exact ok

/-- Whatever the callbacks do: the count is the producers' own. -/
theorem liveOk (reached : (system size).Reachable s) : LiveOk size s := by
  refine reached.invariant (LiveOk size) ?base ?preserved
  case base =>
    rintro _ rfl
    simp [LiveOk, new, countedLive]
  case preserved =>
    intro before action after _ ok taken
    cases action with
    | producer i action =>
        obtain ⟨inside, taken⟩ := producer_of_step taken
        exact ok.step inside (producerStep_frame taken) (producerStep_live taken)
    | consumer action =>
        have frame := consumerStep_frame taken
        exact ok.congr frame.producers frame.liveProducers
    | signaller k action =>
        have frame := signallerStep_frame taken
        exact ok.congr frame.producers frame.liveProducers

structure ProducersOk (size : MpscSize) (s : MpscState α) : Prop where
  inStep : ∀ i, ProducerInStep s i
  live : LiveOk size s
  ackedAtSignal : ∀ i, s.history.ackedAtSignal i ≤ s.history.acked i

/-- Every ring of a reachable state keeps its invariant. -/
theorem ring_ok (reached : (withinCache size).Reachable s) (i : Nat) :
    RingState.SharedOk size.cap (s.rings i).shared ∧
      RingState.ProducerOk size.cap (s.rings i) ∧ RingState.ConsumerOk (s.rings i) :=
  RingState.invariant (ring_reachable reached i)

/-- A consumer step leaves the producers' halves of the rings alone. -/
theorem consumerStep_rely {action : MpscConsumerAction}
    (reached : (withinCache size).Reachable s)
    (within : s.panicsWithinCache (.consumer action) = true)
    (taken : s.consumerStep size action = some after) (i : Nat) :
    after.rings i = s.rings i ∨ RingState.ProducerRely (s.rings i) (after.rings i) := by
  rcases (consumerStep_frame taken).rings i with same | ⟨move, moved, panics⟩
  · exact .inl same
  · obtain ⟨shared, -, consumer⟩ := ring_ok reached i
    have ringWithin : (s.rings i).panicsWithinCache (.consumer move) = true := by
      cases move with
      | panic => simpa [panicsWithinCache, panics rfl] using within
      | _ => rfl
    exact .inr (RingState.consumer_step shared consumer ringWithin moved).2.2

/-- A producer step leaves the consumer's half of the ring alone. -/
theorem producerStep_rely {action : MpscProducerAction α} {j : Nat}
    (reached : (withinCache size).Reachable s)
    (taken : s.producerStep size j action = some after) (i : Nat) :
    after.rings i = s.rings i ∨ RingState.ConsumerRely (s.rings i) (after.rings i) := by
  have frame := producerStep_frame taken
  by_cases same : i = j
  · subst same
    rcases frame.ring with same | ⟨move, moved⟩
    · exact .inl same
    · obtain ⟨shared, producer, -⟩ := ring_ok reached i
      exact .inr (RingState.producer_step shared producer moved).2.2
  · exact .inl (frame.rings i same)

theorem producerInStep (reached : (withinCache size).Reachable s) (i : Nat) :
    ProducerInStep s i := by
  revert i
  refine reached.invariant (fun s => ∀ i, ProducerInStep s i) ?base ?preserved
  case base =>
    rintro _ rfl
    exact fun _ => ⟨rfl, rfl⟩
  case preserved =>
    rintro before action after reached ok ⟨within, taken⟩ j
    cases action with
    | producer i action =>
        have taken := (producer_of_step taken).2
        have frame := producerStep_frame taken
        by_cases same : j = i
        · rw [same]
          exact producer_ownStep (ok i) (ring_ok reached i).2.1 taken
        · exact (ok j).congr (frame.producers j same) (by rw [frame.rings j same])
            (frame.acked j same)
    | consumer action =>
        have frame := consumerStep_frame taken
        refine (ok j).congr (by rw [frame.producers]) ?_ (by rw [frame.acked])
        rcases consumerStep_rely reached within taken j with same | rely
        · rw [same]
        · exact rely.producer
    | signaller k action =>
        have frame := signallerStep_frame taken
        exact (ok j).congr (by rw [frame.producers]) (by rw [frame.rings]) (by rw [frame.acked])

theorem ackedAtSignal_le (reached : (withinCache size).Reachable s) (i : Nat) :
    s.history.ackedAtSignal i ≤ s.history.acked i := by
  revert i
  refine reached.invariant
    (fun s => ∀ i, s.history.ackedAtSignal i ≤ s.history.acked i) ?base ?preserved
  case base =>
    rintro _ rfl
    exact fun _ => le_rfl
  case preserved =>
    rintro before action after - ok ⟨-, taken⟩ j
    cases action with
    | producer i action =>
        have frame := producerStep_frame (producer_of_step taken).2
        rw [frame.ackedAtSignal]
        exact (ok j).trans (frame.acked_le j)
    | consumer action =>
        have frame := consumerStep_frame taken
        rw [frame.ackedAtSignal, frame.acked]
        exact ok j
    | signaller k action =>
        have frame := signallerStep_frame taken
        rw [frame.acked]
        rcases frame.snapshot with same | taken
        · rw [same]
          exact ok j
        · rw [taken]

theorem producersOk (reached : (withinCache size).Reachable s) : ProducersOk size s :=
  { inStep := producerInStep reached
    live := liveOk reached.of_guarded
    ackedAtSignal := ackedAtSignal_le reached }

end MpscState

end ArbitroKit
