import ArbitroKit.Mpsc

/-!
# What a step of one handle leaves alone

Frames for the three kinds of handles of the many-producer channel, and the
projection they give: every ring of the channel runs as a ring of its own.
-/

namespace ArbitroKit

open Coherent SlotLane Cyclic Transition

namespace MpscState

variable {α : Type*} {size : MpscSize}

theorem ringProducer_eq_some {s after : MpscState α} {i : Nat} {action : ProducerAction α}
    (taken : s.ringProducer size i action = some after) :
    ∃ ring, (s.rings i).producerStep size.cap action = some ring ∧ after = s.setRing i ring := by
  obtain ⟨ring, moved, rfl⟩ := Option.map_eq_some_iff.mp taken
  exact ⟨ring, moved, rfl⟩

theorem ringConsumer_eq_some {s after : MpscState α} {i : Nat} {action : ConsumerAction}
    (taken : s.ringConsumer size i action = some after) :
    ∃ ring, (s.rings i).consumerStep size.cap action = some ring ∧ after = s.setRing i ring := by
  obtain ⟨ring, moved, rfl⟩ := Option.map_eq_some_iff.mp taken
  exact ⟨ring, moved, rfl⟩

@[simp]
theorem noteTick_rings (s : MpscState α) (i : Nat) : (s.noteTick i).rings = s.rings := by
  unfold noteTick
  split <;> rfl

theorem ringConsumerTick_eq_some {s after : MpscState α} {i : Nat}
    (taken : s.ringConsumerTick size i = some after) :
    ∃ ring, (s.rings i).consumerStep size.cap (.tick (s.rings i).shared.head.latest) =
      some ring ∧ after = (s.noteTick i).setRing i ring := by
  obtain ⟨ring, moved, rfl⟩ := ringConsumer_eq_some taken
  exact ⟨ring, by simpa using moved, rfl⟩

theorem producer_of_step {s after : MpscState α} {i : Nat} {action : MpscProducerAction α}
    (taken : s.step size (.producer i action) = some after) :
    i < size.m ∧ s.producerStep size i action = some after := by
  simp only [step] at taken
  split at taken
  · exact ⟨by assumption, taken⟩
  · cases taken

/-! ### Producers -/

/-- A step of producer `i` moves at most its own half of its own ring, its own
waiter and its own history. -/
structure ProducerFrame (size : MpscSize) (i : Nat) (before after : MpscState α) :
    Prop where
  ring : after.rings i = before.rings i ∨
    ∃ action, (before.rings i).producerStep size.cap action = some (after.rings i)
  rings : ∀ j, j ≠ i → after.rings j = before.rings j
  producers : ∀ j, j ≠ i → after.producers j = before.producers j
  waiters : ∀ j, j ≠ i → after.producerWaiters j = before.producerWaiters j
  acked : ∀ j, j ≠ i → after.history.acked j = before.history.acked j
  acked_le : ∀ j, before.history.acked j ≤ after.history.acked j
  consumer : after.consumer = before.consumer
  signallers : after.signallers = before.signallers
  shutdown : after.shutdown = before.shutdown
  ackedAtSignal : after.history.ackedAtSignal = before.history.ackedAtSignal
  looked : after.history.looked = before.history.looked

namespace ProducerFrame

variable {i : Nat} {before after : MpscState α}

theorem refl (size : MpscSize) (i : Nat) (s : MpscState α) : ProducerFrame size i s s where
  ring := .inl rfl
  rings _ _ := rfl
  producers _ _ := rfl
  waiters _ _ := rfl
  acked _ _ := rfl
  acked_le _ := le_rfl
  consumer := rfl
  signallers := rfl
  shutdown := rfl
  ackedAtSignal := rfl
  looked := rfl

theorem ofRing {action : ProducerAction α}
    (taken : before.ringProducer size i action = some after) :
    ProducerFrame size i before after := by
  obtain ⟨ring, moved, rfl⟩ := ringProducer_eq_some taken
  exact
    { refl size i before with
      ring := .inr ⟨action, by simpa [setRing] using moved⟩
      rings := fun j other => by simp [setRing, other] }

theorem producerAt (frame : ProducerFrame size i before after) (pc : MpscProducerPc α) :
    ProducerFrame size i before (after.producerAt i pc) :=
  { frame with
    producers := fun j other => by
      simpa [MpscState.producerAt, other] using frame.producers j other }

theorem setProducerWaiter (frame : ProducerFrame size i before after) (waiter : Waiter) :
    ProducerFrame size i before (after.setProducerWaiter i waiter) :=
  { frame with
    waiters := fun j other => by
      simpa [MpscState.setProducerWaiter, other] using frame.waiters j other }

theorem wakeFanin (frame : ProducerFrame size i before after) :
    ProducerFrame size i before after.wakeFanin :=
  { frame with }

theorem acknowledge (frame : ProducerFrame size i before after) (count : Nat) :
    ProducerFrame size i before (after.acknowledge i count) :=
  { frame with
    acked := fun j other => by
      simpa [MpscState.acknowledge, other] using frame.acked j other
    acked_le := fun j => by
      refine (frame.acked_le j).trans ?_
      by_cases same : j = i
      · subst same
        simp [MpscState.acknowledge]
      · simp [MpscState.acknowledge, same] }

theorem disarm (frame : ProducerFrame size i before after) (call : MpscSendCall) :
    ProducerFrame size i before (after.disarm i call) := by
  cases call with
  | sendAsyncSend => exact frame.setProducerWaiter _
  | trySend | send => exact frame

theorem trySendReturned (frame : ProducerFrame size i before after) (call : MpscSendCall)
    (result : Except (TrySendError α) Unit) :
    ProducerFrame size i before (after.trySendReturned i call result) := by
  rcases result with (value | value) | ⟨⟩
  · exact frame.producerAt _
  · exact (frame.disarm call).producerAt _
  · exact frame.producerAt _

theorem setLive (frame : ProducerFrame size i before after) (count : Nat) :
    ProducerFrame size i before { after with liveProducers := count } :=
  { frame with }

end ProducerFrame

theorem producerTick_frame {s after : MpscState α} {i : Nat}
    (taken : s.producerTick size i = some after) : ProducerFrame size i s after := by
  have here := ProducerFrame.refl size i s
  unfold producerTick at taken
  cases pcEq : s.producers i with
  | idle | gone => simp [pcEq] at taken
  | sendLoop value | loadShutdown call value | bulkLoadShutdown items
  | waitShutdown phase value =>
      simp only [pcEq] at taken
      split at taken <;> cases taken <;> exact here.producerAt _
  | asyncLoop value =>
      simp only [pcEq] at taken
      split at taken <;> cases taken
      · exact (here.disarm _).producerAt _
      · exact here.producerAt _
  | waitHead phase value | waitTail phase value head | returned outcome =>
      simp only [pcEq, Option.some.injEq] at taken
      subst taken
      exact here.producerAt _
  | asyncArm value | waitAnnounce value | waitLeave value =>
      simp only [pcEq, Option.some.injEq] at taken
      subst taken
      exact (here.setProducerWaiter _).producerAt _
  | waitPark value | asyncAwait value =>
      simp only [pcEq] at taken
      split at taken <;> cases taken
      exact (here.setProducerWaiter _).producerAt _
  | enterTrySend call value | enterBulk items | enterClose =>
      simp only [pcEq] at taken
      obtain ⟨inside, moved, rfl⟩ := Option.map_eq_some_iff.mp taken
      exact (ProducerFrame.ofRing moved).producerAt _
  | inTrySend call value =>
      simp only [pcEq] at taken
      split at taken
      · obtain ⟨inside, moved, rfl⟩ := Option.map_eq_some_iff.mp taken
        exact (ProducerFrame.ofRing moved).trySendReturned _ _
      · exact .ofRing taken
  | inBulk =>
      simp only [pcEq] at taken
      split at taken
      · obtain ⟨inside, moved, rfl⟩ := Option.map_eq_some_iff.mp taken
        split <;> exact (ProducerFrame.ofRing moved).producerAt _
      · exact .ofRing taken
  | inClose =>
      simp only [pcEq] at taken
      split at taken
      · cases taken
        exact here.producerAt _
      · exact .ofRing taken
  | wakeFanin call =>
      simp only [pcEq, Option.some.injEq] at taken
      subst taken
      exact ((here.wakeFanin.disarm _).acknowledge _).producerAt _
  | bulkWakeFanin consumed items =>
      simp only [pcEq, Option.some.injEq] at taken
      subst taken
      exact (here.wakeFanin.acknowledge _).producerAt _
  | fetchSub =>
      simp only [pcEq] at taken
      split at taken <;> cases taken <;> exact (here.setLive _).producerAt _
  | wakeLast =>
      simp only [pcEq, Option.some.injEq] at taken
      subst taken
      exact here.wakeFanin.producerAt _

theorem producerStep_frame {s after : MpscState α} {i : Nat}
    {action : MpscProducerAction α} (taken : s.producerStep size i action = some after) :
    ProducerFrame size i s after := by
  cases action with
  | tick => exact producerTick_frame taken
  | trySendBulk items =>
      simp only [producerStep] at taken
      split at taken
      · split at taken <;> cases taken <;> exact (ProducerFrame.refl size i s).producerAt _
      · cases taken
  | trySend value | send value | sendAsyncSend value | drop | spin | spurious =>
      simp only [producerStep] at taken
      split at taken <;> cases taken
      exact (ProducerFrame.refl size i s).producerAt _

/-! ### Consumer -/

/-- The ring in whose `drain` a callback is panicking. -/
def panicsIn (s : MpscState α) : MpscConsumerAction → Option Nat
  | .panic =>
      match s.consumer with
      | .inDrain _ idx _ _ => some idx
      | _ => none
  | _ => none

/-- A step of the consumer moves at most its own half of one ring, the pending
wakes of the waiters and its own history. -/
structure ConsumerFrame (size : MpscSize) (action : MpscConsumerAction)
    (before after : MpscState α) : Prop where
  rings : ∀ j, after.rings j = before.rings j ∨
    ∃ move, (before.rings j).consumerStep size.cap move = some (after.rings j) ∧
      (move = .panic → panicsIn before action = some j)
  announced : ∀ j, (after.producerWaiters j).announced = (before.producerWaiters j).announced
  producers : after.producers = before.producers
  signallers : after.signallers = before.signallers
  shutdown : after.shutdown = before.shutdown
  liveProducers : after.liveProducers = before.liveProducers
  acked : after.history.acked = before.history.acked
  ackedAtSignal : after.history.ackedAtSignal = before.history.ackedAtSignal

namespace ConsumerFrame

variable {action : MpscConsumerAction} {before after : MpscState α}

theorem refl (size : MpscSize) (action : MpscConsumerAction) (s : MpscState α) :
    ConsumerFrame size action s s where
  rings _ := .inl rfl
  announced _ := rfl
  producers := rfl
  signallers := rfl
  shutdown := rfl
  liveProducers := rfl
  acked := rfl
  ackedAtSignal := rfl

theorem ofRing {i : Nat} {move : ConsumerAction}
    (taken : before.ringConsumer size i move = some after)
    (panics : move = .panic → panicsIn before action = some i) :
    ConsumerFrame size action before after := by
  obtain ⟨ring, moved, rfl⟩ := ringConsumer_eq_some taken
  refine { refl size action before with rings := fun j => ?_ }
  by_cases same : j = i
  · subst same
    exact .inr ⟨move, by simpa [setRing] using moved, panics⟩
  · exact .inl (by simp [setRing, same])

theorem ofRingTick {i : Nat} (taken : before.ringConsumerTick size i = some after) :
    ConsumerFrame size action before after := by
  have frame : ConsumerFrame size action (before.noteTick i) after := ofRing taken nofun
  unfold noteTick at frame
  split at frame <;> exact { frame with }

theorem consumerAt (frame : ConsumerFrame size action before after) (pc : MpscConsumerPc α) :
    ConsumerFrame size action before (after.consumerAt pc) :=
  { frame with }

theorem look (frame : ConsumerFrame size action before after) (i : Nat) :
    ConsumerFrame size action before (after.look i) :=
  { frame with }

theorem setFaninWaiter (frame : ConsumerFrame size action before after) (waiter : Waiter) :
    ConsumerFrame size action before { after with faninWaiter := waiter } :=
  { frame with }

theorem wakeProducer (frame : ConsumerFrame size action before after) (i : Nat) :
    ConsumerFrame size action before (after.wakeProducer i) := by
  refine { frame with announced := fun j => ?_ }
  rw [← frame.announced j]
  by_cases same : j = i
  · subst same
    simp [MpscState.wakeProducer, MpscState.setProducerWaiter]
  · simp [MpscState.wakeProducer, MpscState.setProducerWaiter, same]

end ConsumerFrame

theorem consumerTick_frame {s after : MpscState α}
    (taken : s.consumerTick size = some after) : ConsumerFrame size .tick s after := by
  have here := ConsumerFrame.refl size .tick s
  unfold consumerTick at taken
  cases pcEq : s.consumer with
  | idle | gone => simp [pcEq] at taken
  | enterTryRecv call idx | enterDrain call idx total progress =>
      simp only [pcEq] at taken
      obtain ⟨inside, moved, rfl⟩ := Option.map_eq_some_iff.mp taken
      exact (ConsumerFrame.ofRing moved nofun).consumerAt _
  | inTryRecv call idx =>
      simp only [pcEq] at taken
      split at taken
      · obtain ⟨inside, moved, rfl⟩ := Option.map_eq_some_iff.mp taken
        split <;> exact (ConsumerFrame.ofRingTick moved).consumerAt _
      · exact .ofRingTick taken
  | inDrain call idx total progress =>
      simp only [pcEq] at taken
      split at taken
      · obtain ⟨inside, moved, rfl⟩ := Option.map_eq_some_iff.mp taken
        split <;> exact (ConsumerFrame.ofRingTick moved).consumerAt _
      · obtain ⟨inside, moved, rfl⟩ := Option.map_eq_some_iff.mp taken
        exact (ConsumerFrame.ofRingTick moved).consumerAt _
      · exact .ofRingTick taken
  | wakeProducer call idx value | batchWakeProducer call idx total =>
      simp only [pcEq, Option.some.injEq] at taken
      subst taken
      exact (here.wakeProducer _).consumerAt _
  | finishedShutdown call asker | finishedLive call asker
  | workTail call asker inFinished idx head =>
      simp only [pcEq] at taken
      split at taken <;> cases taken <;> exact here.consumerAt _
  | workHead call asker inFinished idx =>
      simp only [pcEq, Option.some.injEq] at taken
      subst taken
      exact (here.look _).consumerAt _
  | waitAnnounce call | waitLeave call =>
      simp only [pcEq, Option.some.injEq] at taken
      subst taken
      exact (here.setFaninWaiter _).consumerAt _
  | waitPark call =>
      simp only [pcEq] at taken
      split at taken <;> cases taken
      exact (here.setFaninWaiter _).consumerAt _
  | enterClose idx =>
      simp only [pcEq] at taken
      split at taken
      · obtain ⟨inside, moved, rfl⟩ := Option.map_eq_some_iff.mp taken
        exact (ConsumerFrame.ofRing moved nofun).consumerAt _
      · cases taken
        exact here.consumerAt _
  | inClose idx =>
      simp only [pcEq] at taken
      split at taken
      · cases taken
        exact here.consumerAt _
      · exact .ofRingTick taken
  | returned outcome =>
      simp only [pcEq, Option.some.injEq] at taken
      subst taken
      exact here.consumerAt _

theorem consumerStep_frame {s after : MpscState α} {action : MpscConsumerAction}
    (taken : s.consumerStep size action = some after) :
    ConsumerFrame size action s after := by
  cases action with
  | tick => exact consumerTick_frame taken
  | panic =>
      simp only [consumerStep] at taken
      split at taken
      · rename_i call idx total progress pcEq
        exact .ofRing taken fun _ => by simp [panicsIn, pcEq]
      · cases taken
  | tryRecv | recv | tryRecvBatch | recvBatch | drop | spin | spurious =>
      simp only [consumerStep] at taken
      split at taken <;> cases taken
      exact (ConsumerFrame.refl size _ s).consumerAt _

/-! ### Shutdown handles -/

/-- A step of a shutdown handle touches no ring and no other handle. -/
structure SignallerFrame (before after : MpscState α) : Prop where
  rings : after.rings = before.rings
  announced : ∀ j, (after.producerWaiters j).announced = (before.producerWaiters j).announced
  producers : after.producers = before.producers
  consumer : after.consumer = before.consumer
  liveProducers : after.liveProducers = before.liveProducers
  shutdown : before.shutdown = true → after.shutdown = true
  acked : after.history.acked = before.history.acked
  ackedAtSignal : before.shutdown = true →
    after.history.ackedAtSignal = before.history.ackedAtSignal
  snapshot : after.history.ackedAtSignal = before.history.ackedAtSignal ∨
    after.history.ackedAtSignal = before.history.acked
  looked : after.history.looked = before.history.looked

theorem signallerStep_frame {s after : MpscState α} {k : Nat} {action : MpscSignalAction}
    (taken : s.signallerStep size k action = some after) : SignallerFrame s after := by
  cases action with
  | signal =>
      simp only [signallerStep] at taken
      split at taken <;> cases taken
      exact
        { rings := rfl
          announced := fun _ => rfl
          producers := rfl
          consumer := rfl
          liveProducers := rfl
          shutdown := fun _ => rfl
          acked := rfl
          ackedAtSignal := fun signalled => by simp [signallerAt, signalled]
          snapshot := by
            by_cases signalled : s.shutdown = true <;> simp [signallerAt, signalled]
          looked := rfl }
  | tick =>
      have quiet (pc : MpscSignalPc) : SignallerFrame s (s.signallerAt k pc) :=
        ⟨rfl, fun _ => rfl, rfl, rfl, rfl, id, rfl, fun _ => rfl, .inl rfl, rfl⟩
      simp only [signallerStep] at taken
      split at taken
      · cases taken
      · cases taken
        exact { quiet (.wakeProducer 0) with }
      · split at taken <;> cases taken
        · rename_i idx _ _
          exact
            { quiet (.wakeProducer (idx + 1)) with
              announced := fun j => by
                by_cases same : j = idx
                · subst same
                  simp [signallerAt, MpscState.wakeProducer, MpscState.setProducerWaiter]
                · simp [signallerAt, MpscState.wakeProducer,
                    MpscState.setProducerWaiter, same] }
        · exact quiet .idle

/-! ### Rings -/

/-- `RingState.panicsWithinCache` for the ring whose `drain` is running. -/
def panicsWithinCache (s : MpscState α) : MpscAction α → Bool
  | .consumer action =>
      match panicsIn s action with
      | some idx => (s.rings idx).panicsWithinCache (.consumer .panic)
      | none => true
  | _ => true

/-- The runs whose callbacks panic only within the cached head. -/
def withinCache (size : MpscSize) : System (MpscState α) (MpscAction α) :=
  (system size).guarded fun s action => s.panicsWithinCache action = true

theorem step_ring {s after : MpscState α} {action : MpscAction α}
    (taken : s.step size action = some after) (j : Nat) :
    after.rings j = s.rings j ∨
      ∃ move, (s.rings j).step size.cap move = some (after.rings j) ∧
        (s.panicsWithinCache action = true → (s.rings j).panicsWithinCache move = true) := by
  cases action with
  | producer i action =>
      have frame := producerStep_frame (producer_of_step taken).2
      by_cases same : j = i
      · subst same
        rcases frame.ring with same | ⟨move, moved⟩
        · exact .inl same
        · exact .inr ⟨.producer move, moved, fun _ => rfl⟩
      · exact .inl (frame.rings j same)
  | consumer action =>
      rcases (consumerStep_frame taken).rings j with same | ⟨move, moved, panics⟩
      · exact .inl same
      · refine .inr ⟨.consumer move, moved, fun within => ?_⟩
        cases move with
        | panic => simpa [panicsWithinCache, panics rfl] using within
        | _ => rfl
  | signaller k action =>
      exact .inl (congrFun (signallerStep_frame taken).rings j)

/-- Every ring of the channel runs as a ring of its own. -/
theorem ring_reachable {s : MpscState α} (reached : (withinCache size).Reachable s)
    (j : Nat) : (RingState.withinCache size.cap).Reachable (s.rings j) := by
  refine reached.project (fun s => s.rings j) ?_ ?_
  · rintro _ rfl
    rfl
  · rintro before action after - ⟨within, taken⟩
    rcases step_ring taken j with same | ⟨move, moved, keeps⟩
    · exact .inl same
    · exact .inr ⟨move, keeps within, moved⟩

end MpscState

end ArbitroKit
