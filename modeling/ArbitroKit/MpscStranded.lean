import ArbitroKit.MpscShutdown
import ArbitroKit.RingDisconnect

/-!
# Producers blocked when the consumer goes away

`MpscConsumer` has no `Drop` of its own: its rings are closed, their waiters do
nothing, and nobody wakes the backpressure waiters of the channel.  A producer
that waits on its full ring at that moment, or starts to wait on it afterwards,
stays there until a shutdown is signalled.
-/

namespace ArbitroKit

open Coherent SlotLane Cyclic Transition

namespace RingState

variable {α : Type*} {cap : Cap} {s after : RingState α}

/-- A `try_send` that has not stored its value and has no room for it. -/
def unsent : ProducerPc α → Bool
  | .sendRefresh .trySend _ _ => true
  | .sendClosed .trySend _ => true
  | .returned (.trySend (.error _)) _ => true
  | _ => false

/-- A `try_send` that has found the ring full and not closed. -/
def foundFull : ProducerPc α → Bool
  | .returned (.trySend (.error (.full _))) _ => true
  | _ => false

theorem shared_trySendStart (cap : Cap) (s : RingState α) (call : SendCall) (value : α) :
    (s.trySendStart cap call value).shared = s.shared := by
  unfold trySendStart
  dsimp only
  split <;> rfl

theorem unsent_trySendStart_send (cap : Cap) (s : RingState α) (value : α) :
    unsent (s.trySendStart cap .send value).producer.pc = false ∧
      foundFull (s.trySendStart cap .send value).producer.pc = false := by
  unfold trySendStart
  dsimp only
  split <;> exact ⟨rfl, rfl⟩

theorem foundFull_trySendStart (call : SendCall) (value : α) :
    foundFull (s.trySendStart cap call value).producer.pc = false := by
  unfold trySendStart
  dsimp only
  split <;> rfl

theorem unsent_bulkStart (cap : Cap) (items : List α) (head tail : Usize) :
    unsent (bulkStart cap items head tail) = false ∧
      foundFull (bulkStart cap items head tail) = false := by
  unfold bulkStart
  dsimp only
  split <;> exact ⟨rfl, rfl⟩

/-- A `try_send` that will not store its value was already that before the step, with
the same cursors, and on a closed ring it does not come to find it full. -/
theorem unsent_tick {index : Nat} (taken : s.producerTick cap index = some after) :
    (unsent after.producer.pc = true → unsent s.producer.pc = true ∧
      after.shared.head = s.shared.head ∧ after.shared.tail = s.shared.tail) ∧
    (s.shared.closed = true → foundFull after.producer.pc = false) := by
  unfold producerTick at taken
  cases pcEq : s.producer.pc with
  | idle | gone => simp [pcEq] at taken
  | sendRefresh call value head =>
      simp only [pcEq] at taken
      obtain ⟨⟨tail, loadedState⟩, loaded, rfl⟩ := Option.map_eq_some_iff.mp taken
      obtain ⟨-, rfl⟩ := loadTail_eq_some loaded
      dsimp only
      cases call with
      | trySend => split <;> exact ⟨fun _ => ⟨rfl, rfl, rfl⟩, fun _ => rfl⟩
      | send => split <;> exact ⟨fun never => absurd never Bool.false_ne_true, fun _ => rfl⟩
  | sendClosed call value =>
      simp only [pcEq, Option.some.injEq] at taken
      subst taken
      refine ⟨fun blocked => ⟨?_, rfl, rfl⟩, fun closed => ?_⟩
      · cases call with
        | trySend => rfl
        | send =>
            cases closed : s.shared.closed <;>
              simp [closed, sendRejected, unsent, producerAt] at blocked
      · cases call <;> simp [closed, sendRejected, foundFull, producerAt]
  | waitTail phase value head =>
      simp only [pcEq] at taken
      obtain ⟨⟨tail, loadedState⟩, loaded, rfl⟩ := Option.map_eq_some_iff.mp taken
      obtain ⟨-, rfl⟩ := loadTail_eq_some loaded
      dsimp only
      split <;> cases phase <;> exact ⟨fun never => absurd never Bool.false_ne_true, fun _ => rfl⟩
  | bulkRefresh items head =>
      simp only [pcEq] at taken
      obtain ⟨⟨tail, loadedState⟩, loaded, rfl⟩ := Option.map_eq_some_iff.mp taken
      have quiet := unsent_bulkStart cap items head tail
      exact ⟨fun blocked => absurd (quiet.1.symm.trans blocked) Bool.false_ne_true,
        fun _ => quiet.2⟩
  | bulkWrite items head left written =>
      simp only [pcEq] at taken
      split at taken
      · cases taken
      · split at taken <;> cases taken <;>
          exact ⟨fun never => absurd never Bool.false_ne_true, fun _ => rfl⟩
  | sendRetry value =>
      simp only [pcEq, Option.some.injEq] at taken
      subst taken
      have quiet := unsent_trySendStart_send cap s value
      exact ⟨fun blocked => absurd (quiet.1.symm.trans blocked) Bool.false_ne_true,
        fun _ => quiet.2⟩
  | sendWake call value =>
      simp only [pcEq, Option.some.injEq] at taken
      subst taken
      cases call <;> exact ⟨fun never => absurd never Bool.false_ne_true, fun _ => rfl⟩
  | waitClosed phase value =>
      simp only [pcEq, Option.some.injEq] at taken
      subst taken
      cases phase <;> cases closed : s.shared.closed <;>
        exact ⟨fun never => absurd never Bool.false_ne_true, fun _ => rfl⟩
  | waitPark value =>
      simp only [pcEq] at taken
      split at taken <;> cases taken
      exact ⟨fun never => absurd never Bool.false_ne_true, fun _ => rfl⟩
  | _ =>
      simp only [pcEq, Option.some.injEq] at taken
      subst taken
      exact ⟨fun never => absurd never Bool.false_ne_true, fun _ => rfl⟩

/-- The step of a half-dropped consumer touches no cursor. -/
theorem halfDropped_tick {index : Nat} (dropped : halfDropped s.consumer.pc = true)
    (taken : s.consumerTick cap index = some after) :
    halfDropped after.consumer.pc = true ∧ after.producer = s.producer ∧
      after.shared.head = s.shared.head ∧ after.shared.tail = s.shared.tail := by
  unfold consumerTick at taken
  cases pcEq : s.consumer.pc with
  | dropWakeFull | dropWakeEmpty =>
      simp only [pcEq, Option.some.injEq] at taken
      subst taken
      exact ⟨rfl, rfl, rfl, rfl⟩
  | gone => simp [pcEq] at taken
  | _ =>
      rw [pcEq] at dropped
      cases dropped

end RingState

namespace MpscState

variable {α : Type*} {size : MpscSize} {s after : MpscState α} {i : Nat}

/-- The consumer's drop has closed ring `i`. -/
def closedBy (consumer : MpscConsumerPc α) (i : Nat) : Bool :=
  match consumer with
  | .enterClose idx => decide (i < idx)
  | .inClose idx => decide (i ≤ idx)
  | .gone => true
  | _ => false

/-- Ring `i` is full. -/
def full (size : MpscSize) (s : MpscState α) (i : Nat) : Bool :=
  RingState.isFull size.cap (s.rings i).shared.head.current (s.rings i).shared.tail.current

/-- A producer is inside a `send` that has not stored its value, or inside a
`send_async_send` that has found the ring full and has no wake pending. -/
def exposedAt (ring : ProducerPc α) (token : Bool) : MpscProducerPc α → Bool
  | .sendLoop _ => true
  | .loadShutdown .send _ => true
  | .enterTrySend .send _ => true
  | .inTrySend .send _ => RingState.unsent ring
  | .waitShutdown _ _ => true
  | .waitHead _ _ => true
  | .waitTail _ _ _ => true
  | .waitAnnounce _ => true
  | .waitPark _ => true
  | .waitLeave _ => true
  | .inTrySend .sendAsyncSend _ => RingState.foundFull ring && !token
  | .asyncAwait _ => !token
  | _ => false

def exposed (s : MpscState α) (i : Nat) : Bool :=
  exposedAt (s.rings i).producer.pc (s.producerWaiters i).token (s.producers i)

/-- The condition under which a step does not strand a producer.  While no shutdown
is signalled, the consumer's drop closes no full ring whose producer is exposed, and
no `send` is called on a full ring that the consumer's drop has closed. -/
def spares (size : MpscSize) (s : MpscState α) : MpscAction α → Bool
  | .producer i (.send _) => s.shutdown || !closedBy s.consumer i || !s.full size i
  | .consumer .tick =>
      match s.consumer with
      | .enterClose i => s.shutdown || !s.full size i || !s.exposed i
      | _ => true
  | _ => true

/-- The runs whose steps all meet that condition. -/
def sparing (size : MpscSize) : System (MpscState α) (MpscAction α) :=
  (system size).guarded fun s action => s.spares size action = true

/-- Producer `i` sleeps in `send`, or is suspended in `send_async_send`. -/
def Parked (pc : MpscProducerPc α) : Prop :=
  (∃ value, pc = .waitPark value) ∨ ∃ value, pc = .asyncAwait value

/-- The consumer has been dropped, shutdown was not signalled, and producer `i` is
parked on its full ring with no wake pending. -/
structure Stranded (size : MpscSize) (s : MpscState α) (i : Nat) : Prop where
  inside : i < size.m
  dropped : s.consumer = .gone
  running : s.shutdown = false
  parked : Parked (s.producers i)
  full : s.full size i = true
  noWake : (s.producerWaiters i).token = false

/-! ### Nobody is stranded -/

/-- What the consumer's drop leaves behind. -/
structure CloseOk (size : MpscSize) (s : MpscState α) : Prop where
  closed : ∀ i < size.m, closedBy s.consumer i = true → (s.rings i).shared.closed = true
  dropping : ∀ idx, s.consumer = .inClose idx →
    RingState.halfDropped (s.rings idx).consumer.pc = true
  spared : ∀ i < size.m, closedBy s.consumer i = true → s.shutdown = false →
    s.full size i = true → s.exposed i = false

theorem exposed_producerAt (s : MpscState α) (i : Nat) (pc : MpscProducerPc α) :
    (s.producerAt i pc).exposed i =
      exposedAt (s.rings i).producer.pc (s.producerWaiters i).token pc := by
  simp [exposed, producerAt]

theorem full_setRing (s : MpscState α) (i : Nat) {ring : RingState α}
    (head : ring.shared.head = (s.rings i).shared.head)
    (tail : ring.shared.tail = (s.rings i).shared.tail) :
    (s.setRing i ring).full size i = s.full size i := by
  simp [full, setRing, head, tail]

/-- Coming back from the ring's `try_send`. -/
theorem exposed_trySendReturned {call : MpscSendCall} {value : α}
    {result : Except (TrySendError α) Unit} {accepted : List α}
    (pcEq : s.producers i = .inTrySend call value)
    (returned : (s.rings i).producer.pc = .returned (.trySend result) accepted)
    {ring : RingState α} (shared : ring.shared = (s.rings i).shared)
    (exposedAfter : ((s.setRing i ring).trySendReturned i call result).exposed i = true) :
    s.exposed i = true ∧
      ((s.setRing i ring).trySendReturned i call result).full size i = s.full size i := by
  have same : (s.setRing i ring).full size i = s.full size i :=
    full_setRing s i (by rw [shared]) (by rw [shared])
  cases result with
  | ok stored =>
      rw [trySendReturned, exposed_producerAt] at exposedAfter
      cases exposedAfter
  | error error =>
      cases error with
      | full back =>
          rw [trySendReturned, exposed_producerAt] at exposedAfter
          rw [exposed, pcEq, returned]
          cases call with
          | trySend => cases exposedAfter
          | send => exact ⟨rfl, same⟩
          | sendAsyncSend => exact ⟨exposedAfter, same⟩
      | closed back =>
          rw [trySendReturned, exposed_producerAt] at exposedAfter
          rw [exposed, pcEq, returned]
          cases call with
          | trySend | sendAsyncSend => cases exposedAfter
          | send => exact ⟨rfl, same⟩

/-- A producer that is exposed on a closed ring was exposed before its step, on a ring
that was as full. -/
theorem exposed_tick (closed : (s.rings i).shared.closed = true) (running : s.shutdown = false)
    (taken : s.producerTick size i = some after) (exposedAfter : after.exposed i = true) :
    s.exposed i = true ∧ after.full size i = s.full size i := by
  unfold producerTick at taken
  cases pcEq : s.producers i with
  | idle | gone => simp [pcEq] at taken
  | sendLoop value | waitShutdown phase value =>
      simp only [pcEq] at taken
      split at taken <;> cases taken <;> exact ⟨by rw [exposed, pcEq]; rfl, rfl⟩
  | waitHead phase value | waitTail phase value head | waitAnnounce value | waitLeave value =>
      simp only [pcEq, Option.some.injEq] at taken
      subst taken
      exact ⟨by rw [exposed, pcEq]; rfl, rfl⟩
  | waitPark value =>
      simp only [pcEq] at taken
      split at taken <;> cases taken
      exact ⟨by rw [exposed, pcEq]; rfl, rfl⟩
  | loadShutdown call value =>
      simp only [pcEq, running, Bool.false_eq_true, if_false, Option.some.injEq] at taken
      subst taken
      rw [exposed_producerAt] at exposedAfter
      cases call with
      | send => exact ⟨by rw [exposed, pcEq]; rfl, rfl⟩
      | trySend | sendAsyncSend => cases exposedAfter
  | enterTrySend call value =>
      simp only [pcEq] at taken
      obtain ⟨inside, moved, rfl⟩ := Option.map_eq_some_iff.mp taken
      obtain ⟨ring, started, rfl⟩ := ringProducer_eq_some moved
      simp only [RingState.producerStep] at started
      split at started <;> cases started
      have shared := RingState.shared_trySendStart size.cap (s.rings i) .trySend value
      rw [exposed_producerAt] at exposedAfter
      cases call with
      | send =>
          exact ⟨by rw [exposed, pcEq]; rfl, full_setRing s i (by rw [shared]) (by rw [shared])⟩
      | trySend => cases exposedAfter
      | sendAsyncSend =>
          simp only [exposedAt, rings_setRing, RingState.foundFull_trySendStart] at exposedAfter
          cases exposedAfter
  | inTrySend call value =>
      simp only [pcEq] at taken
      split at taken
      · rename_i result accepted returned
        obtain ⟨moved, ticked, rfl⟩ := Option.map_eq_some_iff.mp taken
        obtain ⟨ring, back, rfl⟩ := ringProducerTick_eq_some ticked
        simp only [RingState.producerTick, returned, Option.some.injEq] at back
        subst back
        exact exposed_trySendReturned pcEq returned rfl exposedAfter
      · rename_i notReturned
        obtain ⟨ring, moved, rfl⟩ := ringProducerTick_eq_some taken
        obtain ⟨unsent, foundFull⟩ := RingState.unsent_tick moved
        have here : ((s.setRing i ring).producers i) = .inTrySend call value := pcEq
        rw [exposed, here, rings_setRing] at exposedAfter
        cases call with
        | trySend => cases exposedAfter
        | send =>
            obtain ⟨before, head, tail⟩ := unsent exposedAfter
            refine ⟨?_, full_setRing s i head tail⟩
            rw [exposed, pcEq]
            exact before
        | sendAsyncSend =>
            rw [exposedAt, foundFull closed] at exposedAfter
            cases exposedAfter
  | asyncArm value =>
      simp only [pcEq, Option.some.injEq] at taken
      subst taken
      rw [exposed_producerAt] at exposedAfter
      cases exposedAfter
  | asyncLoop value =>
      simp only [pcEq, running, Bool.false_eq_true, if_false, Option.some.injEq] at taken
      subst taken
      rw [exposed_producerAt] at exposedAfter
      cases exposedAfter
  | asyncAwait value =>
      simp only [pcEq] at taken
      split at taken <;> cases taken
      rw [exposed_producerAt] at exposedAfter
      cases exposedAfter
  | bulkLoadShutdown items =>
      simp only [pcEq] at taken
      split at taken <;> cases taken
      all_goals
        rw [exposed_producerAt] at exposedAfter
        cases exposedAfter
  | wakeFanin call | bulkWakeFanin consumed items | wakeLast | returned outcome =>
      simp only [pcEq, Option.some.injEq] at taken
      subst taken
      rw [exposed_producerAt] at exposedAfter
      cases exposedAfter
  | enterBulk items | enterClose =>
      simp only [pcEq] at taken
      obtain ⟨inside, moved, rfl⟩ := Option.map_eq_some_iff.mp taken
      rw [exposed_producerAt] at exposedAfter
      cases exposedAfter
  | inBulk =>
      simp only [pcEq] at taken
      split at taken
      · obtain ⟨inside, moved, rfl⟩ := Option.map_eq_some_iff.mp taken
        split at exposedAfter
        all_goals
          rw [exposed_producerAt] at exposedAfter
          cases exposedAfter
      · obtain ⟨ring, moved, rfl⟩ := ringProducerTick_eq_some taken
        have here : ((s.setRing i ring).producers i) = .inBulk := pcEq
        rw [exposed, here] at exposedAfter
        cases exposedAfter
  | fetchSub =>
      simp only [pcEq] at taken
      split at taken <;> cases taken
      all_goals
        rw [exposed_producerAt] at exposedAfter
        cases exposedAfter
  | inClose =>
      simp only [pcEq] at taken
      split at taken
      · cases taken
        rw [exposed_producerAt] at exposedAfter
        cases exposedAfter
      · obtain ⟨ring, moved, rfl⟩ := ringProducerTick_eq_some taken
        have here : ((s.setRing i ring).producers i) = .inClose := pcEq
        rw [exposed, here] at exposedAfter
        cases exposedAfter

theorem exposed_step {action : MpscProducerAction α}
    (closed : (s.rings i).shared.closed = true) (running : s.shutdown = false)
    (taken : s.producerStep size i action = some after) (exposedAfter : after.exposed i = true) :
    (s.exposed i = true ∨ ∃ value, action = .send value) ∧
      after.full size i = s.full size i := by
  cases action with
  | tick =>
      obtain ⟨before, same⟩ := exposed_tick closed running taken exposedAfter
      exact ⟨.inl before, same⟩
  | send value =>
      simp only [producerStep] at taken
      split at taken <;> cases taken
      exact ⟨.inr ⟨value, rfl⟩, rfl⟩
  | spin | spurious =>
      simp only [producerStep] at taken
      split at taken
      · rename_i pcEq
        cases taken
        exact ⟨.inl (by rw [exposed, pcEq]; rfl), rfl⟩
      · cases taken
  | trySendBulk items =>
      simp only [producerStep] at taken
      split at taken
      · split at taken <;> cases taken
        all_goals
          rw [exposed_producerAt] at exposedAfter
          cases exposedAfter
      · cases taken
  | trySend value | sendAsyncSend value | drop =>
      simp only [producerStep] at taken
      split at taken <;> cases taken
      rw [exposed_producerAt] at exposedAfter
      cases exposedAfter

theorem CloseOk.producer (ok : CloseOk size s) (inside : i < size.m)
    {action : MpscProducerAction α} (spares : s.spares size (.producer i action) = true)
    (taken : s.producerStep size i action = some after) : CloseOk size after := by
  have frame := producerStep_frame taken
  have ring (j : Nat) : ((s.rings j).shared.closed = true →
      (after.rings j).shared.closed = true) ∧
        (after.rings j).consumer = (s.rings j).consumer := by
    by_cases same : j = i
    · subst same
      rcases frame.ring with same | ⟨move, moved⟩
      · rw [same]
        exact ⟨id, rfl⟩
      · exact RingState.closed_of_producerStep moved
    · rw [frame.rings j same]
      exact ⟨id, rfl⟩
  refine ⟨fun j bound closed => ?_, fun idx closing => ?_,
    fun j bound closed running full => ?_⟩
  · rw [frame.consumer] at closed
    exact (ring j).1 (ok.closed j bound closed)
  · rw [frame.consumer] at closing
    rw [(ring idx).2]
    exact ok.dropping idx closing
  · rw [frame.consumer] at closed
    rw [frame.shutdown] at running
    have spared := ok.spared j bound closed running
    by_cases same : j = i
    · subst same
      by_contra exposedAfter
      rw [Bool.not_eq_false] at exposedAfter
      obtain ⟨cause, fullBefore⟩ :=
        exposed_step (ok.closed j bound closed) running taken exposedAfter
      rw [fullBefore] at full
      rcases cause with exposedBefore | ⟨value, rfl⟩
      · rw [spared full] at exposedBefore
        cases exposedBefore
      · simp [MpscState.spares, running, closed, full] at spares
    · rw [MpscState.full, frame.rings j same] at full
      rw [exposed, frame.rings j same, frame.producers j same, frame.waiters j same]
      exact spared full

/-! ### The consumer's drop -/

/-- The consumer's handle is being dropped, or is gone. -/
def leaving : MpscConsumerPc α → Bool
  | .enterClose _ => true
  | .inClose _ => true
  | .gone => true
  | _ => false

theorem leaving_of_closedBy {pc : MpscConsumerPc α} (closed : closedBy pc i = true) :
    leaving pc = true := by
  unfold closedBy at closed
  split at closed <;> first | rfl | cases closed

theorem leaving_scanAt (call : MpscRecvCall) (idx : Nat) :
    leaving (scanAt size call idx : MpscConsumerPc α) = false := by
  unfold scanAt
  split
  · rfl
  · cases call <;> rfl

theorem leaving_passAt (call : MpscBatchCall) (idx total : Nat) (progress : Bool) :
    leaving (passAt size call idx total progress : MpscConsumerPc α) = false := by
  unfold passAt batchDone
  split
  · rfl
  · split
    · rfl
    · cases call
      · rfl
      · dsimp only
        split <;> rfl

theorem leaving_receiveAgain (call : MpscBlocking) :
    leaving (receiveAgain size call : MpscConsumerPc α) = false := by
  cases call with
  | recv => exact leaving_scanAt .recv 0
  | recvBatch => exact leaving_passAt .recvBatch 0 0 false

theorem leaving_finishedAnswer (call : MpscBlocking) (asker : MpscAsker) (finished : Bool) :
    leaving (finishedAnswer size call asker finished : MpscConsumerPc α) = false := by
  cases asker with
  | check => cases finished <;> rfl
  | predicate phase =>
      cases phase <;> cases finished
      · rfl
      · exact leaving_receiveAgain call
      · rfl
      · rfl

theorem leaving_workAnswer (call : MpscBlocking) (asker : MpscAsker) (inFinished work : Bool) :
    leaving (workAnswer size call asker inFinished work : MpscConsumerPc α) = false := by
  cases inFinished with
  | true => exact leaving_finishedAnswer call asker _
  | false =>
      cases work with
      | true => exact leaving_finishedAnswer call asker _
      | false => rfl

theorem leaving_workAt (call : MpscBlocking) (asker : MpscAsker) (inFinished : Bool)
    (idx : Nat) : leaving (workAt size call asker inFinished idx : MpscConsumerPc α) = false := by
  unfold workAt
  split
  · rfl
  · exact leaving_workAnswer call asker inFinished false

theorem leaving_of_tick (staying : leaving s.consumer = false)
    (taken : s.consumerTick size = some after) : leaving after.consumer = false := by
  unfold consumerTick at taken
  cases pcEq : s.consumer with
  | idle => simp [pcEq] at taken
  | enterTryRecv call idx | enterDrain call idx total progress =>
      simp only [pcEq] at taken
      obtain ⟨moved, -, rfl⟩ := Option.map_eq_some_iff.mp taken
      rfl
  | inTryRecv call idx =>
      simp only [pcEq] at taken
      split at taken
      · obtain ⟨moved, -, rfl⟩ := Option.map_eq_some_iff.mp taken
        split
        · rfl
        · exact leaving_scanAt call (idx + 1)
      · obtain ⟨ring, -, rfl⟩ := ringConsumerTick_eq_some taken
        simp only [setRing, consumer_noteTick, pcEq]
        rfl
  | inDrain call idx total progress =>
      simp only [pcEq] at taken
      split at taken
      · obtain ⟨moved, -, rfl⟩ := Option.map_eq_some_iff.mp taken
        split
        · rfl
        · exact leaving_passAt call (idx + 1) total progress
      · obtain ⟨moved, -, rfl⟩ := Option.map_eq_some_iff.mp taken
        rfl
      · obtain ⟨ring, -, rfl⟩ := ringConsumerTick_eq_some taken
        simp only [setRing, consumer_noteTick, pcEq]
        rfl
  | wakeProducer call idx value | waitAnnounce call | workHead call asker inFinished idx
  | returned outcome =>
      simp only [pcEq, Option.some.injEq] at taken
      subst taken
      rfl
  | batchWakeProducer call idx total =>
      simp only [pcEq, Option.some.injEq] at taken
      subst taken
      exact leaving_passAt call (idx + 1) total true
  | finishedShutdown call asker =>
      simp only [pcEq] at taken
      split at taken <;> cases taken
      · exact leaving_finishedAnswer call asker true
      · rfl
  | finishedLive call asker =>
      simp only [pcEq] at taken
      split at taken <;> cases taken
      · exact leaving_workAt call asker true 0
      · exact leaving_finishedAnswer call asker false
  | workTail call asker inFinished idx head =>
      simp only [pcEq] at taken
      split at taken <;> cases taken
      · exact leaving_workAt call asker inFinished (idx + 1)
      · exact leaving_workAnswer call asker inFinished true
  | waitPark call =>
      simp only [pcEq] at taken
      split at taken <;> cases taken
      rfl
  | waitLeave call =>
      simp only [pcEq, Option.some.injEq] at taken
      subst taken
      exact leaving_receiveAgain call
  | enterClose idx | inClose idx | gone =>
      rw [pcEq] at staying
      cases staying

/-- A consumer that keeps its handle closes nothing. -/
theorem CloseOk.ofStaying (staying : leaving after.consumer = false) : CloseOk size after where
  closed _ _ closed := absurd (leaving_of_closedBy closed) (by rw [staying]; nofun)
  dropping idx closing := by
    rw [closing] at staying
    cases staying
  spared _ _ closed := absurd (leaving_of_closedBy closed) (by rw [staying]; nofun)

theorem full_noteTick_setRing {idx j : Nat} {ring : RingState α}
    (head : ring.shared.head = (s.rings idx).shared.head)
    (tail : ring.shared.tail = (s.rings idx).shared.tail) :
    ((s.noteTick idx).setRing idx ring).full size j = s.full size j := by
  by_cases same : j = idx
  · subst same
    simp [full, setRing, head, tail]
  · simp [full, setRing, same]

theorem exposed_noteTick_setRing {idx j : Nat} {ring : RingState α}
    (producer : ring.producer = (s.rings idx).producer) :
    ((s.noteTick idx).setRing idx ring).exposed j = s.exposed j := by
  have quiet : (s.noteTick idx).exposed j = s.exposed j := by
    unfold noteTick
    split <;> rfl
  rw [← quiet]
  by_cases same : j = idx
  · subst same
    simp [exposed, setRing, producer]
  · simp [exposed, setRing, same]

theorem closedBy_enterClose_succ (i idx : Nat) :
    closedBy (.enterClose (idx + 1) : MpscConsumerPc α) i =
      closedBy (.inClose idx : MpscConsumerPc α) i := by
  simp only [closedBy, Nat.lt_succ_iff]

/-- The steps of the consumer's drop. -/
theorem CloseOk.closing (ok : CloseOk size s) (spares : s.spares size (.consumer .tick) = true)
    (isLeaving : leaving s.consumer = true) (taken : s.consumerTick size = some after) :
    CloseOk size after := by
  have frame := consumerTick_frame taken
  unfold consumerTick at taken
  cases pcEq : s.consumer with
  | enterClose idx =>
      simp only [pcEq] at taken
      simp only [MpscState.spares, pcEq] at spares
      have closed := ok.closed
      have spared := ok.spared
      simp only [pcEq, closedBy, decide_eq_true_eq] at closed spared
      split at taken
      · obtain ⟨moved, started, rfl⟩ := Option.map_eq_some_iff.mp taken
        obtain ⟨ring, dropped, rfl⟩ := ringConsumer_eq_some started
        simp only [RingState.consumerStep] at dropped
        split at dropped <;> cases dropped
        refine ⟨fun j bound before => ?_, fun k closing => ?_,
          fun j bound before running full => ?_⟩
        · simp only [consumerAt, closedBy, decide_eq_true_eq] at before
          by_cases same : j = idx
          · subst same
            simp [consumerAt, setRing, RingState.consumerAt]
          · simp only [consumerAt, setRing, Function.update_of_ne same]
            exact closed j bound (by omega)
        · simp only [consumerAt, MpscConsumerPc.inClose.injEq] at closing
          subst closing
          simp [consumerAt, setRing, RingState.consumerAt, RingState.halfDropped]
        · simp only [consumerAt, closedBy, decide_eq_true_eq] at before
          have calm : s.shutdown = false := running
          by_cases same : j = idx
          · subst same
            have full : s.full size j = true := by
              simpa [MpscState.full, consumerAt, setRing, RingState.consumerAt] using full
            simp only [calm, full, Bool.not_true, Bool.false_or, Bool.not_eq_true'] at spares
            simpa [exposed, consumerAt, setRing, RingState.consumerAt] using spares
          · have full : s.full size j = true := by
              simpa [MpscState.full, consumerAt, setRing, same] using full
            have spared := spared j bound (by omega) calm full
            simpa [exposed, consumerAt, setRing, same] using spared
      · cases taken
        exact ⟨fun j bound _ => closed j bound (by omega), (fun _ same => by cases same),
          fun j bound _ => spared j bound (by omega)⟩
  | inClose idx =>
      simp only [pcEq] at taken
      have closed := ok.closed
      have spared := ok.spared
      have dropping := ok.dropping idx pcEq
      rw [pcEq] at closed spared
      split at taken
      · cases taken
        refine ⟨fun j bound before => ?_, (fun _ same => by cases same), fun j bound before => ?_⟩
        · exact closed j bound ((closedBy_enterClose_succ j idx).symm.trans before)
        · exact spared j bound ((closedBy_enterClose_succ j idx).symm.trans before)
      · obtain ⟨ring, moved, rfl⟩ := ringConsumerTick_eq_some taken
        obtain ⟨dropping, producer, head, tail⟩ := RingState.halfDropped_tick dropping moved
        have closedSame := RingState.closed_of_consumerTick moved
        have here : ((s.noteTick idx).setRing idx ring).consumer = .inClose idx := by
          simp only [setRing, consumer_noteTick, pcEq]
        refine ⟨fun j bound before => ?_, fun k closing => ?_,
          fun j bound before running full => ?_⟩
        · rw [here] at before
          by_cases same : j = idx
          · subst same
            simpa [setRing] using closedSame.trans (closed j bound before)
          · simpa [setRing, same] using closed j bound before
        · rw [here, MpscConsumerPc.inClose.injEq] at closing
          subst closing
          simpa [setRing] using dropping
        · rw [here] at before
          rw [full_noteTick_setRing head tail] at full
          rw [exposed_noteTick_setRing producer]
          exact spared j bound before (frame.shutdown.symm.trans running) full
  | gone => simp [pcEq] at taken
  | _ =>
      rw [pcEq] at isLeaving
      cases isLeaving

theorem CloseOk.consumer (ok : CloseOk size s) {action : MpscConsumerAction}
    (spares : s.spares size (.consumer action) = true)
    (taken : s.consumerStep size action = some after) : CloseOk size after := by
  cases action with
  | tick =>
      cases isLeaving : leaving s.consumer with
      | true => exact ok.closing spares isLeaving taken
      | false => exact .ofStaying (leaving_of_tick isLeaving taken)
  | drop =>
      simp only [consumerStep] at taken
      split at taken <;> cases taken
      refine ⟨fun j _ closed => ?_, (fun _ same => by cases same), fun j _ closed => ?_⟩
      all_goals simp [consumerAt, closedBy] at closed
  | tryRecv | recv =>
      simp only [consumerStep] at taken
      split at taken
      · cases taken
        refine .ofStaying ?_
        dsimp only [consumerAt]
        apply leaving_scanAt
      · cases taken
  | tryRecvBatch | recvBatch =>
      simp only [consumerStep] at taken
      split at taken
      · cases taken
        refine .ofStaying ?_
        dsimp only [consumerAt]
        apply leaving_passAt
      · cases taken
  | panic =>
      simp only [consumerStep] at taken
      split at taken
      · rename_i pcEq
        obtain ⟨ring, -, rfl⟩ := ringConsumer_eq_some taken
        refine .ofStaying ?_
        simp only [setRing, pcEq]
        rfl
      · cases taken
  | spin | spurious =>
      simp only [consumerStep] at taken
      split at taken <;> cases taken
      exact .ofStaying rfl

/-- Only a handle that has set the flag has a step left to take. -/
theorem signalled_of_signallerStep {k : Nat} {action : MpscSignalAction}
    (signalled : s.signallers k ≠ .idle → s.shutdown = true)
    (taken : s.signallerStep size k action = some after) : after.shutdown = true := by
  have frame := signallerStep_frame taken
  cases action with
  | signal =>
      simp only [signallerStep] at taken
      split at taken <;> cases taken
      rfl
  | tick =>
      refine frame.shutdown (signalled fun idle => ?_)
      simp [signallerStep, idle] at taken

/-- While a handle is signalling, the flag is set. -/
theorem signalled_of_busy (reached : (system size).Reachable s) :
    ∀ k, s.signallers k ≠ .idle → s.shutdown = true := by
  refine reached.invariant (fun s => ∀ k, s.signallers k ≠ .idle → s.shutdown = true) ?_ ?_
  · rintro _ rfl k busy
    exact absurd rfl busy
  · rintro before action after - signalled taken k busy
    cases action with
    | producer i action =>
        have frame := producerStep_frame (producer_of_step taken).2
        rw [frame.signallers] at busy
        exact frame.shutdown.trans (signalled k busy)
    | consumer action =>
        have frame := consumerStep_frame taken
        rw [frame.signallers] at busy
        exact frame.shutdown.trans (signalled k busy)
    | signaller caller action =>
        exact signalled_of_signallerStep (signalled caller) taken

theorem CloseOk.step (reached : (system size).Reachable s) (ok : CloseOk size s)
    {action : MpscAction α} (spares : s.spares size action = true)
    (taken : s.step size action = some after) :
    CloseOk size after := by
  cases action with
  | producer i action =>
      obtain ⟨inside, taken⟩ := producer_of_step taken
      exact ok.producer inside spares taken
  | consumer action => exact ok.consumer spares taken
  | signaller k action =>
      have frame := signallerStep_frame taken
      have signalled :=
        signalled_of_signallerStep (signalled_of_busy reached k) taken
      refine ⟨fun j bound closed => ?_, fun idx closing => ?_, fun j _ _ running => ?_⟩
      · rw [frame.consumer] at closed
        rw [frame.rings]
        exact ok.closed j bound closed
      · rw [frame.consumer] at closing
        rw [frame.rings]
        exact ok.dropping idx closing
      · rw [signalled] at running
        cases running

theorem closeOk_new : CloseOk size (new size : MpscState α) where
  closed _ _ := nofun
  dropping _ := nofun
  spared _ _ := nofun

theorem closeOk (reached : (sparing size).Reachable s) : CloseOk size s := by
  refine reached.invariant (CloseOk size) ?base ?preserved
  case base =>
    rintro _ rfl
    exact closeOk_new
  case preserved =>
    rintro before action after reached ok ⟨spares, taken⟩
    exact ok.step reached.of_guarded spares taken

/-! ### Who is stranded stays so -/

/-- The runs in which nobody signals shutdown. -/
def unsignalled (size : MpscSize) : System (MpscState α) (MpscAction α) :=
  (system size).guarded fun _ action => ∀ k, action ≠ .signaller k .signal

/-- A producer sleeps, or evaluates its predicate again after waking up. -/
def Held (ringHead : Usize) : MpscProducerPc α → Prop
  | .waitShutdown .announced _ => True
  | .waitHead .announced _ => True
  | .waitTail .announced _ head => head = ringHead
  | .waitPark _ => True
  | .asyncAwait _ => True
  | _ => False

/-- What keeps a stranded producer where it is. -/
structure StrandedHere (size : MpscSize) (s : MpscState α) (i : Nat) : Prop where
  dropped : s.consumer = .gone
  running : s.shutdown = false
  full : s.full size i = true
  noWake : (s.producerWaiters i).token = false
  held : Held (s.rings i).shared.head.current (s.producers i)

theorem Stranded.here (stranded : Stranded size s i) : StrandedHere size s i where
  dropped := stranded.dropped
  running := stranded.running
  full := stranded.full
  noWake := stranded.noWake
  held := by
    rcases stranded.parked with ⟨value, pcEq⟩ | ⟨value, pcEq⟩
    all_goals
      rw [pcEq]
      trivial

/-- The producer's own steps: it finds no shutdown and a full ring. -/
theorem StrandedHere.own (here : StrandedHere size s i) {action : MpscProducerAction α}
    (taken : s.producerStep size i action = some after) : StrandedHere size after i := by
  obtain ⟨dropped, running, full, noWake, held⟩ := here
  have at_ {pc : MpscProducerPc α} (held : Held (s.rings i).shared.head.current pc) :
      StrandedHere size (s.producerAt i pc) i :=
    ⟨dropped, running, full, noWake, by simpa [producerAt] using held⟩
  cases action with
  | tick =>
      simp only [producerStep, producerTick] at taken
      cases pcEq : s.producers i with
      | waitShutdown phase value =>
          rw [pcEq] at held
          cases phase with
          | entry => cases held
          | announced =>
              simp only [pcEq, running, Bool.false_eq_true, if_false, Option.some.injEq] at taken
              subst taken
              exact at_ trivial
      | waitHead phase value =>
          rw [pcEq] at held
          cases phase with
          | entry => cases held
          | announced =>
              simp only [pcEq, Option.some.injEq] at taken
              subst taken
              exact at_ rfl
      | waitTail phase value head =>
          rw [pcEq] at held
          cases phase with
          | entry => cases held
          | announced =>
              obtain rfl : head = (s.rings i).shared.head.current := held
              have stillFull : RingState.isFull size.cap (s.rings i).shared.head.current
                  (s.rings i).shared.tail.current = true := full
              simp only [pcEq, stillFull, Option.some.injEq] at taken
              subst taken
              exact at_ trivial
      | waitPark value | asyncAwait value =>
          simp [pcEq, noWake] at taken
      | _ =>
          rw [pcEq] at held
          cases held
  | spurious =>
      simp only [producerStep] at taken
      split at taken <;> cases taken
      exact at_ trivial
  | _ =>
      simp only [producerStep] at taken
      split at taken
      · rename_i pcEq
        rw [pcEq] at held
        cases held
      · cases taken

theorem StrandedHere.step (reached : (system size).Reachable s) (here : StrandedHere size s i)
    {action : MpscAction α} (quiet : ∀ k, action ≠ .signaller k .signal)
    (taken : s.step size action = some after) : StrandedHere size after i := by
  cases action with
  | producer j action =>
      obtain ⟨-, taken⟩ := producer_of_step taken
      by_cases same : i = j
      · subst same
        exact here.own taken
      · have frame := producerStep_frame taken
        obtain ⟨dropped, running, full, noWake, held⟩ := here
        have ring := frame.rings i same
        refine ⟨frame.consumer.trans dropped, frame.shutdown.trans running, ?_, ?_, ?_⟩
        · rw [MpscState.full, ring]
          exact full
        · rw [frame.waiters i same]
          exact noWake
        · rw [frame.producers i same, ring]
          exact held
  | consumer action =>
      have dropped := here.dropped
      cases action <;> simp [MpscState.step, consumerStep, consumerTick, dropped] at taken
  | signaller k action =>
      cases action with
      | signal => exact absurd rfl (quiet k)
      | tick =>
          have before : s.shutdown = true := by
            refine signalled_of_busy reached k fun idle => ?_
            simp [MpscState.step, signallerStep, idle] at taken
          rw [here.running] at before
          cases before

/-- Without a signal, a stranded producer never gets out of its call. -/
theorem Stranded.forever (reached : (system size).Reachable s) (stranded : Stranded size s i)
    {later : MpscState α} (leads : (unsignalled size).Leads s later) :
    Held (later.rings i).shared.head.current (later.producers i) := by
  have both : (system size).Reachable later ∧ StrandedHere size later i := by
    refine leads.invariant
      (fun later => (system size).Reachable later ∧ StrandedHere size later i)
      ⟨reached, stranded.here⟩ ?_
    rintro before action after ⟨reached, here⟩ ⟨quiet, taken⟩
    exact ⟨reached.next taken, here.step reached quiet taken⟩
  exact both.2.held

/-! ### Runs -/

/-- In a run whose steps all meet the condition the consumer's drop strands nobody. -/
theorem sparing_not_stranded (reached : (sparing size).Reachable s) (i : Nat) :
    ¬ Stranded size s i := by
  intro stranded
  have ok := closeOk reached
  have closed : closedBy s.consumer i = true := by
    rw [stranded.dropped]
    rfl
  have spared := ok.spared i stranded.inside closed stranded.running stranded.full
  rw [exposed, stranded.noWake] at spared
  rcases stranded.parked with ⟨value, pcEq⟩ | ⟨value, pcEq⟩
  all_goals
    rw [pcEq] at spared
    cases spared

/-- The consumer is dropped while the ring has room; the next send fills it. -/
def dropWithRoom : List (MpscAction Nat) :=
  [MpscAction.producer 0 (.trySend 5)] ++ producerTicks 8 ++ [MpscAction.consumer .drop] ++
    consumerTicks 5 ++ [MpscAction.producer 0 (.send 6)] ++ producerTicks 8

/-- The consumer is dropped while the only producer sleeps in `send` on a full ring. -/
def dropUnderBackpressure : List (MpscAction Nat) :=
  [MpscAction.producer 0 (.trySend 5)] ++ producerTicks 8 ++ [MpscAction.producer 0 (.trySend 6)] ++
    producerTicks 8 ++ [MpscAction.producer 0 (.send 7)] ++ producerTicks 13 ++
    [MpscAction.consumer .drop] ++ consumerTicks 5

/-- The steps of a run that strands nobody. -/
def sparingStep (s : MpscState Nat) (action : MpscAction Nat) : Option (MpscState Nat) :=
  Transition.guardedStep (fun s (action : MpscAction Nat) => s.spares soloSize action = true)
    (fun s action => s.step soloSize action) s action

theorem sparing_not_stranded_dropWithRoom :
    ∃ s : MpscState Nat, (sparing soloSize).Reachable s ∧ s.consumer = .gone ∧
      s.shutdown = false ∧ s.full soloSize 0 = true ∧ ¬ Stranded soloSize s 0 := by
  have ran : (Transition.execute sparingStep (new soloSize) dropWithRoom).map
      (fun s => (s.consumer, s.shutdown, s.full soloSize 0)) = some (.gone, false, true) := by
    rfl
  obtain ⟨s, ran, seen⟩ := Option.map_eq_some_iff.mp ran
  obtain ⟨dropped, running, full⟩ := by simpa only [Prod.mk.injEq] using seen
  have reached : (sparing soloSize).Reachable s := System.reachable_of_guarded_execute rfl ran
  exact ⟨s, reached, dropped, running, full, sparing_not_stranded reached 0⟩

/-- The producer sleeps on its full ring for good: no step but a signal lets it out of
its call. -/
theorem stranded_dropUnderBackpressure :
    ∃ s : MpscState Nat, (system soloSize).Reachable s ∧ Stranded soloSize s 0 ∧
      ∀ later, (unsignalled soloSize).Leads s later →
        Held (later.rings 0).shared.head.current (later.producers 0) := by
  have ran : (Transition.execute (fun s action => s.step soloSize action) (new soloSize)
      dropUnderBackpressure).map (fun s => (s.consumer, s.shutdown, s.producers 0,
        s.full soloSize 0, (s.producerWaiters 0).token)) =
          some (.gone, false, .waitPark 7, true, false) := by
    rfl
  obtain ⟨s, ran, seen⟩ := Option.map_eq_some_iff.mp ran
  obtain ⟨dropped, running, parked, full, noWake⟩ := by
    simpa only [Prod.mk.injEq] using seen
  have reached : (system soloSize).Reachable s := System.reachable_of_execute rfl ran
  have stranded : Stranded soloSize s 0 :=
    ⟨by decide, dropped, running, .inl ⟨7, parked⟩, full, noWake⟩
  exact ⟨s, reached, stranded, fun later leads => stranded.forever reached leads⟩

end MpscState

end ArbitroKit
