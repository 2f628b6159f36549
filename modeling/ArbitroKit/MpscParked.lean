import ArbitroKit.MpscEndOfStream
import ArbitroKit.MpscPlaces
import ArbitroKit.MpscStranded
import ArbitroKit.RingViews

/-!
# No party of the many-producer channel is left parked

The consumer sleeps on the fan-in waiter after it found every ring empty, no
shutdown and a live producer; a producer sleeps after it found no shutdown and its
own ring full.  As in the sharded channel, each cause already looked at is absent,
answered by a pending wake, or followed by a party on its way to the wake.  Calls
into a ring take several steps between the store and the channel's wake: what a
producer has published and not acknowledged counts as under way, and so does a ring
call of the consumer that has given slots back.

A callback that panics takes its wake with it, so the runs here are those in which
none does.
-/

namespace ArbitroKit

open Coherent SlotLane Cyclic Transition

namespace RingState

variable {α : Type*} {cap : Cap} {s after : RingState α}

/-- The callback of `drain` is unwinding. -/
def unwinding : ConsumerPc α → Bool
  | .drainUnwind _ _ => true
  | .returned .panicked => true
  | _ => false

/-- The producer's `try_send` has found the ring full. -/
def sawRingFull : ProducerPc α → Bool
  | .sendClosed _ _ => true
  | pc => foundFull pc

/-- A consumer step that stores the tail is one that gives slots back, and a call that
has done so goes on until it returns. -/
structure GivesBack (before after : RingState α) : Prop where
  head : after.shared.head = before.shared.head
  tail : after.shared.tail = before.shared.tail ∨ owesWake after.consumer.pc = true
  kept : owesWake before.consumer.pc = true →
    owesWake after.consumer.pc = true ∨ ∃ outcome, before.consumer.pc = .returned outcome
  returns : unwinding after.consumer.pc = false

theorem shared_tryRecvStart (s : RingState α) (call : RecvCall) :
    (s.tryRecvStart call).shared = s.shared := by
  unfold tryRecvStart
  dsimp only
  split <;> rfl

theorem returns_tryRecvStart (s : RingState α) (call : RecvCall) :
    unwinding (s.tryRecvStart call).consumer.pc = false := by
  unfold tryRecvStart
  dsimp only
  split <;> rfl

/-- A step that stores no cursor, from a place that has given nothing back. -/
theorem givesBack_goes (quiet : owesWake s.consumer.pc = false)
    (head : after.shared.head = s.shared.head) (tail : after.shared.tail = s.shared.tail)
    (returns : unwinding after.consumer.pc = false) : GivesBack s after where
  head := head
  tail := .inl tail
  kept gave := by
    rw [quiet] at gave
    cases gave
  returns := returns

theorem givesBack_tick (counts : DrainCounts s.consumer.pc) {index : Nat}
    (channel : consumerActivity s.consumer.pc ≠ .blocking)
    (returns : unwinding s.consumer.pc = false)
    (taken : s.consumerTick cap index = some after) : GivesBack s after := by
  unfold consumerTick at taken
  cases pcEq : s.consumer.pc with
  | idle | gone | undefined => simp [pcEq] at taken
  | recvRefresh call tail | recvRecheck call tail | drainLoad start | waitHead phase =>
      have quiet : owesWake s.consumer.pc = false := by rw [pcEq]; rfl
      simp only [pcEq] at taken
      obtain ⟨⟨head, loadedState⟩, loaded, rfl⟩ := Option.map_eq_some_iff.mp taken
      obtain ⟨-, rfl⟩ := loadHead_eq_some loaded
      dsimp only
      first
        | exact givesBack_goes quiet rfl rfl rfl
        | split <;> refine givesBack_goes quiet rfl rfl ?_
          all_goals first | rfl | (cases call <;> rfl)
  | recvClosed call tail =>
      have quiet : owesWake s.consumer.pc = false := by rw [pcEq]; rfl
      simp only [pcEq] at taken
      split at taken <;> cases taken <;> refine givesBack_goes quiet rfl rfl ?_
      · rfl
      · cases call <;> rfl
  | recvRead call tail | drainRead start head tail =>
      have quiet : owesWake s.consumer.pc = false := by rw [pcEq]; rfl
      simp only [pcEq, Option.some.injEq] at taken
      subst taken
      unfold readSlot
      dsimp only
      split <;> exact givesBack_goes quiet rfl rfl rfl
  | recvRelease call tail value | drainCommit start head tail =>
      have quiet : owesWake s.consumer.pc = false := by rw [pcEq]; rfl
      simp only [pcEq, Option.some.injEq] at taken
      subst taken
      refine ⟨rfl, .inr rfl, fun gave => ?_, rfl⟩
      rw [quiet] at gave
      cases gave
  | recvWake call value =>
      simp only [pcEq, Option.some.injEq] at taken
      subst taken
      cases call with
      | tryRecv => exact ⟨rfl, .inl rfl, fun _ => .inl rfl, rfl⟩
      | recv =>
          rw [pcEq] at channel
          exact absurd rfl channel
  | drainWake head consumed =>
      rw [pcEq] at counts
      simp only [pcEq, Option.some.injEq] at taken
      subst taken
      exact ⟨rfl, .inl rfl, fun _ => .inl (decide_eq_true counts), rfl⟩
  | drainCallback start head tail value | waitTail phase head =>
      have quiet : owesWake s.consumer.pc = false := by rw [pcEq]; rfl
      simp only [pcEq] at taken
      split at taken <;> cases taken <;> refine givesBack_goes quiet rfl rfl ?_
      all_goals first | rfl | (cases phase <;> rfl)
  | waitClosed phase =>
      have quiet : owesWake s.consumer.pc = false := by rw [pcEq]; rfl
      simp only [pcEq, Option.some.injEq] at taken
      subst taken
      refine givesBack_goes quiet rfl rfl ?_
      cases phase <;> cases s.shared.closed <;> rfl
  | waitPark =>
      have quiet : owesWake s.consumer.pc = false := by rw [pcEq]; rfl
      simp only [pcEq] at taken
      split at taken <;> cases taken
      exact givesBack_goes quiet rfl rfl rfl
  | recvRetry =>
      have quiet : owesWake s.consumer.pc = false := by rw [pcEq]; rfl
      simp only [pcEq, Option.some.injEq] at taken
      subst taken
      have shared := shared_tryRecvStart s .recv
      exact givesBack_goes quiet (by rw [shared]) (by rw [shared]) (returns_tryRecvStart s .recv)
  | drainUnwind start tail =>
      rw [pcEq] at returns
      cases returns
  | returned outcome =>
      simp only [pcEq, Option.some.injEq] at taken
      subst taken
      exact ⟨rfl, .inl rfl, fun _ => .inr ⟨outcome, pcEq⟩, rfl⟩
  | waitAnnounce | waitLeave | dropWakeFull | dropWakeEmpty =>
      have quiet : owesWake s.consumer.pc = false := by rw [pcEq]; rfl
      simp only [pcEq, Option.some.injEq] at taken
      subst taken
      exact givesBack_goes quiet rfl rfl rfl

/-- A call that starts in a ring of the channel stores no cursor. -/
theorem start_quiet {action : ConsumerAction}
    (starts : action = .tryRecv ∨ action = .drain ∨ action = .drop)
    (taken : s.consumerStep cap action = some after) :
    after.shared.head = s.shared.head ∧ after.shared.tail = s.shared.tail ∧
      unwinding after.consumer.pc = false := by
  rcases starts with rfl | rfl | rfl
  · simp only [consumerStep] at taken
    split at taken <;> cases taken
    rw [shared_tryRecvStart]
    exact ⟨rfl, rfl, returns_tryRecvStart s .tryRecv⟩
  all_goals
    simp only [consumerStep] at taken
    split at taken <;> cases taken
    exact ⟨rfl, rfl, rfl⟩

theorem owesWake_of_rests {pc : ConsumerPc α} (rests : MpscState.Rests (consumerActivity pc)) :
    owesWake pc = false := by
  cases pc with
  | recvWake call value => cases call <;> rcases rests with out | out | out | out <;> cases out
  | drainWake head consumed => rcases rests with out | out | out | out <;> cases out
  | returned outcome =>
      cases outcome <;> rcases rests with out | out | out | out <;> cases out
  | _ => rfl

theorem sawRingFull_trySendStart (call : SendCall) (value : α) :
    sawRingFull (s.trySendStart cap call value).producer.pc = false := by
  unfold trySendStart
  dsimp only
  split <;> rfl

/-- A `try_send` that finds the ring full finds it full of the tail it has just loaded. -/
theorem sawRingFull_tick (held : HeadHeld s)
    (taken : s.producerTick cap s.shared.tail.latest = some after)
    (saw : sawRingFull after.producer.pc = true) :
    after.shared.head = s.shared.head ∧ after.shared.tail = s.shared.tail ∧
      (sawRingFull s.producer.pc = true ∨
        isFull cap s.shared.head.current s.shared.tail.current = true) := by
  unfold producerTick at taken
  cases pcEq : s.producer.pc with
  | idle | gone => simp [pcEq] at taken
  | sendRefresh call value head =>
      rw [HeadHeld, pcEq] at held
      obtain rfl : head = s.shared.head.current := held
      simp only [pcEq] at taken
      obtain ⟨⟨tail, loadedState⟩, loaded, rfl⟩ := Option.map_eq_some_iff.mp taken
      obtain ⟨read, rfl⟩ := loadTail_eq_some loaded
      rw [Location.load_latest _ (Location.load_eq_some read).1] at read
      cases read
      by_cases full : isFull cap s.shared.head.current s.shared.tail.current = true
      · rw [if_pos full]
        exact ⟨rfl, rfl, .inr full⟩
      · rw [if_neg full] at saw
        cases saw
  | sendClosed call value =>
      simp only [pcEq, Option.some.injEq] at taken
      subst taken
      exact ⟨rfl, rfl, .inl rfl⟩
  | bulkRefresh items head =>
      simp only [pcEq] at taken
      obtain ⟨⟨tail, loadedState⟩, -, rfl⟩ := Option.map_eq_some_iff.mp taken
      dsimp only at saw
      unfold bulkStart at saw
      dsimp only at saw
      split at saw <;> cases saw
  | bulkWrite items head left written =>
      simp only [pcEq] at taken
      split at taken
      · cases taken
      · split at taken <;> cases taken <;> cases saw
  | waitTail phase value head =>
      simp only [pcEq] at taken
      obtain ⟨⟨tail, loadedState⟩, -, rfl⟩ := Option.map_eq_some_iff.mp taken
      dsimp only at saw
      split at saw <;> cases phase <;> cases saw
  | sendWake call value =>
      simp only [pcEq, Option.some.injEq] at taken
      subst taken
      cases call <;> cases saw
  | sendRetry value =>
      simp only [pcEq, Option.some.injEq] at taken
      subst taken
      rw [sawRingFull_trySendStart] at saw
      cases saw
  | waitClosed phase value =>
      simp only [pcEq, Option.some.injEq] at taken
      subst taken
      cases phase <;> cases closed : s.shared.closed <;> rw [closed] at saw <;> cases saw
  | waitPark value =>
      simp only [pcEq] at taken
      split at taken <;> cases taken
      cases saw
  | _ =>
      simp only [pcEq, Option.some.injEq] at taken
      subst taken
      cases saw

end RingState

namespace MpscState

variable {α : Type*} {size : MpscSize} {s after : MpscState α} {i : Nat}

/-! ### Runs in which no callback panics -/

def returning : MpscAction α → Bool
  | .consumer .panic => false
  | _ => true

/-- The runs in which no callback of a batch receive panics. -/
def steady (size : MpscSize) : System (MpscState α) (MpscAction α) :=
  (system size).guarded fun _ action => returning action = true

theorem within_of_returning {action : MpscAction α} (returns : returning action = true) :
    s.panicsWithinCache action = true := by
  cases action with
  | producer i action | signaller k action => rfl
  | consumer action =>
      cases action with
      | panic => cases returns
      | _ => rfl

theorem withinCache_of_steady (reached : (steady size).Reachable s) :
    (withinCache size).Reachable s :=
  reached.guarded_mono fun _ _ _ _ returns => within_of_returning returns

/-! ### Parties on the way to a wake -/

/-- The items producer `i` has published without having reached its wake of the
consumer. -/
def underWay (s : MpscState α) (i : Nat) : Nat :=
  unacknowledged (s.producers i) + (RingState.unreported (s.rings i).producer.pc).length

/-- The consumer has given slots of ring `i` back and has not woken producer `i`. -/
def taking (i : Nat) (ring : ConsumerPc α) : MpscConsumerPc α → Bool
  | .inTryRecv _ idx => idx == i && RingState.owesWake ring
  | .inDrain _ idx _ _ => idx == i && RingState.owesWake ring
  | .wakeProducer _ idx _ => idx == i
  | .batchWakeProducer _ idx _ => idx == i
  | _ => false

def takingFrom (s : MpscState α) (i : Nat) : Bool :=
  taking i (s.rings i).consumer.pc s.consumer

/-- The last producer is on its way to waking the consumer. -/
def lastLeaving : MpscProducerPc α → Bool
  | .wakeLast => true
  | _ => false

/-- The signal is on its way to waking the consumer. -/
def signallingConsumer : MpscSignalPc → Bool
  | .wakeFanin => true
  | _ => false

/-- The signal is on its way to waking producer `i`. -/
def signallingProducer (i : Nat) : MpscSignalPc → Bool
  | .wakeFanin => true
  | .wakeProducer here => decide (here ≤ i)
  | .idle => false

/-- What is published is acknowledged or under way to the wake. -/
theorem published_eq (reached : (withinCache size).Reachable s) (i : Nat) :
    (s.rings i).shared.lane.published = s.history.acked i + s.underWay i := by
  obtain ⟨shared, producer, -⟩ := ring_ok reached i
  have sent := congrArg List.length producer.sent_eq
  have acked := (producerInStep reached i).acked
  rw [shared.sound.length_sent, List.length_append, acked] at sent
  rw [sent, underWay]
  omega

/-! ### The steps of a producer -/

/-- What the other parties see of a producer's step. -/
structure ProducerNews (i : Nat) (s after : MpscState α) : Prop where
  acked : after.history.acked i = s.history.acked i ∨
    after.rings i = s.rings i ∧ after.faninWaiter = s.faninWaiter.wake
  faninWaiter : s.faninWaiter.Kept after.faninWaiter
  left : lastLeaving (s.producers i) = true → after.faninWaiter = s.faninWaiter.wake
  live : after.liveProducers = 0 → s.liveProducers = 0 ∨ lastLeaving (after.producers i) = true
  gone : s.liveProducers = 0 → after.liveProducers = 0

/-- A step that wakes nobody and acknowledges nothing. -/
theorem producerNews_goes (stays : lastLeaving (s.producers i) = false)
    (acked : after.history.acked = s.history.acked) (waiter : after.faninWaiter = s.faninWaiter)
    (live : after.liveProducers = s.liveProducers) : ProducerNews i s after where
  acked := .inl (congrFun acked i)
  faninWaiter := .inl waiter
  left leaves := by
    rw [stays] at leaves
    cases leaves
  live none := .inl (live ▸ none)
  gone none := live.trans none

theorem producerNews_ring {action : ProducerAction α} (stays : lastLeaving (s.producers i) = false)
    (taken : s.ringProducer size i action = some after) (pc : MpscProducerPc α) :
    ProducerNews i s (after.producerAt i pc) ∧ ProducerNews i s after := by
  obtain ⟨ring, -, rfl⟩ := ringProducer_eq_some taken
  exact ⟨producerNews_goes stays rfl rfl rfl, producerNews_goes stays rfl rfl rfl⟩

theorem fanin_disarm (s : MpscState α) (i : Nat) (call : MpscSendCall) :
    (s.disarm i call).faninWaiter = s.faninWaiter := by
  cases call <;> rfl

/-- The wake and the acknowledgement of what was published. -/
theorem producerNews_wake (stays : lastLeaving (s.producers i) = false) {count : Nat}
    {moved : MpscState α} {pc : MpscProducerPc α} (rings : moved.rings = s.rings)
    (waiter : moved.faninWaiter = s.faninWaiter.wake)
    (live : moved.liveProducers = s.liveProducers) :
    ProducerNews i s ((moved.acknowledge i count).producerAt i pc) where
  acked := .inr ⟨congrFun rings i, waiter⟩
  faninWaiter := .inr waiter
  left leaves := by
    rw [stays] at leaves
    cases leaves
  live none := .inl (live ▸ none)
  gone none := live.trans none

theorem producerNews_trySendReturned (inside : MpscState α)
    (stays : lastLeaving (s.producers i) = false)
    (acked : inside.history.acked = s.history.acked)
    (waiter : inside.faninWaiter = s.faninWaiter)
    (live : inside.liveProducers = s.liveProducers) (call : MpscSendCall)
    (result : Except (TrySendError α) Unit) :
    ProducerNews i s (inside.trySendReturned i call result) := by
  rcases result with (value | value) | ⟨⟩
  · exact producerNews_goes stays acked waiter live
  · refine producerNews_goes stays ?_ ?_ ?_
    · exact (congrArg MpscHistory.acked (history_disarm inside i call)).trans acked
    · exact (fanin_disarm inside i call).trans waiter
    · exact (live_disarm inside i call).trans live
  · exact producerNews_goes stays acked waiter live

theorem producerTick_news (taken : s.producerTick size i = some after) :
    ProducerNews i s after := by
  unfold producerTick at taken
  cases pcEq : s.producers i with
  | idle | gone => simp [pcEq] at taken
  | sendLoop value | loadShutdown call value | bulkLoadShutdown items
  | waitShutdown phase value | waitPark value | asyncAwait value =>
      have stays : lastLeaving (s.producers i) = false := by rw [pcEq]; rfl
      simp only [pcEq] at taken
      split at taken <;> cases taken <;> exact producerNews_goes stays rfl rfl rfl
  | asyncLoop value =>
      have stays : lastLeaving (s.producers i) = false := by rw [pcEq]; rfl
      simp only [pcEq] at taken
      split at taken <;> cases taken <;> exact producerNews_goes stays rfl rfl rfl
  | asyncArm value | waitHead phase value | waitTail phase value head | waitAnnounce value
  | waitLeave value | returned outcome =>
      have stays : lastLeaving (s.producers i) = false := by rw [pcEq]; rfl
      simp only [pcEq, Option.some.injEq] at taken
      subst taken
      exact producerNews_goes stays rfl rfl rfl
  | enterTrySend call value | enterBulk items | enterClose =>
      have stays : lastLeaving (s.producers i) = false := by rw [pcEq]; rfl
      simp only [pcEq] at taken
      obtain ⟨inside, moved, rfl⟩ := Option.map_eq_some_iff.mp taken
      exact (producerNews_ring stays moved _).1
  | inTrySend call value =>
      have stays : lastLeaving (s.producers i) = false := by rw [pcEq]; rfl
      simp only [pcEq] at taken
      split at taken
      · obtain ⟨inside, moved, rfl⟩ := Option.map_eq_some_iff.mp taken
        obtain ⟨ring, -, rfl⟩ := ringProducer_eq_some moved
        exact producerNews_trySendReturned (s.setRing i ring) stays rfl rfl rfl _ _
      · exact (producerNews_ring stays taken .gone).2
  | inBulk =>
      have stays : lastLeaving (s.producers i) = false := by rw [pcEq]; rfl
      simp only [pcEq] at taken
      split at taken
      · obtain ⟨inside, moved, rfl⟩ := Option.map_eq_some_iff.mp taken
        split <;> exact (producerNews_ring stays moved _).1
      · exact (producerNews_ring stays taken .gone).2
  | inClose =>
      have stays : lastLeaving (s.producers i) = false := by rw [pcEq]; rfl
      simp only [pcEq] at taken
      split at taken
      · cases taken
        exact producerNews_goes stays rfl rfl rfl
      · exact (producerNews_ring stays taken .gone).2
  | wakeFanin call =>
      have stays : lastLeaving (s.producers i) = false := by rw [pcEq]; rfl
      simp only [pcEq, Option.some.injEq] at taken
      subst taken
      exact producerNews_wake stays (rings_disarm _ _ _) (fanin_disarm _ _ _) (live_disarm _ _ _)
  | bulkWakeFanin consumed items =>
      have stays : lastLeaving (s.producers i) = false := by rw [pcEq]; rfl
      simp only [pcEq, Option.some.injEq] at taken
      subst taken
      exact producerNews_wake stays rfl rfl rfl
  | fetchSub =>
      have stays : lastLeaving (s.producers i) = false := by rw [pcEq]; rfl
      have quiet (count : Nat) (pc : MpscProducerPc α)
          (live : count = 0 → s.liveProducers = 0 ∨ lastLeaving pc = true)
          (gone : s.liveProducers = 0 → count = 0) :
          ProducerNews i s ({ s with liveProducers := count }.producerAt i pc) :=
        { acked := .inl rfl
          faninWaiter := .refl _
          left := fun leaves => by rw [stays] at leaves; cases leaves
          live := fun none => (live none).imp_right fun last => by rwa [producers_producerAt]
          gone := gone }
      simp only [pcEq] at taken
      split at taken <;> cases taken
      · exact quiet _ _ (fun _ => .inr rfl) fun none => by omega
      · exact quiet _ _ (fun none => .inl (by omega)) fun none => by omega
  | wakeLast =>
      simp only [pcEq, Option.some.injEq] at taken
      subst taken
      exact ⟨.inl rfl, .inr rfl, fun _ => rfl, .inl, id⟩

theorem producerStep_news {action : MpscProducerAction α}
    (taken : s.producerStep size i action = some after) : ProducerNews i s after := by
  cases action with
  | tick => exact producerTick_news taken
  | trySendBulk items =>
      simp only [producerStep] at taken
      split at taken
      · rename_i pcEq
        have stays : lastLeaving (s.producers i) = false := by rw [pcEq]; rfl
        split at taken <;> cases taken <;> exact producerNews_goes stays rfl rfl rfl
      · cases taken
  | trySend value | send value | sendAsyncSend value | drop | spin | spurious =>
      simp only [producerStep] at taken
      split at taken
      · rename_i pcEq
        cases taken
        exact producerNews_goes (by rw [pcEq]; rfl) rfl rfl rfl
      · cases taken

/-! ### The steps of the consumer -/

/-- What the other parties see of a step of the consumer. -/
structure ConsumerNews (s after : MpscState α) : Prop where
  heads : ∀ i, (after.rings i).shared.head = (s.rings i).shared.head
  tails : ∀ i, (after.rings i).shared.tail = (s.rings i).shared.tail ∨
    after.takingFrom i = true
  producerWaiters : ∀ i, (s.producerWaiters i).Kept (after.producerWaiters i)
  took : ∀ i, s.takingFrom i = true → after.takingFrom i = true ∨
    after.producerWaiters i = (s.producerWaiters i).wake
  returns : ∀ i, RingState.unwinding (after.rings i).consumer.pc = false

/-- No ring is being unwound. -/
def Returning (s : MpscState α) : Prop :=
  ∀ i, RingState.unwinding (s.rings i).consumer.pc = false

/-- A step outside the rings, from a place that owes no wake. -/
theorem consumerNews_goes (returns : s.Returning) (quiet : ∀ i, s.takingFrom i = false)
    (rings : after.rings = s.rings) (waiters : after.producerWaiters = s.producerWaiters) :
    ConsumerNews s after where
  heads i := by rw [rings]
  tails i := .inl (by rw [rings])
  producerWaiters i := .inl (congrFun waiters i)
  took i takes := by
    rw [quiet i] at takes
    cases takes
  returns i := by
    rw [rings]
    exact returns i

/-- A step inside one ring. -/
theorem consumerNews_ring {idx : Nat} (ring : RingState α) (returns : s.Returning)
    (rings : after.rings = (s.setRing idx ring).rings)
    (waiters : after.producerWaiters = s.producerWaiters)
    (head : ring.shared.head = (s.rings idx).shared.head)
    (tail : ring.shared.tail = (s.rings idx).shared.tail ∨
      taking idx ring.consumer.pc after.consumer = true)
    (unwound : RingState.unwinding ring.consumer.pc = false)
    (took : ∀ i, s.takingFrom i = true →
      i = idx ∧ taking idx ring.consumer.pc after.consumer = true) : ConsumerNews s after := by
  have here : after.rings idx = ring := by rw [rings, rings_setRing]
  have others (j : Nat) (ne : j ≠ idx) : after.rings j = s.rings j := by
    rw [rings, rings_setRing_of_ne _ _ ne]
  have takes (gave : taking idx ring.consumer.pc after.consumer = true) :
      after.takingFrom idx = true := by
    rw [takingFrom, here]
    exact gave
  refine ⟨fun j => ?_, fun j => ?_, fun j => .inl (congrFun waiters j), fun j was => ?_,
    fun j => ?_⟩
  · by_cases same : j = idx
    · rw [same, here, head]
    · rw [others j same]
  · by_cases same : j = idx
    · rw [same, here]
      exact tail.imp_right takes
    · exact .inl (by rw [others j same])
  · obtain ⟨rfl, gave⟩ := took j was
    exact .inl (takes gave)
  · by_cases same : j = idx
    · rw [same, here]
      exact unwound
    · rw [others j same]
      exact returns j

theorem wakeProducer_waiters (s : MpscState α) (idx j : Nat) :
    (s.producerWaiters j).Kept ((s.wakeProducer idx).producerWaiters j) ∧
      (j = idx → (s.wakeProducer idx).producerWaiters j = (s.producerWaiters j).wake) := by
  by_cases same : j = idx
  · subst same
    have woken : (s.wakeProducer j).producerWaiters j = (s.producerWaiters j).wake :=
      Function.update_self ..
    exact ⟨.inr woken, fun _ => woken⟩
  · exact ⟨.inl (Function.update_of_ne same ..), fun same' => absurd same' same⟩

/-- The wake after slots were given back. -/
theorem consumerNews_wake {idx : Nat} (returns : s.Returning)
    (only : ∀ i, s.takingFrom i = true → i = idx) (pc : MpscConsumerPc α) :
    ConsumerNews s ((s.wakeProducer idx).consumerAt pc) where
  heads _ := rfl
  tails _ := .inl rfl
  producerWaiters i := (wakeProducer_waiters s idx i).1
  took i takes := .inr ((wakeProducer_waiters s idx i).2 (only i takes))
  returns := returns

theorem waiters_noteTick (s : MpscState α) (idx : Nat) :
    (s.noteTick idx).producerWaiters = s.producerWaiters ∧
      (s.noteTick idx).faninWaiter = s.faninWaiter := by
  unfold noteTick
  split <;> exact ⟨rfl, rfl⟩

/-- A step inside a ring's running call. -/
theorem consumerNews_tick {idx : Nat} {ring : RingState α} (returns : s.Returning)
    {pc : MpscConsumerPc α} (gives : RingState.GivesBack (s.rings idx) ring)
    (running : ∀ outcome, (s.rings idx).consumer.pc ≠ .returned outcome)
    (pcEq : s.consumer = pc)
    (at_ring : ∀ i inner, taking i inner pc = (idx == i && RingState.owesWake inner)) :
    ConsumerNews s ((s.noteTick idx).setRing idx ring) := by
  have stays : ((s.noteTick idx).setRing idx ring).consumer = pc :=
    (consumer_noteTick s idx).trans pcEq
  have gave (given : RingState.owesWake ring.consumer.pc = true) :
      taking idx ring.consumer.pc ((s.noteTick idx).setRing idx ring).consumer = true := by
    rw [stays, at_ring, given, beq_self_eq_true, Bool.and_self]
  refine consumerNews_ring ring returns (rings_noteTick_setRing s idx ring)
    (waiters_noteTick s idx).1 gives.head (gives.tail.imp_right gave) gives.returns
    fun i takes => ?_
  rw [takingFrom, pcEq, at_ring, Bool.and_eq_true, beq_iff_eq] at takes
  obtain ⟨rfl, before⟩ := takes
  refine ⟨rfl, gave ?_⟩
  rcases gives.kept before with after | ⟨outcome, was⟩
  · exact after
  · exact absurd was (running outcome)

/-- The step out of a ring call that has returned touches no cursor. -/
theorem ring_returned_shared {idx : Nat} {outcome : ConsumerOutcome α}
    (returned : (s.rings idx).consumer.pc = .returned outcome)
    (taken : s.ringConsumerTick size idx = some after) :
    ∃ ring, after = s.setRing idx ring ∧ ring.shared = (s.rings idx).shared ∧
      ring.consumer.pc = .idle := by
  obtain ⟨ring, ticked, rfl⟩ := ringConsumerTick_eq_some taken
  have quiet : s.noteTick idx = s := by
    simp [noteTick, returned, loadsHead]
  rw [quiet]
  simp only [RingState.consumerStep, RingState.consumerTick, returned,
    Option.some.injEq] at ticked
  subst ticked
  exact ⟨_, rfl, rfl, rfl⟩

/-- The consumer takes a returned ring call's answer. -/
theorem consumerNews_returned {idx : Nat} {ring : RingState α} (returns : s.Returning)
    (shared : ring.shared = (s.rings idx).shared) (idle : ring.consumer.pc = .idle)
    {pc : MpscConsumerPc α}
    (took : ∀ i, s.takingFrom i = true → i = idx ∧ taking idx .idle pc = true) :
    ConsumerNews s ((s.setRing idx ring).consumerAt pc) := by
  refine consumerNews_ring ring returns rfl rfl (by rw [shared])
    (.inl (by rw [shared])) (by rw [idle]; rfl) fun i takes => ?_
  rw [idle]
  exact took i takes

theorem quiet_of {pc : MpscConsumerPc α} (pcEq : s.consumer = pc)
    (quiet : ∀ i inner, taking i inner pc = false) (i : Nat) : s.takingFrom i = false := by
  rw [takingFrom, pcEq]
  exact quiet i _

theorem consumerNews_start {idx : Nat} {action : ConsumerAction} {inside : MpscState α}
    {before pc : MpscConsumerPc α} (returns : s.Returning)
    (starts : action = .tryRecv ∨ action = .drain ∨ action = .drop)
    (pcEq : s.consumer = before) (quiet : ∀ i inner, taking i inner before = false)
    (moved : s.ringConsumer size idx action = some inside) :
    ConsumerNews s (inside.consumerAt pc) := by
  obtain ⟨ring, started, rfl⟩ := ringConsumer_eq_some moved
  obtain ⟨head, tail, unwound⟩ := RingState.start_quiet starts started
  refine consumerNews_ring ring returns rfl rfl head (.inl tail) unwound
    fun i takes => ?_
  rw [quiet_of pcEq quiet i] at takes
  cases takes

theorem consumerTick_news (reached : (system size).Reachable s) (returns : s.Returning)
    (taken : s.consumerTick size = some after) : ConsumerNews s after := by
  have stands := stands reached
  have gives {idx : Nat} {ring : RingState α}
      (channel : RingState.consumerActivity (s.rings idx).consumer.pc ≠ .blocking)
      (ticked : (s.rings idx).consumerStep size.cap (.tick (s.rings idx).shared.head.latest) =
        some ring) : RingState.GivesBack (s.rings idx) ring :=
    RingState.givesBack_tick (ring_places reached idx).1 channel (returns idx) ticked
  unfold consumerTick at taken
  cases pcEq : s.consumer with
  | idle | gone => simp [pcEq] at taken
  | enterTryRecv call idx =>
      simp only [pcEq] at taken
      obtain ⟨inside, moved, rfl⟩ := Option.map_eq_some_iff.mp taken
      exact consumerNews_start returns (.inl rfl) pcEq (fun _ _ => rfl) moved
  | enterDrain call idx total progress =>
      simp only [pcEq] at taken
      obtain ⟨inside, moved, rfl⟩ := Option.map_eq_some_iff.mp taken
      exact consumerNews_start returns (.inr (.inl rfl)) pcEq (fun _ _ => rfl) moved
  | enterClose idx =>
      simp only [pcEq] at taken
      split at taken
      · obtain ⟨inside, moved, rfl⟩ := Option.map_eq_some_iff.mp taken
        exact consumerNews_start returns (.inr (.inr rfl)) pcEq (fun _ _ => rfl) moved
      · cases taken
        exact consumerNews_goes returns (quiet_of pcEq fun _ _ => rfl) rfl rfl
  | inTryRecv call idx =>
      have receiving := stands.inside (by rw [pcEq]; rfl)
      simp only [pcEq] at taken
      have only (i : Nat) (takes : s.takingFrom i = true) :
          i = idx ∧ RingState.owesWake (s.rings idx).consumer.pc = true := by
        rw [takingFrom, pcEq] at takes
        obtain ⟨same, gave⟩ := Bool.and_eq_true_iff.mp takes
        obtain rfl := beq_iff_eq.mp same
        exact ⟨rfl, gave⟩
      split at taken
      · rename_i result returned
        obtain ⟨inside, moved, rfl⟩ := Option.map_eq_some_iff.mp taken
        obtain ⟨ring, rfl, shared, idle⟩ := ring_returned_shared returned moved
        rcases result with error | value
        · refine consumerNews_returned returns shared idle fun i takes => ?_
          have gave := (only i takes).2
          rw [returned] at gave
          cases gave
        · exact consumerNews_returned returns shared idle fun i takes =>
            ⟨(only i takes).1, beq_self_eq_true idx⟩
      · rename_i notTryRecv
        obtain ⟨ring, ticked, rfl⟩ := ringConsumerTick_eq_some taken
        refine consumerNews_tick returns (gives (receiving.elim Rests.notBlocking fun same => by
          rw [same]
          exact nofun) ticked)
          (fun outcome was => ?_) pcEq fun _ _ => rfl
        rw [was] at receiving
        cases outcome with
        | tryRecv result => exact notTryRecv result was
        | recv result | drain consumed | panicked => exact absurd receiving (by simp [Rests, RingState.consumerActivity])
  | inDrain call idx total progress =>
      have draining := stands.inside (by rw [pcEq]; rfl)
      simp only [pcEq] at taken
      have only (i : Nat) (takes : s.takingFrom i = true) :
          i = idx ∧ RingState.owesWake (s.rings idx).consumer.pc = true := by
        rw [takingFrom, pcEq] at takes
        obtain ⟨same, gave⟩ := Bool.and_eq_true_iff.mp takes
        obtain rfl := beq_iff_eq.mp same
        exact ⟨rfl, gave⟩
      split at taken
      · rename_i n returned
        obtain ⟨inside, moved, rfl⟩ := Option.map_eq_some_iff.mp taken
        obtain ⟨ring, rfl, shared, idle⟩ := ring_returned_shared returned moved
        split
        · exact consumerNews_returned returns shared idle fun i takes =>
            ⟨(only i takes).1, beq_self_eq_true idx⟩
        · rename_i none
          refine consumerNews_returned returns shared idle fun i takes => ?_
          have gave := (only i takes).2
          rw [returned] at gave
          exact absurd (of_decide_eq_true gave) none
      · rename_i panicked
        have unwound := returns idx
        rw [panicked] at unwound
        cases unwound
      · rename_i notDrain notPanicked
        obtain ⟨ring, ticked, rfl⟩ := ringConsumerTick_eq_some taken
        refine consumerNews_tick returns (gives (draining.elim Rests.notBlocking fun same => by
          rw [same]
          exact nofun) ticked)
          (fun outcome was => ?_) pcEq fun _ _ => rfl
        rw [was] at draining
        cases outcome with
        | drain consumed => exact notDrain consumed was
        | panicked => exact notPanicked was
        | tryRecv result | recv result => exact absurd draining (by simp [Rests, RingState.consumerActivity])
  | inClose idx =>
      have rests := stands.rests (by rw [pcEq]; rfl) idx
      simp only [pcEq] at taken
      split at taken
      · cases taken
        exact consumerNews_goes returns (quiet_of pcEq fun _ _ => rfl) rfl rfl
      · obtain ⟨ring, ticked, rfl⟩ := ringConsumerTick_eq_some taken
        have given := gives rests.notBlocking ticked
        have quiet : RingState.owesWake ring.consumer.pc = false := by
          refine RingState.owesWake_of_rests ?_
          rcases activity_tick ticked with same | rests
          · rwa [same]
          · exact rests
        refine consumerNews_ring ring returns (rings_noteTick_setRing s idx ring)
          (waiters_noteTick s idx).1 given.head (.inl (given.tail.resolve_right ?_)) given.returns
          fun i takes => ?_
        · rw [quiet]
          simp
        · rw [quiet_of pcEq (fun _ _ => rfl) i] at takes
          cases takes
  | wakeProducer call idx value | batchWakeProducer call idx total =>
      simp only [pcEq, Option.some.injEq] at taken
      subst taken
      refine consumerNews_wake returns (fun i takes => ?_) _
      rw [takingFrom, pcEq] at takes
      exact (beq_iff_eq.mp takes).symm
  | finishedShutdown call asker | finishedLive call asker
  | workTail call asker inFinished idx head | waitPark call =>
      simp only [pcEq] at taken
      split at taken <;> cases taken <;>
        exact consumerNews_goes returns (quiet_of pcEq fun _ _ => rfl) rfl rfl
  | workHead call asker inFinished idx | waitAnnounce call | waitLeave call | returned outcome =>
      simp only [pcEq, Option.some.injEq] at taken
      subst taken
      exact consumerNews_goes returns (quiet_of pcEq fun _ _ => rfl) rfl rfl

theorem consumerStep_news {action : MpscConsumerAction}
    (reached : (system size).Reachable s) (returns : s.Returning)
    (calm : returning (.consumer action : MpscAction α) = true)
    (taken : s.consumerStep size action = some after) : ConsumerNews s after := by
  cases action with
  | tick => exact consumerTick_news reached returns taken
  | panic => cases calm
  | tryRecv | recv | tryRecvBatch | recvBatch | drop | spin | spurious =>
      simp only [consumerStep] at taken
      split at taken
      · rename_i pcEq
        cases taken
        exact consumerNews_goes returns (quiet_of pcEq fun _ _ => rfl) rfl rfl
      · cases taken

/-- Nothing unwinds in a run whose callbacks do not panic. -/
theorem returning_of_steady (reached : (steady size).Reachable s) : s.Returning := by
  refine reached.invariant Returning ?base ?preserved
  case base =>
    rintro _ rfl i
    rfl
  case preserved =>
    rintro before action after reached returns ⟨calm, taken⟩
    cases action with
    | producer i action =>
        have taken := (producer_of_step taken).2
        intro j
        rcases producerStep_rely (withinCache_of_steady reached) taken j with same | rely
        · rw [same]
          exact returns j
        · rw [rely.consumer]
          exact returns j
    | consumer action =>
        exact (consumerStep_news reached.of_guarded returns calm taken).returns
    | signaller k action =>
        intro j
        rw [(signallerStep_frame taken).rings]
        exact returns j

/-! ### The steps of a signal -/

/-- What the other parties see of a signal's step. -/
structure SignalNews (size : MpscSize) (k : Nat) (s after : MpscState α) : Prop where
  faninWaiter : s.faninWaiter.Kept after.faninWaiter
  producerWaiters : ∀ i, (s.producerWaiters i).Kept (after.producerWaiters i)
  signallers : ∀ other, other ≠ k → after.signallers other = s.signallers other
  shutdown : after.shutdown = true → s.shutdown = true ∨
    signallingConsumer (after.signallers k) = true ∧
      ∀ i, signallingProducer i (after.signallers k) = true
  toConsumer : signallingConsumer (s.signallers k) = true →
    after.faninWaiter = s.faninWaiter.wake
  toProducer : ∀ i < size.m, signallingProducer i (s.signallers k) = true →
    signallingProducer i (after.signallers k) = true ∨
      after.producerWaiters i = (s.producerWaiters i).wake

theorem signallers_signallerAt (s : MpscState α) (k : Nat) (pc : MpscSignalPc) :
    (s.signallerAt k pc).signallers k = pc := by
  simp [signallerAt]

theorem signallerStep_news {k : Nat} {action : MpscSignalAction}
    (taken : s.signallerStep size k action = some after) : SignalNews size k s after := by
  have others {moved : MpscState α} (same : moved.signallers = s.signallers) (pc : MpscSignalPc)
      (other : Nat) (ne : other ≠ k) :
      (moved.signallerAt k pc).signallers other = s.signallers other := by
    simp [signallerAt, ne, same]
  cases action with
  | signal =>
      simp only [signallerStep] at taken
      split at taken
      · rename_i pcEq
        cases taken
        refine ⟨.refl _, fun _ => .refl _, others rfl _, fun _ => .inr ?_, fun onWay => ?_,
          fun i _ onWay => ?_⟩
        · rw [signallers_signallerAt]
          exact ⟨rfl, fun _ => rfl⟩
        · rw [pcEq] at onWay
          cases onWay
        · rw [pcEq] at onWay
          cases onWay
      · cases taken
  | tick =>
      simp only [signallerStep] at taken
      cases pcEq : s.signallers k with
      | idle => simp [pcEq] at taken
      | wakeFanin =>
          simp only [pcEq, Option.some.injEq] at taken
          subst taken
          refine ⟨.inr rfl, fun _ => .refl _, others rfl _, .inl, fun _ => rfl, fun i _ _ => ?_⟩
          rw [signallers_signallerAt]
          exact .inl (decide_eq_true (Nat.zero_le i))
      | wakeProducer here =>
          have never : signallingConsumer (s.signallers k) = false := by
            rw [pcEq]
            rfl
          simp only [pcEq] at taken
          split at taken <;> cases taken
          · refine ⟨.refl _, fun i => (wakeProducer_waiters s here i).1, others rfl _, .inl,
              fun onWay => ?_, fun i _ onWay => ?_⟩
            · rw [never] at onWay
              cases onWay
            · rw [pcEq] at onWay
              rcases (of_decide_eq_true onWay).eq_or_lt with rfl | further
              · exact .inr ((wakeProducer_waiters s here here).2 rfl)
              · rw [signallers_signallerAt]
                exact .inl (decide_eq_true further)
          · refine ⟨.refl _, fun _ => .refl _, others rfl _, .inl, fun onWay => ?_,
              fun i inside onWay => ?_⟩
            · rw [never] at onWay
              cases onWay
            · rw [pcEq] at onWay
              have := of_decide_eq_true onWay
              omega

/-! ### What the waiting consumer relies on -/

/-- Ring `i` is empty, or the consumer's wake is on its way. -/
def RingCovered (s : MpscState α) (i : Nat) : Prop :=
  s.faninWaiter.Covers
    ((s.rings i).shared.head.current = (s.rings i).shared.tail.current) (0 < s.underWay i)

/-- A loaded head is still the ring's head, or the consumer's wake is on its way. -/
def HeadCovered (s : MpscState α) (i : Nat) (head : Usize) : Prop :=
  s.faninWaiter.Covers (head = (s.rings i).shared.head.current) (0 < s.underWay i)

/-- No shutdown is signalled, or the consumer's wake is on its way. -/
def ShutdownCovered (s : MpscState α) : Prop :=
  s.faninWaiter.Covers (s.shutdown = false) (∃ k, signallingConsumer (s.signallers k) = true)

/-- A producer is alive, or the consumer's wake is on its way. -/
def ProducersCovered (size : MpscSize) (s : MpscState α) : Prop :=
  s.faninWaiter.Covers (s.liveProducers ≠ 0)
    (∃ i < size.m, lastLeaving (s.producers i) = true)

/-- The consumer has announced itself and looked at the first `seen` rings. -/
structure RingsCovered (s : MpscState α) (seen : Nat) : Prop where
  announced : s.faninWaiter.announced = true
  rings : ∀ i < seen, RingCovered s i

/-- What the consumer relies on at each point of its announced predicate.  The second
scan runs when the producers are gone, so what it finds was published since the first,
and its producer has got as far as the wake. -/
def ReceiveCovered (size : MpscSize) (s : MpscState α) : MpscConsumerPc α → Prop
  | .workHead _ (.predicate .announced) false idx => RingsCovered s idx
  | .workTail _ (.predicate .announced) false idx head =>
      RingsCovered s idx ∧ HeadCovered s idx head
  | .finishedShutdown _ (.predicate .announced) => RingsCovered s size.m
  | .finishedLive _ (.predicate .announced) => RingsCovered s size.m ∧ ShutdownCovered s
  | .workHead _ (.predicate .announced) true _ =>
      RingsCovered s size.m ∧ ShutdownCovered s ∧ s.liveProducers = 0
  | .workTail _ (.predicate .announced) true idx head =>
      RingsCovered s size.m ∧ ShutdownCovered s ∧ s.liveProducers = 0 ∧ HeadCovered s idx head
  | .waitPark _ => RingsCovered s size.m ∧ ShutdownCovered s ∧ ProducersCovered size s
  | _ => True

def ConsumerCovered (size : MpscSize) (s : MpscState α) : Prop :=
  ReceiveCovered size s s.consumer

/-- What the consumer sees of a step of another party. -/
structure ConsumerHears (size : MpscSize) (s after : MpscState α) : Prop where
  consumer : after.consumer = s.consumer
  kept : s.faninWaiter.Kept after.faninWaiter
  tails : ∀ i, (after.rings i).shared.tail.current = (s.rings i).shared.tail.current
  heads : ∀ i, (after.rings i).shared.head.current = (s.rings i).shared.head.current ∨
    0 < after.underWay i
  published : ∀ i, 0 < s.underWay i → 0 < after.underWay i ∨
    after.faninWaiter = s.faninWaiter.wake
  shutdown : Waiter.Passes s.faninWaiter after.faninWaiter
    (s.shutdown = false) (∃ k, signallingConsumer (s.signallers k) = true)
    (after.shutdown = false) (∃ k, signallingConsumer (after.signallers k) = true)
  live : Waiter.Passes s.faninWaiter after.faninWaiter
    (s.liveProducers ≠ 0) (∃ i < size.m, lastLeaving (s.producers i) = true)
    (after.liveProducers ≠ 0) (∃ i < size.m, lastLeaving (after.producers i) = true)
  gone : s.liveProducers = 0 → after.liveProducers = 0

theorem ConsumerHears.ringsCovered (hears : ConsumerHears size s after) {seen : Nat}
    (covered : RingsCovered s seen) : RingsCovered after seen where
  announced := hears.kept.announced.trans covered.announced
  rings i bound := by
    refine (covered.rings i bound).carried covered.announced hears.kept
      ⟨fun empty => ?_, hears.published i⟩
    rcases hears.heads i with same | onWay
    · exact .inl (by rw [same, hears.tails i, empty])
    · exact .inr onWay

theorem ConsumerHears.headCovered (hears : ConsumerHears size s after) {head : Usize}
    (announced : s.faninWaiter.announced = true) (covered : HeadCovered s i head) :
    HeadCovered after i head := by
  refine covered.carried announced hears.kept ⟨fun current => ?_, hears.published i⟩
  rcases hears.heads i with same | onWay
  · exact .inl (by rw [same, current])
  · exact .inr onWay

theorem ReceiveCovered.map {pc : MpscConsumerPc α} (covered : ReceiveCovered size s pc)
    (rings : ∀ seen, RingsCovered s seen → RingsCovered after seen)
    (head : ∀ i head, s.faninWaiter.announced = true → HeadCovered s i head →
      HeadCovered after i head)
    (shutdown : s.faninWaiter.announced = true → ShutdownCovered s → ShutdownCovered after)
    (live : s.faninWaiter.announced = true → ProducersCovered size s →
      ProducersCovered size after)
    (gone : s.liveProducers = 0 → after.liveProducers = 0) : ReceiveCovered size after pc := by
  cases pc with
  | workHead call asker inFinished idx =>
      rcases asker with _ | _ | _ <;> cases inFinished <;> try trivial
      · exact rings idx covered
      · exact ⟨rings size.m covered.1, shutdown covered.1.announced covered.2.1,
          gone covered.2.2⟩
  | workTail call asker inFinished idx loaded =>
      rcases asker with _ | _ | _ <;> cases inFinished <;> try trivial
      · exact ⟨rings idx covered.1, head idx loaded covered.1.announced covered.2⟩
      · exact ⟨rings size.m covered.1, shutdown covered.1.announced covered.2.1,
          gone covered.2.2.1, head idx loaded covered.1.announced covered.2.2.2⟩
  | finishedShutdown call asker =>
      rcases asker with _ | _ | _ <;> try trivial
      exact rings size.m covered
  | finishedLive call asker =>
      rcases asker with _ | _ | _ <;> try trivial
      exact ⟨rings size.m covered.1, shutdown covered.1.announced covered.2⟩
  | waitPark call =>
      exact ⟨rings size.m covered.1, shutdown covered.1.announced covered.2.1,
        live covered.1.announced covered.2.2⟩
  | _ => trivial

theorem ConsumerHears.stable (hears : ConsumerHears size s after)
    (covered : ConsumerCovered size s) : ConsumerCovered size after := by
  rw [ConsumerCovered, hears.consumer]
  exact ReceiveCovered.map covered (fun _ => hears.ringsCovered)
    (fun _ _ announced => hears.headCovered announced)
    (fun announced running => running.carried announced hears.kept hears.shutdown)
    (fun announced alive => alive.carried announced hears.kept hears.live) hears.gone

/-! ### What the consumer sees of the others -/

theorem head_eq_of_published (reached : (withinCache size).Reachable s)
    (reachedAfter : (withinCache size).Reachable after)
    (same : (after.rings i).shared.lane.published = (s.rings i).shared.lane.published) :
    (after.rings i).shared.head.current = (s.rings i).shared.head.current := by
  rw [(ring_ok reached i).1.head, (ring_ok reachedAfter i).1.head, same]

theorem tail_eq_of_released (reached : (withinCache size).Reachable s)
    (reachedAfter : (withinCache size).Reachable after)
    (same : (after.rings i).shared.lane.released = (s.rings i).shared.lane.released) :
    (after.rings i).shared.tail.current = (s.rings i).shared.tail.current := by
  rw [(ring_ok reached i).1.tail, (ring_ok reachedAfter i).1.tail, same]

/-- What was under way stays so until the wake, and a head that moves is under way. -/
theorem underWay_producer {here : Nat} {action : MpscProducerAction α}
    (reached : (withinCache size).Reachable s) (reachedAfter : (withinCache size).Reachable after)
    (taken : s.producerStep size here action = some after) (i : Nat) :
    ((after.rings i).shared.head.current = (s.rings i).shared.head.current ∨
        0 < after.underWay i) ∧
      (0 < s.underWay i → 0 < after.underWay i ∨ after.faninWaiter = s.faninWaiter.wake) := by
  have before := published_eq reached i
  have later := published_eq reachedAfter i
  have acked : after.history.acked i = s.history.acked i ∨
      after.rings i = s.rings i ∧ after.faninWaiter = s.faninWaiter.wake := by
    by_cases same : i = here
    · subst same
      exact (producerStep_news taken).acked
    · exact .inl ((producerStep_frame taken).acked i same)
  have grows : (s.rings i).shared.lane.published ≤ (after.rings i).shared.lane.published := by
    rcases producerStep_rely reached taken i with same | rely
    · rw [same]
    · rcases rely.head with ⟨-, same⟩ | ⟨-, later⟩
      · exact same.ge
      · exact later
  constructor
  · by_cases same : (after.rings i).shared.lane.published = (s.rings i).shared.lane.published
    · exact .inl (head_eq_of_published reached reachedAfter same)
    · refine .inr ?_
      rcases acked with acked | ⟨ring, -⟩
      · omega
      · rw [ring] at same
        exact absurd rfl same
  · intro onWay
    rcases acked with acked | ⟨-, woken⟩
    · exact .inl (by omega)
    · exact .inr woken

theorem consumerHears_producer {action : MpscProducerAction α} (inside : i < size.m)
    (reached : (withinCache size).Reachable s) (reachedAfter : (withinCache size).Reachable after)
    (taken : s.producerStep size i action = some after) : ConsumerHears size s after := by
  have news := producerStep_news taken
  have frame := producerStep_frame taken
  have underWay := underWay_producer reached reachedAfter taken
  refine ⟨frame.consumer, news.faninWaiter, fun j => ?_, fun j => (underWay j).1,
    fun j => (underWay j).2, ?_, ⟨fun alive => ?_, ?_⟩, news.gone⟩
  · rcases producerStep_rely reached taken j with same | rely
    · rw [same]
    · exact tail_eq_of_released reached reachedAfter rely.released
  · rw [frame.shutdown, frame.signallers]
    exact .refl _ _ _ _
  · by_cases none : after.liveProducers = 0
    · rcases news.live none with before | leaving
      · exact absurd before alive
      · exact .inr ⟨i, inside, leaving⟩
    · exact .inl none
  · rintro ⟨j, jInside, onWay⟩
    by_cases same : j = i
    · subst same
      exact .inr (news.left onWay)
    · exact .inl ⟨j, jInside, by rwa [frame.producers j same]⟩

theorem consumerHears_signaller {k : Nat} {action : MpscSignalAction}
    (taken : s.signallerStep size k action = some after) : ConsumerHears size s after := by
  have news := signallerStep_news taken
  have frame := signallerStep_frame taken
  refine ⟨frame.consumer, news.faninWaiter, fun i => by rw [frame.rings],
    fun i => .inl (by rw [frame.rings]), fun i onWay => .inl ?_, ⟨fun running => ?_, ?_⟩, ?_,
    fun none => frame.liveProducers.trans none⟩
  · rw [underWay, frame.producers, frame.rings]
    exact onWay
  · cases shutdown : after.shutdown with
    | false => exact .inl rfl
    | true =>
        rcases news.shutdown shutdown with before | ⟨signalling, -⟩
        · rw [running] at before
          cases before
        · exact .inr ⟨k, signalling⟩
  · rintro ⟨other, onWay⟩
    by_cases same : other = k
    · subst same
      exact .inr (news.toConsumer onWay)
    · exact .inl ⟨other, by rwa [news.signallers other same]⟩
  · rw [frame.liveProducers, frame.producers]
    exact .refl _ _ _ _

/-! ### The consumer's own steps -/

/-- A place at which the consumer relies on nothing. -/
def Unaware (pc : MpscConsumerPc α) : Prop :=
  ∀ (size : MpscSize) (s : MpscState α), ReceiveCovered size s pc

theorem unaware_scanAt (call : MpscRecvCall) (idx : Nat) :
    Unaware (scanAt size call idx : MpscConsumerPc α) := by
  unfold scanAt
  split
  · exact fun _ _ => trivial
  · cases call <;> exact fun _ _ => trivial

theorem unaware_passAt (call : MpscBatchCall) (idx total : Nat) (progress : Bool) :
    Unaware (passAt size call idx total progress : MpscConsumerPc α) := by
  unfold passAt
  split
  · exact fun _ _ => trivial
  · split
    · exact fun _ _ => trivial
    · unfold batchDone
      cases call with
      | tryRecvBatch => exact fun _ _ => trivial
      | recvBatch =>
          dsimp only
          split <;> exact fun _ _ => trivial

theorem unaware_receiveAgain (call : MpscBlocking) :
    Unaware (receiveAgain size call : MpscConsumerPc α) := by
  cases call with
  | recv => exact unaware_scanAt .recv 0
  | recvBatch => exact unaware_passAt .recvBatch 0 0 false

theorem unaware_finishedAnswer_true (call : MpscBlocking) (asker : MpscAsker) :
    Unaware (finishedAnswer size call asker true : MpscConsumerPc α) := by
  rcases asker with _ | _ | _
  · exact fun _ _ => trivial
  · exact unaware_receiveAgain call
  · exact fun _ _ => trivial

/-- A predicate that is not evaluated after the announcement. -/
def Early (asker : MpscAsker) : Prop := asker ≠ .predicate .announced

theorem unaware_finishedAnswer_early (call : MpscBlocking) {asker : MpscAsker}
    (early : Early asker) (finished : Bool) :
    Unaware (finishedAnswer size call asker finished : MpscConsumerPc α) := by
  rcases asker with _ | _ | _
  · cases finished <;> exact fun _ _ => trivial
  · cases finished
    · exact fun _ _ => trivial
    · exact unaware_receiveAgain call
  · exact absurd rfl early

theorem unaware_workAnswer_early (call : MpscBlocking) {asker : MpscAsker} (early : Early asker)
    (inFinished work : Bool) :
    Unaware (workAnswer size call asker inFinished work : MpscConsumerPc α) := by
  cases inFinished with
  | true => exact unaware_finishedAnswer_early call early _
  | false =>
      cases work with
      | true => exact unaware_finishedAnswer_early call early _
      | false =>
          rcases asker with _ | _ | _
          · exact fun _ _ => trivial
          · exact fun _ _ => trivial
          · exact absurd rfl early

theorem unaware_workAt_early (call : MpscBlocking) {asker : MpscAsker} (early : Early asker)
    (inFinished : Bool) (idx : Nat) :
    Unaware (workAt size call asker inFinished idx : MpscConsumerPc α) := by
  unfold workAt
  split
  · rcases asker with _ | _ | _
    · exact fun _ _ => trivial
    · exact fun _ _ => trivial
    · exact absurd rfl early
  · exact unaware_workAnswer_early call early _ _

theorem consumerCovered_at {moved : MpscState α} {pc : MpscConsumerPc α}
    (covered : ReceiveCovered size moved pc) :
    ConsumerCovered size (moved.consumerAt pc) :=
  covered.map (fun _ rings => ⟨rings.announced, rings.rings⟩) (fun _ _ _ head => head)
    (fun _ running => running) (fun _ live => live) fun gone => gone

theorem RingsCovered.next {seen : Nat} (covered : RingsCovered s seen)
    (ring : RingCovered s seen) : RingsCovered s (seen + 1) where
  announced := covered.announced
  rings i bound := by
    rcases Nat.lt_succ_iff_lt_or_eq.mp bound with before | rfl
    · exact covered.rings i before
    · exact ring

/-- The first scan goes on to the next ring, or to the terminal check. -/
theorem receiveCovered_workAt (call : MpscBlocking) {seen : Nat}
    (covered : RingsCovered s seen) :
    ReceiveCovered size s (workAt size call (.predicate .announced) false seen) := by
  unfold workAt
  split
  · exact covered
  · exact ⟨covered.announced, fun i bound => covered.rings i (by omega)⟩

/-- A producer that has given up its place has nothing under way. -/
theorem underWay_gone (reached : (withinCache size).Reachable s) (none : s.liveProducers = 0)
    (inside : i < size.m) : s.underWay i = 0 := by
  have dropped := uncounted_of_live (producersOk reached).live none inside
  have sent := congrArg List.length (sent_eq_accepted reached dropped)
  have acked := (producerInStep reached i).acked
  have unacked : unacknowledged (s.producers i) = 0 := by
    cases pcEq : s.producers i with
    | wakeFanin call | bulkWakeFanin consumed items =>
        rw [pcEq] at dropped
        cases dropped
    | _ => rfl
  have published := published_eq reached i
  rw [(ring_ok reached i).1.sound.length_sent] at sent
  rw [unacked] at acked
  omega

/-- Work found by the second scan has its wake pending already. -/
theorem token_of_work (reached : (withinCache size).Reachable s) (none : s.liveProducers = 0)
    (inside : i < size.m) {head : Usize} (rings : RingsCovered s size.m)
    (loaded : HeadCovered s i head) (work : head ≠ (s.rings i).shared.tail.current) :
    s.faninWaiter.token = true := by
  have nothing := underWay_gone reached none inside
  rcases loaded with current | pending | onWay
  · rcases rings.rings i inside with empty | pending | onWay
    · exact absurd (current.trans empty) work
    · exact pending
    · omega
  · exact pending
  · omega

theorem consumerTick_covered (reached : (withinCache size).Reachable s)
    (covered : ConsumerCovered size s) (taken : s.consumerTick size = some after) :
    ConsumerCovered size after := by
  have here := (consumerInStep reached).here
  rw [ConsumerCovered] at covered
  unfold consumerTick at taken
  cases pcEq : s.consumer with
  | idle | gone => simp [pcEq] at taken
  | enterTryRecv call idx | enterDrain call idx total progress =>
      simp only [pcEq] at taken
      obtain ⟨inside, moved, rfl⟩ := Option.map_eq_some_iff.mp taken
      exact consumerCovered_at trivial
  | inTryRecv call idx =>
      simp only [pcEq] at taken
      split at taken
      · obtain ⟨inside, moved, rfl⟩ := Option.map_eq_some_iff.mp taken
        split
        · exact consumerCovered_at trivial
        · exact consumerCovered_at (unaware_scanAt _ _ _ _)
      · obtain ⟨ring, -, rfl⟩ := ringConsumerTick_eq_some taken
        have stays : ((s.noteTick idx).setRing idx ring).consumer = .inTryRecv call idx :=
          (consumer_noteTick s idx).trans pcEq
        rw [ConsumerCovered, stays]
        trivial
  | inDrain call idx total progress =>
      simp only [pcEq] at taken
      split at taken
      · obtain ⟨inside, moved, rfl⟩ := Option.map_eq_some_iff.mp taken
        split
        · exact consumerCovered_at trivial
        · exact consumerCovered_at (unaware_passAt _ _ _ _ _ _)
      · obtain ⟨inside, moved, rfl⟩ := Option.map_eq_some_iff.mp taken
        exact consumerCovered_at trivial
      · obtain ⟨ring, -, rfl⟩ := ringConsumerTick_eq_some taken
        have stays : ((s.noteTick idx).setRing idx ring).consumer =
            .inDrain call idx total progress := (consumer_noteTick s idx).trans pcEq
        rw [ConsumerCovered, stays]
        trivial
  | wakeProducer call idx value =>
      simp only [pcEq, Option.some.injEq] at taken
      subst taken
      exact consumerCovered_at trivial
  | batchWakeProducer call idx total =>
      simp only [pcEq, Option.some.injEq] at taken
      subst taken
      exact consumerCovered_at (unaware_passAt _ _ _ _ _ _)
  | finishedShutdown call asker =>
      rw [pcEq] at covered
      simp only [pcEq] at taken
      split at taken <;> cases taken
      · exact consumerCovered_at (unaware_finishedAnswer_true _ _ _ _)
      · rename_i running
        rcases asker with _ | _ | _
        · exact consumerCovered_at trivial
        · exact consumerCovered_at trivial
        · exact consumerCovered_at ⟨covered, .inl (Bool.eq_false_iff.mpr running)⟩
  | finishedLive call asker =>
      rw [pcEq] at covered
      simp only [pcEq] at taken
      by_cases early : Early asker
      · split at taken <;> cases taken
        · exact consumerCovered_at (unaware_workAt_early _ early _ _ _ _)
        · exact consumerCovered_at (unaware_finishedAnswer_early _ early _ _ _)
      obtain rfl : asker = .predicate .announced := not_not.mp early
      split at taken <;> cases taken
      · rename_i none
        refine consumerCovered_at ?_
        rw [workAt, if_pos size.m_pos]
        exact ⟨covered.1, covered.2, none⟩
      · rename_i alive
        exact consumerCovered_at ⟨covered.1, covered.2, .inl alive⟩
  | workHead call asker inFinished idx =>
      rw [pcEq] at covered
      simp only [pcEq, Option.some.injEq] at taken
      subst taken
      rcases asker with _ | _ | _
      · exact consumerCovered_at trivial
      · exact consumerCovered_at trivial
      · cases inFinished with
        | false => exact consumerCovered_at ⟨⟨covered.announced, covered.rings⟩, .inl rfl⟩
        | true =>
            exact consumerCovered_at ⟨⟨covered.1.announced, covered.1.rings⟩, covered.2.1,
              covered.2.2, .inl rfl⟩
  | workTail call asker inFinished idx head =>
      rw [pcEq] at covered here
      have inside : idx < size.m := here.1
      simp only [pcEq] at taken
      by_cases early : Early asker
      · split at taken <;> cases taken
        · exact consumerCovered_at (unaware_workAt_early _ early _ _ _ _)
        · exact consumerCovered_at (unaware_workAnswer_early _ early _ _ _ _)
      obtain rfl : asker = .predicate .announced := not_not.mp early
      cases inFinished with
      | false =>
          split at taken <;> cases taken
          · rename_i empty
            have ring : RingCovered s idx := by
              rcases covered.2 with current | coming
              · exact .inl (current.symm.trans empty)
              · exact .inr coming
            exact consumerCovered_at (receiveCovered_workAt call (covered.1.next ring))
          · exact consumerCovered_at trivial
      | true =>
          obtain ⟨rings, running, none, loaded⟩ := covered
          split at taken <;> cases taken
          · refine consumerCovered_at ?_
            unfold workAt
            split
            · exact ⟨rings, running, none⟩
            · trivial
          · rename_i work
            have pending := token_of_work reached none inside rings loaded work
            exact consumerCovered_at ⟨rings, running, .inr (.inl pending)⟩
  | waitAnnounce call =>
      simp only [pcEq, Option.some.injEq] at taken
      subst taken
      exact consumerCovered_at ⟨rfl, fun i never => absurd never (Nat.not_lt_zero i)⟩
  | waitPark call =>
      rw [pcEq] at covered
      simp only [pcEq] at taken
      split at taken <;> cases taken
      exact consumerCovered_at
        ⟨covered.1.announced, fun i never => absurd never (Nat.not_lt_zero i)⟩
  | waitLeave call =>
      simp only [pcEq, Option.some.injEq] at taken
      subst taken
      exact consumerCovered_at (unaware_receiveAgain _ _ _)
  | enterClose idx =>
      simp only [pcEq] at taken
      split at taken
      · obtain ⟨inside, moved, rfl⟩ := Option.map_eq_some_iff.mp taken
        exact consumerCovered_at trivial
      · cases taken
        exact consumerCovered_at trivial
  | inClose idx =>
      simp only [pcEq] at taken
      split at taken
      · cases taken
        exact consumerCovered_at trivial
      · obtain ⟨ring, -, rfl⟩ := ringConsumerTick_eq_some taken
        have stays : ((s.noteTick idx).setRing idx ring).consumer = .inClose idx :=
          (consumer_noteTick s idx).trans pcEq
        rw [ConsumerCovered, stays]
        trivial
  | returned outcome =>
      simp only [pcEq, Option.some.injEq] at taken
      subst taken
      exact consumerCovered_at trivial

theorem consumerStep_covered {action : MpscConsumerAction}
    (reached : (withinCache size).Reachable s)
    (calm : returning (.consumer action : MpscAction α) = true)
    (covered : ConsumerCovered size s) (taken : s.consumerStep size action = some after) :
    ConsumerCovered size after := by
  cases action with
  | tick => exact consumerTick_covered reached covered taken
  | panic => cases calm
  | tryRecv | recv =>
      simp only [consumerStep] at taken
      split at taken <;> cases taken
      exact consumerCovered_at (unaware_scanAt _ _ _ _)
  | tryRecvBatch | recvBatch =>
      simp only [consumerStep] at taken
      split at taken <;> cases taken
      exact consumerCovered_at (unaware_passAt _ _ _ _ _ _)
  | drop | spin =>
      simp only [consumerStep] at taken
      split at taken <;> cases taken
      exact consumerCovered_at trivial
  | spurious =>
      simp only [consumerStep] at taken
      split at taken
      · rename_i call pcEq
        rw [ConsumerCovered, pcEq] at covered
        cases taken
        exact consumerCovered_at
          ⟨covered.1.announced, fun i never => absurd never (Nat.not_lt_zero i)⟩
      · cases taken

/-! ### What a waiting producer relies on -/

/-- The producer's ring is full, or its wake is on its way. -/
def FullCovered (size : MpscSize) (s : MpscState α) (i : Nat) : Prop :=
  (s.producerWaiters i).Covers (s.full size i = true) (s.takingFrom i = true)

/-- No shutdown is signalled, or the producer's wake is on its way. -/
def SignalCovered (s : MpscState α) (i : Nat) : Prop :=
  (s.producerWaiters i).Covers (s.shutdown = false)
    (∃ k, signallingProducer i (s.signallers k) = true)

/-- The producer has announced itself and then seen no shutdown. -/
structure SignalSeen (s : MpscState α) (i : Nat) : Prop where
  announced : (s.producerWaiters i).announced = true
  running : SignalCovered s i

/-- What producer `i` relies on at each point of its announced predicate, and of the
loop of `send_async_send` once its future is armed. -/
def SendCovered (size : MpscSize) (s : MpscState α) (i : Nat) (ring : ProducerPc α) :
    MpscProducerPc α → Prop
  | .waitShutdown .announced _ => (s.producerWaiters i).announced = true
  | .waitHead .announced _ => SignalSeen s i
  | .waitTail .announced _ head =>
      SignalSeen s i ∧ head = (s.rings i).shared.head.current
  | .waitPark _ => SignalSeen s i ∧ FullCovered size s i
  | .asyncLoop _ => (s.producerWaiters i).announced = true
  | .loadShutdown .sendAsyncSend _ => False
  | .enterTrySend .sendAsyncSend _ => SignalSeen s i
  | .inTrySend .sendAsyncSend _ =>
      SignalSeen s i ∧ (RingState.sawRingFull ring = true → FullCovered size s i)
  | .asyncAwait _ => SignalSeen s i ∧ FullCovered size s i
  | _ => True

def ProducerCovered (size : MpscSize) (s : MpscState α) (i : Nat) : Prop :=
  SendCovered size s i (s.rings i).producer.pc (s.producers i)

/-- What a producer sees of a step of another party. -/
structure ProducerHears (i : Nat) (s after : MpscState α) : Prop where
  producer : after.producers i = s.producers i
  ring : (after.rings i).producer = (s.rings i).producer
  kept : (s.producerWaiters i).Kept (after.producerWaiters i)
  head : (after.rings i).shared.head.current = (s.rings i).shared.head.current
  tail : (after.rings i).shared.tail.current = (s.rings i).shared.tail.current ∨
    after.takingFrom i = true
  took : s.takingFrom i = true → after.takingFrom i = true ∨
    after.producerWaiters i = (s.producerWaiters i).wake
  shutdown : Waiter.Passes (s.producerWaiters i) (after.producerWaiters i)
    (s.shutdown = false) (∃ k, signallingProducer i (s.signallers k) = true)
    (after.shutdown = false) (∃ k, signallingProducer i (after.signallers k) = true)

theorem ProducerHears.signalSeen (hears : ProducerHears i s after) (seen : SignalSeen s i) :
    SignalSeen after i where
  announced := hears.kept.announced.trans seen.announced
  running := seen.running.carried seen.announced hears.kept hears.shutdown

theorem ProducerHears.fullCovered (hears : ProducerHears i s after)
    (announced : (s.producerWaiters i).announced = true) (covered : FullCovered size s i) :
    FullCovered size after i := by
  refine covered.carried announced hears.kept ⟨fun full => ?_, hears.took⟩
  rcases hears.tail with same | onWay
  · exact .inl (by rw [MpscState.full, hears.head, same]; exact full)
  · exact .inr onWay

theorem SendCovered.map {ring : ProducerPc α} {pc : MpscProducerPc α}
    (covered : SendCovered size s i ring pc)
    (announced : (s.producerWaiters i).announced = true →
      (after.producerWaiters i).announced = true)
    (seen : SignalSeen s i → SignalSeen after i)
    (head : (after.rings i).shared.head.current = (s.rings i).shared.head.current)
    (full : (s.producerWaiters i).announced = true → FullCovered size s i →
      FullCovered size after i) : SendCovered size after i ring pc := by
  cases pc with
  | waitShutdown phase value =>
      cases phase with
      | entry => trivial
      | announced => exact announced covered
  | waitHead phase value =>
      cases phase with
      | entry => trivial
      | announced => exact seen covered
  | waitTail phase value loaded =>
      cases phase with
      | entry => trivial
      | announced => exact ⟨seen covered.1, covered.2.trans head.symm⟩
  | waitPark value | asyncAwait value =>
      exact ⟨seen covered.1, full covered.1.announced covered.2⟩
  | asyncLoop value => exact announced covered
  | loadShutdown call value =>
      cases call with
      | sendAsyncSend => exact absurd covered not_false
      | trySend | send => trivial
  | enterTrySend call value =>
      cases call with
      | sendAsyncSend => exact seen covered
      | trySend | send => trivial
  | inTrySend call value =>
      cases call with
      | sendAsyncSend =>
          exact ⟨seen covered.1, fun saw => full covered.1.announced (covered.2 saw)⟩
      | trySend | send => trivial
  | _ => trivial

theorem ProducerHears.stable (hears : ProducerHears i s after)
    (covered : ProducerCovered size s i) : ProducerCovered size after i := by
  rw [ProducerCovered, hears.producer, hears.ring]
  exact SendCovered.map covered (fun announced => hears.kept.announced.trans announced)
    hears.signalSeen hears.head fun announced => hears.fullCovered announced

/-! ### What a producer sees of the others -/

theorem producerHears_producer {here : Nat} {action : MpscProducerAction α} (other : i ≠ here)
    (taken : s.producerStep size here action = some after) : ProducerHears i s after := by
  have frame := producerStep_frame taken
  have ring := frame.rings i other
  have waiter := frame.waiters i other
  refine ⟨frame.producers i other, by rw [ring], .inl waiter, by rw [ring], .inl (by rw [ring]),
    fun takes => .inl ?_, ?_⟩
  · rw [takingFrom, ring, frame.consumer]
    exact takes
  · rw [frame.shutdown, frame.signallers]
    exact .refl _ _ _ _

/-- The consumer leaves the producers' halves of the rings. -/
theorem ring_consumerStep {action : MpscConsumerAction}
    (taken : s.consumerStep size action = some after) (i : Nat) :
    (after.rings i).producer = (s.rings i).producer := by
  rcases (consumerStep_frame taken).rings i with same | ⟨move, moved, -⟩
  · rw [same]
  · exact (RingState.keeps_consumerStep moved).1

theorem producerHears_consumer {action : MpscConsumerAction}
    (reached : (system size).Reachable s)
    (returns : s.Returning) (calm : returning (.consumer action : MpscAction α) = true)
    (taken : s.consumerStep size action = some after) (i : Nat) : ProducerHears i s after := by
  have news := consumerStep_news reached returns calm taken
  have frame := consumerStep_frame taken
  refine ⟨congrFun frame.producers i, ring_consumerStep taken i, news.producerWaiters i,
    by rw [news.heads], (news.tails i).imp_left fun same => by rw [same], news.took i, ?_⟩
  rw [frame.shutdown, frame.signallers]
  exact .refl _ _ _ _

theorem producerHears_signaller {k : Nat} {action : MpscSignalAction} (inside : i < size.m)
    (taken : s.signallerStep size k action = some after) : ProducerHears i s after := by
  have news := signallerStep_news taken
  have frame := signallerStep_frame taken
  refine ⟨congrFun frame.producers i, by rw [frame.rings], news.producerWaiters i,
    by rw [frame.rings], .inl (by rw [frame.rings]), fun takes => .inl ?_,
    ⟨fun running => ?_, ?_⟩⟩
  · rw [takingFrom, frame.rings, frame.consumer]
    exact takes
  · cases shutdown : after.shutdown with
    | false => exact .inl rfl
    | true =>
        rcases news.shutdown shutdown with before | ⟨-, signalling⟩
        · rw [running] at before
          cases before
        · exact .inr ⟨k, signalling i⟩
  · rintro ⟨other, onWay⟩
    by_cases same : other = k
    · subst same
      rcases news.toProducer i inside onWay with onWay | woken
      · exact .inl ⟨other, onWay⟩
      · exact .inr woken
    · exact .inl ⟨other, by rwa [news.signallers other same]⟩

/-! ### The producer's own steps -/

/-- The call arrives at a place outside its ring. -/
theorem producerCovered_at {moved : MpscState α} {pc : MpscProducerPc α}
    (covered : SendCovered size moved i (moved.rings i).producer.pc pc) :
    ProducerCovered size (moved.producerAt i pc) i := by
  rw [ProducerCovered, producers_producerAt]
  exact SendCovered.map covered id (fun seen => ⟨seen.announced, seen.running⟩) rfl
    fun _ full => full

theorem sendCovered_sendWaited_ready (ring : ProducerPc α) (phase : WaitPhase) (value : α) :
    SendCovered size s i ring (sendWaited phase true value) := by
  cases phase <;> trivial

theorem announced_setProducerWaiter (s : MpscState α) (i : Nat) (waiter : Waiter) :
    (s.setProducerWaiter i waiter).producerWaiters i = waiter :=
  Function.update_self ..

/-- A step of the producer inside its ring that leaves both cursors. -/
theorem fullCovered_setRing {ring : RingState α}
    (consumer : ring.consumer = (s.rings i).consumer)
    (head : ring.shared.head = (s.rings i).shared.head)
    (tail : ring.shared.tail = (s.rings i).shared.tail) (covered : FullCovered size s i) :
    FullCovered size (s.setRing i ring) i := by
  have full : (s.setRing i ring).full size i = s.full size i := full_setRing s i head tail
  have takes : (s.setRing i ring).takingFrom i = s.takingFrom i := by
    rw [takingFrom, rings_setRing, consumer]
    rfl
  rw [FullCovered, full, takes]
  exact covered

theorem inTrySend_covered (reached : (system size).Reachable s) {call : MpscSendCall}
    {value : α} (pcEq : s.producers i = .inTrySend call value)
    (covered : SendCovered size s i (s.rings i).producer.pc (.inTrySend call value))
    (taken : s.producerTick size i = some after) : ProducerCovered size after i := by
  simp only [producerTick, pcEq] at taken
  split at taken
  · rename_i result values returned
    obtain ⟨inside, ticked, rfl⟩ := Option.map_eq_some_iff.mp taken
    obtain ⟨ring, moved, rfl⟩ := ringProducer_eq_some ticked
    have consumer := (RingState.closed_of_producerStep moved).2
    simp only [RingState.producerStep, RingState.producerTick, returned,
      Option.some.injEq] at moved
    subst moved
    rcases result with (value | value) | ⟨⟩
    · refine producerCovered_at ?_
      cases call with
      | trySend | send => trivial
      | sendAsyncSend =>
          refine ⟨⟨covered.1.announced, covered.1.running⟩, ?_⟩
          exact fullCovered_setRing consumer rfl rfl
            (covered.2 (by rw [returned]; rfl))
    · refine producerCovered_at ?_
      cases call <;> trivial
    · exact producerCovered_at trivial
  · obtain ⟨ring, moved, rfl⟩ := ringProducer_eq_some taken
    have consumer := (RingState.closed_of_producerStep moved).2
    have stays : (s.setRing i ring).producers i = .inTrySend call value := pcEq
    rw [ProducerCovered, stays]
    cases call with
    | trySend | send => trivial
    | sendAsyncSend =>
        refine ⟨⟨covered.1.announced, covered.1.running⟩, fun saw => ?_⟩
        rw [rings_setRing] at saw
        obtain ⟨head, tail, was⟩ :=
          RingState.sawRingFull_tick (ring_places reached i).2 moved saw
        refine fullCovered_setRing consumer head tail ?_
        rcases was with saw | full
        · exact covered.2 saw
        · exact .inl full

theorem producerTick_covered (reached : (withinCache size).Reachable s)
    (covered : ProducerCovered size s i) (taken : s.producerTick size i = some after) :
    ProducerCovered size after i := by
  have ticked := taken
  unfold producerTick at taken
  rw [ProducerCovered] at covered
  cases pcEq : s.producers i with
  | idle | gone => simp [pcEq] at taken
  | sendLoop value | bulkLoadShutdown items | fetchSub =>
      simp only [pcEq] at taken
      split at taken <;> cases taken <;> exact producerCovered_at trivial
  | loadShutdown call value =>
      rw [pcEq] at covered
      simp only [pcEq] at taken
      cases call with
      | sendAsyncSend => exact absurd covered not_false
      | trySend | send => split at taken <;> cases taken <;> exact producerCovered_at trivial
  | asyncArm value =>
      simp only [pcEq, Option.some.injEq] at taken
      subst taken
      refine producerCovered_at ?_
      rw [SendCovered, announced_setProducerWaiter]
      rfl
  | asyncLoop value =>
      rw [pcEq] at covered
      simp only [pcEq] at taken
      split at taken <;> cases taken
      · exact producerCovered_at trivial
      · rename_i running
        exact producerCovered_at ⟨covered, .inl (Bool.eq_false_iff.mpr running)⟩
  | enterTrySend call value =>
      rw [pcEq] at covered
      simp only [pcEq] at taken
      obtain ⟨inside, moved, rfl⟩ := Option.map_eq_some_iff.mp taken
      obtain ⟨ring, started, rfl⟩ := ringProducer_eq_some moved
      refine producerCovered_at ?_
      cases call with
      | trySend | send => trivial
      | sendAsyncSend =>
          refine ⟨⟨covered.announced, covered.running⟩, fun saw => ?_⟩
          rw [rings_setRing] at saw
          simp only [RingState.producerStep] at started
          split at started <;> cases started
          rw [RingState.sawRingFull_trySendStart] at saw
          cases saw
  | inTrySend call value =>
      rw [pcEq] at covered
      exact inTrySend_covered reached.of_guarded pcEq covered ticked
  | inBulk =>
      simp only [pcEq] at taken
      split at taken
      · obtain ⟨inside, moved, rfl⟩ := Option.map_eq_some_iff.mp taken
        split <;> exact producerCovered_at trivial
      · obtain ⟨ring, -, rfl⟩ := ringProducer_eq_some taken
        have stays : (s.setRing i ring).producers i = .inBulk := pcEq
        rw [ProducerCovered, stays]
        trivial
  | inClose =>
      simp only [pcEq] at taken
      split at taken
      · cases taken
        exact producerCovered_at trivial
      · obtain ⟨ring, -, rfl⟩ := ringProducer_eq_some taken
        have stays : (s.setRing i ring).producers i = .inClose := pcEq
        rw [ProducerCovered, stays]
        trivial
  | enterBulk items | enterClose =>
      simp only [pcEq] at taken
      obtain ⟨inside, moved, rfl⟩ := Option.map_eq_some_iff.mp taken
      exact producerCovered_at trivial
  | waitShutdown phase value =>
      rw [pcEq] at covered
      simp only [pcEq] at taken
      split at taken
      · cases taken
        exact producerCovered_at (sendCovered_sendWaited_ready _ phase value)
      · rename_i running
        cases taken
        cases phase with
        | entry => exact producerCovered_at trivial
        | announced => exact producerCovered_at ⟨covered, .inl (Bool.eq_false_iff.mpr running)⟩
  | waitHead phase value =>
      rw [pcEq] at covered
      simp only [pcEq, Option.some.injEq] at taken
      subst taken
      cases phase with
      | entry => exact producerCovered_at trivial
      | announced => exact producerCovered_at ⟨covered, rfl⟩
  | waitTail phase value head =>
      rw [pcEq] at covered
      simp only [pcEq, Option.some.injEq] at taken
      subst taken
      cases full : RingState.isFull size.cap head (s.rings i).shared.tail.current with
      | false => exact producerCovered_at (sendCovered_sendWaited_ready _ phase value)
      | true =>
          cases phase with
          | entry => exact producerCovered_at trivial
          | announced =>
              refine producerCovered_at ⟨covered.1, .inl ?_⟩
              rw [MpscState.full, ← covered.2]
              exact full
  | waitAnnounce value =>
      simp only [pcEq, Option.some.injEq] at taken
      subst taken
      refine producerCovered_at ?_
      rw [SendCovered, announced_setProducerWaiter]
      rfl
  | waitPark value =>
      rw [pcEq] at covered
      simp only [pcEq] at taken
      split at taken <;> cases taken
      refine producerCovered_at ?_
      rw [SendCovered, announced_setProducerWaiter]
      exact covered.1.announced
  | asyncAwait value =>
      simp only [pcEq] at taken
      split at taken <;> cases taken
      exact producerCovered_at trivial
  | wakeFanin call | bulkWakeFanin consumed items | waitLeave value | wakeLast
  | returned outcome =>
      simp only [pcEq, Option.some.injEq] at taken
      subst taken
      exact producerCovered_at trivial

theorem producerStep_covered {action : MpscProducerAction α}
    (reached : (withinCache size).Reachable s) (covered : ProducerCovered size s i)
    (taken : s.producerStep size i action = some after) : ProducerCovered size after i := by
  cases action with
  | tick => exact producerTick_covered reached covered taken
  | trySendBulk items =>
      simp only [producerStep] at taken
      split at taken
      · split at taken <;> cases taken <;> exact producerCovered_at trivial
      · cases taken
  | spurious =>
      simp only [producerStep] at taken
      split at taken
      · rename_i value pcEq
        rw [ProducerCovered, pcEq] at covered
        cases taken
        exact producerCovered_at covered.1.announced
      · cases taken
  | trySend value | send value | sendAsyncSend value | drop | spin =>
      simp only [producerStep] at taken
      split at taken <;> cases taken
      exact producerCovered_at trivial

/-! ### Nobody is left parked -/

/-- The consumer sleeps in a blocking receive with no wake pending. -/
structure ConsumerAsleep (s : MpscState α) : Prop where
  parked : ∃ call, s.consumer = .waitPark call
  noWake : s.faninWaiter.token = false

/-- Producer `i` sleeps in `send`, or is suspended in `send_async_send`, with no wake
pending. -/
structure ProducerAsleep (s : MpscState α) (i : Nat) : Prop where
  parked : Parked (s.producers i)
  noWake : (s.producerWaiters i).token = false

/-- For every cause a sleeping party waits for, a party that brought it about is still
on its way to the wake. -/
structure NobodyLeftParked (size : MpscSize) (s : MpscState α) : Prop where
  item : ConsumerAsleep s → ∀ i < size.m,
    (s.rings i).shared.head.current ≠ (s.rings i).shared.tail.current → 0 < s.underWay i
  consumerShutdown : ConsumerAsleep s → s.shutdown = true →
    ∃ k, signallingConsumer (s.signallers k) = true
  lastProducer : ConsumerAsleep s → s.liveProducers = 0 →
    ∃ i < size.m, lastLeaving (s.producers i) = true
  room : ∀ i < size.m, ProducerAsleep s i → s.full size i = false → s.takingFrom i = true
  producerShutdown : ∀ i < size.m, ProducerAsleep s i → s.shutdown = true →
    ∃ k, signallingProducer i (s.signallers k) = true

/-- Every waiting party relies on what it has looked at. -/
structure AllCovered (size : MpscSize) (s : MpscState α) : Prop where
  consumer : ConsumerCovered size s
  producers : ∀ i < size.m, ProducerCovered size s i

theorem AllCovered.nobodyLeftParked (covered : AllCovered size s) : NobodyLeftParked size s := by
  have consumer (asleep : ConsumerAsleep s) :
      RingsCovered s size.m ∧ ShutdownCovered s ∧ ProducersCovered size s := by
    obtain ⟨call, pcEq⟩ := asleep.parked
    have here := covered.consumer
    rw [ConsumerCovered, pcEq] at here
    exact here
  have producer (i : Nat) (inside : i < size.m) (asleep : ProducerAsleep s i) :
      SignalSeen s i ∧ FullCovered size s i := by
    have here := covered.producers i inside
    rw [ProducerCovered] at here
    rcases asleep.parked with ⟨value, pcEq⟩ | ⟨value, pcEq⟩
    · rw [pcEq] at here
      exact here
    · rw [pcEq] at here
      exact here
  constructor
  · intro asleep i inside item
    exact ((consumer asleep).1.rings i inside).of_cause asleep.noWake item
  · intro asleep shutdown
    exact (consumer asleep).2.1.of_cause asleep.noWake (by simp [shutdown])
  · intro asleep none
    exact (consumer asleep).2.2.of_cause asleep.noWake (not_not_intro none)
  · intro i inside asleep room
    exact (producer i inside asleep).2.of_cause asleep.noWake (by simp [room])
  · intro i inside asleep shutdown
    exact (producer i inside asleep).1.running.of_cause asleep.noWake (by simp [shutdown])

theorem allCovered (reached : (steady size).Reachable s) : AllCovered size s := by
  refine reached.invariant (AllCovered size) ?base ?preserved
  case base =>
    rintro _ rfl
    exact ⟨trivial, fun _ _ => trivial⟩
  case preserved =>
    rintro before action after steady covered ⟨calm, taken⟩
    have reached := withinCache_of_steady steady
    have reachedAfter := withinCache_of_steady (steady.next ⟨calm, taken⟩)
    cases action with
    | producer i action =>
        obtain ⟨inside, taken⟩ := producer_of_step taken
        refine ⟨?_, fun j jInside => ?_⟩
        · exact (consumerHears_producer inside reached reachedAfter taken).stable covered.consumer
        · by_cases same : j = i
          · subst same
            exact producerStep_covered reached (covered.producers j jInside) taken
          · exact (producerHears_producer same taken).stable (covered.producers j jInside)
    | consumer action =>
        have returns := returning_of_steady steady
        refine ⟨consumerStep_covered reached calm covered.consumer taken, fun j jInside => ?_⟩
        exact (producerHears_consumer steady.of_guarded returns calm taken j).stable
          (covered.producers j jInside)
    | signaller k action =>
        refine ⟨(consumerHears_signaller taken).stable covered.consumer, fun j jInside => ?_⟩
        exact (producerHears_signaller jInside taken).stable (covered.producers j jInside)

/-- As long as no callback panics, whatever the interleaving: a party that sleeps with no
wake pending has nothing to go on for, or a party that changed that is still on its way
to the wake. -/
theorem steady_nobodyLeftParked (reached : (steady size).Reachable s) :
    NobodyLeftParked size s :=
  (allCovered reached).nobodyLeftParked

/-- The consumer sleeps in `recv` while the producer has published and stands in front
of the wake. -/
def publishedUnderSleep : List (MpscAction Nat) :=
  [MpscAction.consumer .recv] ++ consumerTicks 15 ++ [MpscAction.producer 0 (.trySend 5)] ++
    producerTicks 6

theorem asleep_publishedUnderSleep :
    ∃ s : MpscState Nat, (steady soloSize).Reachable s ∧ ConsumerAsleep s ∧
      (s.rings 0).shared.head.current ≠ (s.rings 0).shared.tail.current := by
  have ran : (Transition.execute (Transition.guardedStep
      (fun _ (action : MpscAction Nat) => returning action = true)
      fun s action => s.step soloSize action) (new soloSize) publishedUnderSleep).map
        (fun s => (s.consumer, s.faninWaiter.token, (s.rings 0).shared.head.current,
          (s.rings 0).shared.tail.current)) = some (.waitPark .recv, false, 1, 0) := by
    rfl
  obtain ⟨s, ran, seen⟩ := Option.map_eq_some_iff.mp ran
  obtain ⟨parked, noWake, head, tail⟩ := by simpa only [Prod.mk.injEq] using seen
  have reached : (steady soloSize).Reachable s := System.reachable_of_guarded_execute rfl ran
  refine ⟨s, reached, ⟨⟨_, parked⟩, noWake⟩, ?_⟩
  rw [head, tail]
  decide

theorem steady_nobodyLeftParked_publishedUnderSleep :
    ∃ s : MpscState Nat, (steady soloSize).Reachable s ∧ ConsumerAsleep s ∧
      NobodyLeftParked soloSize s ∧ 0 < s.underWay 0 := by
  obtain ⟨s, reached, asleep, item⟩ := asleep_publishedUnderSleep
  have parked := steady_nobodyLeftParked reached
  exact ⟨s, reached, asleep, parked, parked.item asleep 0 Nat.one_pos item⟩

end MpscState

end ArbitroKit
