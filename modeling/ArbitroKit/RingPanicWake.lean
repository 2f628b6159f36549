import ArbitroKit.PanickedDrain
import ArbitroKit.ParkedRingFacts

/-!
# The wake a panicking `drain` skips

`Consumer::drain` stores the tail in a guard, which also runs while unwinding,
but wakes the producer in ordinary code behind it.  A producer that has found the
ring full and rests on that is then left parked on a ring with room.  Nothing else
leaves it so: whatever other step makes room is followed by a wake.
-/

namespace ArbitroKit

open Coherent SlotLane Cyclic Transition

namespace RingState

variable {α : Type*} {cap : Cap} {s after : RingState α}

/-- The producer has announced itself and has not left the wait. -/
def announcing : ProducerPc α → Bool
  | .waitHead .announced _ => true
  | .waitTail .announced _ _ => true
  | .waitClosed .announced _ => true
  | .waitPark _ => true
  | _ => false

/-- The producer has found the ring full behind its announcement and has not looked
again. -/
def restsOnFull : ProducerPc α → Bool
  | .waitClosed .announced _ => true
  | .waitPark _ => true
  | _ => false

/-- The consumer is on its way to waking the producer. -/
def wakingProducer : ConsumerPc α → Bool
  | .recvWake _ _ => true
  | .drainWake _ _ => true
  | .dropWakeFull => true
  | _ => false

/-- The producer sleeps in `send` with no wake pending. -/
structure ProducerAsleep (s : RingState α) : Prop where
  parked : ∃ value, s.producer.pc = .waitPark value
  noWake : s.shared.notFull.token = false

/-- The producer sleeps on a ring with room, with no wake pending or in progress. -/
structure LeftParked (cap : Cap) (s : RingState α) : Prop extends ProducerAsleep s where
  room : isFull cap s.shared.head.current s.shared.tail.current = false
  nobody : wakingProducer s.consumer.pc = false

/-- Behind the fence of the announcement the load of `tail` reads its newest value. -/
def readsNewest (s : RingState α) : RingAction α → Bool
  | .producer (.tick index) =>
      match s.producer.pc with
      | .waitTail .announced _ _ => ParkedRing.fresh s .producer index
      | _ => true
  | _ => true

/-- When the guard of a panicking callback stores the tail, the producer does not rest
on the full ring, or its wake is pending. -/
def sparesSleeper (s : RingState α) : RingAction α → Bool
  | .consumer (.tick _) =>
      match s.consumer.pc with
      | .drainUnwind _ _ => !restsOnFull s.producer.pc || s.shared.notFull.token
      | _ => true
  | _ => true

/-- The runs whose steps all meet these conditions. -/
def sparingSleepers (cap : Cap) : System (RingState α) (RingAction α) :=
  (system cap).guarded fun s action => s.readsNewest action = true ∧ s.sparesSleeper action = true

/-! ### What the producer rests on -/

/-- Between the two loads of its announced predicate the producer holds the head as
it is. -/
def PlaceOk (current : Usize) : ProducerPc α → Prop
  | .waitTail .announced _ head => head = current
  | _ => True

/-- What the producer relies on at each point of its announced predicate. -/
structure RoomOk (cap : Cap) (s : RingState α) : Prop where
  announced : announcing s.producer.pc = true → s.shared.notFull.announced = true
  place : PlaceOk s.shared.head.current s.producer.pc
  covers : restsOnFull s.producer.pc = true → s.shared.notFull.Covers
    (isFull cap s.shared.head.current s.shared.tail.current = true)
    (wakingProducer s.consumer.pc = true)

theorem announcing_of_rests {pc : ProducerPc α} (rests : restsOnFull pc = true) :
    announcing pc = true := by
  cases pc with
  | waitClosed phase value => cases phase <;> [cases rests; rfl]
  | waitPark value => rfl
  | _ => cases rests

theorem placeOk_away {pc : ProducerPc α} (away : announcing pc = false) (current : Usize) :
    PlaceOk current pc := by
  cases pc with
  | waitTail phase value head => cases phase <;> [trivial; cases away]
  | _ => trivial

/-- Outside its announced predicate the producer relies on nothing. -/
theorem roomOk_away (away : announcing s.producer.pc = false) : RoomOk cap s where
  announced inside := by
    rw [away] at inside
    cases inside
  place := placeOk_away away _
  covers rests := by
    rw [announcing_of_rests rests] at away
    cases away

/-- Inside its announced predicate, and not resting. -/
theorem roomOk_goes (announced : s.shared.notFull.announced = true)
    (place : PlaceOk s.shared.head.current s.producer.pc)
    (awake : restsOnFull s.producer.pc = false) : RoomOk cap s where
  announced _ := announced
  place := place
  covers rests := by
    rw [awake] at rests
    cases rests

theorem announcing_trySendStart (call : SendCall) (value : α) :
    announcing (s.trySendStart cap call value).producer.pc = false := by
  unfold trySendStart
  dsimp only
  split <;> rfl

theorem announcing_bulkStart (items : List α) (head tail : Usize) :
    announcing (bulkStart cap items head tail) = false := by
  unfold bulkStart
  dsimp only
  split <;> rfl

theorem RoomOk.producerTick (ok : RoomOk cap s) {index : Nat}
    (newest : s.readsNewest (.producer (.tick index)) = true)
    (taken : s.producerTick cap index = some after) : RoomOk cap after := by
  unfold RingState.producerTick at taken
  cases pcEq : s.producer.pc with
  | idle | gone => simp [pcEq] at taken
  | sendRefresh call value head =>
      simp only [pcEq] at taken
      obtain ⟨⟨tail, loadedState⟩, loaded, rfl⟩ := Option.map_eq_some_iff.mp taken
      dsimp only
      split <;> exact roomOk_away rfl
  | bulkRefresh items head =>
      simp only [pcEq] at taken
      obtain ⟨⟨tail, loadedState⟩, loaded, rfl⟩ := Option.map_eq_some_iff.mp taken
      exact roomOk_away (announcing_bulkStart items head tail)
  | bulkWrite items head left written =>
      simp only [pcEq] at taken
      split at taken
      · cases taken
      · split at taken <;> cases taken <;> exact roomOk_away rfl
  | sendClosed call value =>
      simp only [pcEq, Option.some.injEq] at taken
      subst taken
      refine roomOk_away ?_
      cases call <;> cases closed : s.shared.closed <;> simp [producerAt, sendRejected, announcing]
  | sendWake call value =>
      simp only [pcEq, Option.some.injEq] at taken
      subst taken
      cases call <;> exact roomOk_away rfl
  | sendRetry value =>
      simp only [pcEq, Option.some.injEq] at taken
      subst taken
      exact roomOk_away (announcing_trySendStart .send value)
  | waitHead phase value =>
      simp only [pcEq, Option.some.injEq] at taken
      subst taken
      cases phase with
      | entry => exact roomOk_away rfl
      | announced =>
          exact roomOk_goes (ok.announced (by rw [pcEq]; rfl)) rfl rfl
  | waitTail phase value head =>
      simp only [pcEq] at taken
      obtain ⟨⟨tail, loadedState⟩, loaded, rfl⟩ := Option.map_eq_some_iff.mp taken
      obtain ⟨read, rfl⟩ := loadTail_eq_some loaded
      cases phase with
      | entry => dsimp only; split <;> exact roomOk_away rfl
      | announced =>
          simp only [readsNewest, pcEq, ParkedRing.fresh, decide_eq_true_eq] at newest
          have seen := (Location.load_eq_some read).1
          have current : tail = s.shared.tail.current := by
            rw [newest] at read seen
            rw [Location.load_latest _ seen] at read
            exact (Option.some.inj read).symm
          dsimp only
          split
          · rename_i full
            refine ⟨fun _ => ok.announced (by rw [pcEq]; rfl), trivial, fun _ => .inl ?_⟩
            have held := ok.place
            rw [pcEq] at held
            obtain rfl : head = s.shared.head.current := held
            rw [current] at full
            exact full
          · exact roomOk_away rfl
  | waitClosed phase value =>
      simp only [pcEq, Option.some.injEq] at taken
      subst taken
      cases phase with
      | entry => cases closed : s.shared.closed <;> exact roomOk_away rfl
      | announced =>
          cases closed : s.shared.closed with
          | true => exact roomOk_away rfl
          | false =>
              exact ⟨fun _ => ok.announced (by rw [pcEq]; rfl), trivial,
                fun _ => ok.covers (by rw [pcEq]; rfl)⟩
  | waitAnnounce value =>
      simp only [pcEq, Option.some.injEq] at taken
      subst taken
      exact roomOk_goes rfl trivial rfl
  | waitPark value =>
      simp only [pcEq] at taken
      split at taken <;> cases taken
      exact roomOk_goes (ok.announced (by rw [pcEq]; rfl)) trivial rfl
  | _ =>
      simp only [pcEq, Option.some.injEq] at taken
      subst taken
      exact roomOk_away rfl

theorem RoomOk.producerStep (ok : RoomOk cap s) {action : ProducerAction α}
    (newest : s.readsNewest (.producer action) = true)
    (taken : s.producerStep cap action = some after) : RoomOk cap after := by
  cases action with
  | tick index => exact ok.producerTick newest taken
  | trySend value | send value =>
      simp only [RingState.producerStep] at taken
      split at taken <;> cases taken
      exact roomOk_away (announcing_trySendStart _ value)
  | trySendBulk items =>
      simp only [RingState.producerStep] at taken
      split at taken
      · split at taken
        · cases taken
          exact roomOk_away rfl
        · split at taken <;> cases taken
          · exact roomOk_away rfl
          · exact roomOk_away (announcing_bulkStart items _ _)
      · cases taken
  | drop | spin =>
      simp only [RingState.producerStep] at taken
      split at taken <;> cases taken
      exact roomOk_away rfl
  | spurious =>
      simp only [RingState.producerStep] at taken
      split at taken
      · rename_i value pcEq
        cases taken
        exact roomOk_goes (ok.announced (by rw [pcEq]; rfl)) trivial rfl
      · cases taken

/-! ### What the consumer's steps leave -/

theorem wakingProducer_iff (pc : ConsumerPc α) :
    wakingProducer pc = true ↔ ParkedRing.consumerPlace pc = .wake .producer := by
  cases pc with
  | waitHead phase | waitTail phase head | waitClosed phase =>
      cases phase <;> simp [wakingProducer, ParkedRing.consumerPlace]
  | _ => simp [wakingProducer, ParkedRing.consumerPlace]

/-- Only the wake of `not_full` touches its waiter. -/
theorem notFull_consumerTick {index : Nat} (taken : s.consumerTick cap index = some after) :
    after.shared.notFull =
      if wakingProducer s.consumer.pc then s.shared.notFull.wake else s.shared.notFull := by
  unfold consumerTick at taken
  cases pcEq : s.consumer.pc with
  | idle | gone | undefined => simp [pcEq] at taken
  | recvRefresh call tail | drainLoad start | recvRecheck call tail | waitHead phase =>
      simp only [pcEq] at taken
      obtain ⟨⟨head, loadedState⟩, loaded, rfl⟩ := Option.map_eq_some_iff.mp taken
      obtain ⟨-, rfl⟩ := loadHead_eq_some loaded
      first | rfl | (dsimp only; split <;> rfl)
  | recvClosed call tail | drainCallback start head tail value | waitTail phase head | waitPark =>
      simp only [pcEq] at taken
      split at taken <;> cases taken <;> rfl
  | recvRead call tail | drainRead start head tail =>
      simp only [pcEq, Option.some.injEq] at taken
      subst taken
      unfold readSlot
      dsimp only
      split <;> rfl
  | recvRetry =>
      simp only [pcEq, Option.some.injEq] at taken
      subst taken
      unfold tryRecvStart
      dsimp only
      split <;> rfl
  | _ =>
      simp only [pcEq, Option.some.injEq] at taken
      subst taken
      rfl

theorem RoomOk.consumerTick (ok : RoomOk cap s) {index : Nat}
    (spares : s.sparesSleeper (.consumer (.tick index)) = true)
    (taken : s.consumerTick cap index = some after) : RoomOk cap after := by
  have waiter := notFull_consumerTick taken
  by_cases unwinds : ParkedRing.place s .consumer = .unwinding
  · obtain ⟨start, tail, pcEq⟩ : ∃ start tail, s.consumer.pc = .drainUnwind start tail := by
      cases pcEq : s.consumer.pc with
      | drainUnwind start tail => exact ⟨start, tail, rfl⟩
      | waitHead phase | waitTail phase head | waitClosed phase =>
          rw [ParkedRing.place, pcEq] at unwinds
          cases phase <;> cases unwinds
      | _ =>
          rw [ParkedRing.place, pcEq] at unwinds
          cases unwinds
    simp only [sparesSleeper, pcEq, Bool.or_eq_true, Bool.not_eq_true'] at spares
    simp only [RingState.consumerTick, pcEq, Option.some.injEq] at taken
    subst taken
    refine ⟨ok.announced, ok.place, fun rests => ?_⟩
    rcases spares with away | pending
    · cases away.symm.trans rests
    · exact .inr (.inl pending)
  · have news := ParkedRing.consumer_news unwinds taken
    have producer : after.producer = s.producer := news.peer
    have head : after.shared.head = s.shared.head := news.others
    have kept : s.shared.notFull.Kept after.shared.notFull := by
      rw [waiter]
      split
      · exact .inr rfl
      · exact .refl _
    refine ⟨fun inside => ?_, ?_, fun rests => ?_⟩
    · rw [producer] at inside
      exact kept.announced.trans (ok.announced inside)
    · rw [producer, head]
      exact ok.place
    · rw [producer] at rests
      refine (ok.covers rests).carried (ok.announced (announcing_of_rests rests)) kept
        ⟨fun full => ?_, fun waking => .inr ?_⟩
      · rcases news.cursor with tail | waking
        · have tail : after.shared.tail = s.shared.tail := tail
          rw [head, tail]
          exact .inl full
        · exact .inr ((wakingProducer_iff _).mpr waking)
      · rw [waiter, if_pos waking]

theorem RoomOk.consumerStep (ok : RoomOk cap s) {action : ConsumerAction}
    (spares : s.sparesSleeper (.consumer action) = true)
    (taken : s.consumerStep cap action = some after) : RoomOk cap after := by
  -- a step that leaves everything the producer looks at, from a place that wakes nobody
  have quiet {moved : RingState α} (before : wakingProducer s.consumer.pc = false)
      (producer : moved.producer = s.producer) (notFull : moved.shared.notFull = s.shared.notFull)
      (head : moved.shared.head = s.shared.head) (tail : moved.shared.tail = s.shared.tail) :
      RoomOk cap moved := by
    refine ⟨by rw [producer, notFull]; exact ok.announced, by rw [producer, head]; exact ok.place,
      fun rests => ?_⟩
    rw [producer] at rests
    rw [notFull, head, tail]
    refine (ok.covers rests).imp_right (Or.imp_right fun waking => ?_)
    rw [before] at waking
    cases waking
  cases action with
  | tick index => exact ok.consumerTick spares taken
  | tryRecv | recv =>
      simp only [RingState.consumerStep] at taken
      split at taken <;> cases taken
      rename_i pcEq
      unfold tryRecvStart
      dsimp only
      split <;> exact quiet (by rw [pcEq]; rfl) rfl rfl rfl rfl
  | drain | drop | panic | spin | spurious =>
      simp only [RingState.consumerStep] at taken
      split at taken <;> cases taken
      rename_i pcEq
      exact quiet (by rw [pcEq]; rfl) rfl rfl rfl rfl

theorem roomOk (reached : (sparingSleepers cap).Reachable s) : RoomOk cap s := by
  refine reached.invariant (RoomOk cap) ?base ?preserved
  case base =>
    rintro _ rfl
    exact roomOk_away rfl
  case preserved =>
    rintro before action after - ok ⟨⟨newest, spares⟩, taken⟩
    cases action with
    | producer action => exact ok.producerStep newest taken
    | consumer action => exact ok.consumerStep spares taken

/-- Unless a guard has stored the tail under a resting producer, nobody is left parked. -/
theorem not_leftParked (reached : (sparingSleepers cap).Reachable s) : ¬ LeftParked cap s := by
  rintro ⟨⟨⟨value, pcEq⟩, noWake⟩, room, nobody⟩
  have covers := (roomOk reached).covers (by rw [pcEq]; rfl)
  have waking := covers.of_cause noWake (by simp [room])
  rw [nobody] at waking
  cases waking

/-! ### What the unwind leaves -/

/-- Behind the guard the ring has room, whatever the item at which the callback
panicked. -/
theorem room_of_unwinds {before after : RingState α} (reached : (withinCache cap).Reachable before)
    (unwinds : Unwinds cap before after) :
    isFull cap after.shared.head.current after.shared.tail.current = false ∧
      after.consumer.pc = .returned .panicked := by
  obtain ⟨panicked, resumed, index, panics, meanwhile, unwound⟩ := unwinds
  obtain ⟨shared, producer, ⟨known, fresh, facts⟩⟩ := invariant reached
  obtain ⟨start, head, tail, value, pcEq, rfl⟩ := panic_eq_some cap panics
  have here := facts.here
  simp only [pcEq] at here
  obtain ⟨releasedLe, rfl, started, rfl, last, rfl, beforeLast, lastLe⟩ := here
  obtain ⟨sharedAfter, -, consumerEq, receivedEq, releasedEq, grown⟩ :=
    producerOnly_rely meanwhile (shared.sameQueue rfl rfl rfl)
      (ProducerRely.sameQueue rfl rfl rfl |>.stable producer)
  have afterEq : after = (resumed.storeTail
      (BitVec.ofNat 64 before.shared.lane.received.length)).consumerAt
        (.returned .panicked) := by
    simpa [step, consumerStep, consumerTick, consumerEq, consumerAt] using unwound.symm
  obtain ⟨ordered, bounded, small⟩ := sharedAfter.near
  simp only [consumerAt, deliver] at releasedEq receivedEq grown
  have received_le := sharedAfter.sound.received_le
  rw [receivedEq] at received_le
  refine ⟨?_, by rw [afterEq]; rfl⟩
  rw [afterEq]
  simp only [isFull, storeTail, consumerAt, sharedAfter.head, Location.current_store,
    decide_eq_false_iff_not, not_le]
  rw [toNat_sub_ofNat (by omega) (by omega)]
  omega

/-- A producer that sleeps without a pending wake when the guard has run is left parked. -/
theorem leftParked_of_unwinds {before after : RingState α}
    (reached : (withinCache cap).Reachable before) (unwinds : Unwinds cap before after)
    (asleep : ProducerAsleep after) : LeftParked cap after where
  toProducerAsleep := asleep
  room := (room_of_unwinds reached unwinds).1
  nobody := by rw [(room_of_unwinds reached unwinds).2]; rfl

end RingState

end ArbitroKit
