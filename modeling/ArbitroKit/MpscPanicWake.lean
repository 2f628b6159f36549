import ArbitroKit.MpscParked
import ArbitroKit.RingPanicWake

/-!
# The wake a panicking batch receive of the channel skips

`try_recv_batch` wakes a ring's producer behind the ring's `drain`, and a panic leaves
both at once.  A producer that has found its ring full behind its announcement, in
`send` or in `send_async_send`, relies on that wake.  Where the guard stores no tail
under such a producer, nobody is left parked, whatever the callbacks do.
-/

namespace ArbitroKit

open SlotLane Cyclic Transition

namespace MpscState

variable {α : Type*} {size : MpscSize} {s after : MpscState α} {i idx : Nat}

/-- The producer has announced itself and has not left the wait. -/
def announcing : MpscProducerPc α → Bool
  | .waitShutdown .announced _ => true
  | .waitHead .announced _ => true
  | .waitTail .announced _ _ => true
  | .waitPark _ => true
  | .asyncLoop _ => true
  | .loadShutdown .sendAsyncSend _ => true
  | .enterTrySend .sendAsyncSend _ => true
  | .inTrySend .sendAsyncSend _ => true
  | .asyncAwait _ => true
  | _ => false

/-- The producer has found its ring full behind its announcement and has not looked
again. -/
def restsOnFull (ring : ProducerPc α) : MpscProducerPc α → Bool
  | .waitPark _ => true
  | .inTrySend .sendAsyncSend _ => RingState.sawRingFull ring
  | .asyncAwait _ => true
  | _ => false

/-- Producer `i` has found its ring full behind its announcement. -/
def restsOnRing (s : MpscState α) (i : Nat) : Bool :=
  restsOnFull (s.rings i).producer.pc (s.producers i)

/-- Some party is on its way to waking producer `i`. -/
def OnWay (s : MpscState α) (i : Nat) : Prop :=
  s.takingFrom i = true ∨ ∃ k, signallingProducer i (s.signallers k) = true

/-- The producer sleeps on a ring with room, with no wake pending or in progress. -/
structure LeftParked (size : MpscSize) (s : MpscState α) (i : Nat) : Prop
    extends ProducerAsleep s i where
  room : s.full size i = false
  nobody : ¬ s.OnWay i

/-- When the guard of a panicking callback stores a ring's tail, the ring's producer does
not rest on it, or its wake is pending, or somebody is on the way to it. -/
def SparesSleeper (s : MpscState α) : MpscAction α → Prop
  | .consumer .tick =>
      match s.consumer with
      | .inDrain _ idx _ _ =>
          match (s.rings idx).consumer.pc with
          | .drainUnwind _ _ =>
              s.restsOnRing idx = true → (s.producerWaiters idx).token = true ∨ s.OnWay idx
          | _ => True
      | _ => True
  | _ => True

/-- The runs whose steps all meet that condition. -/
def sparingSleepers (size : MpscSize) : System (MpscState α) (MpscAction α) :=
  (system size).guarded SparesSleeper

/-! ### What a producer rests on -/

/-- `send_async` does not enter at the flag test, and between the two loads of its
announced predicate a producer holds the head as it is. -/
def PlaceOk (current : Usize) : MpscProducerPc α → Prop
  | .loadShutdown .sendAsyncSend _ => False
  | .waitTail .announced _ head => head = current
  | _ => True

/-- What producer `i` relies on at each point of its announced predicate. -/
structure RoomOk (size : MpscSize) (s : MpscState α) (i : Nat) : Prop where
  announced : announcing (s.producers i) = true → (s.producerWaiters i).announced = true
  place : PlaceOk (s.rings i).shared.head.current (s.producers i)
  covers : s.restsOnRing i = true →
    (s.producerWaiters i).Covers (s.full size i = true) (s.OnWay i)

theorem announcing_of_rests {ring : ProducerPc α} {pc : MpscProducerPc α}
    (rests : restsOnFull ring pc = true) : announcing pc = true := by
  cases pc with
  | inTrySend call value => cases call <;> [cases rests; cases rests; rfl]
  | waitPark value | asyncAwait value => rfl
  | _ => cases rests

theorem placeOk_away {pc : MpscProducerPc α} (away : announcing pc = false) (current : Usize) :
    PlaceOk current pc := by
  cases pc with
  | loadShutdown call value => cases call <;> [trivial; trivial; cases away]
  | waitTail phase value head => cases phase <;> [trivial; cases away]
  | _ => trivial

/-- Outside its announced predicate a producer relies on nothing. -/
theorem roomOk_away (away : announcing (s.producers i) = false) : RoomOk size s i where
  announced inside := by
    rw [away] at inside
    cases inside
  place := placeOk_away away _
  covers rests := by
    rw [announcing_of_rests rests] at away
    cases away

/-- The call goes to a place outside the announced predicate. -/
theorem roomOk_at {moved : MpscState α} {pc : MpscProducerPc α} (away : announcing pc = false) :
    RoomOk size (moved.producerAt i pc) i :=
  roomOk_away (by rwa [producers_producerAt])

/-- The call goes to a place of the announced predicate at which it does not rest. -/
theorem roomOk_goes {moved : MpscState α} {pc : MpscProducerPc α}
    (announced : (moved.producerWaiters i).announced = true)
    (place : PlaceOk (moved.rings i).shared.head.current pc)
    (awake : restsOnFull (moved.rings i).producer.pc pc = false) :
    RoomOk size (moved.producerAt i pc) i where
  announced _ := announced
  place := by rwa [producers_producerAt]
  covers rests := by
    rw [restsOnRing, producers_producerAt] at rests
    rw [show restsOnFull (moved.rings i).producer.pc pc = true from rests] at awake
    cases awake

/-- The call comes to rest. -/
theorem roomOk_rests {moved : MpscState α} {pc : MpscProducerPc α}
    (announced : (moved.producerWaiters i).announced = true)
    (parks : Parked pc)
    (covers : (moved.producerWaiters i).Covers (moved.full size i = true) (moved.OnWay i)) :
    RoomOk size (moved.producerAt i pc) i where
  announced _ := announced
  place := by
    rw [producers_producerAt]
    rcases parks with ⟨_, rfl⟩ | ⟨_, rfl⟩ <;> trivial
  covers _ := covers

/-- A step of the producer inside its ring that leaves both cursors. -/
theorem covers_setRing {ring : RingState α} (consumer : ring.consumer = (s.rings i).consumer)
    (head : ring.shared.head = (s.rings i).shared.head)
    (tail : ring.shared.tail = (s.rings i).shared.tail)
    (covers : (s.producerWaiters i).Covers (s.full size i = true) (s.OnWay i)) :
    ((s.setRing i ring).producerWaiters i).Covers ((s.setRing i ring).full size i = true)
      ((s.setRing i ring).OnWay i) := by
  have takes : (s.setRing i ring).takingFrom i = s.takingFrom i := by
    rw [takingFrom, rings_setRing, consumer]
    rfl
  rw [full_setRing s i head tail, OnWay, takes]
  exact covers

theorem announcing_sendWaited_ready (phase : WaitPhase) (value : α) :
    announcing (sendWaited phase true value) = false := by
  cases phase <;> rfl

theorem RoomOk.inTrySend (ok : RoomOk size s i) (reached : (system size).Reachable s)
    {call : MpscSendCall} {value : α} (pcEq : s.producers i = .inTrySend call value)
    (taken : s.producerTick size i = some after) : RoomOk size after i := by
  have announced (async : call = .sendAsyncSend) : (s.producerWaiters i).announced = true :=
    ok.announced (by rw [pcEq, async]; rfl)
  have covers (async : call = .sendAsyncSend)
      (saw : RingState.sawRingFull (s.rings i).producer.pc = true) :
      (s.producerWaiters i).Covers (s.full size i = true) (s.OnWay i) :=
    ok.covers (by rw [restsOnRing, pcEq, async]; exact saw)
  simp only [producerTick, pcEq] at taken
  split at taken
  · rename_i result values returned
    obtain ⟨inside, ticked, rfl⟩ := Option.map_eq_some_iff.mp taken
    obtain ⟨ring, moved, rfl⟩ := ringProducer_eq_some ticked
    have consumer := (RingState.closed_of_producerStep moved).2
    simp only [RingState.producerStep, RingState.producerTick, returned,
      Option.some.injEq] at moved
    subst moved
    rcases result with (value | value) | ⟨⟩
    · cases call with
      | trySend | send => exact roomOk_at rfl
      | sendAsyncSend =>
          exact roomOk_rests (announced rfl) (.inr ⟨value, rfl⟩)
            (covers_setRing consumer rfl rfl (covers rfl (by rw [returned]; rfl)))
    · cases call <;> exact roomOk_at rfl
    · exact roomOk_at rfl
  · obtain ⟨ring, moved, rfl⟩ := ringProducer_eq_some taken
    have consumer := (RingState.closed_of_producerStep moved).2
    have stays : (s.setRing i ring).producers i = .inTrySend call value := pcEq
    cases call with
    | trySend | send => exact roomOk_away (by rw [stays]; rfl)
    | sendAsyncSend =>
        refine ⟨fun _ => announced rfl, by rw [stays]; trivial, fun rests => ?_⟩
        rw [restsOnRing, stays, rings_setRing] at rests
        obtain ⟨head, tail, was⟩ :=
          RingState.sawRingFull_tick (ring_places reached i).2 moved rests
        refine covers_setRing consumer head tail ?_
        rcases was with saw | full
        · exact covers rfl saw
        · exact .inl full

theorem RoomOk.producerTick (ok : RoomOk size s i) (reached : (system size).Reachable s)
    (taken : s.producerTick size i = some after) : RoomOk size after i := by
  have ticked := taken
  unfold MpscState.producerTick at taken
  cases pcEq : s.producers i with
  | idle | gone => simp [pcEq] at taken
  | sendLoop value | bulkLoadShutdown items | fetchSub =>
      simp only [pcEq] at taken
      split at taken <;> cases taken <;> exact roomOk_at rfl
  | loadShutdown call value =>
      simp only [pcEq] at taken
      cases call with
      | sendAsyncSend =>
          have here := ok.place
          rw [pcEq] at here
          exact here.elim
      | trySend | send => split at taken <;> cases taken <;> exact roomOk_at rfl
  | asyncArm value =>
      simp only [pcEq, Option.some.injEq] at taken
      subst taken
      refine roomOk_goes ?_ trivial rfl
      rw [announced_setProducerWaiter]
      rfl
  | asyncLoop value =>
      simp only [pcEq] at taken
      split at taken <;> cases taken
      · exact roomOk_at rfl
      · exact roomOk_goes (ok.announced (by rw [pcEq]; rfl)) trivial rfl
  | enterTrySend call value =>
      simp only [pcEq] at taken
      obtain ⟨inside, moved, rfl⟩ := Option.map_eq_some_iff.mp taken
      obtain ⟨ring, started, rfl⟩ := ringProducer_eq_some moved
      cases call with
      | trySend | send => exact roomOk_at rfl
      | sendAsyncSend =>
          refine roomOk_goes (ok.announced (by rw [pcEq]; rfl)) trivial ?_
          simp only [RingState.producerStep] at started
          split at started <;> cases started
          rw [rings_setRing]
          exact RingState.sawRingFull_trySendStart .trySend value
  | inTrySend call value => exact ok.inTrySend reached pcEq ticked
  | inBulk =>
      simp only [pcEq] at taken
      split at taken
      · obtain ⟨inside, moved, rfl⟩ := Option.map_eq_some_iff.mp taken
        split <;> exact roomOk_at rfl
      · obtain ⟨ring, -, rfl⟩ := ringProducer_eq_some taken
        have stays : (s.setRing i ring).producers i = .inBulk := pcEq
        exact roomOk_away (by rw [stays]; rfl)
  | inClose =>
      simp only [pcEq] at taken
      split at taken
      · cases taken
        exact roomOk_at rfl
      · obtain ⟨ring, -, rfl⟩ := ringProducer_eq_some taken
        have stays : (s.setRing i ring).producers i = .inClose := pcEq
        exact roomOk_away (by rw [stays]; rfl)
  | enterBulk items | enterClose =>
      simp only [pcEq] at taken
      obtain ⟨inside, moved, rfl⟩ := Option.map_eq_some_iff.mp taken
      exact roomOk_at rfl
  | waitShutdown phase value =>
      simp only [pcEq] at taken
      split at taken <;> cases taken
      · exact roomOk_at (announcing_sendWaited_ready phase value)
      · cases phase with
        | entry => exact roomOk_at rfl
        | announced => exact roomOk_goes (ok.announced (by rw [pcEq]; rfl)) trivial rfl
  | waitHead phase value =>
      simp only [pcEq, Option.some.injEq] at taken
      subst taken
      cases phase with
      | entry => exact roomOk_at rfl
      | announced =>
          exact roomOk_goes (ok.announced (by rw [pcEq]; rfl)) rfl rfl
  | waitTail phase value head =>
      simp only [pcEq, Option.some.injEq] at taken
      subst taken
      cases full : RingState.isFull size.cap head (s.rings i).shared.tail.current with
      | false => exact roomOk_at (announcing_sendWaited_ready phase value)
      | true =>
          cases phase with
          | entry => exact roomOk_at rfl
          | announced =>
              have held := ok.place
              rw [pcEq] at held
              obtain rfl : head = (s.rings i).shared.head.current := held
              exact roomOk_rests (ok.announced (by rw [pcEq]; rfl)) (.inl ⟨value, rfl⟩)
                (.inl full)
  | waitAnnounce value =>
      simp only [pcEq, Option.some.injEq] at taken
      subst taken
      refine roomOk_goes ?_ trivial rfl
      rw [announced_setProducerWaiter]
      rfl
  | waitPark value =>
      simp only [pcEq] at taken
      split at taken <;> cases taken
      refine roomOk_goes ?_ trivial rfl
      rw [announced_setProducerWaiter]
      exact ok.announced (by rw [pcEq]; rfl)
  | asyncAwait value =>
      simp only [pcEq] at taken
      split at taken <;> cases taken
      exact roomOk_at rfl
  | wakeFanin call | bulkWakeFanin consumed items | waitLeave value | wakeLast
  | returned outcome =>
      simp only [pcEq, Option.some.injEq] at taken
      subst taken
      exact roomOk_at rfl

theorem RoomOk.producerStep (ok : RoomOk size s i) (reached : (system size).Reachable s)
    {action : MpscProducerAction α} (taken : s.producerStep size i action = some after) :
    RoomOk size after i := by
  cases action with
  | tick => exact ok.producerTick reached taken
  | trySendBulk items =>
      simp only [MpscState.producerStep] at taken
      split at taken
      · split at taken <;> cases taken <;> exact roomOk_at rfl
      · cases taken
  | spurious =>
      simp only [MpscState.producerStep] at taken
      split at taken
      · rename_i value pcEq
        cases taken
        exact roomOk_goes (ok.announced (by rw [pcEq]; rfl)) trivial rfl
      · cases taken
  | trySend value | send value | sendAsyncSend value | drop | spin =>
      simp only [MpscState.producerStep] at taken
      split at taken <;> cases taken
      exact roomOk_at rfl

/-! ### The steps of the others -/

/-- A party on its way stays there until the wake. -/
theorem ProducerHears.onWay (hears : ProducerHears i s after) (onWay : s.OnWay i) :
    after.OnWay i ∨ after.producerWaiters i = (s.producerWaiters i).wake := by
  rcases onWay with takes | signalling
  · exact (hears.took takes).imp_left .inl
  · exact (hears.shutdown.comes signalling).imp_left .inr

theorem RoomOk.stable (ok : RoomOk size s i) (hears : ProducerHears i s after) :
    RoomOk size after i := by
  have rests : after.restsOnRing i = s.restsOnRing i := by
    rw [restsOnRing, hears.ring, hears.producer]
    rfl
  refine ⟨fun inside => ?_, by rw [hears.producer, hears.head]; exact ok.place,
    fun rested => ?_⟩
  · rw [hears.producer] at inside
    exact hears.kept.announced.trans (ok.announced inside)
  · rw [rests] at rested
    refine (ok.covers rested).carried (ok.announced (announcing_of_rests rested)) hears.kept
      ⟨fun full => ?_, hears.onWay⟩
    rcases hears.tail with same | takes
    · exact .inl (by rw [MpscState.full, hears.head, same]; exact full)
    · exact .inr (.inl takes)

/-- A step of the consumer that stores no cursor, from a place that owes no wake. -/
theorem producerHears_quiet {action : MpscConsumerAction}
    (taken : s.consumerStep size action = some after) (quiet : s.takingFrom i = false)
    (head : (after.rings i).shared.head = (s.rings i).shared.head)
    (tail : (after.rings i).shared.tail = (s.rings i).shared.tail)
    (waiters : after.producerWaiters = s.producerWaiters) : ProducerHears i s after := by
  have frame := consumerStep_frame taken
  refine ⟨congrFun frame.producers i, ring_consumerStep taken i, .inl (congrFun waiters i),
    by rw [head], .inl (by rw [tail]), fun takes => ?_, ?_⟩
  · rw [quiet] at takes
    cases takes
  · rw [frame.shutdown, frame.signallers]
    exact .refl _ _ _ _

theorem not_takingFrom {call : MpscBatchCall} {total : Nat} {progress : Bool}
    (pcEq : s.consumer = .inDrain call idx total progress)
    (owes : RingState.owesWake (s.rings idx).consumer.pc = false) (i : Nat) :
    s.takingFrom i = false := by
  rw [takingFrom, pcEq, taking]
  by_cases same : idx = i
  · rw [← same, owes]
    exact Bool.and_false _
  · rw [beq_false_of_ne same, Bool.false_and]

/-- What a panicking callback does to the ring it is called for. -/
theorem producerHears_panic (taken : s.consumerStep size .panic = some after) :
    ProducerHears i s after := by
  have panics := taken
  simp only [consumerStep] at taken
  split at taken
  · rename_i call idx total progress pcEq
    obtain ⟨ring, panicked, rfl⟩ := ringConsumer_eq_some taken
    obtain ⟨start, head, tail, value, was, rfl⟩ := RingState.panic_eq_some size.cap panicked
    have quiet := not_takingFrom pcEq (by rw [was]; rfl) i
    by_cases same : i = idx
    · subst same
      exact producerHears_quiet panics quiet (by rw [rings_setRing]; rfl)
        (by rw [rings_setRing]; rfl) rfl
    · exact producerHears_quiet panics quiet (by rw [rings_setRing_of_ne _ _ same])
        (by rw [rings_setRing_of_ne _ _ same]) rfl
  · cases taken

/-- The ring being unwound is the one the batch receive is in. -/
theorem Stands.unwinds (stands : s.Stands)
    (unwinds : RingState.unwinding (s.rings idx).consumer.pc = true) :
    ∃ call total progress, s.consumer = .inDrain call idx total progress := by
  have inside : inRing s.consumer = some (idx, .draining) := by
    have draining : RingState.consumerActivity (s.rings idx).consumer.pc = .draining := by
      unfold RingState.unwinding at unwinds
      split at unwinds
      · rename_i pcEq
        rw [pcEq]
        rfl
      · rename_i pcEq
        rw [pcEq]
        rfl
      · cases unwinds
    have here := stands idx
    rw [draining] at here
    exact here.resolve_left fun rests => by rcases rests with at_ | at_ | at_ | at_ <;> cases at_
  cases pcEq : s.consumer with
  | inDrain call other total progress =>
      rw [pcEq] at inside
      cases inside
      exact ⟨call, total, progress, rfl⟩
  | _ =>
      rw [pcEq] at inside
      cases inside

/-- The unwinding consumer's next step: the guard stores the tail of its ring, or the
panic leaves the call. -/
theorem RoomOk.unwinds (ok : RoomOk size s i) {call : MpscBatchCall} {total : Nat}
    {progress : Bool} (pcEq : s.consumer = .inDrain call idx total progress)
    (unwinds : RingState.unwinding (s.rings idx).consumer.pc = true)
    (spares : s.SparesSleeper (.consumer .tick))
    (taken : s.consumerStep size .tick = some after) : RoomOk size after i := by
  have stepped := taken
  simp only [MpscState.consumerStep, MpscState.consumerTick, pcEq] at taken
  unfold RingState.unwinding at unwinds
  split at unwinds
  · rename_i start tail was
    have quiet := not_takingFrom pcEq (by rw [was]; rfl) i
    simp only [was] at taken
    obtain ⟨ring, ticked, rfl⟩ := ringConsumerTick_eq_some taken
    by_cases same : i = idx
    · subst same
      have noted : s.noteTick i = s := by simp [noteTick, was, loadsHead]
      rw [noted]
      simp only [RingState.consumerStep, RingState.consumerTick, was,
        Option.some.injEq] at ticked
      subst ticked
      simp only [SparesSleeper, pcEq, was] at spares
      refine ⟨ok.announced, ?_, fun rests => ?_⟩
      · rw [rings_setRing]
        exact ok.place
      · rw [restsOnRing, rings_setRing] at rests
        refine .inr ((spares rests).imp_right fun onWay =>
          .inr (onWay.resolve_left fun takes => ?_))
        rw [quiet] at takes
        cases takes
    · have elsewhere : ((s.noteTick idx).setRing idx ring).rings i = s.rings i := by
        rw [rings_noteTick_setRing, rings_setRing_of_ne _ _ same]
      exact ok.stable (producerHears_quiet stepped quiet (by rw [elsewhere]) (by rw [elsewhere])
        (waiters_noteTick s idx).1)
  · rename_i was
    have quiet := not_takingFrom pcEq (by rw [was]; rfl) i
    simp only [was] at taken
    obtain ⟨inside, ticked, rfl⟩ := Option.map_eq_some_iff.mp taken
    obtain ⟨ring, rfl, shared, -⟩ := ring_returned_shared was ticked
    have cursors : (((s.setRing idx ring).consumerAt (.returned .panicked)).rings i).shared =
        (s.rings i).shared := by
      by_cases same : i = idx
      · subst same
        rw [consumerAt_rings, rings_setRing, shared]
      · rw [consumerAt_rings, rings_setRing_of_ne _ _ same]
    exact ok.stable (producerHears_quiet stepped quiet (by rw [cursors]) (by rw [cursors]) rfl)
  · cases unwinds

theorem RoomOk.consumerStep (ok : RoomOk size s i) (reached : (system size).Reachable s)
    {action : MpscConsumerAction} (spares : s.SparesSleeper (.consumer action))
    (taken : s.consumerStep size action = some after) : RoomOk size after i := by
  by_cases returns : s.Returning
  · cases action with
    | panic => exact ok.stable (producerHears_panic taken)
    | _ => exact ok.stable (producerHears_consumer reached returns rfl taken i)
  · obtain ⟨idx, unwinds⟩ := not_forall.mp returns
    rw [Bool.not_eq_false] at unwinds
    obtain ⟨call, total, progress, pcEq⟩ := (stands reached).unwinds unwinds
    cases action with
    | tick => exact ok.unwinds pcEq unwinds spares taken
    | panic => exact ok.stable (producerHears_panic taken)
    | _ => simp [MpscState.consumerStep, pcEq] at taken

theorem roomOk (reached : (sparingSleepers size).Reachable s) :
    ∀ i < size.m, RoomOk size s i := by
  refine reached.invariant (fun s => ∀ i < size.m, RoomOk size s i) ?base ?preserved
  case base =>
    rintro _ rfl i -
    exact roomOk_away rfl
  case preserved =>
    rintro before action after sparing ok ⟨spares, taken⟩ i inside
    have reached := sparing.of_guarded
    cases action with
    | producer j action =>
        obtain ⟨-, taken⟩ := producer_of_step taken
        by_cases same : i = j
        · subst same
          exact (ok i inside).producerStep reached taken
        · exact (ok i inside).stable (producerHears_producer same taken)
    | consumer action => exact (ok i inside).consumerStep reached spares taken
    | signaller k action => exact (ok i inside).stable (producerHears_signaller inside taken)

/-- Unless a guard has stored a tail under a resting producer, nobody is left parked. -/
theorem not_leftParked (reached : (sparingSleepers size).Reachable s) (inside : i < size.m) :
    ¬ LeftParked size s i := by
  rintro ⟨⟨parked, noWake⟩, room, nobody⟩
  have rests : s.restsOnRing i = true := by
    rcases parked with ⟨value, pcEq⟩ | ⟨value, pcEq⟩ <;> rw [restsOnRing, pcEq] <;> rfl
  exact nobody (((roomOk reached i inside).covers rests).of_cause noWake (by simp [room]))

/-! ### What the unwind leaves -/

theorem Unwinds.reachable {before after : MpscState α} (reached : (system size).Reachable before)
    (unwinds : Unwinds size idx before after) : (system size).Reachable after := by
  obtain ⟨-, panicked, resumed, panics, meanwhile, unwound⟩ := unwinds
  have afterPanic : (system size).Reachable panicked := reached.next panics
  have resumes : (system size).Reachable resumed := by
    refine meanwhile.invariant (system size).Reachable afterPanic ?_
    rintro before action after reached ⟨-, taken⟩
    exact reached.next taken
  exact resumes.next unwound

/-- A producer that sleeps when the guard has stored the tail of its ring, with no wake
pending and no signal on the way, is left parked. -/
theorem leftParked_of_unwinds {before after : MpscState α}
    (reached : (withinCache size).Reachable before) (unwinds : Unwinds size idx before after)
    (asleep : ProducerAsleep after idx)
    (noSignal : ∀ k, signallingProducer idx (after.signallers k) = false) :
    LeftParked size after idx := by
  obtain ⟨room, panicked⟩ :=
    RingState.room_of_unwinds (ring_reachable reached idx) (unwinds.ring reached)
  refine { asleep with room := room, nobody := ?_ }
  obtain ⟨call, total, progress, pcEq⟩ :=
    (stands (unwinds.reachable reached.of_guarded)).unwinds (by rw [panicked]; rfl)
  rintro (takes | ⟨k, signalling⟩)
  · rw [takingFrom, panicked, pcEq] at takes
    cases (Bool.and_eq_true_iff.mp takes).2
  · rw [noSignal k] at signalling
    cases signalling

end MpscState

end ArbitroKit
