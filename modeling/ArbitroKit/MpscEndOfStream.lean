import ArbitroKit.MpscShutdown

/-!
# The end of the stream when the producers go away

Without a shutdown signal `Err(Shutdown)` means that every producer handle is
gone and every ring was found empty after that.  Nothing is then left to
deliver, and every later receive comes to the same answer in a bounded number of
its own steps.
-/

namespace ArbitroKit

open Coherent SlotLane Cyclic Transition

namespace RingState

variable {α : Type*} {cap : Cap} {s : RingState α}

/-- The places of a call that has found nothing so far, with the number of steps
left until it is out of the ring. -/
def emptyRank : ConsumerPc α → Option Nat
  | .recvRefresh .tryRecv _ => some 4
  | .recvClosed .tryRecv _ => some 3
  | .recvRecheck .tryRecv _ => some 2
  | .returned (.tryRecv (.error _)) => some 1
  | .drainLoad _ => some 2
  | .returned (.drain 0) => some 1
  | _ => none

theorem loadHead_current (shared : SharedOk cap s.shared) (ok : ConsumerOk s) :
    s.loadHead s.shared.head.latest = some (BitVec.ofNat 64 s.shared.lane.published,
      { s with consumer := { s.consumer with headView := s.shared.head.latest } }) := by
  obtain ⟨known, fresh, facts⟩ := ok
  rw [loadHead, Location.load_latest _ facts.follows.view_le, shared.head]
  rfl

/-- On an empty ring nobody writes to any more, `try_recv` starts by refreshing its
cached head. -/
theorem tryRecvStart_empty (shared : SharedOk cap s.shared) (ok : ConsumerOk s)
    (empty : s.shared.lane.published = s.shared.lane.received.length)
    (idle : s.consumer.pc = .idle) :
    (s.tryRecvStart .tryRecv).consumer.pc = .recvRefresh .tryRecv s.shared.tail.current := by
  obtain ⟨known, fresh, facts⟩ := ok
  have here := facts.here
  rw [idle] at here
  have known_le := facts.known_le
  have fresh_le := facts.follows.le
  have nothingKnown : known = s.shared.lane.released := by
    have := here.1
    have := here.2
    omega
  rw [tryRecvStart, if_pos]
  · rfl
  · rw [facts.cached, shared.tail, nothingKnown]

theorem emptyRank_ne_zero (pc : ConsumerPc α) : emptyRank pc ≠ some 0 := by
  unfold emptyRank
  split <;> simp

theorem returned_of_emptyRank {pc : ConsumerPc α} (last : emptyRank pc = some 1) :
    (∃ error, pc = .returned (.tryRecv (.error error))) ∨ pc = .returned (.drain 0) := by
  unfold emptyRank at last
  split at last <;> simp at last
  · exact .inl ⟨_, rfl⟩
  · exact .inr rfl

/-- Its next steps find nothing and lead out of the ring. -/
theorem emptyRank_tick (shared : SharedOk cap s.shared) (ok : ConsumerOk s)
    (empty : s.shared.lane.published = s.shared.lane.received.length) {rank : Nat}
    (nothing : emptyRank s.consumer.pc = some (rank + 2)) :
    ∃ after, s.consumerTick cap s.shared.head.latest = some after ∧
      after.shared = s.shared ∧
        ∃ next ≤ rank + 1, 0 < next ∧ emptyRank after.consumer.pc = some next ∧
          consumerActivity after.consumer.pc = consumerActivity s.consumer.pc := by
  have loaded := loadHead_current shared ok
  have here := ok.choose_spec.choose_spec.here
  unfold consumerTick
  cases pcEq : s.consumer.pc with
  | recvRefresh call tail =>
      rw [pcEq] at nothing here
      cases call with
      | recv => cases nothing
      | tryRecv =>
          obtain ⟨allReleased, -, rfl⟩ := here
          cases nothing
          have same : BitVec.ofNat 64 s.shared.lane.published =
              BitVec.ofNat 64 s.shared.lane.released := by
            rw [empty, allReleased]
          refine ⟨_, by
            simp only [loaded, Option.map_some]
            exact congrArg some (if_pos same), ?_⟩
          exact ⟨rfl, 3, by omega, by omega, rfl, rfl⟩
  | recvClosed call tail =>
      rw [pcEq] at nothing
      cases call with
      | recv => cases nothing
      | tryRecv =>
          cases nothing
          by_cases closed : s.shared.closed = true
          · exact ⟨_, if_pos closed, rfl, 2, by omega, by omega, rfl, rfl⟩
          · exact ⟨_, if_neg closed, rfl, 1, by omega, by omega, rfl, rfl⟩
  | recvRecheck call tail =>
      rw [pcEq] at nothing here
      cases call with
      | recv => cases nothing
      | tryRecv =>
          obtain ⟨allReleased, -, rfl⟩ := here
          cases nothing
          have same : BitVec.ofNat 64 s.shared.lane.published =
              BitVec.ofNat 64 s.shared.lane.released := by
            rw [empty, allReleased]
          refine ⟨_, by
            simp only [loaded, Option.map_some]
            exact congrArg some (if_pos same), ?_⟩
          exact ⟨rfl, 1, by omega, by omega, rfl, rfl⟩
  | drainLoad start =>
      rw [pcEq] at nothing here
      obtain ⟨allReleased, -, rfl⟩ := here
      cases nothing
      have same : BitVec.ofNat 64 s.shared.lane.released =
          BitVec.ofNat 64 s.shared.lane.published := by
        rw [empty, allReleased]
      refine ⟨_, by
            simp only [loaded, Option.map_some]
            exact congrArg some (if_pos same), ?_⟩
      exact ⟨rfl, 1, by omega, by omega, rfl, rfl⟩
  | returned outcome =>
      rw [pcEq] at nothing
      cases outcome with
      | tryRecv result => cases result <;> simp [emptyRank] at nothing
      | drain consumed => cases consumed <;> simp [emptyRank] at nothing
      | recv result | panicked => cases nothing
  | _ =>
      rw [pcEq] at nothing
      cases nothing

end RingState

namespace MpscState

variable {α : Type*} {size : MpscSize} {s : MpscState α}

/-- The action neither signals shutdown nor is a callback's panic. -/
def undisturbed : MpscAction α → Bool
  | .signaller _ .signal => false
  | .consumer .panic => false
  | _ => true

/-- The runs without shutdown and without panics. -/
def streaming (size : MpscSize) : System (MpscState α) (MpscAction α) :=
  (system size).guarded fun _ action => undisturbed action = true

theorem within_of_undisturbed {action : MpscAction α} (calm : undisturbed action = true) :
    s.panicsWithinCache action = true := by
  cases action with
  | producer i action | signaller k action => rfl
  | consumer action => cases action <;> first | rfl | cases calm

theorem withinCache_of_streaming (reached : (streaming size).Reachable s) :
    (withinCache size).Reachable s :=
  reached.guarded_mono fun _ _ _ _ calm => within_of_undisturbed calm

theorem shutdown_step {after : MpscState α} {action : MpscAction α}
    (calm : undisturbed action = true) (taken : s.step size action = some after) :
    after.shutdown = s.shutdown := by
  cases action with
  | producer i action => exact (producerStep_frame (producer_of_step taken).2).shutdown
  | consumer action => exact (consumerStep_frame taken).shutdown
  | signaller k action =>
      cases action with
      | signal => cases calm
      | tick =>
          simp only [step, signallerStep] at taken
          split at taken
          · cases taken
          · cases taken
            rfl
          · split at taken <;> cases taken <;> rfl

theorem not_shutdown (reached : (streaming size).Reachable s) : s.shutdown = false := by
  refine reached.invariant (fun s => s.shutdown = false) ?_ ?_
  · rintro _ rfl
    rfl
  · rintro before action after - same ⟨calm, taken⟩
    rw [shutdown_step calm taken]
    exact same

/-- The handle is past the point where its drop gives up its place: its ring is
closed and it can send no more. -/
def Dropped (pc : MpscProducerPc α) : Prop := countedLive pc = false

/-- Every handle is dropped and every value accepted from it has been delivered,
once and in order. -/
structure Complete (size : MpscSize) (s : MpscState α) : Prop where
  dropped : ∀ i < size.m, Dropped (s.producers i)
  delivered : ∀ i < size.m, (s.rings i).consumer.delivered = (s.rings i).producer.accepted

theorem exhausted_of_ended (reached : (streaming size).Reachable s) {call : MpscBlocking}
    (ended : s.consumer = .returned (endOfStream call)) : s.Exhausted size.m := by
  have here := (consumerInStep (withinCache_of_streaming reached)).here
  have running := not_shutdown reached
  rw [ended] at here
  have seen : s.EndSeen size := by
    cases call <;> exact here
  rcases seen.2 with signalled | exhausted
  · rw [running] at signalled
    cases signalled
  · exact exhausted

/-- The rings' producer halves are gone as well, so nothing is under way. -/
theorem sent_eq_accepted (reached : (withinCache size).Reachable s) {i : Nat}
    (dropped : Dropped (s.producers i)) :
    (s.rings i).shared.lane.sent = (s.rings i).producer.accepted := by
  have activity := ((producersOk reached).inStep i).activity
  have gone : (s.rings i).producer.pc = .gone := by
    unfold Dropped at dropped
    cases pcEq : s.producers i with
    | wakeLast | gone =>
        rw [pcEq] at activity
        cases innerEq : (s.rings i).producer.pc with
        | gone => rfl
        | sendRefresh call _ _ | sendClosed call _ | sendWrite call _ _
        | sendPublish call _ _ | sendWake call _ =>
            rw [innerEq] at activity
            cases call <;> cases activity
        | returned outcome =>
            rw [innerEq] at activity
            cases outcome <;> cases activity
        | _ =>
            rw [innerEq] at activity
            cases activity
    | _ => simp [pcEq, countedLive] at dropped
  have sent := (ring_ok reached i).2.1.sent_eq
  rw [gone] at sent
  simpa only [RingState.unreported, List.append_nil] using sent

theorem complete_of_ended (reached : (streaming size).Reachable s) {call : MpscBlocking}
    (ended : s.consumer = .returned (endOfStream call)) : Complete size s := by
  have reachedWithin := withinCache_of_streaming reached
  obtain ⟨live, empty⟩ := exhausted_of_ended reached ended
  have dropped : ∀ i < size.m, Dropped (s.producers i) := fun i inside =>
    uncounted_of_live (producersOk reachedWithin).live live inside
  refine ⟨dropped, fun i inside => ?_⟩
  have idle : RingState.consumerActivity (s.rings i).consumer.pc = .idle := by
    have activity := (consumerInStep reachedWithin).activity i
    rwa [ended] at activity
  rw [delivered_eq_received reachedWithin idle, ← sent_eq_accepted reachedWithin (dropped i inside)]
  refine (initialPart_sent reachedWithin i).1.eq_of_length ?_
  rw [(ring_ok reachedWithin i).1.sound.length_sent, empty i inside]

/-! ### After the end -/

/-- The blocking receive that is running. -/
def inFlight : MpscConsumerPc α → Option MpscBlocking
  | .enterTryRecv .recv _ => some .recv
  | .inTryRecv .recv _ => some .recv
  | .wakeProducer .recv _ _ => some .recv
  | .enterDrain .recvBatch _ _ _ => some .recvBatch
  | .inDrain .recvBatch _ _ _ => some .recvBatch
  | .batchWakeProducer .recvBatch _ _ => some .recvBatch
  | .finishedShutdown call _ => some call
  | .finishedLive call _ => some call
  | .workHead call _ _ _ => some call
  | .workTail call _ _ _ _ => some call
  | .waitAnnounce call => some call
  | .waitPark call => some call
  | .waitLeave call => some call
  | _ => none

/-- Steps left in ring `idx` and the rings after it. -/
def scanRank (size : MpscSize) (idx inner : Nat) : Nat :=
  2 * size.m + 3 + 6 * (size.m - (idx + 1)) + inner

/-- The places a consumer can be at once the rings are exhausted, with the number
of steps left in the running call. -/
def endRank (size : MpscSize) (s : MpscState α) : MpscConsumerPc α → Option Nat
  | .idle => some 0
  | .gone => some 0
  | .enterClose _ => some 0
  | .inClose _ => some 0
  | .returned (.tryRecv none) => some 0
  | .returned (.tryRecvBatch 0) => some 0
  | .returned (.recv none) => some 0
  | .returned (.recvBatch none) => some 0
  | .enterTryRecv _ idx => some (scanRank size idx 5)
  | .inTryRecv _ idx =>
      (RingState.emptyRank (s.rings idx).consumer.pc).map (scanRank size idx)
  | .enterDrain _ idx 0 false => some (scanRank size idx 5)
  | .inDrain _ idx 0 false =>
      (RingState.emptyRank (s.rings idx).consumer.pc).map (scanRank size idx)
  | .finishedShutdown _ .check => some (2 * size.m + 3)
  | .finishedLive _ .check => some (2 * size.m + 2)
  | .workHead _ .check true idx => some (2 * (size.m - idx) + 1)
  | .workTail _ .check true idx head =>
      if head = (s.rings idx).shared.tail.current then some (2 * (size.m - (idx + 1)) + 2)
      else none
  | _ => none

/-- The stream is over for the consumer. -/
structure Over (size : MpscSize) (s : MpscState α) : Prop where
  exhausted : s.Exhausted size.m
  ranked : (endRank size s s.consumer).isSome

/-- The running receive is still the same or has come to its end. -/
def GoesOn (before after : MpscConsumerPc α) : Prop :=
  ∀ call, inFlight before = some call →
    inFlight after = some call ∨ after = .returned (endOfStream call)

theorem rank_scanAt (size : MpscSize) (s : MpscState α) (call : MpscRecvCall) (idx : Nat) :
    ∃ rank ≤ 2 * size.m + 3 + 6 * (size.m - idx),
      endRank size s (scanAt size call idx) = some rank ∧
        (call = .recv → inFlight (scanAt size call idx : MpscConsumerPc α) = some .recv) := by
  unfold scanAt
  split
  · exact ⟨_, by unfold scanRank; omega, rfl, by rintro rfl; rfl⟩
  · cases call with
    | tryRecv => exact ⟨0, Nat.zero_le _, rfl, nofun⟩
    | recv => exact ⟨2 * size.m + 3, Nat.le_add_right _ _, rfl, fun _ => rfl⟩

theorem rank_passAt (size : MpscSize) (s : MpscState α) (call : MpscBatchCall) (idx : Nat) :
    ∃ rank ≤ 2 * size.m + 3 + 6 * (size.m - idx),
      endRank size s (passAt size call idx 0 false) = some rank ∧
        (call = .recvBatch →
          inFlight (passAt size call idx 0 false : MpscConsumerPc α) = some .recvBatch) := by
  unfold passAt
  split
  · exact ⟨_, by unfold scanRank; omega, rfl, by rintro rfl; rfl⟩
  · cases call with
    | tryRecvBatch => exact ⟨0, Nat.zero_le _, rfl, nofun⟩
    | recvBatch => exact ⟨2 * size.m + 3, Nat.le_add_right _ _, rfl, fun _ => rfl⟩

theorem rank_workAt (size : MpscSize) (s : MpscState α) (call : MpscBlocking) (idx : Nat) :
    ∃ rank ≤ 2 * (size.m - idx) + 1,
      endRank size s (workAt size call .check true idx) = some rank ∧
        (inFlight (workAt size call .check true idx : MpscConsumerPc α) = some call ∨
          (workAt size call .check true idx : MpscConsumerPc α) =
            .returned (endOfStream call)) := by
  unfold workAt
  split
  · exact ⟨_, le_rfl, rfl, .inl rfl⟩
  · refine ⟨0, Nat.zero_le _, ?_, .inr rfl⟩
    cases call <;> rfl

theorem Exhausted.congr {after : MpscState α} {n : Nat} (exhausted : s.Exhausted n)
    (live : after.liveProducers = s.liveProducers)
    (lane : ∀ j, (after.rings j).shared.lane = (s.rings j).shared.lane) :
    after.Exhausted n := by
  refine ⟨live.trans exhausted.1, fun j before => ?_⟩
  rw [lane]
  exact exhausted.2 j before

theorem lane_setRing {idx : Nat} {ring : RingState α}
    (lane : ring.shared.lane = (s.rings idx).shared.lane) (j : Nat) :
    ((s.setRing idx ring).rings j).shared.lane = (s.rings j).shared.lane := by
  by_cases same : j = idx
  · rw [same, rings_setRing, lane]
  · rw [rings_setRing_of_ne _ _ same]

theorem live_noteTick (s : MpscState α) (i : Nat) :
    (s.noteTick i).liveProducers = s.liveProducers := by
  unfold noteTick
  split <;> rfl

/-- A step inside an exhausted ring. -/
theorem ring_over_tick (reached : (withinCache size).Reachable s) {idx : Nat}
    (exhausted : s.Exhausted size.m) (inside : idx < size.m) {rank : Nat}
    (nothing : RingState.emptyRank (s.rings idx).consumer.pc = some (rank + 2)) :
    ∃ ring, s.ringConsumerTick size idx = some ((s.noteTick idx).setRing idx ring) ∧
      ((s.noteTick idx).setRing idx ring).Exhausted size.m ∧
        ∃ next ≤ rank + 1, RingState.emptyRank ring.consumer.pc = some next := by
  obtain ⟨shared, -, consumer⟩ := ring_ok reached idx
  obtain ⟨ring, ticked, sharedEq, next, le, -, nextEq, -⟩ :=
    RingState.emptyRank_tick shared consumer (exhausted.2 idx inside) nothing
  refine ⟨ring, ?_, ?_, next, le, nextEq⟩
  · unfold ringConsumerTick ringConsumer
    rw [noteTick_rings]
    exact Option.map_eq_some_iff.mpr ⟨ring, ticked, rfl⟩
  · refine exhausted.congr (live_noteTick s idx) fun j => ?_
    by_cases same : j = idx
    · rw [same, rings_setRing, sharedEq]
    · rw [rings_setRing_of_ne _ _ same, noteTick_rings]

/-- The step out of a ring's returned call. -/
theorem ring_over_return (size : MpscSize) {idx : Nat} {outcome : ConsumerOutcome α}
    (returned : (s.rings idx).consumer.pc = .returned outcome) :
    ∃ ring, s.ringConsumerTick size idx = some (s.setRing idx ring) ∧
      ring.shared.lane = (s.rings idx).shared.lane := by
  have quiet : s.noteTick idx = s := by
    simp [noteTick, returned, loadsHead]
  refine ⟨((s.rings idx).deliver (RingState.handedOut outcome)).consumerAt .idle, ?_, rfl⟩
  unfold ringConsumerTick ringConsumer
  rw [quiet]
  simp only [RingState.consumerStep, RingState.consumerTick, returned, Option.map_some]

theorem over_lands {after : MpscState α} {before : MpscConsumerPc α} {rank : Nat}
    (next : Nat) (exhausted : after.Exhausted size.m) (le : next ≤ rank)
    (ranked : endRank size after after.consumer = some next)
    (goesOn : GoesOn before after.consumer) :
    Over size after ∧ (∃ next ≤ rank, endRank size after after.consumer = some next) ∧
      GoesOn before after.consumer :=
  ⟨⟨exhausted, by rw [ranked]; rfl⟩, ⟨next, le, ranked⟩, goesOn⟩

/-- `try_recv` and `drain` of an exhausted ring, from their first step. -/
theorem ring_over_start (reached : (withinCache size).Reachable s) {idx : Nat}
    (exhausted : s.Exhausted size.m) (inside : idx < size.m)
    (idle : RingState.consumerActivity (s.rings idx).consumer.pc = .idle)
    {action : ConsumerAction} (starts : action = .tryRecv ∨ action = .drain) :
    ∃ ring, s.ringConsumer size idx action = some (s.setRing idx ring) ∧
      ring.shared.lane = (s.rings idx).shared.lane ∧
        ∃ next ≤ 4, RingState.emptyRank ring.consumer.pc = some next := by
  obtain ⟨shared, -, consumer⟩ := ring_ok reached idx
  have pcEq := pc_of_idle idle
  unfold ringConsumer
  rcases starts with rfl | rfl
  · have refresh := RingState.tryRecvStart_empty shared consumer
      (exhausted.2 idx inside) pcEq
    refine ⟨(s.rings idx).tryRecvStart .tryRecv, ?_, ?_, 4, le_rfl, by rw [refresh]; rfl⟩
    · simp only [RingState.consumerStep, pcEq, Option.map_some]
    · unfold RingState.tryRecvStart
      dsimp only
      split <;> rfl
  · refine ⟨(s.rings idx).consumerAt (.drainLoad (s.rings idx).shared.tail.current), ?_, rfl,
      2, by omega, rfl⟩
    simp only [RingState.consumerStep, pcEq, Option.map_some]

theorem zero_or_one_or_more (n : Nat) : n = 0 ∨ n = 1 ∨ ∃ less, n = less + 2 := by
  rcases Nat.lt_or_ge n 2 with small | large
  · omega
  · exact .inr (.inr ⟨n - 2, by omega⟩)

/-- A step of a call that is running when the stream is over: it can be taken, the
stream stays over, and the call comes closer to its end. -/
theorem over_tick (reached : (streaming size).Reachable s) (ending : Over size s) {rank : Nat}
    (running : endRank size s s.consumer = some (rank + 1)) :
    ∃ after, s.consumerTick size = some after ∧ Over size after ∧
      (∃ next ≤ rank, endRank size after after.consumer = some next) ∧
        GoesOn s.consumer after.consumer := by
  have reachedWithin := withinCache_of_streaming reached
  have activity := (consumerInStep reachedWithin).activity
  have here := (consumerInStep reachedWithin).here
  have exhausted := ending.exhausted
  unfold consumerTick
  cases pcEq : s.consumer with
  | enterTryRecv call idx =>
      simp only [pcEq, endRank, Option.some.injEq, scanRank] at running here activity ⊢
      obtain ⟨ring, entered, lane, next, le, nextEq⟩ := ring_over_start reachedWithin exhausted
        here.1 (activity idx) (.inl rfl)
      refine ⟨(s.setRing idx ring).consumerAt (.inTryRecv call idx), by rw [entered]; rfl, ?_⟩
      refine over_lands (scanRank size idx next) (exhausted.congr rfl (lane_setRing lane))
        (by unfold scanRank; omega) ?_ ?_
      · simp only [consumerAt, endRank, rings_setRing, nextEq, Option.map_some]
      · intro blocking inCall
        cases call <;> exact .inl inCall
  | enterDrain call idx total progress =>
      rw [pcEq] at running
      obtain ⟨rfl, rfl⟩ : total = 0 ∧ progress = false := by
        cases total <;> cases progress <;> simp [endRank] at running ⊢
      simp only [pcEq, endRank, Option.some.injEq, scanRank] at running here activity ⊢
      obtain ⟨ring, entered, lane, next, le, nextEq⟩ := ring_over_start reachedWithin exhausted
        here.1 (activity idx) (.inr rfl)
      refine ⟨(s.setRing idx ring).consumerAt (.inDrain call idx 0 false),
        by rw [entered]; rfl, ?_⟩
      refine over_lands (scanRank size idx next) (exhausted.congr rfl (lane_setRing lane))
        (by unfold scanRank; omega) ?_ ?_
      · simp only [consumerAt, endRank, rings_setRing, nextEq, Option.map_some]
      · intro blocking inCall
        cases call <;> exact .inl inCall
  | inTryRecv call idx =>
      simp only [pcEq, endRank] at running here activity ⊢
      obtain ⟨inner, innerEq, innerRank⟩ := Option.map_eq_some_iff.mp running
      have receiving := activity idx
      simp only [ReceiveActivityAt, if_pos] at receiving
      obtain rfl | rfl | ⟨inner, rfl⟩ : inner = 0 ∨ inner = 1 ∨ ∃ less, inner = less + 2 :=
        zero_or_one_or_more inner
      · exact absurd innerEq (RingState.emptyRank_ne_zero _)
      · obtain ⟨error, returned⟩ : ∃ error, (s.rings idx).consumer.pc =
            .returned (.tryRecv (.error error)) := by
          rcases RingState.returned_of_emptyRank innerEq with returned | drained
          · exact returned
          · rw [drained] at receiving
            cases receiving
        obtain ⟨ring, left, lane⟩ := ring_over_return size returned
        obtain ⟨next, le, nextEq, continues⟩ :=
          rank_scanAt size (s.setRing idx ring) call (idx + 1)
        refine ⟨(s.setRing idx ring).consumerAt (scanAt size call (idx + 1)), ?_, ?_⟩
        · simp only [returned, left, Option.map_some]
        · refine over_lands next (exhausted.congr rfl (lane_setRing lane))
            (by unfold scanRank at innerRank; omega) nextEq ?_
          intro blocking inCall
          cases call with
          | tryRecv => cases inCall
          | recv =>
              cases inCall
              exact .inl (continues rfl)
      · obtain ⟨ring, ticked, exhaustedAfter, next, le, nextEq⟩ :=
          ring_over_tick reachedWithin exhausted here.1 innerEq
        refine ⟨(s.noteTick idx).setRing idx ring, ?_, ?_⟩
        · split
          · rename_i result returned
            rw [returned] at innerEq
            cases result <;> simp [RingState.emptyRank] at innerEq
          · exact ticked
        · refine over_lands (scanRank size idx next) exhaustedAfter
            (by unfold scanRank at innerRank ⊢; omega) ?_ ?_
          · simp only [setRing, consumer_noteTick, pcEq, endRank, Function.update_self,
              nextEq, Option.map_some]
          · intro blocking inCall
            refine .inl ?_
            simpa only [setRing, consumer_noteTick, pcEq] using inCall
  | inDrain call idx total progress =>
      rw [pcEq] at running
      obtain ⟨rfl, rfl⟩ : total = 0 ∧ progress = false := by
        cases total <;> cases progress <;> simp [endRank] at running ⊢
      simp only [pcEq, endRank] at running here activity ⊢
      obtain ⟨inner, innerEq, innerRank⟩ := Option.map_eq_some_iff.mp running
      have draining := activity idx
      simp only [ReceiveActivityAt, if_pos] at draining
      obtain rfl | rfl | ⟨inner, rfl⟩ : inner = 0 ∨ inner = 1 ∨ ∃ less, inner = less + 2 :=
        zero_or_one_or_more inner
      · exact absurd innerEq (RingState.emptyRank_ne_zero _)
      · have returned : (s.rings idx).consumer.pc = .returned (.drain 0) := by
          rcases RingState.returned_of_emptyRank innerEq with ⟨error, received⟩ | returned
          · rw [received] at draining
            cases draining
          · exact returned
        obtain ⟨ring, left, lane⟩ := ring_over_return size returned
        obtain ⟨next, le, nextEq, continues⟩ :=
          rank_passAt size (s.setRing idx ring) call (idx + 1)
        refine ⟨(s.setRing idx ring).consumerAt (passAt size call (idx + 1) 0 false), ?_, ?_⟩
        · simp only [returned, left, Option.map_some]
          rfl
        · refine over_lands next (exhausted.congr rfl (lane_setRing lane))
            (by unfold scanRank at innerRank; omega) nextEq ?_
          intro blocking inCall
          cases call with
          | tryRecvBatch => cases inCall
          | recvBatch =>
              cases inCall
              exact .inl (continues rfl)
      · obtain ⟨ring, ticked, exhaustedAfter, next, le, nextEq⟩ :=
          ring_over_tick reachedWithin exhausted here.1 innerEq
        refine ⟨(s.noteTick idx).setRing idx ring, ?_, ?_⟩
        · split
          · rename_i consumed returned
            rw [returned] at innerEq
            cases consumed <;> simp [RingState.emptyRank] at innerEq
          · rename_i returned
            rw [returned] at innerEq
            cases innerEq
          · exact ticked
        · refine over_lands (scanRank size idx next) exhaustedAfter
            (by unfold scanRank at innerRank ⊢; omega) ?_ ?_
          · simp only [setRing, consumer_noteTick, pcEq, endRank, Function.update_self,
              nextEq, Option.map_some]
          · intro blocking inCall
            refine .inl ?_
            simpa only [setRing, consumer_noteTick, pcEq] using inCall
  | finishedShutdown call asker =>
      rw [pcEq] at running
      cases asker with
      | predicate phase => cases running
      | check =>
          have calm := not_shutdown reached
          cases running
          refine ⟨s.consumerAt (.finishedLive call .check), by simp [calm], ?_⟩
          exact over_lands _ exhausted le_rfl rfl fun _ inCall => .inl inCall
  | finishedLive call asker =>
      rw [pcEq] at running
      cases asker with
      | predicate phase => cases running
      | check =>
          cases running
          obtain ⟨next, le, nextEq, continues⟩ := rank_workAt size s call 0
          refine ⟨s.consumerAt (workAt size call .check true 0),
            by simp [exhausted.1], ?_⟩
          refine over_lands next exhausted (by omega) nextEq fun blocking inCall => ?_
          cases inCall
          exact continues
  | workHead call asker inFinished idx =>
      rw [pcEq] at running here
      cases asker with
      | predicate phase => cases running
      | check =>
          cases inFinished with
          | false => cases running
          | true =>
              cases running
              have empty : (s.rings idx).shared.head.current =
                  (s.rings idx).shared.tail.current := by
                obtain ⟨shared, -, ⟨known, fresh, facts⟩⟩ := ring_ok reachedWithin idx
                have idle := pc_of_idle (by simpa only [pcEq, ReceiveActivityAt] using activity idx)
                have ringHere := facts.here
                rw [idle] at ringHere
                rw [shared.head, shared.tail, exhausted.2 idx here.1, ringHere.1]
              refine ⟨_, rfl, ?_⟩
              have inside := here.1
              refine over_lands (2 * (size.m - (idx + 1)) + 2) exhausted (by omega) ?_
                fun blocking inCall => .inl inCall
              exact if_pos empty
  | workTail call asker inFinished idx head =>
      rw [pcEq] at running here
      cases asker with
      | predicate phase => cases running
      | check =>
          cases inFinished with
          | false => cases running
          | true =>
              simp only [endRank, Option.ite_none_right_eq_some, Option.some.injEq] at running
              obtain ⟨empty, rankEq⟩ := running
              obtain ⟨next, le, nextEq, continues⟩ := rank_workAt size s call (idx + 1)
              refine ⟨s.consumerAt (workAt size call .check true (idx + 1)), if_pos empty, ?_⟩
              have inside := here.1
              refine over_lands next exhausted (by omega) nextEq fun blocking inCall => ?_
              cases inCall
              exact continues
  | returned outcome =>
      rw [pcEq] at running
      cases outcome with
      | tryRecv result | recv result | recvBatch result => cases result <;> cases running
      | tryRecvBatch total => cases total <;> cases running
      | panicked => cases running
  | idle | wakeProducer call idx value | batchWakeProducer call idx total | waitAnnounce call
  | waitPark call | waitLeave call | enterClose idx | inClose idx | gone =>
      rw [pcEq] at running
      cases running

theorem Over.congr {after : MpscState α} (ending : Over size s)
    (rings : after.rings = s.rings) (live : after.liveProducers = s.liveProducers)
    (consumer : after.consumer = s.consumer) : Over size after := by
  have ranked := ending.ranked
  refine ⟨ending.exhausted.congr live fun j => by rw [rings], ?_⟩
  unfold endRank at ranked ⊢
  rw [rings, consumer]
  exact ranked

/-- Dropping a ring's consumer half leaves its lane alone. -/
theorem lane_closing {ring : RingState α} {idx : Nat}
    (closing : RingState.consumerActivity (s.rings idx).consumer.pc = .closing)
    (taken : (s.rings idx).consumerTick size.cap (s.rings idx).shared.head.latest =
      some ring) : ring.shared.lane = (s.rings idx).shared.lane := by
  unfold RingState.consumerTick at taken
  cases pcEq : (s.rings idx).consumer.pc with
  | dropWakeFull | dropWakeEmpty =>
      simp only [pcEq, Option.some.injEq] at taken
      subst taken
      rfl
  | recvRefresh call _ | recvClosed call _ | recvRecheck call _ | recvRead call _
  | recvRelease call _ _ | recvWake call _ =>
      rw [pcEq] at closing
      cases call <;> cases closing
  | returned outcome =>
      rw [pcEq] at closing
      cases outcome <;> cases closing
  | _ =>
      rw [pcEq] at closing
      cases closing

/-- Between two calls, and while the handle goes away, the stream stays over. -/
theorem over_rest (reached : (streaming size).Reachable s) (ending : Over size s)
    (resting : endRank size s s.consumer = some 0) {after : MpscState α}
    (taken : s.consumerTick size = some after) : Over size after := by
  have reachedWithin := withinCache_of_streaming reached
  have activity := (consumerInStep reachedWithin).activity
  have here := (consumerInStep reachedWithin).here
  have exhausted := ending.exhausted
  unfold consumerTick at taken
  cases pcEq : s.consumer with
  | idle | gone => simp [pcEq] at taken
  | returned outcome =>
      simp only [pcEq, Option.some.injEq] at taken
      subst taken
      exact ⟨exhausted, rfl⟩
  | enterClose idx =>
      simp only [pcEq] at taken
      split at taken
      · obtain ⟨moved, started, rfl⟩ := Option.map_eq_some_iff.mp taken
        obtain ⟨ring, dropped, rfl⟩ := ringConsumer_eq_some started
        refine ⟨exhausted.congr rfl (lane_setRing ?_), rfl⟩
        simp only [RingState.consumerStep] at dropped
        split at dropped <;> cases dropped
        rfl
      · cases taken
        exact ⟨exhausted, rfl⟩
  | inClose idx =>
      simp only [pcEq] at taken activity
      split at taken
      · cases taken
        exact ⟨exhausted, rfl⟩
      · rename_i notGone
        have closing := activity idx
        simp only [ReceiveActivityAt, if_pos] at closing
        obtain ⟨ring, ticked, rfl⟩ := ringConsumerTick_eq_some taken
        have closing : RingState.consumerActivity (s.rings idx).consumer.pc = .closing := by
          rcases closing with closing | gone
          · exact closing
          · cases innerEq : (s.rings idx).consumer.pc with
            | gone => exact absurd innerEq notGone
            | recvRefresh call _ | recvClosed call _ | recvRecheck call _ | recvRead call _
            | recvRelease call _ _ | recvWake call _ =>
                rw [innerEq] at gone
                cases call <;> cases gone
            | returned outcome =>
                rw [innerEq] at gone
                cases outcome <;> cases gone
            | _ =>
                rw [innerEq] at gone
                cases gone
        refine ⟨exhausted.congr (live_noteTick s idx) fun j => ?_, ?_⟩
        · rw [lane_setRing (by rw [noteTick_rings]; exact lane_closing closing ticked),
            noteTick_rings]
        · simp only [setRing, consumer_noteTick, pcEq]
          rfl
  | workTail call asker inFinished idx head =>
      rw [pcEq] at resting
      cases asker <;> cases inFinished <;> simp [endRank] at resting
  | enterTryRecv call idx =>
      simp only [pcEq, endRank, scanRank, Option.some.injEq] at resting
      omega
  | inTryRecv call idx =>
      simp only [pcEq, endRank] at resting
      obtain ⟨inner, -, none⟩ := Option.map_eq_some_iff.mp resting
      unfold scanRank at none
      omega
  | enterDrain call idx total progress =>
      rw [pcEq] at resting
      cases total <;> cases progress <;> simp [endRank, scanRank] at resting
  | inDrain call idx total progress =>
      rw [pcEq] at resting
      cases total <;> cases progress <;> simp [endRank, scanRank] at resting
  | finishedShutdown call asker | finishedLive call asker =>
      rw [pcEq] at resting
      cases asker <;> simp [endRank] at resting
  | workHead call asker inFinished idx =>
      rw [pcEq] at resting
      cases asker <;> cases inFinished <;> simp [endRank] at resting
  | wakeProducer call idx value | batchWakeProducer call idx total | waitAnnounce call
  | waitPark call | waitLeave call =>
      rw [pcEq] at resting
      cases resting

/-- A receive started on exhausted rings. -/
theorem Over.starts (exhausted : s.Exhausted size.m) {pc : MpscConsumerPc α}
    (started : (∃ call, pc = scanAt size call 0) ∨ ∃ call, pc = passAt size call 0 0 false) :
    Over size (s.consumerAt pc) := by
  refine ⟨exhausted, Option.isSome_iff_exists.mpr ?_⟩
  rcases started with ⟨call, rfl⟩ | ⟨call, rfl⟩
  · obtain ⟨rank, -, ranked, -⟩ := rank_scanAt size (s.consumerAt (scanAt size call 0)) call 0
    exact ⟨rank, ranked⟩
  · obtain ⟨rank, -, ranked, -⟩ :=
      rank_passAt size (s.consumerAt (passAt size call 0 0 false)) call 0
    exact ⟨rank, ranked⟩

/-- Every step leaves the stream over. -/
theorem over_step (reached : (streaming size).Reachable s) (ending : Over size s)
    {action : MpscAction α} {after : MpscState α} (calm : undisturbed action = true)
    (taken : s.step size action = some after) : Over size after := by
  have exhausted := ending.exhausted
  have ranked := ending.ranked
  cases action with
  | producer i action =>
      obtain ⟨inside, taken⟩ := producer_of_step taken
      obtain ⟨rings, live⟩ := producerStep_uncounted (uncounted_of_live
        (producersOk (withinCache_of_streaming reached)).live exhausted.1 inside) taken
      exact ending.congr rings live (producerStep_frame taken).consumer
  | signaller k action =>
      have frame := signallerStep_frame taken
      exact ending.congr frame.rings frame.liveProducers frame.consumer
  | consumer action =>
      simp only [step] at taken
      cases action with
      | tick =>
          obtain ⟨rank, rankEq⟩ := Option.isSome_iff_exists.mp ranked
          cases rank with
          | zero => exact over_rest reached ending rankEq taken
          | succ rank =>
              obtain ⟨next, ticked, overNext, -⟩ := over_tick reached ending rankEq
              simp only [consumerStep, ticked, Option.some.injEq] at taken
              exact taken ▸ overNext
      | tryRecv | recv =>
          simp only [consumerStep] at taken
          split at taken <;> cases taken
          exact Over.starts exhausted (.inl ⟨_, rfl⟩)
      | tryRecvBatch | recvBatch =>
          simp only [consumerStep] at taken
          split at taken <;> cases taken
          exact Over.starts exhausted (.inr ⟨_, rfl⟩)
      | drop =>
          simp only [consumerStep] at taken
          split at taken <;> cases taken
          exact ⟨exhausted, rfl⟩
      | panic => cases calm
      | spin | spurious =>
          simp only [consumerStep] at taken
          split at taken
          · rename_i pcEq
            rw [pcEq] at ranked
            cases ranked
          · cases taken

theorem over_later (reached : (streaming size).Reachable s) (ending : Over size s)
    {later : MpscState α} (leads : (streaming size).Leads s later) :
    (streaming size).Reachable later ∧ Over size later := by
  refine leads.invariant
    (fun later => (streaming size).Reachable later ∧ Over size later) ⟨reached, ending⟩ ?_
  rintro before action after ⟨reached, ending⟩ ⟨calm, taken⟩
  exact ⟨reached.next ⟨calm, taken⟩, over_step reached ending calm taken⟩

theorem endRank_le {pc : MpscConsumerPc α} {rank : Nat}
    (ranked : endRank size s pc = some rank) : rank ≤ 8 * size.m + 8 := by
  have scan_le (idx : Nat) {inner : Nat} (le : inner ≤ 5) :
      scanRank size idx inner ≤ 8 * size.m + 8 := by
    unfold scanRank
    omega
  have empty_le {inner : ConsumerPc α} {left : Nat}
      (leftEq : RingState.emptyRank inner = some left) : left ≤ 5 := by
    unfold RingState.emptyRank at leftEq
    split at leftEq <;> cases leftEq <;> omega
  unfold endRank at ranked
  split at ranked
  case h_10 | h_12 =>
    obtain ⟨left, leftEq, rfl⟩ := Option.map_eq_some_iff.mp ranked
    exact scan_le _ (empty_le leftEq)
  case h_9 | h_11 =>
    cases ranked
    exact scan_le _ le_rfl
  case h_16 =>
    split at ranked <;> cases ranked
    omega
  all_goals
    cases ranked
    try omega

theorem not_inFlight_of_endRank {pc : MpscConsumerPc α}
    (resting : endRank size s pc = some 0) : inFlight pc = none := by
  unfold endRank at resting
  split at resting
  case h_10 | h_12 =>
    obtain ⟨left, -, none⟩ := Option.map_eq_some_iff.mp resting
    unfold scanRank at none
    omega
  case h_9 | h_11 => simp [scanRank] at resting
  case h_16 => split at resting <;> simp at resting
  all_goals
    first
    | rfl
    | simp at resting

/-- A blocking receive that is running when the stream is over comes back with
`Err(Shutdown)` by its own steps. -/
theorem ends_of_rank {rank : Nat} (reached : (streaming size).Reachable s)
    (ending : Over size s) (ranked : endRank size s s.consumer = some rank)
    {call : MpscBlocking} (inCall : inFlight s.consumer = some call) :
    ∃ n ≤ rank, ∃ last, Transition.execute (fun s action => s.step size action) s
      (List.replicate n (.consumer .tick)) = some last ∧
        last.consumer = .returned (endOfStream call) := by
  induction rank using Nat.strong_induction_on generalizing s with
  | _ rank shorter =>
      obtain ⟨less, rfl⟩ : ∃ less, rank = less + 1 :=
        Nat.exists_eq_succ_of_ne_zero fun none =>
          nomatch (not_inFlight_of_endRank (none ▸ ranked)).symm.trans inCall
      obtain ⟨after, ticked, overAfter, ⟨next, le, nextEq⟩, goesOn⟩ :=
        over_tick reached ending ranked
      have step : (streaming size).Step s (.consumer .tick) after := ⟨rfl, ticked⟩
      have reachedAfter : (streaming size).Reachable after := reached.next step
      rcases goesOn call inCall with still | ended
      · obtain ⟨n, n_le, last, ran, ended⟩ :=
          shorter next (by omega) reachedAfter overAfter nextEq still
        refine ⟨n + 1, by omega, last, ?_, ended⟩
        simp only [List.replicate_succ, Transition.execute]
        exact (congrArg (Option.bind · _) ticked).trans ran
      · refine ⟨1, by omega, after, ?_, ended⟩
        exact (congrArg (Option.bind · _) ticked)

theorem over_of_ended (reached : (streaming size).Reachable s) {call : MpscBlocking}
    (ended : s.consumer = .returned (endOfStream call)) : Over size s := by
  refine ⟨exhausted_of_ended reached ended, ?_⟩
  rw [ended]
  cases call <;> rfl

/-- A receive that has returned when the stream is over has returned
`Err(Shutdown)`. -/
theorem Over.returned (ending : Over size s) {outcome : MpscRecvOutcome α}
    (returned : s.consumer = .returned outcome) :
    (∀ result, outcome = .recv result → result = none) ∧
      ∀ result, outcome = .recvBatch result → result = none := by
  have ranked := ending.ranked
  rw [returned] at ranked
  constructor
  all_goals
    rintro result rfl
    cases result with
    | none => rfl
    | some value => cases ranked

/-- When a blocking receive returns `Err(Shutdown)` and nobody has signalled, every
handle is dropped and everything it accepted is delivered; from then on a blocking
receive returns nothing else, and returns within a bounded number of its steps. -/
theorem end_of_stream_complete (call : MpscBlocking)
    (reached : (streaming size).Reachable s)
    (ended : s.consumer = .returned (endOfStream call)) :
    Complete size s ∧ ∀ later, (streaming size).Leads s later →
      (∀ result, later.consumer = .returned (.recv result) → result = none) ∧
      (∀ result, later.consumer = .returned (.recvBatch result) → result = none) ∧
      ∀ call, inFlight later.consumer = some call →
        ∃ n ≤ 8 * size.m + 8, ∃ last,
          Transition.execute (fun s action => s.step size action) later
            (List.replicate n (.consumer .tick)) = some last ∧
              last.consumer = .returned (endOfStream call) := by
  refine ⟨complete_of_ended reached ended, fun later leads => ?_⟩
  obtain ⟨reachedLater, ending⟩ := over_later reached (over_of_ended reached ended) leads
  refine ⟨fun result returned => (ending.returned returned).1 result rfl,
    fun result returned => (ending.returned returned).2 result rfl, fun call inCall => ?_⟩
  obtain ⟨rank, ranked⟩ := Option.isSome_iff_exists.mp ending.ranked
  obtain ⟨n, n_le, last, ran, endedAgain⟩ := ends_of_rank reachedLater ending ranked inCall
  exact ⟨n, n_le.trans (endRank_le ranked), last, ran, endedAgain⟩

/-- The steps of a run without shutdown and without panics. -/
def streamingStep (s : MpscState Nat) (action : MpscAction Nat) : Option (MpscState Nat) :=
  Transition.guardedStep (fun _ (action : MpscAction Nat) => undisturbed action = true)
    (fun s action => s.step soloSize action) s action

/-- The only producer sends one value and goes away; the consumer receives the value
and then the end. -/
def lastProducerDrops : List (MpscAction Nat) :=
  [MpscAction.producer 0 (.trySend 7)] ++ producerTicks 8 ++ [MpscAction.producer 0 .drop] ++
    producerTicks 6 ++ [MpscAction.consumer .recv] ++ consumerTicks 8 ++
    [MpscAction.consumer .recv] ++ consumerTicks 9

theorem end_of_stream_complete_lastProducerDrops :
    ∃ s : MpscState Nat, (streaming soloSize).Reachable s ∧
      s.consumer = .returned (.recv none) ∧ (s.rings 0).consumer.delivered = [7] ∧
        Complete soloSize s := by
  have ran : (Transition.execute streamingStep (new soloSize) lastProducerDrops).map
      (fun s => (s.consumer, (s.rings 0).consumer.delivered)) =
        some (.returned (.recv none), [7]) := by
    rfl
  obtain ⟨s, ran, seen⟩ := Option.map_eq_some_iff.mp ran
  obtain ⟨ended, delivered⟩ := by simpa only [Prod.mk.injEq] using seen
  have reached : (streaming soloSize).Reachable s :=
    System.reachable_of_guarded_execute rfl ran
  exact ⟨s, reached, ended, delivered, (end_of_stream_complete .recv reached ended).1⟩

end MpscState

end ArbitroKit
