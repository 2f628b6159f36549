import ArbitroKit.Countdown
import ArbitroKit.MpscParked

/-!
# How long a parked party waits for its wake

A party of the many-producer channel that sleeps although its cause to go on has come
up is woken after a bounded number of steps of the one party that brought it about,
whatever the others do in between.
-/

namespace ArbitroKit

open Coherent SlotLane Cyclic Transition

namespace RingState

variable {α : Type*} {cap : Cap} {s after : RingState α}

/-- How many steps of the producer's ring call are left until the channel can wake. -/
def reportRank : ProducerPc α → Nat
  | .returned _ _ => 1
  | _ => 2

/-- The same for a ring call of the consumer. -/
def returnRank : ConsumerPc α → Nat
  | .returned _ => 1
  | _ => 2

theorem unreported_of_activity {pc : ProducerPc α}
    (out : producerActivity pc = .idle ∨ producerActivity pc = .closing ∨
      producerActivity pc = .gone) : unreported pc = [] := by
  cases pc with
  | sendWake call value => cases call <;> rcases out with out | out | out <;> cases out
  | bulkWake items written => rcases out with out | out | out <;> cases out
  | returned outcome accepted => cases outcome <;> rcases out with out | out | out <;> cases out
  | _ => rfl

/-- A call that has published and not returned returns with its next step. -/
theorem reportRank_tick {index : Nat} (published : unreported s.producer.pc ≠ [])
    (running : ∀ outcome accepted, s.producer.pc ≠ .returned outcome accepted)
    (taken : s.producerTick cap index = some after) :
    reportRank after.producer.pc < reportRank s.producer.pc := by
  unfold producerTick at taken
  cases pcEq : s.producer.pc with
  | sendWake call value =>
      simp only [pcEq, Option.some.injEq] at taken
      subst taken
      cases call <;> exact Nat.one_lt_two
  | bulkWake items written =>
      simp only [pcEq, Option.some.injEq] at taken
      subst taken
      exact Nat.one_lt_two
  | returned outcome accepted => exact absurd pcEq (running outcome accepted)
  | _ =>
      rw [pcEq] at published
      exact absurd rfl published

theorem report_able (cap : Cap) (published : unreported s.producer.pc ≠ []) (index : Nat) :
    ∃ after, s.producerTick cap index = some after := by
  unfold producerTick
  cases pcEq : s.producer.pc with
  | sendWake call value | bulkWake items written | returned outcome accepted => exact ⟨_, rfl⟩
  | _ =>
      rw [pcEq] at published
      exact absurd rfl published

theorem return_able (cap : Cap) (gave : owesWake s.consumer.pc = true) (index : Nat) :
    ∃ after, s.consumerTick cap index = some after := by
  unfold consumerTick
  cases pcEq : s.consumer.pc with
  | recvWake call value | drainWake head consumed | returned outcome => exact ⟨_, rfl⟩
  | _ =>
      rw [pcEq] at gave
      cases gave

/-- A call that has given slots back and not returned returns with its next step. -/
theorem returnRank_tick {index : Nat} (gave : owesWake s.consumer.pc = true)
    (running : ∀ outcome, s.consumer.pc ≠ .returned outcome)
    (taken : s.consumerTick cap index = some after) :
    returnRank after.consumer.pc < returnRank s.consumer.pc := by
  unfold consumerTick at taken
  cases pcEq : s.consumer.pc with
  | recvWake call value =>
      simp only [pcEq, Option.some.injEq] at taken
      subst taken
      cases call <;> exact Nat.one_lt_two
  | drainWake head consumed =>
      simp only [pcEq, Option.some.injEq] at taken
      subst taken
      exact Nat.one_lt_two
  | returned outcome => exact absurd pcEq (running outcome)
  | _ =>
      rw [pcEq] at gave
      cases gave

end RingState

namespace MpscState

variable {α : Type*} {size : MpscSize} {s after : MpscState α} {i : Nat}

/-- The steps of the runs in which no callback panics. -/
def steadyStep (size : MpscSize) (s : MpscState α) (action : MpscAction α) :
    Option (MpscState α) :=
  guardedStep (fun _ action => returning action = true) (fun s action => s.step size action)
    s action

theorem steadyStep_eq_some {action : MpscAction α}
    (taken : s.steadyStep size action = some after) :
    returning action = true ∧ s.step size action = some after := by
  unfold steadyStep guardedStep at taken
  split at taken
  · exact ⟨by assumption, taken⟩
  · cases taken

theorem steadyStep_producer {action : MpscProducerAction α} (inside : i < size.m)
    (taken : s.producerStep size i action = some after) :
    s.steadyStep size (.producer i action) = some after := by
  change (if i < size.m then s.producerStep size i action else none) = some after
  rw [if_pos inside]
  exact taken

def ofProducer (i : Nat) : MpscAction α → Bool
  | .producer j _ => j == i
  | _ => false

def ofConsumer : MpscAction α → Bool
  | .consumer _ => true
  | _ => false

def ofSignaller (k : Nat) : MpscAction α → Bool
  | .signaller j _ => j == k
  | _ => false

/-- An announced party that is woken sleeps no more. -/
theorem awake_of_wake (covered : ConsumerCovered size s) (asleep : ConsumerAsleep s)
    (woken : after.faninWaiter = s.faninWaiter.wake) : ¬ ConsumerAsleep after := by
  intro still
  obtain ⟨call, pcEq⟩ := asleep.parked
  rw [ConsumerCovered, pcEq] at covered
  have noWake := still.noWake
  rw [woken, Waiter.token_wake covered.1.announced] at noWake
  cases noWake

theorem producer_awake_of_wake (covered : ProducerCovered size s i) (asleep : ProducerAsleep s i)
    (woken : after.producerWaiters i = (s.producerWaiters i).wake) :
    ¬ ProducerAsleep after i := by
  intro still
  have announced : (s.producerWaiters i).announced = true := by
    rw [ProducerCovered] at covered
    rcases asleep.parked with ⟨value, pcEq⟩ | ⟨value, pcEq⟩ <;> rw [pcEq] at covered <;>
      exact covered.1.announced
  have noWake := still.noWake
  rw [woken, Waiter.token_wake announced] at noWake
  cases noWake

/-! ### From the publication to the wake -/

/-- How many steps producer `i` has to take before the one that wakes the consumer. -/
def publishRank (ring : ProducerPc α) : MpscProducerPc α → Nat
  | .inTrySend _ _ => RingState.reportRank ring
  | .inBulk => RingState.reportRank ring
  | _ => 0

def publishRankOf (s : MpscState α) (i : Nat) : Nat :=
  publishRank (s.rings i).producer.pc (s.producers i)

theorem publishRankOf_le (s : MpscState α) (i : Nat) : s.publishRankOf i ≤ 2 := by
  have ring : RingState.reportRank (s.rings i).producer.pc ≤ 2 := by
    cases (s.rings i).producer.pc <;> first | exact le_rfl | exact Nat.le_succ 1
  unfold publishRankOf
  cases s.producers i <;> first | exact ring | exact Nat.zero_le 2

/-- A producer with items under way stands in the call that published them. -/
theorem publishing_of_underWay (reached : (withinCache size).Reachable s)
    (onWay : 0 < s.underWay i) :
    (∃ call, s.producers i = .wakeFanin call) ∨
      (∃ consumed items, s.producers i = .bulkWakeFanin consumed items) ∨
        ((∃ call value, s.producers i = .inTrySend call value) ∨ s.producers i = .inBulk) ∧
          RingState.unreported (s.rings i).producer.pc ≠ [] := by
  have activity := (producerInStep reached i).activity
  have quiet (out : RingState.producerActivity (s.rings i).producer.pc = .idle ∨
      RingState.producerActivity (s.rings i).producer.pc = .closing ∨
        RingState.producerActivity (s.rings i).producer.pc = .gone) :
      unacknowledged (s.producers i) ≠ 0 := by
    rw [underWay, RingState.unreported_of_activity out, List.length_nil] at onWay
    exact Nat.pos_iff_ne_zero.mp onWay
  have reports (none : unacknowledged (s.producers i) = 0) :
      RingState.unreported (s.rings i).producer.pc ≠ [] := by
    rw [underWay, none, Nat.zero_add] at onWay
    exact List.length_pos_iff.mp onWay
  cases pcEq : s.producers i with
  | wakeFanin call => exact .inl ⟨call, rfl⟩
  | bulkWakeFanin consumed items => exact .inr (.inl ⟨consumed, items, rfl⟩)
  | inTrySend call value =>
      exact .inr (.inr ⟨.inl ⟨call, value, rfl⟩, reports (by rw [pcEq]; rfl)⟩)
  | inBulk => exact .inr (.inr ⟨.inr rfl, reports (by rw [pcEq]; rfl)⟩)
  | inClose =>
      rw [pcEq] at activity
      exact absurd (by rw [pcEq]; rfl) (quiet (.inr activity))
  | fetchSub | wakeLast | gone =>
      rw [pcEq] at activity
      exact absurd (by rw [pcEq]; rfl) (quiet (.inr (.inr activity)))
  | _ =>
      rw [pcEq] at activity
      exact absurd (by rw [pcEq]; rfl) (quiet (.inl activity))

/-- With items under way a producer's step is one of its call: it wakes the consumer, or
brings the call nearer to that. -/
theorem publishRank_step (reached : (withinCache size).Reachable s) (onWay : 0 < s.underWay i)
    {action : MpscProducerAction α} (taken : s.producerStep size i action = some after) :
    after.faninWaiter = s.faninWaiter.wake ∨ after.publishRankOf i < s.publishRankOf i := by
  have place := publishing_of_underWay reached onWay
  have tick : action = .tick := by
    cases action with
    | tick => rfl
    | _ =>
        simp only [producerStep] at taken
        rcases place with ⟨call, pcEq⟩ | ⟨consumed, items, pcEq⟩ |
          ⟨⟨call, value, pcEq⟩ | pcEq, -⟩ <;> simp [pcEq] at taken
  subst tick
  have activity := (producerInStep reached i).activity
  simp only [producerStep, producerTick] at taken
  rcases place with ⟨call, pcEq⟩ | ⟨consumed, items, pcEq⟩ | ⟨⟨call, value, pcEq⟩ | pcEq, published⟩
  · simp only [pcEq, Option.some.injEq] at taken
    subst taken
    exact .inl (fanin_disarm _ _ _)
  · simp only [pcEq, Option.some.injEq] at taken
    subst taken
    exact .inl rfl
  · simp only [pcEq, RingActivityAt] at taken activity
    refine .inr ?_
    rw [publishRankOf, publishRankOf, pcEq]
    split at taken
    · rename_i result values returned
      obtain ⟨inside, ticked, rfl⟩ := Option.map_eq_some_iff.mp taken
      rw [returned]
      rcases result with (value | value) | ⟨⟩
      · rw [trySendReturned, producers_producerAt]
        cases call <;> exact Nat.one_pos
      · rw [trySendReturned, producers_producerAt]
        cases call <;> exact Nat.one_pos
      · rw [trySendReturned, producers_producerAt]
        exact Nat.one_pos
    · rename_i notTrySend
      obtain ⟨ring, moved, rfl⟩ := ringProducer_eq_some taken
      have stays : (s.setRing i ring).producers i = .inTrySend call value := pcEq
      rw [stays, rings_setRing]
      refine RingState.reportRank_tick published (fun outcome values was => ?_) moved
      rw [was] at activity
      cases outcome with
      | trySend result => exact notTrySend result values was
      | send result | trySendBulk count items => cases activity
  · simp only [pcEq, RingActivityAt] at taken activity
    refine .inr ?_
    rw [publishRankOf, publishRankOf, pcEq]
    split at taken
    · rename_i consumed items values returned
      obtain ⟨inside, ticked, rfl⟩ := Option.map_eq_some_iff.mp taken
      rw [returned]
      split <;> rw [producers_producerAt] <;> exact Nat.one_pos
    · rename_i notBulk
      obtain ⟨ring, moved, rfl⟩ := ringProducer_eq_some taken
      have stays : (s.setRing i ring).producers i = .inBulk := pcEq
      rw [stays, rings_setRing]
      refine RingState.reportRank_tick published (fun outcome values was => ?_) moved
      rw [was] at activity
      cases outcome with
      | trySendBulk count items => exact notBulk count items values was
      | send result | trySend result => cases activity

/-- Nothing keeps such a producer from its next step. -/
theorem publish_able (reached : (withinCache size).Reachable s) (onWay : 0 < s.underWay i) :
    ∃ after, s.producerStep size i .tick = some after := by
  have inner (published : RingState.unreported (s.rings i).producer.pc ≠ []) :
      ∃ after, s.ringProducerTick size i = some after := by
    obtain ⟨ring, ticked⟩ :=
      RingState.report_able size.cap published (s.rings i).shared.tail.latest
    exact ⟨s.setRing i ring, Option.map_eq_some_iff.mpr ⟨ring, ticked, rfl⟩⟩
  simp only [producerStep, producerTick]
  rcases publishing_of_underWay reached onWay with ⟨call, pcEq⟩ | ⟨consumed, items, pcEq⟩ |
    ⟨⟨call, value, pcEq⟩ | pcEq, published⟩
  · rw [pcEq]
    exact ⟨_, rfl⟩
  · rw [pcEq]
    exact ⟨_, rfl⟩
  all_goals
    obtain ⟨after, ticked⟩ := inner published
    simp only [pcEq]
    split
    · exact ⟨_, by rw [ticked]; rfl⟩
    · exact ⟨after, ticked⟩

/-- Who does not act as producer `i` leaves its half of its ring. -/
theorem producer_kept {action : MpscAction α} (reached : (withinCache size).Reachable s)
    (calm : returning action = true) (other : ofProducer i action = false)
    (taken : s.step size action = some after) :
    after.producers i = s.producers i ∧ (after.rings i).producer = (s.rings i).producer := by
  cases action with
  | producer j action =>
      have ne : i ≠ j := fun same => by simp [ofProducer, same] at other
      have frame := producerStep_frame (producer_of_step taken).2
      exact ⟨frame.producers i ne, by rw [frame.rings i ne]⟩
  | consumer action =>
      refine ⟨congrFun (consumerStep_frame taken).producers i, ?_⟩
      rcases consumerStep_rely reached (within_of_returning calm) taken i with same | rely
      · rw [same]
      · exact rely.producer
  | signaller k action =>
      have frame := signallerStep_frame taken
      exact ⟨congrFun frame.producers i, by rw [frame.rings]⟩

theorem steady_next {action : MpscAction α} (reached : (steady size).Reachable s)
    (taken : s.steadyStep size action = some after) : (steady size).Reachable after :=
  reached.next (steadyStep_eq_some taken)

theorem item_countdown (inside : i < size.m) :
    Countdown (fun (s : MpscState α) action => s.steadyStep size action) (ofProducer i)
      (Waiting (steady size).Reachable ConsumerAsleep (fun s => 0 < s.underWay i)
        fun s => s.publishRankOf i) fun s => ¬ ConsumerAsleep s := by
  refine Countdown.ofRank (fun _ _ _ => steady_next) ?_ ?_ ?_
  · intro s action after steady asleep onWay own taken still
    have reached := withinCache_of_steady steady
    have reachedAfter := withinCache_of_steady (steady_next steady taken)
    have awake (woken : after.faninWaiter = s.faninWaiter.wake) : False :=
      awake_of_wake (allCovered steady).consumer asleep woken still
    cases action with
    | producer j action =>
        obtain rfl := beq_iff_eq.mp own
        have taken := (producer_of_step (steadyStep_eq_some taken).2).2
        have kept := (underWay_producer reached reachedAfter taken j).2 onWay
        exact ⟨kept.resolve_right awake,
          (publishRank_step reached onWay taken).resolve_left awake⟩
    | consumer action | signaller k action => cases own
  · intro s action after steady asleep onWay other taken still
    obtain ⟨calm, taken⟩ := steadyStep_eq_some taken
    obtain ⟨producer, ring⟩ := producer_kept (withinCache_of_steady steady) calm other taken
    rw [underWay, publishRankOf, publishRankOf, producer, ring]
    exact ⟨onWay, rfl⟩
  · intro s steady _ onWay
    obtain ⟨after, taken⟩ := publish_able (withinCache_of_steady steady) onWay
    exact ⟨.producer i .tick, after, beq_self_eq_true i, steadyStep_producer inside taken⟩

/-! ### From the slots given back to the wake -/

/-- How many steps the consumer has to take before the one that wakes the producer. -/
def takeRank (ring : ConsumerPc α) : MpscConsumerPc α → Nat
  | .inTryRecv _ _ => RingState.returnRank ring
  | .inDrain _ _ _ _ => RingState.returnRank ring
  | _ => 0

def takeRankOf (s : MpscState α) (i : Nat) : Nat :=
  takeRank (s.rings i).consumer.pc s.consumer

theorem takeRankOf_le (s : MpscState α) (i : Nat) : s.takeRankOf i ≤ 2 := by
  have ring : RingState.returnRank (s.rings i).consumer.pc ≤ 2 := by
    cases (s.rings i).consumer.pc <;> first | exact le_rfl | exact Nat.le_succ 1
  unfold takeRankOf
  cases s.consumer <;> first | exact ring | exact Nat.zero_le 2

theorem takeRank_step (reached : (withinCache size).Reachable s)
    (takes : s.takingFrom i = true) {action : MpscConsumerAction}
    (calm : returning (.consumer action : MpscAction α) = true)
    (taken : s.consumerStep size action = some after) :
    after.producerWaiters i = (s.producerWaiters i).wake ∨
      after.takeRankOf i < s.takeRankOf i := by
  have activity := (consumerInStep reached).activity i
  have tick : action = .tick := by
    cases action with
    | tick => rfl
    | panic => cases calm
    | _ =>
        simp only [consumerStep] at taken
        rw [takingFrom] at takes
        split at taken
        · rename_i pcEq
          rw [pcEq] at takes
          cases takes
        · cases taken
  subst tick
  rw [takingFrom] at takes
  simp only [consumerStep, consumerTick] at taken
  cases pcEq : s.consumer with
  | wakeProducer call idx value | batchWakeProducer call idx total =>
      rw [pcEq] at takes
      obtain rfl := beq_iff_eq.mp takes
      simp only [pcEq, Option.some.injEq] at taken
      subst taken
      exact .inl ((wakeProducer_waiters s idx idx).2 rfl)
  | inTryRecv call idx =>
      rw [pcEq] at takes
      obtain ⟨same, gave⟩ := Bool.and_eq_true_iff.mp takes
      obtain rfl := beq_iff_eq.mp same
      simp only [pcEq, ReceiveActivityAt, if_pos] at taken activity
      refine .inr ?_
      rw [takeRankOf, takeRankOf, pcEq]
      split at taken
      · rename_i result returned
        obtain ⟨inside, ticked, rfl⟩ := Option.map_eq_some_iff.mp taken
        rw [returned]
        rcases result with error | value
        · rw [returned] at gave
          cases gave
        · exact Nat.one_pos
      · rename_i notTryRecv
        obtain ⟨ring, ticked, rfl⟩ := ringConsumerTick_eq_some taken
        have stays : ((s.noteTick idx).setRing idx ring).consumer = .inTryRecv call idx :=
          (consumer_noteTick s idx).trans pcEq
        rw [stays, rings_setRing]
        refine RingState.returnRank_tick gave (fun outcome was => ?_) ticked
        rw [was] at activity
        cases outcome with
        | tryRecv result => exact notTryRecv result was
        | recv result | drain consumed | panicked => cases activity
  | inDrain call idx total progress =>
      rw [pcEq] at takes
      obtain ⟨same, gave⟩ := Bool.and_eq_true_iff.mp takes
      obtain rfl := beq_iff_eq.mp same
      simp only [pcEq, ReceiveActivityAt, if_pos] at taken activity
      refine .inr ?_
      rw [takeRankOf, takeRankOf, pcEq]
      split at taken
      · rename_i n returned
        obtain ⟨inside, ticked, rfl⟩ := Option.map_eq_some_iff.mp taken
        rw [returned] at gave ⊢
        rw [if_pos (of_decide_eq_true gave)]
        exact Nat.one_pos
      · rename_i panicked
        rw [panicked] at gave
        cases gave
      · rename_i notDrain notPanicked
        obtain ⟨ring, ticked, rfl⟩ := ringConsumerTick_eq_some taken
        have stays : ((s.noteTick idx).setRing idx ring).consumer =
            .inDrain call idx total progress := (consumer_noteTick s idx).trans pcEq
        rw [stays, rings_setRing]
        refine RingState.returnRank_tick gave (fun outcome was => ?_) ticked
        rw [was] at activity
        cases outcome with
        | drain consumed => exact notDrain consumed was
        | panicked => exact notPanicked was
        | tryRecv result | recv result => cases activity
  | _ =>
      rw [pcEq] at takes
      cases takes

theorem take_able (takes : s.takingFrom i = true) :
    ∃ after, s.steadyStep size (.consumer .tick) = some after := by
  have inner (gave : RingState.owesWake (s.rings i).consumer.pc = true) :
      ∃ after, s.ringConsumerTick size i = some after := by
    obtain ⟨ring, ticked⟩ :=
      RingState.return_able size.cap gave (s.rings i).shared.head.latest
    refine ⟨(s.noteTick i).setRing i ring, Option.map_eq_some_iff.mpr ⟨ring, ?_, rfl⟩⟩
    rw [noteTick_rings]
    exact ticked
  change ∃ after, s.consumerTick size = some after
  rw [takingFrom] at takes
  unfold consumerTick
  cases pcEq : s.consumer with
  | wakeProducer call idx value | batchWakeProducer call idx total => exact ⟨_, rfl⟩
  | inTryRecv call idx | inDrain call idx total progress =>
      rw [pcEq] at takes
      obtain ⟨same, gave⟩ := Bool.and_eq_true_iff.mp takes
      obtain rfl := beq_iff_eq.mp same
      obtain ⟨after, ticked⟩ := inner gave
      dsimp only
      split <;> first | exact ⟨after, ticked⟩ | exact ⟨_, by rw [ticked]; rfl⟩
  | _ =>
      rw [pcEq] at takes
      cases takes

theorem consumer_kept {action : MpscAction α} (reached : (withinCache size).Reachable s)
    (other : ofConsumer action = false) (taken : s.step size action = some after) :
    after.consumer = s.consumer ∧ (after.rings i).consumer = (s.rings i).consumer := by
  cases action with
  | producer j action =>
      have taken := (producer_of_step taken).2
      refine ⟨(producerStep_frame taken).consumer, ?_⟩
      rcases producerStep_rely reached taken i with same | rely
      · rw [same]
      · exact rely.consumer
  | consumer action => cases other
  | signaller k action =>
      have frame := signallerStep_frame taken
      exact ⟨frame.consumer, by rw [frame.rings]⟩

theorem room_countdown (inside : i < size.m) :
    Countdown (fun (s : MpscState α) action => s.steadyStep size action) ofConsumer
      (Waiting (steady size).Reachable (fun s => ProducerAsleep s i)
        (fun s => s.takingFrom i = true) fun s => s.takeRankOf i)
      fun s => ¬ ProducerAsleep s i := by
  refine Countdown.ofRank (fun _ _ _ => steady_next) ?_ ?_ ?_
  · intro s action after steady asleep takes own taken still
    have reached := withinCache_of_steady steady
    have awake (woken : after.producerWaiters i = (s.producerWaiters i).wake) : False :=
      producer_awake_of_wake ((allCovered steady).producers i inside) asleep woken still
    obtain ⟨calm, taken⟩ := steadyStep_eq_some taken
    cases action with
    | consumer action =>
        have news := consumerStep_news reached.of_guarded (returning_of_steady steady) calm taken
        exact ⟨(news.took i takes).resolve_right awake,
          (takeRank_step reached takes calm taken).resolve_left awake⟩
    | producer j action | signaller k action => cases own
  · intro s action after steady asleep takes other taken still
    have taken := (steadyStep_eq_some taken).2
    obtain ⟨consumer, ring⟩ := consumer_kept (i := i) (withinCache_of_steady steady) other taken
    rw [takingFrom, takeRankOf, takeRankOf, consumer, ring]
    exact ⟨takes, rfl⟩
  · intro s _ _ takes
    obtain ⟨after, taken⟩ := take_able takes
    exact ⟨.consumer .tick, after, rfl, taken⟩

/-! ### From the last drop to the wake -/

theorem lastProducer_countdown (inside : i < size.m) :
    Countdown (fun (s : MpscState α) action => s.steadyStep size action) (ofProducer i)
      (Waiting (steady size).Reachable ConsumerAsleep
        (fun s => lastLeaving (s.producers i) = true) fun _ => 0)
      fun s => ¬ ConsumerAsleep s := by
  refine Countdown.ofRank (fun _ _ _ => steady_next) ?_ ?_ ?_
  · intro s action after steady asleep leaving own taken still
    cases action with
    | producer j action =>
        obtain rfl := beq_iff_eq.mp own
        have taken := (producer_of_step (steadyStep_eq_some taken).2).2
        have woken := (producerStep_news taken).left leaving
        exact absurd still (awake_of_wake (allCovered steady).consumer asleep woken)
    | consumer action | signaller k action => cases own
  · intro s action after steady asleep leaving other taken still
    obtain ⟨calm, taken⟩ := steadyStep_eq_some taken
    rw [(producer_kept (withinCache_of_steady steady) calm other taken).1]
    exact ⟨leaving, rfl⟩
  · intro s _ _ leaving
    have taken : ∃ after, s.producerStep size i .tick = some after := by
      simp only [producerStep, producerTick]
      cases pcEq : s.producers i with
      | wakeLast => exact ⟨_, rfl⟩
      | _ =>
          rw [pcEq] at leaving
          cases leaving
    obtain ⟨after, taken⟩ := taken
    exact ⟨.producer i .tick, after, beq_self_eq_true i, steadyStep_producer inside taken⟩

/-! ### From the signal to the wakes -/

theorem signaller_kept {k : Nat} {action : MpscAction α} (other : ofSignaller k action = false)
    (taken : s.step size action = some after) : after.signallers k = s.signallers k := by
  cases action with
  | producer j action =>
      exact congrFun (producerStep_frame (producer_of_step taken).2).signallers k
  | consumer action => exact congrFun (consumerStep_frame taken).signallers k
  | signaller j action =>
      have ne : k ≠ j := fun same => by simp [ofSignaller, same] at other
      exact (signallerStep_news taken).signallers k ne

/-- Nothing keeps a signal under way from its next step. -/
theorem signal_able (size : MpscSize) {k : Nat} (busy : s.signallers k ≠ .idle) :
    ∃ after, s.steadyStep size (.signaller k .tick) = some after := by
  change ∃ after, s.signallerStep size k .tick = some after
  simp only [signallerStep]
  cases pcEq : s.signallers k with
  | idle => exact absurd pcEq busy
  | wakeFanin => exact ⟨_, rfl⟩
  | wakeProducer here =>
      dsimp only
      split <;> exact ⟨_, rfl⟩

theorem consumerShutdown_countdown (size : MpscSize) (k : Nat) :
    Countdown (fun (s : MpscState α) action => s.steadyStep size action) (ofSignaller k)
      (Waiting (steady size).Reachable ConsumerAsleep
        (fun s => signallingConsumer (s.signallers k) = true) fun _ => 0)
      fun s => ¬ ConsumerAsleep s := by
  refine Countdown.ofRank (fun _ _ _ => steady_next) ?_ ?_ ?_
  · intro s action after steady asleep signalling own taken still
    cases action with
    | signaller j action =>
        obtain rfl := beq_iff_eq.mp own
        have woken := (signallerStep_news (steadyStep_eq_some taken).2).toConsumer signalling
        exact absurd still (awake_of_wake (allCovered steady).consumer asleep woken)
    | producer j action | consumer action => cases own
  · intro s action after steady asleep signalling other taken still
    rw [signaller_kept other (steadyStep_eq_some taken).2]
    exact ⟨signalling, rfl⟩
  · intro s _ _ signalling
    have busy : s.signallers k ≠ .idle := by
      intro idle
      rw [idle] at signalling
      cases signalling
    obtain ⟨after, taken⟩ := signal_able size busy
    exact ⟨.signaller k .tick, after, beq_self_eq_true k, taken⟩

/-- How many steps a signal has to take before the one that wakes producer `i`. -/
def signalRank (i : Nat) : MpscSignalPc → Nat
  | .idle => 0
  | .wakeFanin => i + 1
  | .wakeProducer here => i - here

theorem signalRank_step {k : Nat} (inside : i < size.m)
    (signalling : signallingProducer i (s.signallers k) = true) {action : MpscSignalAction}
    (taken : s.signallerStep size k action = some after) :
    after.producerWaiters i = (s.producerWaiters i).wake ∨
      signalRank i (after.signallers k) < signalRank i (s.signallers k) := by
  cases pcEq : s.signallers k with
  | idle =>
      rw [pcEq] at signalling
      cases signalling
  | wakeFanin =>
      cases action with
      | signal => simp [signallerStep, pcEq] at taken
      | tick =>
          simp only [signallerStep, pcEq, Option.some.injEq] at taken
          subst taken
          rw [signallers_signallerAt]
          exact .inr (Nat.lt_succ_self i)
  | wakeProducer here =>
      rw [pcEq] at signalling
      have le : here ≤ i := of_decide_eq_true signalling
      cases action with
      | signal => simp [signallerStep, pcEq] at taken
      | tick =>
          simp only [signallerStep, pcEq] at taken
          rw [if_pos (by omega), Option.some.injEq] at taken
          subst taken
          rcases le.eq_or_lt with rfl | further
          · exact .inl ((wakeProducer_waiters s here here).2 rfl)
          · rw [signallers_signallerAt]
            refine .inr ?_
            simp only [signalRank]
            omega

theorem producerShutdown_countdown (inside : i < size.m) (k : Nat) :
    Countdown (fun (s : MpscState α) action => s.steadyStep size action) (ofSignaller k)
      (Waiting (steady size).Reachable (fun s => ProducerAsleep s i)
        (fun s => signallingProducer i (s.signallers k) = true)
        fun s => signalRank i (s.signallers k))
      fun s => ¬ ProducerAsleep s i := by
  refine Countdown.ofRank (fun _ _ _ => steady_next) ?_ ?_ ?_
  · intro s action after steady asleep signalling own taken still
    have awake (woken : after.producerWaiters i = (s.producerWaiters i).wake) : False :=
      producer_awake_of_wake ((allCovered steady).producers i inside) asleep woken still
    cases action with
    | signaller j action =>
        obtain rfl := beq_iff_eq.mp own
        have taken := (steadyStep_eq_some taken).2
        have kept := (signallerStep_news taken).toProducer i inside signalling
        exact ⟨kept.resolve_right awake,
          (signalRank_step inside signalling taken).resolve_left awake⟩
    | producer j action | consumer action => cases own
  · intro s action after steady asleep signalling other taken still
    rw [signaller_kept other (steadyStep_eq_some taken).2]
    exact ⟨signalling, rfl⟩
  · intro s _ _ signalling
    have busy : s.signallers k ≠ .idle := by
      intro idle
      rw [idle] at signalling
      cases signalling
    obtain ⟨after, taken⟩ := signal_able size busy
    exact ⟨.signaller k .tick, after, beq_self_eq_true k, taken⟩

/-! ### The bounds -/

/-- Every run from here in which the party takes `count` steps passes through a state in
which the consumer no longer sleeps. -/
def WakesConsumer (size : MpscSize) (own : MpscAction α → Bool) (count : Nat)
    (s : MpscState α) : Prop :=
  ReachedWithin (fun s action => s.steadyStep size action) own count
    (fun s => ¬ ConsumerAsleep s) s

/-- The same for producer `i`. -/
def WakesProducer (size : MpscSize) (i : Nat) (own : MpscAction α → Bool) (count : Nat)
    (s : MpscState α) : Prop :=
  ReachedWithin (fun s action => s.steadyStep size action) own count
    (fun s => ¬ ProducerAsleep s i) s

/-- A sleeping party whose cause has come up, and the steps that wake it. -/
structure WokenInTime (size : MpscSize) (s : MpscState α) : Prop where
  item : ConsumerAsleep s → ∀ i < size.m,
    (s.rings i).shared.head.current ≠ (s.rings i).shared.tail.current →
      WakesConsumer size (ofProducer i) 3 s
  consumerShutdown : ConsumerAsleep s → s.shutdown = true →
    ∃ k, WakesConsumer size (ofSignaller k) 1 s
  lastProducer : ConsumerAsleep s → s.liveProducers = 0 →
    ∃ i < size.m, WakesConsumer size (ofProducer i) 1 s
  room : ∀ i < size.m, ProducerAsleep s i → s.full size i = false →
    WakesProducer size i ofConsumer 3 s
  producerShutdown : ∀ i < size.m, ProducerAsleep s i → s.shutdown = true →
    ∃ k, WakesProducer size i (ofSignaller k) (i + 2) s

/-- As long as no callback panics, and in every order of steps: an item wakes the
sleeping consumer within three steps of its producer, room wakes a sleeping producer
within three steps of the consumer, the last drop and a signal wake the consumer with
the next step of that handle, and a signal wakes producer `i` within `i + 2` steps. -/
theorem steady_wokenInTime (reached : (steady size).Reachable s) : WokenInTime size s := by
  have parked := steady_nobodyLeftParked reached
  constructor
  · intro asleep i inside item
    have waits := (item_countdown inside).reachedWithin
      ⟨reached, asleep, parked.item asleep i inside item, le_rfl⟩
    exact waits.mono (Nat.succ_le_succ (s.publishRankOf_le i))
  · intro asleep shutdown
    obtain ⟨k, signalling⟩ := parked.consumerShutdown asleep shutdown
    exact ⟨k, (consumerShutdown_countdown size k).reachedWithin
      ⟨reached, asleep, signalling, le_rfl⟩⟩
  · intro asleep none
    obtain ⟨i, inside, leaving⟩ := parked.lastProducer asleep none
    exact ⟨i, inside, (lastProducer_countdown inside).reachedWithin
      ⟨reached, asleep, leaving, le_rfl⟩⟩
  · intro i inside asleep room
    have waits := (room_countdown inside).reachedWithin
      ⟨reached, asleep, parked.room i inside asleep room, le_rfl⟩
    exact waits.mono (Nat.succ_le_succ (s.takeRankOf_le i))
  · intro i inside asleep shutdown
    obtain ⟨k, signalling⟩ := parked.producerShutdown i inside asleep shutdown
    refine ⟨k, ReachedWithin.mono (Nat.succ_le_succ ?_)
      ((producerShutdown_countdown inside k).reachedWithin
        ⟨reached, asleep, signalling, le_rfl⟩)⟩
    cases s.signallers k with
    | idle => exact Nat.zero_le _
    | wakeFanin => exact le_rfl
    | wakeProducer here => exact (Nat.sub_le i here).trans (Nat.le_succ i)

theorem steady_wokenInTime_publishedUnderSleep :
    ∃ s : MpscState Nat, (steady soloSize).Reachable s ∧ ConsumerAsleep s ∧
      WakesConsumer soloSize (ofProducer 0) 3 s := by
  obtain ⟨s, reached, asleep, item⟩ := asleep_publishedUnderSleep
  exact ⟨s, reached, asleep, (steady_wokenInTime reached).item asleep 0 Nat.one_pos item⟩

end MpscState

end ArbitroKit
