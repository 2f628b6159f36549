import ArbitroKit.Countdown
import ArbitroKit.MpmcParked

/-!
# How long a parked party of the sharded channel waits for its wake

Publishing and giving a slot back are followed by the wake at once; the last handle of a
side and a shutdown wake the parties of the other side one after the other.  A party
that sleeps although its cause has come up is woken within as many steps of the one
that brought it about, whatever the others do in between.
-/

namespace ArbitroKit

open SlotLane Cyclic Transition

namespace MpmcState

variable {α : Type*} {size : MpmcSize} {s after : MpmcState α} {p shard k : Nat}

/-- The steps of the runs in which no callback panics or receives. -/
def plainStep (size : MpmcSize) (s : MpmcState α) (action : MpmcAction α) :
    Option (MpmcState α) :=
  guardedStep (fun s action => s.plainAction action = true) (fun s action => s.step size action)
    s action

theorem plainStep_eq_some {action : MpmcAction α} (taken : s.plainStep size action = some after) :
    s.plainAction action = true ∧ s.step size action = some after := by
  unfold plainStep guardedStep at taken
  split at taken
  · exact ⟨by assumption, taken⟩
  · cases taken

theorem plain_next {action : MpmcAction α} (reached : (plain size).Reachable s)
    (taken : s.plainStep size action = some after) : (plain size).Reachable after :=
  reached.next (plainStep_eq_some taken)

def ofProducer (p : Nat) : MpmcAction α → Bool
  | .producer q _ => q == p
  | _ => false

def ofConsumer (shard : Nat) : MpmcAction α → Bool
  | .consumer here _ => here == shard
  | _ => false

def ofSignaller (k : Nat) : MpmcAction α → Bool
  | .signaller other _ => other == k
  | _ => false

theorem producer_kept {action : MpmcAction α} (other : ofProducer p action = false)
    (taken : s.step size action = some after) : after.producers p = s.producers p := by
  cases action with
  | producer q action =>
      have ne : p ≠ q := fun same => by simp [ofProducer, same] at other
      exact (producerStep_frame (producer_of_step taken).2).producers p ne
  | consumer here action =>
      exact congrFun (consumerStep_frame (consumer_of_step taken).2).producers p
  | signaller k action => exact congrFun (signallerStep_frame taken).producers p

theorem consumer_kept {action : MpmcAction α} (other : ofConsumer shard action = false)
    (taken : s.step size action = some after) : after.consumers shard = s.consumers shard := by
  cases action with
  | producer q action =>
      exact congrFun (producerStep_frame (producer_of_step taken).2).consumers shard
  | consumer here action =>
      have ne : shard ≠ here := fun same => by simp [ofConsumer, same] at other
      exact (consumerStep_frame (consumer_of_step taken).2).consumers shard ne
  | signaller k action => exact congrFun (signallerStep_frame taken).consumers shard

theorem signaller_kept {action : MpmcAction α} (other : ofSignaller k action = false)
    (taken : s.step size action = some after) : after.signallers k = s.signallers k := by
  cases action with
  | producer q action =>
      exact congrFun (producerStep_frame (producer_of_step taken).2).signallers k
  | consumer here action =>
      exact congrFun (consumerStep_frame (consumer_of_step taken).2).signallers k
  | signaller here action =>
      have ne : k ≠ here := fun same => by simp [ofSignaller, same] at other
      exact (signallerStep_news taken).signallers k ne

/-- An announced consumer that is woken sleeps no more. -/
theorem consumer_awake_of_wake (covered : ConsumerCovered size s shard)
    (asleep : ConsumerAsleep s shard)
    (woken : after.consumerWaiters shard = (s.consumerWaiters shard).wake) :
    ¬ ConsumerAsleep after shard := by
  intro still
  obtain ⟨call, pcEq⟩ := asleep.parked
  have here := covered _ _ pcEq
  have noWake := still.noWake
  rw [woken, Waiter.token_wake here.1.announced] at noWake
  cases noWake

theorem producer_awake_of_wake (covered : ProducerCovered size s p) (asleep : ProducerAsleep s p)
    (woken : after.producerWaiters p = (s.producerWaiters p).wake) :
    ¬ ProducerAsleep after p := by
  intro still
  obtain ⟨value, pcEq⟩ := asleep.parked
  rw [ProducerCovered, pcEq] at covered
  have noWake := still.noWake
  rw [woken, Waiter.token_wake covered.1.announced] at noWake
  cases noWake

/-! ### The wake after a publication -/

/-- A producer that has published wakes the shard's consumer with its next step. -/
theorem publishing_step (onWay : publishing shard (s.producers p).pc = true)
    {action : MpmcProducerAction α} (taken : s.producerStep size p action = some after) :
    after.consumerWaiters shard = (s.consumerWaiters shard).wake := by
  cases pcEq : (s.producers p).pc with
  | wakeConsumer call value here =>
      rw [pcEq] at onWay
      obtain rfl := beq_iff_eq.mp onWay
      cases action with
      | tick =>
          simp only [producerStep, producerTick, pcEq, Option.some.injEq] at taken
          subst taken
          exact (consumerWaiters_wakeConsumer s here here).2 rfl
      | _ => simp [producerStep, pcEq] at taken
  | batchWake items here written =>
      rw [pcEq] at onWay
      obtain rfl := beq_iff_eq.mp onWay
      cases action with
      | tick =>
          simp only [producerStep, producerTick, pcEq, Option.some.injEq] at taken
          subst taken
          exact (consumerWaiters_wakeConsumer s here here).2 rfl
      | _ => simp [producerStep, pcEq] at taken
  | _ =>
      rw [pcEq] at onWay
      cases onWay

theorem publishing_able (inside : p < size.m)
    (onWay : publishing shard (s.producers p).pc = true) :
    ∃ after, s.plainStep size (.producer p .tick) = some after := by
  change ∃ after, (if p < size.m then s.producerTick size p else none) = some after
  rw [if_pos inside]
  unfold producerTick
  cases pcEq : (s.producers p).pc with
  | wakeConsumer call value here | batchWake items here written => exact ⟨_, rfl⟩
  | _ =>
      rw [pcEq] at onWay
      cases onWay

theorem item_countdown (bound : p < size.m) (inside : shard < size.n) :
    Countdown (fun (s : MpmcState α) action => s.plainStep size action) (ofProducer p)
      (Waiting (plain size).Reachable (fun s => ConsumerAsleep s shard)
        (fun s => publishing shard (s.producers p).pc = true) fun _ => 0)
      fun s => ¬ ConsumerAsleep s shard := by
  refine Countdown.ofRank (fun _ _ _ => plain_next) ?_ ?_ ?_
  · intro s action after reached asleep onWay own taken still
    cases action with
    | producer q action =>
        obtain rfl := beq_iff_eq.mp own
        have woken := publishing_step onWay (producer_of_step (plainStep_eq_some taken).2).2
        have covered := (allCovered reached).consumers shard inside
        exact absurd still (consumer_awake_of_wake covered asleep woken)
    | consumer here action | signaller k action => cases own
  · intro s action after _ _ onWay other taken _
    rw [producer_kept other (plainStep_eq_some taken).2]
    exact ⟨onWay, rfl⟩
  · intro s _ _ onWay
    obtain ⟨after, taken⟩ := publishing_able bound onWay
    exact ⟨.producer p .tick, after, beq_self_eq_true p, taken⟩

/-! ### The wake after a slot was given back -/

/-- A consumer that has taken from its ring `p` wakes the producer with its next step. -/
theorem taking_step (onWay : taking p (s.consumers shard) = true) {action : MpmcConsumerAction}
    (plain : s.plainAction (.consumer shard action) = true)
    (taken : s.consumerStep size shard action = some after) :
    after.producerWaiters p = (s.producerWaiters p).wake := by
  cases pcEq : s.consumers shard with
  | running frames =>
      cases frames with
      | nil =>
          rw [pcEq] at onWay
          cases onWay
      | cons frame rest =>
          rw [pcEq] at onWay
          cases frame with
          | scanWake call here value =>
              obtain rfl := beq_iff_eq.mp onWay
              cases action with
              | tick =>
                  simp only [consumerStep, consumerTick, pcEq, frameTick,
                    Option.some.injEq] at taken
                  subst taken
                  exact (producerWaiters_wakeProducer s here here).2 rfl
              | tryRecv | recv | tryRecvBatch | recvBatch =>
                  simp [plainAction, pcEq, framesOf] at plain
              | drop | panic | spin | spurious => simp [consumerStep, pcEq] at taken
          | drainWake call here count =>
              obtain rfl := beq_iff_eq.mp onWay
              cases action with
              | tick =>
                  simp only [consumerStep, consumerTick, pcEq, frameTick,
                    Option.some.injEq] at taken
                  subst taken
                  exact (producerWaiters_wakeProducer s here here).2 rfl
              | tryRecv | recv | tryRecvBatch | recvBatch =>
                  simp [plainAction, pcEq, framesOf] at plain
              | drop | panic | spin | spurious => simp [consumerStep, pcEq] at taken
          | _ => cases onWay
  | _ =>
      rw [pcEq] at onWay
      cases onWay

theorem taking_able (inside : shard < size.n) (onWay : taking p (s.consumers shard) = true) :
    ∃ after, s.plainStep size (.consumer shard .tick) = some after := by
  change ∃ after, (if shard < size.n then s.consumerTick size shard else none) = some after
  rw [if_pos inside]
  unfold consumerTick
  cases pcEq : s.consumers shard with
  | running frames =>
      cases frames with
      | nil =>
          rw [pcEq] at onWay
          cases onWay
      | cons frame rest =>
          rw [pcEq] at onWay
          cases frame with
          | scanWake call here value | drainWake call here count => exact ⟨_, rfl⟩
          | _ => cases onWay
  | _ =>
      rw [pcEq] at onWay
      cases onWay

theorem room_countdown (bound : p < size.m) (inside : shard < size.n) :
    Countdown (fun (s : MpmcState α) action => s.plainStep size action) (ofConsumer shard)
      (Waiting (plain size).Reachable (fun s => ProducerAsleep s p)
        (fun s => taking p (s.consumers shard) = true) fun _ => 0)
      fun s => ¬ ProducerAsleep s p := by
  refine Countdown.ofRank (fun _ _ _ => plain_next) ?_ ?_ ?_
  · intro s action after reached asleep onWay own taken still
    obtain ⟨plain, taken⟩ := plainStep_eq_some taken
    cases action with
    | consumer here action =>
        obtain rfl := beq_iff_eq.mp own
        have woken := taking_step onWay plain (consumer_of_step taken).2
        have covered := (allCovered reached).producers p bound
        exact absurd still (producer_awake_of_wake covered asleep woken)
    | producer q action | signaller k action => cases own
  · intro s action after _ _ onWay other taken _
    rw [consumer_kept other (plainStep_eq_some taken).2]
    exact ⟨onWay, rfl⟩
  · intro s _ _ onWay
    obtain ⟨after, taken⟩ := taking_able inside onWay
    exact ⟨.consumer shard .tick, after, beq_self_eq_true shard, taken⟩

/-! ### The wakes of the last handle of a side -/

/-- How many steps the last producer has to take before the one that wakes the shard. -/
def leaveRank (shard : Nat) : MpmcProducerPc α → Nat
  | .wakeLast here => shard - here
  | _ => 0

theorem leaving_step (inside : shard < size.n)
    (onWay : lastLeaving shard (s.producers p).pc = true) {action : MpmcProducerAction α}
    (taken : s.producerStep size p action = some after) :
    after.consumerWaiters shard = (s.consumerWaiters shard).wake ∨
      leaveRank shard (after.producers p).pc < leaveRank shard (s.producers p).pc := by
  cases pcEq : (s.producers p).pc with
  | wakeLast here =>
      rw [pcEq] at onWay
      have le : here ≤ shard := of_decide_eq_true onWay
      cases action with
      | tick =>
          simp only [producerStep, producerTick, pcEq] at taken
          rw [if_pos (by omega), Option.some.injEq] at taken
          subst taken
          rcases le.eq_or_lt with rfl | further
          · exact .inl ((consumerWaiters_wakeConsumer s here here).2 rfl)
          · rw [producers_producerAt]
            refine .inr ?_
            simp only [leaveRank]
            omega
      | _ => simp [producerStep, pcEq] at taken
  | _ =>
      rw [pcEq] at onWay
      cases onWay

theorem leaving_able (bound : p < size.m) (onWay : lastLeaving shard (s.producers p).pc = true) :
    ∃ after, s.plainStep size (.producer p .tick) = some after := by
  change ∃ after, (if p < size.m then s.producerTick size p else none) = some after
  rw [if_pos bound]
  unfold producerTick
  cases pcEq : (s.producers p).pc with
  | wakeLast here =>
      dsimp only
      split <;> exact ⟨_, rfl⟩
  | _ =>
      rw [pcEq] at onWay
      cases onWay

theorem lastProducer_countdown (bound : p < size.m) (inside : shard < size.n) :
    Countdown (fun (s : MpmcState α) action => s.plainStep size action) (ofProducer p)
      (Waiting (plain size).Reachable (fun s => ConsumerAsleep s shard)
        (fun s => lastLeaving shard (s.producers p).pc = true)
        fun s => leaveRank shard (s.producers p).pc)
      fun s => ¬ ConsumerAsleep s shard := by
  refine Countdown.ofRank (fun _ _ _ => plain_next) ?_ ?_ ?_
  · intro s action after reached asleep onWay own taken still
    have covered := (allCovered reached).consumers shard inside
    have awake (woken : after.consumerWaiters shard = (s.consumerWaiters shard).wake) : False :=
      consumer_awake_of_wake covered asleep woken still
    cases action with
    | producer q action =>
        obtain rfl := beq_iff_eq.mp own
        have taken := (producer_of_step (plainStep_eq_some taken).2).2
        have kept := (producerStep_news taken).left shard inside onWay
        exact ⟨kept.resolve_right awake, (leaving_step inside onWay taken).resolve_left awake⟩
    | consumer here action | signaller k action => cases own
  · intro s action after _ _ onWay other taken _
    rw [producer_kept other (plainStep_eq_some taken).2]
    exact ⟨onWay, rfl⟩
  · intro s _ _ onWay
    obtain ⟨after, taken⟩ := leaving_able bound onWay
    exact ⟨.producer p .tick, after, beq_self_eq_true p, taken⟩

/-- How many steps the last consumer has to take before the one that wakes producer `p`. -/
def dropRank (p : Nat) : MpmcConsumerPc α → Nat
  | .wakeLast here => p - here
  | _ => 0

theorem dropping_step (bound : p < size.m) (onWay : lastDropping p (s.consumers shard) = true)
    {action : MpmcConsumerAction} (taken : s.consumerStep size shard action = some after) :
    after.producerWaiters p = (s.producerWaiters p).wake ∨
      lastDropping p (after.consumers shard) = true ∧
        dropRank p (after.consumers shard) < dropRank p (s.consumers shard) := by
  cases pcEq : s.consumers shard with
  | wakeLast here =>
      rw [pcEq] at onWay
      have le : here ≤ p := of_decide_eq_true onWay
      cases action with
      | tick =>
          simp only [consumerStep, consumerTick, pcEq] at taken
          rw [if_pos (by omega), Option.some.injEq] at taken
          subst taken
          rcases le.eq_or_lt with rfl | further
          · exact .inl ((producerWaiters_wakeProducer s here here).2 rfl)
          · rw [consumers_consumerAt]
            refine .inr ⟨decide_eq_true further, ?_⟩
            simp only [dropRank]
            omega
      | _ => simp [consumerStep, call, pcEq] at taken
  | _ =>
      rw [pcEq] at onWay
      cases onWay

theorem dropping_able (inside : shard < size.n)
    (onWay : lastDropping p (s.consumers shard) = true) :
    ∃ after, s.plainStep size (.consumer shard .tick) = some after := by
  change ∃ after, (if shard < size.n then s.consumerTick size shard else none) = some after
  rw [if_pos inside]
  unfold consumerTick
  cases pcEq : s.consumers shard with
  | wakeLast here =>
      dsimp only
      split <;> exact ⟨_, rfl⟩
  | _ =>
      rw [pcEq] at onWay
      cases onWay

theorem lastConsumer_countdown (bound : p < size.m) (inside : shard < size.n) :
    Countdown (fun (s : MpmcState α) action => s.plainStep size action) (ofConsumer shard)
      (Waiting (plain size).Reachable (fun s => ProducerAsleep s p)
        (fun s => lastDropping p (s.consumers shard) = true)
        fun s => dropRank p (s.consumers shard))
      fun s => ¬ ProducerAsleep s p := by
  refine Countdown.ofRank (fun _ _ _ => plain_next) ?_ ?_ ?_
  · intro s action after reached asleep onWay own taken still
    have covered := (allCovered reached).producers p bound
    cases action with
    | consumer here action =>
        obtain rfl := beq_iff_eq.mp own
        have taken := (consumer_of_step (plainStep_eq_some taken).2).2
        exact (dropping_step bound onWay taken).resolve_left fun woken =>
          producer_awake_of_wake covered asleep woken still
    | producer q action | signaller k action => cases own
  · intro s action after _ _ onWay other taken _
    rw [consumer_kept other (plainStep_eq_some taken).2]
    exact ⟨onWay, rfl⟩
  · intro s _ _ onWay
    obtain ⟨after, taken⟩ := dropping_able inside onWay
    exact ⟨.consumer shard .tick, after, beq_self_eq_true shard, taken⟩

/-! ### The wakes of a shutdown -/

/-- How many steps a signal has to take before the one that wakes the shard's consumer. -/
def consumerSignalRank (shard : Nat) : MpmcSignalPc → Nat
  | .wakeConsumer here => shard - here
  | _ => 0

/-- The same for producer `p`, whose turn comes after the consumers'. -/
def producerSignalRank (size : MpmcSize) (p : Nat) : MpmcSignalPc → Nat
  | .wakeConsumer here => (size.n - here) + 1 + p
  | .wakeProducer here => p - here
  | .idle => 0

theorem signal_able (size : MpmcSize) (busy : s.signallers k ≠ .idle) :
    ∃ after, s.plainStep size (.signaller k .tick) = some after := by
  change ∃ after, s.signallerStep size k .tick = some after
  simp only [signallerStep]
  cases pcEq : s.signallers k with
  | idle => exact absurd pcEq busy
  | wakeConsumer here | wakeProducer here =>
      dsimp only
      split <;> exact ⟨_, rfl⟩

/-- A signal under way goes on with its next step. -/
theorem signal_tick {action : MpmcSignalAction} (busy : s.signallers k ≠ .idle)
    (taken : s.signallerStep size k action = some after) : action = .tick := by
  cases action with
  | tick => rfl
  | signal =>
      simp only [signallerStep] at taken
      cases taken

theorem consumerSignal_step (inside : shard < size.n)
    (onWay : signallingConsumer shard (s.signallers k) = true) {action : MpmcSignalAction}
    (taken : s.signallerStep size k action = some after) :
    after.consumerWaiters shard = (s.consumerWaiters shard).wake ∨
      consumerSignalRank shard (after.signallers k) <
        consumerSignalRank shard (s.signallers k) := by
  cases pcEq : s.signallers k with
  | wakeConsumer here =>
      rw [pcEq] at onWay
      have le : here ≤ shard := of_decide_eq_true onWay
      obtain rfl := signal_tick (by simp [pcEq]) taken
      simp only [signallerStep, pcEq] at taken
      rw [if_pos (by omega), Option.some.injEq] at taken
      subst taken
      rcases le.eq_or_lt with rfl | further
      · exact .inl ((consumerWaiters_wakeConsumer s here here).2 rfl)
      · rw [signallers_signallerAt]
        refine .inr ?_
        simp only [consumerSignalRank]
        omega
  | _ =>
      rw [pcEq] at onWay
      cases onWay

theorem producerSignal_step (bound : p < size.m)
    (onWay : signallingProducer p (s.signallers k) = true) {action : MpmcSignalAction}
    (taken : s.signallerStep size k action = some after) :
    after.producerWaiters p = (s.producerWaiters p).wake ∨
      producerSignalRank size p (after.signallers k) <
        producerSignalRank size p (s.signallers k) := by
  cases pcEq : s.signallers k with
  | idle =>
      rw [pcEq] at onWay
      cases onWay
  | wakeConsumer here =>
      obtain rfl := signal_tick (by simp [pcEq]) taken
      simp only [signallerStep, pcEq] at taken
      refine .inr ?_
      split at taken <;> cases taken <;> rw [signallers_signallerAt] <;>
        simp only [producerSignalRank] <;> omega
  | wakeProducer here =>
      rw [pcEq] at onWay
      have le : here ≤ p := of_decide_eq_true onWay
      obtain rfl := signal_tick (by simp [pcEq]) taken
      simp only [signallerStep, pcEq] at taken
      rw [if_pos (by omega), Option.some.injEq] at taken
      subst taken
      rcases le.eq_or_lt with rfl | further
      · exact .inl ((producerWaiters_wakeProducer s here here).2 rfl)
      · rw [signallers_signallerAt]
        refine .inr ?_
        simp only [producerSignalRank]
        omega

theorem consumerShutdown_countdown (inside : shard < size.n) (k : Nat) :
    Countdown (fun (s : MpmcState α) action => s.plainStep size action) (ofSignaller k)
      (Waiting (plain size).Reachable (fun s => ConsumerAsleep s shard)
        (fun s => signallingConsumer shard (s.signallers k) = true)
        fun s => consumerSignalRank shard (s.signallers k))
      fun s => ¬ ConsumerAsleep s shard := by
  refine Countdown.ofRank (fun _ _ _ => plain_next) ?_ ?_ ?_
  · intro s action after reached asleep onWay own taken still
    have covered := (allCovered reached).consumers shard inside
    have awake (woken : after.consumerWaiters shard = (s.consumerWaiters shard).wake) : False :=
      consumer_awake_of_wake covered asleep woken still
    cases action with
    | signaller here action =>
        obtain rfl := beq_iff_eq.mp own
        have taken := (plainStep_eq_some taken).2
        have kept := (signallerStep_news taken).toConsumer shard inside onWay
        exact ⟨kept.resolve_right awake,
          (consumerSignal_step inside onWay taken).resolve_left awake⟩
    | producer q action | consumer here action => cases own
  · intro s action after _ _ onWay other taken _
    rw [signaller_kept other (plainStep_eq_some taken).2]
    exact ⟨onWay, rfl⟩
  · intro s _ _ onWay
    have busy : s.signallers k ≠ .idle := by
      intro idle
      rw [idle] at onWay
      cases onWay
    obtain ⟨after, taken⟩ := signal_able size busy
    exact ⟨.signaller k .tick, after, beq_self_eq_true k, taken⟩

theorem producerShutdown_countdown (bound : p < size.m) (k : Nat) :
    Countdown (fun (s : MpmcState α) action => s.plainStep size action) (ofSignaller k)
      (Waiting (plain size).Reachable (fun s => ProducerAsleep s p)
        (fun s => signallingProducer p (s.signallers k) = true)
        fun s => producerSignalRank size p (s.signallers k))
      fun s => ¬ ProducerAsleep s p := by
  refine Countdown.ofRank (fun _ _ _ => plain_next) ?_ ?_ ?_
  · intro s action after reached asleep onWay own taken still
    have covered := (allCovered reached).producers p bound
    have awake (woken : after.producerWaiters p = (s.producerWaiters p).wake) : False :=
      producer_awake_of_wake covered asleep woken still
    cases action with
    | signaller here action =>
        obtain rfl := beq_iff_eq.mp own
        have taken := (plainStep_eq_some taken).2
        have kept := (signallerStep_news taken).toProducer p bound onWay
        exact ⟨kept.resolve_right awake,
          (producerSignal_step bound onWay taken).resolve_left awake⟩
    | producer q action | consumer here action => cases own
  · intro s action after _ _ onWay other taken _
    rw [signaller_kept other (plainStep_eq_some taken).2]
    exact ⟨onWay, rfl⟩
  · intro s _ _ onWay
    have busy : s.signallers k ≠ .idle := by
      intro idle
      rw [idle] at onWay
      cases onWay
    obtain ⟨after, taken⟩ := signal_able size busy
    exact ⟨.signaller k .tick, after, beq_self_eq_true k, taken⟩

/-! ### The bounds -/

/-- Every run from here in which the party takes `count` steps passes through a state in
which the shard's consumer no longer sleeps. -/
def WakesConsumer (size : MpmcSize) (shard : Nat) (own : MpmcAction α → Bool) (count : Nat)
    (s : MpmcState α) : Prop :=
  ReachedWithin (fun s action => s.plainStep size action) own count
    (fun s => ¬ ConsumerAsleep s shard) s

/-- The same for producer `p`. -/
def WakesProducer (size : MpmcSize) (p : Nat) (own : MpmcAction α → Bool) (count : Nat)
    (s : MpmcState α) : Prop :=
  ReachedWithin (fun s action => s.plainStep size action) own count
    (fun s => ¬ ProducerAsleep s p) s

/-- A sleeping party whose cause has come up, and the steps that wake it. -/
structure WokenInTime (size : MpmcSize) (s : MpmcState α) : Prop where
  item : ∀ shard < size.n, ConsumerAsleep s shard → ∀ p < size.m,
    (s.rings shard p).head ≠ (s.rings shard p).tail →
      WakesConsumer size shard (ofProducer p) 1 s
  consumerShutdown : ∀ shard < size.n, ConsumerAsleep s shard → s.shutdown = true →
    ∃ k, WakesConsumer size shard (ofSignaller k) (shard + 1) s
  lastProducer : ∀ shard < size.n, ConsumerAsleep s shard → s.liveProducers = 0 →
    ∃ p < size.m, WakesConsumer size shard (ofProducer p) (shard + 1) s
  room : ∀ p < size.m, ProducerAsleep s p → ∀ shard < size.n, s.full size shard p = false →
    WakesProducer size p (ofConsumer shard) 1 s
  producerShutdown : ∀ p < size.m, ProducerAsleep s p → s.shutdown = true →
    ∃ k, WakesProducer size p (ofSignaller k) (size.n + p + 2) s
  lastConsumer : ∀ p < size.m, ProducerAsleep s p → s.liveConsumers = 0 →
    ∃ shard < size.n, WakesProducer size p (ofConsumer shard) (p + 1) s

/-- In every order of steps: an item wakes the shard's sleeping consumer with the next
step of its producer and a free slot a sleeping producer with the next step of its
consumer; the last producer reaches shard `shard` within `shard + 1` of its steps, the
last consumer producer `p` within `p + 1`, and a signal reaches them within `shard + 1`
and `n + p + 2`. -/
theorem plain_wokenInTime (reached : (plain size).Reachable s) : WokenInTime size s := by
  have parked := (allCovered reached).nobodyStranded
  constructor
  · intro shard inside asleep p bound item
    exact (item_countdown bound inside).reachedWithin
      ⟨reached, asleep, parked.item shard inside asleep p bound item, le_rfl⟩
  · intro shard inside asleep shutdown
    obtain ⟨k, signalling⟩ := parked.consumerShutdown shard inside asleep shutdown
    have waits := (consumerShutdown_countdown inside k).reachedWithin
      ⟨reached, asleep, signalling, le_rfl⟩
    refine ⟨k, waits.mono (Nat.succ_le_succ ?_)⟩
    cases s.signallers k <;> first | exact Nat.zero_le _ | exact Nat.sub_le _ _
  · intro shard inside asleep none
    obtain ⟨p, bound, leaving⟩ := parked.lastProducer shard inside asleep none
    have waits := (lastProducer_countdown bound inside).reachedWithin
      ⟨reached, asleep, leaving, le_rfl⟩
    refine ⟨p, bound, waits.mono (Nat.succ_le_succ ?_)⟩
    cases (s.producers p).pc <;> first | exact Nat.zero_le _ | exact Nat.sub_le _ _
  · intro p bound asleep shard inside room
    exact (room_countdown bound inside).reachedWithin
      ⟨reached, asleep, parked.room p bound asleep shard inside room, le_rfl⟩
  · intro p bound asleep shutdown
    obtain ⟨k, signalling⟩ := parked.producerShutdown p bound asleep shutdown
    have waits := (producerShutdown_countdown bound k).reachedWithin
      ⟨reached, asleep, signalling, le_rfl⟩
    refine ⟨k, waits.mono (Nat.succ_le_succ ?_)⟩
    cases s.signallers k <;> simp only [producerSignalRank] <;> omega
  · intro p bound asleep none
    obtain ⟨shard, inside, dropping⟩ := parked.lastConsumer p bound asleep none
    have waits := (lastConsumer_countdown bound inside).reachedWithin
      ⟨reached, asleep, dropping, le_rfl⟩
    refine ⟨shard, inside, waits.mono (Nat.succ_le_succ ?_)⟩
    cases s.consumers shard <;> first | exact Nat.zero_le _ | exact Nat.sub_le _ _

theorem plain_wokenInTime_publishedBeforeWake :
    ∃ s : MpmcState Nat, (plain twoShards).Reachable s ∧ ConsumerAsleep s 0 ∧
      WakesConsumer twoShards 0 (ofProducer 0) 1 s := by
  have ran : (Transition.execute (Transition.guardedStep
      (fun s (action : MpmcAction Nat) => s.plainAction action = true)
      fun s action => s.step twoShards action) (new twoShards) publishedBeforeWake).map
        (fun s => (s.consumers 0, (s.consumerWaiters 0).token, (s.rings 0 0).head,
          (s.rings 0 0).tail)) = some (.running [.waitPark .recv], false, 1, 0) := by
    rfl
  obtain ⟨s, ran, seen⟩ := Option.map_eq_some_iff.mp ran
  obtain ⟨parked, noWake, head, tail⟩ := by simpa only [Prod.mk.injEq] using seen
  have reached : (plain twoShards).Reachable s := System.reachable_of_guarded_execute rfl ran
  have asleep : ConsumerAsleep s 0 := ⟨⟨_, parked⟩, noWake⟩
  have item : (s.rings 0 0).head ≠ (s.rings 0 0).tail := by
    rw [head, tail]
    decide
  exact ⟨s, reached, asleep,
    (plain_wokenInTime reached).item 0 twoShards.n_pos asleep 0 twoShards.m_pos item⟩

end MpmcState

end ArbitroKit
