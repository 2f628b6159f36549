import ArbitroKit.Countdown
import ArbitroKit.RingAsyncQueue

/-!
# The ring's futures are woken

A future of the ring that sleeps unnotified sleeps in front of a full, or an empty, ring
that is still open, or the other side is on its way to its gate and notifies it within a
few steps of its own.
-/

namespace ArbitroKit

open Coherent SlotLane Cyclic Transition

namespace AsyncRing

open AsyncGate RingState

variable {α : Type*} {cap : Cap} {s after : AsyncRing α}

/-- The future of `send_async` sleeps, and nothing has notified it. -/
def SenderAsleep (s : AsyncRing α) : Prop :=
  (∃ value, s.sender = .waits value .suspended) ∧ s.notFull.notify.future ≠ some .notified

/-- The future of `recv_async` sleeps, and nothing has notified it. -/
def ReceiverAsleep (s : AsyncRing α) : Prop :=
  s.receiver = .waits .suspended ∧ s.notEmpty.notify.future ≠ some .notified

/-- `len`, of the newest cursors. -/
def occupancy (s : AsyncRing α) : Nat :=
  (s.ring.shared.head.current - s.ring.shared.tail.current).toNat

theorem LinkOk.sender_calm (ok : LinkOk cap s) (asleep : SenderAsleep s)
    (quiet : consumerDue s.ring.consumer.pc = false) :
    s.occupancy = cap.size ∧ s.ring.shared.closed = false := by
  obtain ⟨⟨value, here⟩, unnotified⟩ := asleep
  have sends := ok.sends
  have tails := ok.tails
  rw [here] at sends
  rw [TailListens, here] at tails
  have calm := tails.calm_of_suspended sends trivial unnotified (by simp [quiet])
  constructor
  · rw [occupancy, ok.shared.occupancy_eq, calm.1, Nat.add_sub_cancel_left]
  · exact Bool.eq_false_of_not_eq_true calm.2

theorem LinkOk.receiver_calm (ok : LinkOk cap s) (asleep : ReceiverAsleep s)
    (quiet : producerDue s.ring.producer.pc = false) :
    s.occupancy = 0 ∧ s.ring.shared.closed = false := by
  obtain ⟨here, unnotified⟩ := asleep
  have receives := ok.receives
  have heads := ok.heads
  rw [here] at receives
  rw [HeadListens, here] at heads
  have calm := heads.calm_of_suspended receives trivial unnotified (by simp [quiet])
  constructor
  · rw [occupancy, ok.shared.occupancy_eq, calm.1, Nat.sub_self]
  · exact Bool.eq_false_of_not_eq_true calm.2

/-- A side that waits is in no call of its own. -/
theorem LinkOk.producer_idle (ok : LinkOk cap s) (asleep : SenderAsleep s) :
    s.ring.producer.pc = .idle := by
  obtain ⟨value, here⟩ := asleep.1
  have idle := ok.senderAt
  rw [here] at idle
  exact idle

theorem LinkOk.consumer_idle (ok : LinkOk cap s) (asleep : ReceiverAsleep s) :
    s.ring.consumer.pc = .idle := by
  have idle := ok.receiverAt
  rw [asleep.1] at idle
  exact idle

/-- No wake-up is lost between the two futures. -/
structure NobodySleepsOver (cap : Cap) (s : AsyncRing α) : Prop where
  sender : SenderAsleep s → consumerDue s.ring.consumer.pc = false →
    s.occupancy = cap.size ∧ s.ring.shared.closed = false
  receiver : ReceiverAsleep s → producerDue s.ring.producer.pc = false →
    s.occupancy = 0 ∧ s.ring.shared.closed = false
  notBoth : SenderAsleep s → ¬ ReceiverAsleep s
  /-- A task that is away from its gate has left it disarmed and unregistered. -/
  senderDisarmed : s.sender.phase = .away →
    s.notFull.armed = 0 ∧ s.notFull.notify.future = none
  receiverDisarmed : s.receiver.phase = .away →
    s.notEmpty.armed = 0 ∧ s.notEmpty.notify.future = none

/-- In every state of every run, whatever was dropped on the way. -/
theorem futures_nobodySleepsOver (reached : (system cap).Reachable s) :
    NobodySleepsOver cap s := by
  have ok := linkOk reached
  constructor
  · exact ok.sender_calm
  · exact ok.receiver_calm
  · intro sender receiver
    have full := (ok.sender_calm sender (by rw [ok.consumer_idle receiver]; rfl)).1
    have empty := (ok.receiver_calm receiver (by rw [ok.producer_idle sender]; rfl)).1
    have positive := cap.size_pos
    omega
  · intro away
    have sends := ok.sends
    rw [away] at sends
    exact ⟨sends.armed, sends.future⟩
  · intro away
    have receives := ok.receives
    rw [away] at receives
    exact ⟨receives.armed, receives.future⟩

/-- A `send_async` sleeps behind a full slot that a `try_recv` has just given back, in front
of its wake. -/
def sleepThenReceive : List (AsyncRingAction Nat) :=
  [AsyncRingAction.sender (.trySend 1)] ++ List.replicate 5 (.sender (.tick 0 false)) ++
    [.sender (.sendAsync 2)] ++ List.replicate 13 (.sender (.tick 0 false)) ++
    [.receiver .tryRecv, .receiver (.tick 1 false), .receiver (.tick 0 false),
      .receiver (.tick 0 false)]

theorem sleepThenReceive_ran :
    ∃ s, Transition.execute (fun s action => s.step oneSlotCap action) (new : AsyncRing Nat)
        sleepThenReceive = some s ∧
      (SenderAsleep s ∧ s.occupancy = 0) ∧ (system oneSlotCap).Reachable s := by
  have ran : (Transition.execute (fun s action => s.step oneSlotCap action)
      (new : AsyncRing Nat) sleepThenReceive).map
        (fun s => (s.sender, s.notFull.notify.future, s.occupancy)) =
      some (.waits 2 .suspended, some .waiting, 0) := by
    rfl
  obtain ⟨s, ran, outcome⟩ := Option.map_eq_some_iff.mp ran
  simp only [Prod.mk.injEq] at outcome
  obtain ⟨here, waiting, none⟩ := outcome
  refine ⟨s, ran, ⟨⟨⟨2, here⟩, ?_⟩, none⟩, System.reachable_of_execute rfl ran⟩
  rw [waiting]
  simp

theorem futures_nobodySleepsOver_sleepThenReceive :
    ∃ s, Transition.execute (fun s action => s.step oneSlotCap action) (new : AsyncRing Nat)
        sleepThenReceive = some s ∧
      (SenderAsleep s ∧ s.occupancy = 0) ∧ NobodySleepsOver oneSlotCap s := by
  obtain ⟨s, ran, outcome, reached⟩ := sleepThenReceive_ran
  exact ⟨s, ran, outcome, futures_nobodySleepsOver reached⟩

/-! ### How many steps a wake takes -/

/-- The steps of a wake that are left behind this one, at most. -/
def wakeRank : WakeStage → Nat
  | .probe => 2
  | .fetchAdd => 1
  | .notifyOne => 0

theorem wakeRank_lt {gate : AsyncGate} {stored : Option (Nat × Nat)} {saw : Bool}
    {stage next : WakeStage} (goes : (gate.wakeStep stored saw stage).2 = some next) :
    wakeRank next < wakeRank stage := by
  cases stage with
  | probe => cases saw <;> cases goes <;> decide
  | fetchAdd =>
      simp only [AsyncGate.wakeStep] at goes
      split at goes <;> cases goes
      decide
  | notifyOne => cases goes

/-- A wake that is over has notified the task that sleeps. -/
theorem notified_of_leaves {gate : AsyncGate} (ok : gate.Ok .suspended)
    (unnotified : gate.notify.future ≠ some .notified) {stored : Option (Nat × Nat)}
    {saw : Bool} {stage : WakeStage} (leaves : (gate.wakeStep stored saw stage).2 = none) :
    (gate.wakeStep stored saw stage).1.notify.future = some .notified := by
  have waiting : gate.notify = ⟨false, some .waiting⟩ := ok.future.resolve_right unnotified
  cases stage with
  | probe => cases leaves
  | fetchAdd =>
      rw [AsyncGate.wakeStep, if_pos (ok.armed_ne_zero rfl)] at leaves
      cases leaves
  | notifyOne =>
      change gate.notify.notifyOne.future = _
      rw [waiting]
      rfl

/-- The poll of a sleeping future that nothing has notified is pending. -/
theorem poll_pending {gate : AsyncGate} (ok : gate.Ok .suspended)
    (unnotified : gate.notify.future ≠ some .notified) : gate.poll.1 = false := by
  have waiting : gate.notify = ⟨false, some .waiting⟩ := ok.future.resolve_right unnotified
  rw [AsyncGate.poll, waiting]
  rfl

def ofSender : AsyncRingAction α → Bool
  | .sender _ => true
  | .receiver _ => false

def ofReceiver : AsyncRingAction α → Bool
  | .sender _ => false
  | .receiver _ => true

/-! ### The sender is woken -/

/-- Inside a wake the receiver's side only ticks. -/
theorem LinkOk.consumerTicks (ok : LinkOk cap s) {which : RingGate}
    (wakes : consumerWakes s.ring.consumer.pc = some which) {action : RingReceiverAction}
    (taken : s.receiverStep cap action = some after) :
    ∃ index saw, ConsumerTicks cap s index saw after := by
  have here := ok.receiverAt
  have busy : s.ring.consumer.pc ≠ .idle := by
    intro idle
    rw [idle] at wakes
    cases wakes
  have called {call : ConsumerAction} {pc : RingReceiverPc}
      (taken : s.consumerCall cap call pc = some after) :
      ∃ index saw, ConsumerTicks cap s index saw after := by
    unfold AsyncRing.consumerCall at taken
    split at taken
    · rename_i idle
      rw [idle] at here
      exact absurd here busy
    · cases taken
  cases action with
  | tryRecv | drain | drop => exact called taken
  | recvAsync =>
      simp only [AsyncRing.receiverStep] at taken
      split at taken
      · rename_i idle
        rw [idle] at here
        exact absurd here busy
      · cases taken
  | cancel =>
      simp only [AsyncRing.receiverStep] at taken
      split at taken
      · rename_i pcEq
        rw [pcEq] at here
        exact absurd here busy
      · rename_i pcEq
        rw [pcEq] at here
        exact absurd here busy
      · cases taken
  | tick index saw =>
      refine ⟨index, saw, ?_⟩
      change s.receiverTick cap index saw = some after at taken
      unfold AsyncRing.receiverTick at taken
      cases pcEq : s.receiver with
      | idle | gone => simp [pcEq] at taken
      | unpolled | enterTryRecv | waits pc =>
          rw [pcEq] at here
          exact absurd here busy
      | inCall | inTryRecv | inClose =>
          simp only [pcEq] at taken
          split at taken
          · rename_i elsewhere
            rw [elsewhere] at wakes
            cases wakes
          · exact consumerTicks_of taken

/-- Inside a wake the receiver's side can tick. -/
theorem LinkOk.consumerTick_able (ok : LinkOk cap s) {which : RingGate}
    (wakes : consumerWakes s.ring.consumer.pc = some which) :
    ∃ after, s.receiverStep cap (.tick 0 false) = some after := by
  have here := ok.receiverAt
  have ticked : ∃ ring, s.ring.consumerTick cap 0 = some ring := by
    unfold RingState.consumerTick
    cases pcEq : s.ring.consumer.pc with
    | recvWake call value | drainWake head consumed | dropWakeFull | dropWakeEmpty =>
        exact ⟨_, rfl⟩
    | _ =>
        rw [pcEq] at wakes
        cases wakes
  obtain ⟨ring, ticked⟩ := ticked
  have inside : ∃ after, s.consumerTick cap 0 false = some after := by
    unfold AsyncRing.consumerTick
    rw [wakes]
    dsimp only
    split
    · exact ⟨_, rfl⟩
    · rw [ticked]
      exact ⟨_, rfl⟩
  change ∃ after, s.receiverTick cap 0 false = some after
  unfold AsyncRing.receiverTick
  cases pcEq : s.receiver with
  | inCall | inTryRecv | inClose =>
      dsimp only
      split
      · rename_i elsewhere
        rw [elsewhere] at wakes
        cases wakes
      · exact inside
  | gone =>
      rw [pcEq] at here
      rw [show s.ring.consumer.pc = .gone from here] at wakes
      cases wakes
  | _ =>
      rw [pcEq] at here
      rw [show s.ring.consumer.pc = .idle from here] at wakes
      cases wakes

/-- A sleeping sender that nothing has notified takes no step but to be dropped. -/
theorem LinkOk.sender_stays (ok : LinkOk cap s) (asleep : SenderAsleep s)
    {action : RingSenderAction α} (taken : s.senderStep cap action = some after) :
    ¬ SenderAsleep after := by
  obtain ⟨⟨value, here⟩, unnotified⟩ := asleep
  have sends := ok.sends
  rw [here] at sends
  cases action with
  | cancel =>
      simp only [AsyncRing.senderStep, here, Option.some.injEq] at taken
      subst taken
      rintro ⟨⟨other, suspended⟩, -⟩
      cases suspended
  | tick index saw =>
      have pending := poll_pending sends unnotified
      simp [AsyncRing.senderStep, AsyncRing.senderTick, here, AsyncRing.sendWait, AwaitPc.tick,
        AwaitPc.pollNotified, pending] at taken
  | _ => simp [AsyncRing.senderStep, AsyncRing.producerCall, here] at taken

/-- The receiver that is on its way wakes the sender. -/
theorem sender_countdown : Countdown (fun (s : AsyncRing α) action => s.step cap action) ofReceiver
    (Waiting (LinkOk cap) SenderAsleep (fun s => consumerDue s.ring.consumer.pc = true)
      fun s => wakeRank s.recvStage)
    fun s => ¬ SenderAsleep s := by
  apply Countdown.ofRank
  · intro s action after ok taken
    exact ok.step taken
  · intro s action after ok asleep due isOwn taken still
    cases action with
    | sender action => cases isOwn
    | receiver action =>
        have wakes := consumerDue_iff.mp due
        obtain ⟨index, saw, ticks⟩ := ok.consumerTicks wakes taken
        obtain ⟨⟨value, here⟩, unnotified⟩ := asleep
        have sends := ok.sends
        rw [here] at sends
        cases ticks with
        | silent silent =>
            rw [silent] at wakes
            cases wakes
        | inWake same goes =>
            obtain rfl := Option.some.inj (same.symm.trans wakes)
            exact ⟨due, wakeRank_lt goes⟩
        | woken same leaves =>
            obtain rfl := Option.some.inj (same.symm.trans wakes)
            exact absurd (notified_of_leaves sends unnotified leaves) still.2
  · intro s action after ok asleep due isOther taken still
    cases action with
    | sender action => exact absurd still (ok.sender_stays asleep taken)
    | receiver action => cases isOther
  · intro s ok asleep due
    obtain ⟨after, taken⟩ := ok.consumerTick_able (consumerDue_iff.mp due)
    exact ⟨.receiver (.tick 0 false), after, rfl, taken⟩

/-! ### The receiver is woken -/

/-- The steps in front of the notification: a drop wakes the other waiter first. -/
def senderRank (s : AsyncRing α) : Nat :=
  match s.ring.producer.pc with
  | .dropWakeFull => 3 + wakeRank s.sendStage
  | _ => wakeRank s.sendStage

/-- Inside a wake the sender's side only ticks. -/
theorem LinkOk.producerTicks (ok : LinkOk cap s) {which : RingGate}
    (wakes : producerWakes s.ring.producer.pc = some which) {action : RingSenderAction α}
    (taken : s.senderStep cap action = some after) :
    ∃ index saw, ProducerTicks cap s index saw after := by
  have here := ok.senderAt
  have busy : s.ring.producer.pc ≠ .idle := by
    intro idle
    rw [idle] at wakes
    cases wakes
  have called {call : ProducerAction α} {pc : RingSenderPc α}
      (taken : s.producerCall cap call pc = some after) :
      ∃ index saw, ProducerTicks cap s index saw after := by
    unfold AsyncRing.producerCall at taken
    split at taken
    · rename_i idle
      rw [idle] at here
      exact absurd here busy
    · cases taken
  cases action with
  | trySend value | trySendBulk items | drop => exact called taken
  | sendAsync value =>
      simp only [AsyncRing.senderStep] at taken
      split at taken
      · rename_i idle
        rw [idle] at here
        exact absurd here busy
      · cases taken
  | cancel =>
      simp only [AsyncRing.senderStep] at taken
      split at taken
      · rename_i pcEq
        rw [pcEq] at here
        exact absurd here busy
      · rename_i pcEq
        rw [pcEq] at here
        exact absurd here busy
      · cases taken
  | tick index saw =>
      refine ⟨index, saw, ?_⟩
      change s.senderTick cap index saw = some after at taken
      unfold AsyncRing.senderTick at taken
      cases pcEq : s.sender with
      | idle | gone => simp [pcEq] at taken
      | unpolled value | enterTrySend value | waits value pc =>
          rw [pcEq] at here
          exact absurd here busy
      | inCall | inTrySend value | inClose =>
          simp only [pcEq] at taken
          split at taken
          · rename_i elsewhere
            rw [elsewhere] at wakes
            cases wakes
          · exact producerTicks_of taken

/-- Inside a wake the sender's side can tick. -/
theorem LinkOk.producerTick_able (ok : LinkOk cap s) {which : RingGate}
    (wakes : producerWakes s.ring.producer.pc = some which) :
    ∃ after, s.senderStep cap (.tick 0 false) = some after := by
  have here := ok.senderAt
  have ticked : ∃ ring, s.ring.producerTick cap 0 = some ring := by
    unfold RingState.producerTick
    cases pcEq : s.ring.producer.pc with
    | sendWake call value | bulkWake items written | dropWakeFull | dropWakeEmpty =>
        exact ⟨_, rfl⟩
    | _ =>
        rw [pcEq] at wakes
        cases wakes
  obtain ⟨ring, ticked⟩ := ticked
  have inside : ∃ after, s.producerTick cap 0 false = some after := by
    unfold AsyncRing.producerTick
    rw [wakes]
    dsimp only
    split
    · exact ⟨_, rfl⟩
    · rw [ticked]
      exact ⟨_, rfl⟩
  change ∃ after, s.senderTick cap 0 false = some after
  unfold AsyncRing.senderTick
  cases pcEq : s.sender with
  | inCall | inTrySend value | inClose =>
      dsimp only
      split
      · rename_i elsewhere
        rw [elsewhere] at wakes
        cases wakes
      · exact inside
  | gone =>
      rw [pcEq] at here
      rw [show s.ring.producer.pc = .gone from here] at wakes
      cases wakes
  | _ =>
      rw [pcEq] at here
      rw [show s.ring.producer.pc = .idle from here] at wakes
      cases wakes

/-- A sleeping receiver that nothing has notified takes no step but to be dropped. -/
theorem LinkOk.receiver_stays (ok : LinkOk cap s) (asleep : ReceiverAsleep s)
    {action : RingReceiverAction} (taken : s.receiverStep cap action = some after) :
    ¬ ReceiverAsleep after := by
  obtain ⟨here, unnotified⟩ := asleep
  have receives := ok.receives
  rw [here] at receives
  cases action with
  | cancel =>
      simp only [AsyncRing.receiverStep, here, Option.some.injEq] at taken
      subst taken
      rintro ⟨suspended, -⟩
      cases suspended
  | tick index saw =>
      have pending := poll_pending receives unnotified
      simp [AsyncRing.receiverStep, AsyncRing.receiverTick, here, AsyncRing.recvWait,
        AwaitPc.tick, AwaitPc.pollNotified, pending] at taken
  | _ => simp [AsyncRing.receiverStep, AsyncRing.consumerCall, here] at taken

theorem producerDue_iff {pc : ProducerPc α} :
    producerDue pc = true ↔ ∃ which, producerWakes pc = some which := by
  cases pc <;> simp [producerDue, producerWakes]

/-- The step behind the first wake of a drop goes on to the second. -/
theorem dropWakeEmpty_of_wakes {ring next : RingState α} {index : Nat}
    (wakes : producerWakes ring.producer.pc = some .notFull)
    (ticked : ring.producerTick cap index = some next) :
    ring.producer.pc = .dropWakeFull ∧ next.producer.pc = .dropWakeEmpty := by
  unfold RingState.producerTick at ticked
  cases pcEq : ring.producer.pc with
  | dropWakeFull =>
      simp only [pcEq, Option.some.injEq] at ticked
      subst ticked
      exact ⟨rfl, rfl⟩
  | _ =>
      rw [pcEq] at wakes
      cases wakes

/-- A step of the sender inside its wakes brings the notification of the receiver nearer. -/
theorem ProducerTicks.nearer (ok : LinkOk cap s) (asleep : ReceiverAsleep s)
    (due : producerDue s.ring.producer.pc = true) {index : Nat} {saw : Bool}
    (ticks : ProducerTicks cap s index saw after) (still : ReceiverAsleep after) :
    producerDue after.ring.producer.pc = true ∧ senderRank after < senderRank s := by
  have receives := ok.receives
  rw [asleep.1] at receives
  cases ticks with
  | silent silent =>
      rw [producerDue_of_silent silent] at due
      cases due
  | @inWake which stage wakes goes =>
      have less := wakeRank_lt goes
      have nearer : senderRank { s with sendStage := stage } < senderRank s := by
        unfold senderRank
        dsimp only
        split <;> omega
      cases which <;> exact ⟨due, nearer⟩
  | @woken which ring wakes leaves ticked =>
      cases which with
      | notEmpty => exact absurd (notified_of_leaves receives asleep.2 leaves) still.2
      | notFull =>
          obtain ⟨before, behind⟩ := dropWakeEmpty_of_wakes wakes ticked
          constructor
          · change producerDue ring.producer.pc = true
            rw [behind]
            rfl
          · have rank : senderRank s = 3 + wakeRank s.sendStage := by rw [senderRank, before]
            rw [senderRank]
            change (match ring.producer.pc with
              | .dropWakeFull => 3 + wakeRank .probe
              | _ => wakeRank .probe) < _
            rw [behind, rank]
            exact Nat.lt_of_lt_of_le (by decide : 2 < 3) (Nat.le_add_right _ _)

/-- The sender that is on its way wakes the receiver. -/
theorem receiver_countdown : Countdown (fun (s : AsyncRing α) action => s.step cap action) ofSender
    (Waiting (LinkOk cap) ReceiverAsleep (fun s => producerDue s.ring.producer.pc = true)
      senderRank)
    fun s => ¬ ReceiverAsleep s := by
  apply Countdown.ofRank
  · intro s action after ok taken
    exact ok.step taken
  · intro s action after ok asleep due isOwn taken still
    cases action with
    | receiver action => cases isOwn
    | sender action =>
        obtain ⟨which, wakes⟩ := producerDue_iff.mp due
        obtain ⟨index, saw, ticks⟩ := ok.producerTicks wakes taken
        exact ticks.nearer ok asleep due still
  · intro s action after ok asleep due isOther taken still
    cases action with
    | receiver action => exact absurd still (ok.receiver_stays asleep taken)
    | sender action => cases isOther
  · intro s ok asleep due
    obtain ⟨which, wakes⟩ := producerDue_iff.mp due
    obtain ⟨after, taken⟩ := ok.producerTick_able wakes
    exact ⟨.sender (.tick 0 false), after, rfl, taken⟩

theorem wakeRank_le (stage : WakeStage) : wakeRank stage ≤ 2 := by
  cases stage <;> decide

/-- What a sleeping future waits for comes about within this many steps of the other side. -/
structure WokenWithin (cap : Cap) (s : AsyncRing α) : Prop where
  sender : SenderAsleep s → s.occupancy < cap.size ∨ s.ring.shared.closed = true →
    ReachedWithin (fun s action => s.step cap action) ofReceiver 3
      (fun s => ¬ SenderAsleep s) s
  /-- The sender's own drop wakes `not_full` in front of `not_empty`. -/
  receiver : ReceiverAsleep s → 0 < s.occupancy ∨ s.ring.shared.closed = true →
    ReachedWithin (fun s action => s.step cap action) ofSender
      (if s.ring.shared.closed = true then 6 else 3) (fun s => ¬ ReceiverAsleep s) s

/-- Whoever is closing the ring has closed it. -/
theorem closed_of_producerClosing {ring next : RingState α} {action : ProducerAction α}
    (before : producerActivity ring.producer.pc = .closing → ring.shared.closed = true)
    (taken : ring.producerStep cap action = some next)
    (closing : producerActivity next.producer.pc = .closing) : next.shared.closed = true := by
  cases action with
  | tick index =>
      cases producerTick_progress taken with
      | running same =>
          rw [same] at closing
          exact (closed_of_producerStep taken).1 (before closing)
      | closed was gone =>
          rw [gone] at closing
          cases closing
      | returned outcome values was idle =>
          rw [idle] at closing
          cases closing
  | drop =>
      simp only [producerStep] at taken
      split at taken <;> cases taken
      rfl
  | trySend value =>
      have activity := (producerStart_progress (.inl ⟨value, rfl, rfl⟩) taken).1
      rw [activity] at closing
      cases closing
  | trySendBulk items =>
      have activity := (producerStart_progress (.inr (.inl ⟨items, rfl, rfl⟩)) taken).1
      rw [activity] at closing
      cases closing
  | send value =>
      simp only [producerStep] at taken
      split at taken <;> cases taken
      rw [producerActivity_trySendStart] at closing
      cases closing
  | spin | spurious =>
      simp only [producerStep] at taken
      split at taken <;> cases taken
      cases closing

theorem closed_of_dropWakeFull (reached : (system cap).Reachable s)
    (here : s.ring.producer.pc = .dropWakeFull) : s.ring.shared.closed = true := by
  have closing : producerActivity s.ring.producer.pc = .closing → s.ring.shared.closed = true := by
    apply reached.invariant fun s =>
      producerActivity s.ring.producer.pc = .closing → s.ring.shared.closed = true
    · rintro - rfl closing
      cases closing
    · intro before action after reached closed taken
      have ok := linkOk reached
      generalize movesTo : after.ring = next
      have moves : RingMove cap before.ring next := movesTo ▸ ringMove_of_step ok taken
      cases moves with
      | stays | seesTail view idle | seesHead view idle => exact closed
      | producer moved => exact closed_of_producerClosing closed moved
      | @consumer action _ calm moved =>
          have within : before.ring.panicsWithinCache (.consumer action) = true := by
            cases action <;> first | rfl | exact absurd rfl calm
          have same := (consumer_step ok.shared ok.consumer within moved).2.2.producer
          rw [same]
          exact fun closing => closed_of_consumerStep moved (closed closing)
  apply closing
  rw [here]
  rfl

theorem futures_wokenWithin (reached : (system cap).Reachable s) : WokenWithin cap s where
  sender asleep cause := by
    have ok := linkOk reached
    have due : consumerDue s.ring.consumer.pc = true := by
      by_contra quiet
      obtain ⟨full, opened⟩ := ok.sender_calm asleep (Bool.eq_false_of_not_eq_true quiet)
      rcases cause with room | closed
      · omega
      · rw [opened] at closed
        cases closed
    exact sender_countdown.reachedWithin ⟨ok, asleep, due, wakeRank_le s.recvStage⟩
  receiver asleep cause := by
    have ok := linkOk reached
    have due : producerDue s.ring.producer.pc = true := by
      by_contra quiet
      obtain ⟨empty, opened⟩ := ok.receiver_calm asleep (Bool.eq_false_of_not_eq_true quiet)
      rcases cause with room | closed
      · omega
      · rw [opened] at closed
        cases closed
    have le := wakeRank_le s.sendStage
    have within {count : Nat} (near : senderRank s ≤ count) :=
      receiver_countdown.reachedWithin ⟨ok, asleep, due, near⟩
    split
    · refine within ?_
      unfold senderRank
      split <;> omega
    · rename_i opened
      refine within ?_
      unfold senderRank
      split
      · rename_i here
        exact absurd (closed_of_dropWakeFull reached here) opened
      · exact le

theorem futures_wokenWithin_sleepThenReceive :
    ∃ s, Transition.execute (fun s action => s.step oneSlotCap action) (new : AsyncRing Nat)
        sleepThenReceive = some s ∧
      (SenderAsleep s ∧ s.occupancy = 0) ∧ WokenWithin oneSlotCap s := by
  obtain ⟨s, ran, outcome, reached⟩ := sleepThenReceive_ran
  exact ⟨s, ran, outcome, futures_wokenWithin reached⟩

end AsyncRing

end ArbitroKit
