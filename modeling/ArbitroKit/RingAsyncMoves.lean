import ArbitroKit.RingAsync
import ArbitroKit.RingViews

/-!
# What the ring's futures see of each other

A future of one side looks into the ring through the cursors and `closed`.  For one step
of the other side this module says what of these has changed, and whether that side is
then on its way to the gate the future sleeps on.
-/

namespace ArbitroKit

open Coherent SlotLane Cyclic Transition

namespace AsyncRing

variable {α : Type*} {cap : Cap} {ring after : RingState α}

/-- The producer is on its way to wake `not_empty`. -/
def producerDue : ProducerPc α → Bool
  | .sendWake _ _ => true
  | .bulkWake _ _ => true
  | .dropWakeFull => true
  | .dropWakeEmpty => true
  | _ => false

/-- The consumer is on its way to wake `not_full`. -/
def consumerDue : ConsumerPc α → Bool
  | .recvWake _ _ => true
  | .drainWake _ _ => true
  | .dropWakeFull => true
  | _ => false

/-! ### Producer -/

/-- What the receiver can see of a step that wakes nobody. -/
structure ProducerMoves (before after : RingState α) : Prop where
  tail : after.shared.tail = before.shared.tail
  view_le : before.producer.tailView ≤ after.producer.tailView
  sent : before.shared.lane.sent <+: after.shared.lane.sent
  shows : (after.shared.head = before.shared.head ∧
      after.shared.lane.published = before.shared.lane.published ∧
      after.shared.closed = before.shared.closed) ∨
    (before.shared.head.latest ≤ after.shared.head.latest ∧
      producerDue after.producer.pc = true)

/-- A step that leaves cursors, slots and `closed` alone. -/
theorem ProducerMoves.quiet (head : after.shared.head = ring.shared.head)
    (tail : after.shared.tail = ring.shared.tail)
    (lane : after.shared.lane = ring.shared.lane)
    (closed : after.shared.closed = ring.shared.closed)
    (view : ring.producer.tailView ≤ after.producer.tailView) : ProducerMoves ring after where
  tail := tail
  view_le := view
  sent := by rw [lane]
  shows := .inl ⟨head, by rw [lane], closed⟩

theorem ProducerMoves.writes (index : Nat) (value : α) (pc : ProducerPc α) :
    ProducerMoves ring ((ring.writeSlot index value).producerAt pc) where
  tail := rfl
  view_le := le_rfl
  sent := (List.prefix_append _ _).take _
  shows := .inl ⟨rfl, rfl, rfl⟩

theorem ProducerMoves.publishes (head : Usize) {pc : ProducerPc α}
    (due : producerDue pc = true) : ProducerMoves ring ((ring.storeHead head).producerAt pc) where
  tail := rfl
  view_le := le_rfl
  sent := by
    change ring.shared.lane.sent <+: ring.shared.lane.publish.sent
    rw [Lane.sent_publish]
    exact List.take_prefix _ _
  shows := .inr ⟨Location.latest_le_store _ _, due⟩

theorem ProducerMoves.trySendStart (call : SendCall) (value : α) :
    ProducerMoves ring (ring.trySendStart cap call value) := by
  unfold RingState.trySendStart
  dsimp only
  split <;> exact .quiet rfl rfl rfl rfl le_rfl

theorem producerMoves_tick {index : Nat} (silent : producerWakes ring.producer.pc = none)
    (taken : ring.producerTick cap index = some after) : ProducerMoves ring after := by
  unfold RingState.producerTick at taken
  cases pcEq : ring.producer.pc with
  | idle | gone => simp [pcEq] at taken
  | sendWake call value | bulkWake items written | dropWakeFull | dropWakeEmpty =>
      rw [pcEq] at silent
      cases silent
  | sendRefresh call value head | waitTail phase value head =>
      simp only [pcEq] at taken
      obtain ⟨⟨tail, loadedState⟩, loaded, rfl⟩ := Option.map_eq_some_iff.mp taken
      obtain ⟨read, rfl⟩ := RingState.loadTail_eq_some loaded
      dsimp only
      split <;> exact .quiet rfl rfl rfl rfl (Location.load_eq_some read).1
  | bulkRefresh items head =>
      simp only [pcEq] at taken
      obtain ⟨⟨tail, loadedState⟩, loaded, rfl⟩ := Option.map_eq_some_iff.mp taken
      obtain ⟨read, rfl⟩ := RingState.loadTail_eq_some loaded
      exact .quiet rfl rfl rfl rfl (Location.load_eq_some read).1
  | sendClosed call value | waitHead phase value | waitClosed phase value | waitAnnounce value
  | waitLeave value | returned outcome accepted =>
      simp only [pcEq, Option.some.injEq] at taken
      subst taken
      exact .quiet rfl rfl rfl rfl le_rfl
  | sendWrite call value head =>
      simp only [pcEq, Option.some.injEq] at taken
      subst taken
      exact .writes _ _ _
  | sendPublish call value head | bulkPublish items head written =>
      simp only [pcEq, Option.some.injEq] at taken
      subst taken
      exact .publishes _ rfl
  | bulkWrite items head left written =>
      simp only [pcEq] at taken
      cases lastEq : items.getLast? with
      | none => simp [lastEq] at taken
      | some value =>
          simp only [lastEq] at taken
          split at taken <;> cases taken <;> exact .writes _ _ _
  | sendRetry value =>
      simp only [pcEq, Option.some.injEq] at taken
      subst taken
      exact .trySendStart _ _
  | waitPark value =>
      simp only [pcEq] at taken
      split at taken
      · cases taken
        exact .quiet rfl rfl rfl rfl le_rfl
      · cases taken

/-- Entering a call shows nothing; the drop closes the ring and is on its way. -/
theorem producerMoves_call {action : ProducerAction α} (idle : ring.producer.pc = .idle)
    (taken : ring.producerStep cap action = some after) : ProducerMoves ring after := by
  cases action with
  | tick index => simp [RingState.producerStep, RingState.producerTick, idle] at taken
  | spin | spurious => simp [RingState.producerStep, idle] at taken
  | trySend value | send value =>
      simp only [RingState.producerStep, idle, Option.some.injEq] at taken
      subst taken
      exact .trySendStart _ _
  | trySendBulk items =>
      simp only [RingState.producerStep, idle] at taken
      split at taken
      · cases taken
        exact .quiet rfl rfl rfl rfl le_rfl
      · split at taken <;> cases taken <;> exact .quiet rfl rfl rfl rfl le_rfl
  | drop =>
      simp only [RingState.producerStep, idle, Option.some.injEq] at taken
      subst taken
      exact ⟨rfl, le_rfl, List.prefix_rfl, .inr ⟨le_rfl, rfl⟩⟩

/-- The step behind a finished wake: only the waiter of the ring's own model and the place
of the producer change. -/
theorem producerWake_tick {index : Nat} {which : RingGate}
    (wakes : producerWakes ring.producer.pc = some which)
    (taken : ring.producerTick cap index = some after) :
    ProducerMoves ring after ∧ after.shared.head = ring.shared.head ∧
      after.shared.lane = ring.shared.lane ∧ after.shared.closed = ring.shared.closed ∧
      (which = .notFull → producerDue after.producer.pc = true) := by
  unfold RingState.producerTick at taken
  cases pcEq : ring.producer.pc with
  | sendWake call value | bulkWake items written | dropWakeFull | dropWakeEmpty =>
      rw [pcEq] at wakes
      simp only [pcEq, Option.some.injEq] at taken
      subst taken
      refine ⟨.quiet rfl rfl rfl rfl le_rfl, rfl, rfl, rfl, ?_⟩
      rintro rfl
      first | rfl | cases wakes
  | _ =>
      rw [pcEq] at wakes
      cases wakes

/-- A side that wakes `not_full` closes the ring, and is still to wake `not_empty`. -/
theorem producerDue_of_wakes {pc : ProducerPc α} {which : RingGate}
    (wakes : producerWakes pc = some which) : producerDue pc = true := by
  cases pc <;> first | rfl | cases wakes

theorem producerDue_of_silent {pc : ProducerPc α} (silent : producerWakes pc = none) :
    producerDue pc = false := by
  cases pc <;> first | rfl | cases silent

/-! ### Consumer -/

/-- The guard of `drain` behind a panic. -/
def unwinds : ConsumerPc α → Bool
  | .drainUnwind _ _ => true
  | _ => false

@[simp]
theorem unwinds_recvFailed (call : RecvCall) (error : TryRecvError) :
    unwinds (RingState.recvFailed call error : ConsumerPc α) = false := by
  cases call <;> cases error <;> rfl

@[simp]
theorem unwinds_recvWaited (phase : WaitPhase) (ready : Bool) :
    unwinds (RingState.recvWaited phase ready : ConsumerPc α) = false := by
  cases phase <;> cases ready <;> rfl

@[simp]
theorem unwinds_recvDelivered (call : RecvCall) (value : α) :
    unwinds (RingState.recvDelivered call value) = false := by
  cases call <;> rfl

/-- What the sender can see of a step that wakes nobody, and that is none of a panic. -/
structure ConsumerMoves (before after : RingState α) : Prop where
  calm : unwinds after.consumer.pc = false
  head : after.shared.head = before.shared.head
  view_le : before.consumer.headView ≤ after.consumer.headView
  received : after.shared.lane.received = before.shared.lane.received ∨
    ∃ value, after.shared.lane.received = before.shared.lane.received ++ [value]
  shows : (after.shared.tail = before.shared.tail ∧
      after.shared.lane.released = before.shared.lane.released ∧
      after.shared.closed = before.shared.closed) ∨
    (before.shared.tail.latest ≤ after.shared.tail.latest ∧
      consumerDue after.consumer.pc = true)

theorem ConsumerMoves.quiet (calm : unwinds after.consumer.pc = false)
    (head : after.shared.head = ring.shared.head)
    (tail : after.shared.tail = ring.shared.tail)
    (lane : after.shared.lane = ring.shared.lane)
    (closed : after.shared.closed = ring.shared.closed)
    (view : ring.consumer.headView ≤ after.consumer.headView) : ConsumerMoves ring after where
  calm := calm
  head := head
  view_le := view
  received := .inl (by rw [lane])
  shows := .inl ⟨tail, by rw [lane], closed⟩

theorem ConsumerMoves.tryRecvStart (call : RecvCall) :
    ConsumerMoves ring (ring.tryRecvStart call) := by
  unfold RingState.tryRecvStart
  dsimp only
  split <;> exact .quiet rfl rfl rfl rfl rfl le_rfl

theorem ConsumerMoves.readSlot (index : Nat) {next : α → ConsumerPc α}
    (calm : ∀ value, unwinds (next value) = false) :
    ConsumerMoves ring (ring.readSlot index next) := by
  unfold RingState.readSlot Lane.read
  cases ring.shared.lane.cells index with
  | live value | moved value =>
      exact ⟨calm value, rfl, le_rfl, .inr ⟨value, rfl⟩, .inl ⟨rfl, rfl, rfl⟩⟩
  | uninit => exact ⟨rfl, rfl, le_rfl, .inl rfl, .inl ⟨rfl, rfl, rfl⟩⟩

/-- A guard that has unwound would not wake; there is none without a panic. -/
theorem consumerMoves_tick {index : Nat} (ok : RingState.ConsumerOk ring)
    (silent : consumerWakes ring.consumer.pc = none)
    (calm : unwinds ring.consumer.pc = false)
    (taken : ring.consumerTick cap index = some after) : ConsumerMoves ring after := by
  unfold RingState.consumerTick at taken
  cases pcEq : ring.consumer.pc with
  | idle | gone | undefined => simp [pcEq] at taken
  | recvWake call value | drainWake head consumed | dropWakeFull | dropWakeEmpty =>
      rw [pcEq] at silent
      cases silent
  | drainUnwind start tail =>
      rw [pcEq] at calm
      cases calm
  | recvRefresh call tail | drainLoad start =>
      simp only [pcEq] at taken
      obtain ⟨⟨head, loadedState⟩, loaded, rfl⟩ := Option.map_eq_some_iff.mp taken
      obtain ⟨read, rfl⟩ := RingState.loadHead_eq_some loaded
      dsimp only
      split <;> exact .quiet rfl rfl rfl rfl rfl (Location.load_eq_some read).1
  | recvRecheck call tail =>
      simp only [pcEq] at taken
      obtain ⟨⟨head, loadedState⟩, loaded, rfl⟩ := Option.map_eq_some_iff.mp taken
      obtain ⟨read, rfl⟩ := RingState.loadHead_eq_some loaded
      have view_le := (Location.load_eq_some read).1
      dsimp only
      split
      · exact .quiet (unwinds_recvFailed _ _) rfl rfl rfl rfl view_le
      · exact .quiet rfl rfl rfl rfl rfl view_le
  | waitHead phase =>
      simp only [pcEq] at taken
      obtain ⟨⟨head, loadedState⟩, loaded, rfl⟩ := Option.map_eq_some_iff.mp taken
      obtain ⟨read, rfl⟩ := RingState.loadHead_eq_some loaded
      exact .quiet rfl rfl rfl rfl rfl (Location.load_eq_some read).1
  | recvClosed call tail =>
      simp only [pcEq] at taken
      split at taken <;> cases taken
      · exact .quiet rfl rfl rfl rfl rfl ok.choose_spec.choose_spec.follows.view_le
      · exact .quiet (unwinds_recvFailed _ _) rfl rfl rfl rfl le_rfl
  | recvRead call tail | drainRead start head tail =>
      simp only [pcEq, Option.some.injEq] at taken
      subst taken
      exact .readSlot _ fun _ => rfl
  | recvRelease call tail value | drainCommit start head tail =>
      simp only [pcEq, Option.some.injEq] at taken
      subst taken
      exact ⟨rfl, rfl, le_rfl, .inl rfl, .inr ⟨Location.latest_le_store _ _, rfl⟩⟩
  | drainCallback start head tail value =>
      simp only [pcEq] at taken
      split at taken <;> cases taken <;> exact .quiet rfl rfl rfl rfl rfl le_rfl
  | waitTail phase head =>
      simp only [pcEq] at taken
      split at taken <;> cases taken
      · exact .quiet rfl rfl rfl rfl rfl le_rfl
      · exact .quiet (unwinds_recvWaited _ _) rfl rfl rfl rfl le_rfl
  | waitClosed phase =>
      simp only [pcEq, Option.some.injEq] at taken
      subst taken
      exact .quiet (unwinds_recvWaited _ _) rfl rfl rfl rfl le_rfl
  | waitAnnounce | waitLeave | returned outcome =>
      simp only [pcEq, Option.some.injEq] at taken
      subst taken
      exact .quiet rfl rfl rfl rfl rfl le_rfl
  | recvRetry =>
      simp only [pcEq, Option.some.injEq] at taken
      subst taken
      exact .tryRecvStart _
  | waitPark =>
      simp only [pcEq] at taken
      split at taken
      · cases taken
        exact .quiet rfl rfl rfl rfl rfl le_rfl
      · cases taken

theorem consumerMoves_call {action : ConsumerAction} (idle : ring.consumer.pc = .idle)
    (taken : ring.consumerStep cap action = some after) : ConsumerMoves ring after := by
  cases action with
  | tick index => simp [RingState.consumerStep, RingState.consumerTick, idle] at taken
  | panic | spin | spurious => simp [RingState.consumerStep, idle] at taken
  | tryRecv | recv =>
      simp only [RingState.consumerStep, idle, Option.some.injEq] at taken
      subst taken
      exact .tryRecvStart _
  | drain =>
      simp only [RingState.consumerStep, idle, Option.some.injEq] at taken
      subst taken
      exact .quiet rfl rfl rfl rfl rfl le_rfl
  | drop =>
      simp only [RingState.consumerStep, idle, Option.some.injEq] at taken
      subst taken
      exact ⟨rfl, rfl, le_rfl, .inl rfl, .inr ⟨le_rfl, rfl⟩⟩

/-- The step behind a finished wake. -/
theorem consumerWake_tick {index : Nat} {which : RingGate}
    (wakes : consumerWakes ring.consumer.pc = some which)
    (taken : ring.consumerTick cap index = some after) :
    ConsumerMoves ring after ∧ after.shared.tail = ring.shared.tail ∧
      after.shared.lane = ring.shared.lane ∧ after.shared.closed = ring.shared.closed := by
  unfold RingState.consumerTick at taken
  cases pcEq : ring.consumer.pc with
  | recvWake call value | drainWake head consumed | dropWakeFull | dropWakeEmpty =>
      simp only [pcEq, Option.some.injEq] at taken
      subst taken
      refine ⟨.quiet ?_ rfl rfl rfl rfl le_rfl, rfl, rfl, rfl⟩
      first | rfl | exact unwinds_recvDelivered _ _
  | _ =>
      rw [pcEq] at wakes
      cases wakes

/-- The consumer wakes `not_full` last but for its drop, which goes on to `not_empty`. -/
theorem consumerDue_iff {pc : ConsumerPc α} :
    consumerDue pc = true ↔ consumerWakes pc = some .notFull := by
  cases pc <;> simp [consumerDue, consumerWakes]

end AsyncRing

end ArbitroKit
