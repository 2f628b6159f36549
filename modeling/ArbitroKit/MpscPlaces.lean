import ArbitroKit.MpscConsumer
import ArbitroKit.PanickedDrain
import ArbitroKit.RingDisconnect

/-!
# Where the rings of the channel stand in any run

What is known of the rings whatever the callbacks do: which of their calls is running
under which call of the channel, that a `drain` stores its tail for at least one item,
and that a `try_send` compares the tail with the head as it is.
-/

namespace ArbitroKit

open Coherent Transition

namespace RingState

variable {α : Type*} {cap : Cap} {s after : RingState α}

/-- A `drain` that has read something counts it. -/
def DrainCounts : ConsumerPc α → Prop
  | .drainRead start head _ => start ≠ head
  | .drainCallback start head _ _ => start ≠ head
  | .drainCommit start _ tail => start ≠ tail
  | .drainWake _ consumed => 0 < consumed
  | _ => True

theorem drainCounts_readSlot {index : Nat} {next : α → ConsumerPc α}
    (counts : ∀ value, DrainCounts (next value)) :
    DrainCounts (s.readSlot index next).consumer.pc := by
  unfold readSlot
  dsimp only
  split
  · exact counts _
  · trivial

theorem drainCounts_tryRecvStart (call : RecvCall) :
    DrainCounts (s.tryRecvStart call).consumer.pc := by
  unfold tryRecvStart
  dsimp only
  split <;> trivial

theorem drainCounts_recvWaited (phase : WaitPhase) (ready : Bool) :
    DrainCounts (recvWaited phase ready : ConsumerPc α) := by
  cases phase <;> cases ready <;> trivial

theorem drainCounts_consumerTick {index : Nat} (counts : DrainCounts s.consumer.pc)
    (taken : s.consumerTick cap index = some after) : DrainCounts after.consumer.pc := by
  unfold consumerTick at taken
  cases pcEq : s.consumer.pc with
  | idle | gone | undefined => simp [pcEq] at taken
  | recvRefresh call tail | waitHead phase =>
      simp only [pcEq] at taken
      obtain ⟨⟨head, loadedState⟩, -, rfl⟩ := Option.map_eq_some_iff.mp taken
      first | trivial | (dsimp only; split <;> trivial)
  | recvRecheck call tail =>
      simp only [pcEq] at taken
      obtain ⟨⟨head, loadedState⟩, -, rfl⟩ := Option.map_eq_some_iff.mp taken
      dsimp only
      split
      · cases call <;> trivial
      · trivial
  | drainLoad start =>
      simp only [pcEq] at taken
      obtain ⟨⟨head, loadedState⟩, -, rfl⟩ := Option.map_eq_some_iff.mp taken
      dsimp only
      split
      · trivial
      · rename_i other
        exact other
  | recvClosed call tail =>
      simp only [pcEq] at taken
      split at taken <;> cases taken
      · trivial
      · cases call <;> trivial
  | recvRead call tail =>
      simp only [pcEq, Option.some.injEq] at taken
      subst taken
      exact drainCounts_readSlot fun _ => trivial
  | drainRead start head tail =>
      rw [pcEq] at counts
      simp only [pcEq, Option.some.injEq] at taken
      subst taken
      exact drainCounts_readSlot fun _ => counts
  | drainCallback start head tail value =>
      rw [pcEq] at counts
      simp only [pcEq] at taken
      split at taken <;> cases taken
      · rename_i last
        exact last ▸ counts
      · exact counts
  | drainCommit start head tail =>
      rw [pcEq] at counts
      simp only [pcEq, Option.some.injEq] at taken
      subst taken
      refine Nat.pos_of_ne_zero fun zero => counts ?_
      exact (sub_eq_zero.mp (BitVec.eq_of_toNat_eq (by simpa using zero))).symm
  | recvRetry =>
      simp only [pcEq, Option.some.injEq] at taken
      subst taken
      exact drainCounts_tryRecvStart .recv
  | recvWake call value =>
      simp only [pcEq, Option.some.injEq] at taken
      subst taken
      cases call <;> trivial
  | waitTail phase head =>
      simp only [pcEq] at taken
      split at taken <;> cases taken
      · trivial
      · exact drainCounts_recvWaited phase true
  | waitClosed phase =>
      simp only [pcEq, Option.some.injEq] at taken
      subst taken
      exact drainCounts_recvWaited phase s.shared.closed
  | waitPark =>
      simp only [pcEq] at taken
      split at taken <;> cases taken
      trivial
  | _ =>
      simp only [pcEq, Option.some.injEq] at taken
      subst taken
      trivial

theorem drainCounts_consumerStep {action : ConsumerAction} (counts : DrainCounts s.consumer.pc)
    (taken : s.consumerStep cap action = some after) : DrainCounts after.consumer.pc := by
  cases action with
  | tick index => exact drainCounts_consumerTick counts taken
  | tryRecv | recv =>
      simp only [consumerStep] at taken
      split at taken <;> cases taken
      exact drainCounts_tryRecvStart _
  | drain | drop | panic | spin | spurious =>
      simp only [consumerStep] at taken
      split at taken <;> cases taken
      trivial

/-- The refresh of a `try_send` compares with the head as it is. -/
def HeadHeldAt (current : Usize) : ProducerPc α → Prop
  | .sendRefresh _ _ head => head = current
  | _ => True

def HeadHeld (s : RingState α) : Prop :=
  HeadHeldAt s.shared.head.current s.producer.pc

theorem headHeld_trySendStart (call : SendCall) (value : α) :
    HeadHeld (s.trySendStart cap call value) := by
  unfold trySendStart
  dsimp only
  split
  · rfl
  · trivial

theorem headHeld_producerTick {index : Nat} (taken : s.producerTick cap index = some after) :
    HeadHeld after := by
  unfold producerTick at taken
  cases pcEq : s.producer.pc with
  | idle | gone => simp [pcEq] at taken
  | sendRefresh call value head =>
      simp only [pcEq] at taken
      obtain ⟨⟨tail, loadedState⟩, -, rfl⟩ := Option.map_eq_some_iff.mp taken
      dsimp only
      split <;> trivial
  | bulkRefresh items head =>
      simp only [pcEq] at taken
      obtain ⟨⟨tail, loadedState⟩, -, rfl⟩ := Option.map_eq_some_iff.mp taken
      unfold bulkStart
      dsimp only
      split <;> trivial
  | waitTail phase value head =>
      simp only [pcEq] at taken
      obtain ⟨⟨tail, loadedState⟩, -, rfl⟩ := Option.map_eq_some_iff.mp taken
      dsimp only
      split <;> cases phase <;> trivial
  | bulkWrite items head left written =>
      simp only [pcEq] at taken
      split at taken
      · cases taken
      · split at taken <;> cases taken <;> trivial
  | sendClosed call value =>
      simp only [pcEq, Option.some.injEq] at taken
      subst taken
      cases call <;> cases s.shared.closed <;> trivial
  | sendWake call value =>
      simp only [pcEq, Option.some.injEq] at taken
      subst taken
      cases call <;> trivial
  | sendRetry value =>
      simp only [pcEq, Option.some.injEq] at taken
      subst taken
      exact headHeld_trySendStart .send value
  | waitClosed phase value =>
      simp only [pcEq, Option.some.injEq] at taken
      subst taken
      cases phase <;> cases s.shared.closed <;> trivial
  | waitPark value =>
      simp only [pcEq] at taken
      split at taken <;> cases taken
      trivial
  | _ =>
      simp only [pcEq, Option.some.injEq] at taken
      subst taken
      trivial

theorem headHeld_producerStep {action : ProducerAction α}
    (taken : s.producerStep cap action = some after) : HeadHeld after := by
  cases action with
  | tick index => exact headHeld_producerTick taken
  | trySend value | send value =>
      simp only [producerStep] at taken
      split at taken <;> cases taken
      exact headHeld_trySendStart _ value
  | trySendBulk items =>
      simp only [producerStep] at taken
      split at taken
      · split at taken
        · cases taken
          trivial
        · split at taken <;> cases taken
          · trivial
          · unfold bulkStart
            dsimp only
            split <;> trivial
      · cases taken
  | drop | spin | spurious =>
      simp only [producerStep] at taken
      split at taken <;> cases taken
      trivial

/-- A consumer's step leaves the producer and the head. -/
theorem keeps_readSlot {index : Nat} {next : α → ConsumerPc α} :
    (s.readSlot index next).producer = s.producer ∧
      (s.readSlot index next).shared.head = s.shared.head := by
  unfold readSlot
  dsimp only
  split <;> exact ⟨rfl, rfl⟩

theorem keeps_tryRecvStart (call : RecvCall) :
    (s.tryRecvStart call).producer = s.producer ∧
      (s.tryRecvStart call).shared.head = s.shared.head := by
  unfold tryRecvStart
  dsimp only
  split <;> exact ⟨rfl, rfl⟩

theorem keeps_consumerStep {action : ConsumerAction}
    (taken : s.consumerStep cap action = some after) :
    after.producer = s.producer ∧ after.shared.head = s.shared.head := by
  cases action with
  | tick index =>
      simp only [consumerStep] at taken
      unfold consumerTick at taken
      cases pcEq : s.consumer.pc with
      | idle | gone | undefined => simp [pcEq] at taken
      | recvRefresh call tail | drainLoad start | recvRecheck call tail | waitHead phase =>
          simp only [pcEq] at taken
          obtain ⟨⟨head, loadedState⟩, loaded, rfl⟩ := Option.map_eq_some_iff.mp taken
          obtain ⟨-, rfl⟩ := loadHead_eq_some loaded
          first | exact ⟨rfl, rfl⟩ | (dsimp only; split <;> exact ⟨rfl, rfl⟩)
      | recvClosed call tail | drainCallback start head tail value | waitTail phase head
      | waitPark =>
          simp only [pcEq] at taken
          split at taken <;> cases taken <;> exact ⟨rfl, rfl⟩
      | recvRead call tail | drainRead start head tail =>
          simp only [pcEq, Option.some.injEq] at taken
          subst taken
          exact keeps_readSlot
      | recvRetry =>
          simp only [pcEq, Option.some.injEq] at taken
          subst taken
          exact keeps_tryRecvStart .recv
      | _ =>
          simp only [pcEq, Option.some.injEq] at taken
          subst taken
          exact ⟨rfl, rfl⟩
  | tryRecv | recv =>
      simp only [consumerStep] at taken
      split at taken <;> cases taken
      exact keeps_tryRecvStart _
  | drain | drop | panic | spin | spurious =>
      simp only [consumerStep] at taken
      split at taken <;> cases taken
      exact ⟨rfl, rfl⟩

/-- Both hold in every run, whatever the callbacks do. -/
theorem places (reached : (system cap).Reachable s) :
    DrainCounts s.consumer.pc ∧ HeadHeld s := by
  refine reached.invariant (fun s => DrainCounts s.consumer.pc ∧ HeadHeld s) ?base ?preserved
  case base =>
    rintro _ rfl
    exact ⟨trivial, trivial⟩
  case preserved =>
    rintro before action after - ⟨counts, held⟩ taken
    cases action with
    | producer action =>
        have consumer := (closed_of_producerStep taken).2
        exact ⟨by rw [consumer]; exact counts, headHeld_producerStep taken⟩
    | consumer action =>
        obtain ⟨producer, head⟩ := keeps_consumerStep taken
        refine ⟨drainCounts_consumerStep counts taken, ?_⟩
        rw [HeadHeld, producer, head]
        exact held

end RingState

namespace MpscState

variable {α : Type*} {size : MpscSize} {s after : MpscState α} {idx : Nat}

/-- Every ring runs as a ring of its own, whatever the callbacks do. -/
theorem ring_places (reached : (system size).Reachable s) (j : Nat) :
    RingState.DrainCounts (s.rings j).consumer.pc ∧ RingState.HeadHeld (s.rings j) := by
  have ring : (RingState.system size.cap).Reachable (s.rings j) := by
    refine reached.project (fun s => s.rings j) ?_ ?_
    · rintro _ rfl
      rfl
    · rintro before action after - taken
      exact (step_ring taken j).imp_right fun ⟨move, moved, _⟩ => ⟨move, moved⟩
  exact RingState.places ring

/-! ### The running call of each ring -/

/-- The ring inside which the consumer is, and the call it is in there. -/
def inRing : MpscConsumerPc α → Option (Nat × ReceiveActivity)
  | .inTryRecv _ idx => some (idx, .receiving)
  | .inDrain _ idx _ _ => some (idx, .draining)
  | _ => none

/-- The ring's consumer half is in no receive. -/
def Rests (activity : ReceiveActivity) : Prop :=
  activity = .idle ∨ activity = .closing ∨ activity = .gone ∨ activity = .undefined

theorem Rests.notBlocking {activity : ReceiveActivity} (rests : Rests activity) :
    activity ≠ .blocking := by
  rcases rests with rfl | rfl | rfl | rfl <;> simp

/-- A ring stands in the receive the consumer is in, if that is its own, or rests. -/
def StandsAt (pc : MpscConsumerPc α) (j : Nat) (activity : ReceiveActivity) : Prop :=
  Rests activity ∨ inRing pc = some (j, activity)

def Stands (s : MpscState α) : Prop :=
  ∀ j, StandsAt s.consumer j (RingState.consumerActivity (s.rings j).consumer.pc)

/-- Where the consumer is in no ring, every ring rests. -/
theorem Stands.rests (stands : s.Stands) (out : inRing s.consumer = none) (j : Nat) :
    Rests (RingState.consumerActivity (s.rings j).consumer.pc) := by
  refine (stands j).resolve_right fun here => ?_
  rw [out] at here
  cases here

/-- The ring the consumer is in rests, or is in that receive. -/
theorem Stands.inside (stands : s.Stands) {activity : ReceiveActivity}
    (here : inRing s.consumer = some (idx, activity)) :
    Rests (RingState.consumerActivity (s.rings idx).consumer.pc) ∨
      RingState.consumerActivity (s.rings idx).consumer.pc = activity := by
  refine (stands idx).imp_right fun same => ?_
  rw [here] at same
  cases same
  rfl

/-- The consumer goes on outside its rings. -/
theorem Stands.goes (stands : s.Stands) (out : inRing s.consumer = none)
    (rings : after.rings = s.rings) : after.Stands := by
  intro j
  rw [rings]
  exact .inl (stands.rests out j)

/-- The consumer moves in one ring. -/
theorem Stands.ring (stands : s.Stands) {ring : RingState α}
    (rings : after.rings = (s.setRing idx ring).rings)
    (only : ∀ j activity, inRing s.consumer = some (j, activity) → j = idx)
    (here : StandsAt after.consumer idx (RingState.consumerActivity ring.consumer.pc)) :
    after.Stands := by
  intro j
  rw [rings]
  by_cases same : j = idx
  · subst same
    rw [rings_setRing]
    exact here
  · rw [rings_setRing_of_ne _ _ same]
    exact .inl ((stands j).resolve_right fun inside => same (only j _ inside))

theorem rings_noteTick_setRing (s : MpscState α) (idx : Nat) (ring : RingState α) :
    ((s.noteTick idx).setRing idx ring).rings = (s.setRing idx ring).rings := by
  simp [setRing]

/-- A tick of a ring leaves it in its call, or at rest. -/
theorem activity_tick {ring moved : RingState α} {index : Nat}
    (ticked : ring.consumerStep size.cap (.tick index) = some moved) :
    RingState.consumerActivity moved.consumer.pc = RingState.consumerActivity ring.consumer.pc ∨
      Rests (RingState.consumerActivity moved.consumer.pc) := by
  cases RingState.consumerTick_progress ticked with
  | running same _ => exact .inl same
  | closed _ gone =>
      rw [gone]
      exact .inr (.inr (.inr (.inl rfl)))
  | returned _ _ idle =>
      rw [idle]
      exact .inr (.inl rfl)
  | undefined lost _ =>
      rw [lost]
      exact .inr (.inr (.inr (.inr rfl)))

/-- The consumer goes on inside the ring it is in. -/
theorem Stands.tick (stands : s.Stands)
    (only : ∀ j activity, inRing s.consumer = some (j, activity) → j = idx)
    (taken : s.ringConsumerTick size idx = some after) : after.Stands := by
  obtain ⟨ring, ticked, rfl⟩ := ringConsumerTick_eq_some taken
  refine stands.ring (rings_noteTick_setRing s idx ring) only ?_
  change StandsAt (s.noteTick idx).consumer idx _
  rw [consumer_noteTick]
  rcases activity_tick ticked with same | rests
  · rw [same]
    exact stands idx
  · exact .inl rests

/-- The consumer takes a returned ring call's answer. -/
theorem Stands.returned (stands : s.Stands) {outcome : ConsumerOutcome α}
    {inside : MpscState α} (was : (s.rings idx).consumer.pc = .returned outcome)
    (only : ∀ j activity, inRing s.consumer = some (j, activity) → j = idx)
    (taken : s.ringConsumerTick size idx = some inside) (pc : MpscConsumerPc α) :
    (inside.consumerAt pc).Stands := by
  obtain ⟨ring, ticked, rfl⟩ := ringConsumerTick_eq_some taken
  refine stands.ring (rings_noteTick_setRing s idx ring) only ?_
  simp only [RingState.consumerStep, RingState.consumerTick, was, Option.some.injEq] at ticked
  subst ticked
  exact .inl (.inl rfl)

/-- The consumer enters a ring. -/
theorem Stands.start (stands : s.Stands) {action : ConsumerAction} {inside : MpscState α}
    {pc : MpscConsumerPc α} {activity : ReceiveActivity}
    (starts : (action = .tryRecv ∧ activity = .receiving) ∨
      (action = .drain ∧ activity = .draining) ∨ action = .drop ∧ activity = .closing)
    (out : inRing s.consumer = none)
    (moved : s.ringConsumer size idx action = some inside)
    (enters : StandsAt pc idx activity) : (inside.consumerAt pc).Stands := by
  obtain ⟨ring, started, rfl⟩ := ringConsumer_eq_some moved
  refine stands.ring rfl (fun j activity at_ => ?_) ?_
  · rw [out] at at_
    cases at_
  · rw [RingState.consumerStart_progress starts started]
    exact enters

theorem stands_consumerTick (stands : s.Stands) (taken : s.consumerTick size = some after) :
    after.Stands := by
  unfold consumerTick at taken
  have only {pc : MpscConsumerPc α} {idx : Nat} {activity : ReceiveActivity}
      (pcEq : s.consumer = pc) (here : inRing pc = some (idx, activity)) (j : Nat)
      (other : ReceiveActivity) (at_ : inRing s.consumer = some (j, other)) : j = idx := by
    rw [pcEq, here] at at_
    cases at_
    rfl
  cases pcEq : s.consumer with
  | idle | gone => simp [pcEq] at taken
  | enterTryRecv call idx =>
      simp only [pcEq] at taken
      obtain ⟨inside, moved, rfl⟩ := Option.map_eq_some_iff.mp taken
      exact stands.start (.inl ⟨rfl, rfl⟩) (by rw [pcEq]; rfl) moved (.inr rfl)
  | enterDrain call idx total progress =>
      simp only [pcEq] at taken
      obtain ⟨inside, moved, rfl⟩ := Option.map_eq_some_iff.mp taken
      exact stands.start (.inr (.inl ⟨rfl, rfl⟩)) (by rw [pcEq]; rfl) moved (.inr rfl)
  | enterClose idx =>
      simp only [pcEq] at taken
      split at taken
      · obtain ⟨inside, moved, rfl⟩ := Option.map_eq_some_iff.mp taken
        exact stands.start (.inr (.inr ⟨rfl, rfl⟩)) (by rw [pcEq]; rfl) moved
          (.inl (.inr (.inl rfl)))
      · cases taken
        exact stands.goes (by rw [pcEq]; rfl) rfl
  | inTryRecv call idx =>
      simp only [pcEq] at taken
      split at taken
      · rename_i result was
        obtain ⟨inside, moved, rfl⟩ := Option.map_eq_some_iff.mp taken
        cases result <;> exact stands.returned was (only pcEq rfl) moved _
      · exact stands.tick (only pcEq rfl) taken
  | inDrain call idx total progress =>
      simp only [pcEq] at taken
      split at taken
      · rename_i n was
        obtain ⟨inside, moved, rfl⟩ := Option.map_eq_some_iff.mp taken
        split <;> exact stands.returned was (only pcEq rfl) moved _
      · rename_i was
        obtain ⟨inside, moved, rfl⟩ := Option.map_eq_some_iff.mp taken
        exact stands.returned was (only pcEq rfl) moved _
      · exact stands.tick (only pcEq rfl) taken
  | inClose idx =>
      simp only [pcEq] at taken
      split at taken
      · cases taken
        exact stands.goes (by rw [pcEq]; rfl) rfl
      · refine stands.tick (fun j activity at_ => ?_) taken
        rw [pcEq] at at_
        cases at_
  | finishedShutdown call asker | finishedLive call asker
  | workTail call asker inFinished idx head | waitPark call =>
      simp only [pcEq] at taken
      split at taken <;> cases taken <;> exact stands.goes (by rw [pcEq]; rfl) rfl
  | _ =>
      simp only [pcEq, Option.some.injEq] at taken
      subst taken
      exact stands.goes (by rw [pcEq]; rfl) rfl

theorem stands_consumerStep {action : MpscConsumerAction} (stands : s.Stands)
    (taken : s.consumerStep size action = some after) : after.Stands := by
  cases action with
  | tick => exact stands_consumerTick stands taken
  | panic =>
      simp only [consumerStep] at taken
      split at taken
      · rename_i call idx total progress pcEq
        obtain ⟨ring, panics, rfl⟩ := ringConsumer_eq_some taken
        obtain ⟨start, head, tail, value, was, rfl⟩ := RingState.panic_eq_some size.cap panics
        refine stands.ring rfl (fun j activity at_ => ?_) ?_
        · rw [pcEq] at at_
          cases at_
          rfl
        · refine .inr ?_
          change inRing s.consumer = _
          rw [pcEq]
          rfl
      · cases taken
  | tryRecv | recv | tryRecvBatch | recvBatch | drop | spin | spurious =>
      simp only [consumerStep] at taken
      split at taken
      · rename_i pcEq
        cases taken
        exact stands.goes (by rw [pcEq]; rfl) rfl
      · cases taken

/-- Whatever the callbacks do, no ring is in a receive but the one the consumer is in. -/
theorem stands (reached : (system size).Reachable s) : s.Stands := by
  refine reached.invariant Stands ?base ?preserved
  case base =>
    rintro _ rfl j
    exact .inl (.inl rfl)
  case preserved =>
    rintro before action after - stands taken
    cases action with
    | consumer action => exact stands_consumerStep stands taken
    | producer i action =>
        have frame := producerStep_frame (producer_of_step taken).2
        intro j
        rw [frame.consumer]
        by_cases same : j = i
        · subst same
          rcases frame.ring with same | ⟨move, moved⟩
          · rw [same]
            exact stands j
          · rw [(RingState.closed_of_producerStep moved).2]
            exact stands j
        · rw [frame.rings j same]
          exact stands j
    | signaller k action =>
        have frame := signallerStep_frame taken
        rw [Stands, frame.consumer, frame.rings]
        exact stands

end MpscState

end ArbitroKit
