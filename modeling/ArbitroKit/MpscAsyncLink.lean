import ArbitroKit.RingViews

/-!
# The link of one producer to the consumer

All that the items of one ring depend on: the ring, the future of its producer and the
receive future, and the two gates between them.  The invariant of the link is kept by
every step of its two ends; the other handles only ever wake through its gates.
-/

namespace ArbitroKit

open Coherent SlotLane Cyclic Transition

namespace AsyncSenderPc

variable {α : Type*}

/-- Where the task stands with its gate. -/
def phase : AsyncSenderPc α → GatePhase
  | .loadShutdown _ => .armed
  | .enterTrySend _ => .armed
  | .inTrySend _ => .armed
  | .wakeFanin _ _ => .armed
  | .poll _ => .armed
  | .suspended _ => .suspended
  | .dropNotified _ => .dropNotified
  | .disarm _ => .disarm
  | _ => .away

/-- The value the ring has taken from a future that has not completed. -/
def reporting : AsyncSenderPc α → List α
  | .wakeFanin value _ => [value]
  | .dropNotified (.finished sent) => sent.toList
  | .disarm (.finished sent) => sent.toList
  | _ => []

/-- The future has to wake the receiver. -/
def wakes : AsyncSenderPc α → Bool
  | .wakeFanin _ _ => true
  | _ => false

/-- The future has come back from a full ring. -/
def waits : AsyncSenderPc α → Bool
  | .poll _ => true
  | .suspended _ => true
  | _ => false

/-- What the ring's producer half is doing meanwhile. -/
def RingAt : AsyncSenderPc α → ProducerPc α → Prop
  | .inTrySend value, pc => RingState.InTrySend value pc
  | .inClose, pc => RingState.producerActivity pc = .closing ∨ pc = .gone
  | .fetchSub, pc => pc = .gone
  | .wakeLast _, pc => pc = .gone
  | .gone, pc => pc = .gone
  | _, pc => pc = .idle

/-- Outside of `try_send` the ring half is idle, or on its way out. -/
theorem RingAt.quiet {pc : AsyncSenderPc α} {ring : ProducerPc α} (here : pc.RingAt ring)
    (outside : ∀ value, pc ≠ .inTrySend value) :
    ring = .idle ∨ ring = .dropWakeFull ∨ ring = .dropWakeEmpty ∨ ring = .gone := by
  cases pc with
  | inTrySend value => exact absurd rfl (outside value)
  | inClose =>
      rcases here with closing | gone
      · rcases RingState.producer_of_closing closing with full | empty
        · exact .inr (.inl full)
        · exact .inr (.inr (.inl empty))
      · exact .inr (.inr (.inr gone))
  | fetchSub | wakeLast stage | gone => exact .inr (.inr (.inr here))
  | _ => exact .inl here

end AsyncSenderPc

namespace AsyncReceiverPc

variable {α : Type*}

/-- Where the task stands with the fan-in gate. -/
def phase : AsyncReceiverPc α → GatePhase
  | .idle => .away
  | .unpolled _ => .away
  | .notified _ => .away
  | .suspended _ => .suspended
  | .dropNotified _ => .dropNotified
  | .disarm _ => .disarm
  | .enterClose _ => .away
  | .inClose _ => .away
  | .gone => .away
  | _ => .armed

/-- The value from ring `idx` in the hands of a future that has not completed. -/
def inHand (idx : Nat) : AsyncReceiverPc α → List α
  | .wakeProducer j value _ => if j = idx then [value] else []
  | .dropNotified (.finished (.recv j value)) => if j = idx then [value] else []
  | .disarm (.finished (.recv j value)) => if j = idx then [value] else []
  | _ => []

/-- The future has to wake producer `idx`. -/
def wakes (idx : Nat) : AsyncReceiverPc α → Bool
  | .wakeProducer j _ _ => decide (j = idx)
  | .batchWakeProducer j _ _ => decide (j = idx)
  | _ => false

/-- The future has found ring `idx` empty since it armed the gate. -/
def passed (idx : Nat) : AsyncReceiverPc α → Bool
  | .enterTryRecv j => decide (idx < j)
  | .inTryRecv j => decide (idx < j)
  | .enterDrain j total _ => decide (total = 0 ∧ idx < j)
  | .inDrain j total _ => decide (total = 0 ∧ idx < j)
  | .loadShutdown _ => true
  | .loadLive _ => true
  | .emptyHead _ _ => true
  | .emptyTail _ _ _ => true
  | .poll _ => true
  | .suspended _ => true
  | _ => false

/-- What ring `idx`'s consumer half is doing meanwhile. -/
def RingAt (idx : Nat) : AsyncReceiverPc α → ConsumerPc α → Prop
  | .inTryRecv j, pc => if j = idx then RingState.InTryRecv pc else pc = .idle
  | .inDrain j _ _, pc => if j = idx then RingState.InDrain pc else pc = .idle
  | .enterClose j, pc => if idx < j then pc = .gone else pc = .idle
  | .inClose j, pc =>
      if j = idx then RingState.consumerActivity pc = .closing ∨ pc = .gone
      else if idx < j then pc = .gone
      else pc = .idle
  | .gone, pc => pc = .gone
  | _, pc => pc = .idle

section RingAt

variable {idx j total : Nat} {round : Bool} {pc : ConsumerPc α}

theorem ringAt_inTryRecv : (inTryRecv idx).RingAt idx pc ↔ RingState.InTryRecv pc := by
  rw [RingAt, if_pos rfl]

theorem ringAt_inDrain : (inDrain idx total round).RingAt idx pc ↔ RingState.InDrain pc := by
  rw [RingAt, if_pos rfl]

theorem ringAt_inClose : (inClose idx).RingAt idx pc ↔
    RingState.consumerActivity pc = .closing ∨ pc = .gone := by
  rw [RingAt, if_pos rfl]

theorem ringAt_inTryRecv_of_ne (other : idx ≠ j) : (inTryRecv j).RingAt idx pc ↔ pc = .idle := by
  rw [RingAt, if_neg (Ne.symm other)]

theorem ringAt_inDrain_of_ne (other : idx ≠ j) :
    (inDrain j total round).RingAt idx pc ↔ pc = .idle := by
  rw [RingAt, if_neg (Ne.symm other)]

theorem ringAt_inClose_of_ne (other : idx ≠ j) :
    (inClose j).RingAt idx pc ↔ (enterClose j).RingAt idx pc := by
  simp only [RingAt, if_neg (Ne.symm other)]

theorem ringAt_enterClose_succ (other : idx ≠ j) :
    (enterClose (j + 1)).RingAt idx pc ↔ (enterClose j).RingAt idx pc := by
  have same : idx < j + 1 ↔ idx < j := by omega
  simp only [RingAt, same]

end RingAt

/-- A call of a ring's consumer half is running. -/
def inRing : AsyncReceiverPc α → Bool
  | .inTryRecv _ => true
  | .inDrain _ _ _ => true
  | _ => false

/-- Outside of `try_recv` and `drain` the ring half is idle, or on its way out. -/
theorem RingAt.quiet {idx : Nat} {pc : AsyncReceiverPc α} {ring : ConsumerPc α}
    (here : pc.RingAt idx ring) (outside : pc.inRing = false) :
    ring = .idle ∨ ring = .dropWakeFull ∨ ring = .dropWakeEmpty ∨ ring = .gone := by
  cases pc with
  | inTryRecv j | inDrain j total round => cases outside
  | enterClose j =>
      rw [RingAt] at here
      split at here
      · exact .inr (.inr (.inr here))
      · exact .inl here
  | inClose j =>
      rw [RingAt] at here
      split at here
      · rcases here with closing | gone
        · rcases RingState.consumer_of_closing closing with full | empty
          · exact .inr (.inl full)
          · exact .inr (.inr (.inl empty))
        · exact .inr (.inr (.inr gone))
      · split at here
        · exact .inr (.inr (.inr here))
        · exact .inl here
  | gone => exact .inr (.inr (.inr here))
  | _ => exact .inl here

/-- Which values of ring `idx` the running batch may have called its callback on. -/
def CalledAt (idx : Nat) : AsyncReceiverPc α → ConsumerPc α → List α → Prop
  | .enterDrain _ total _, _, called => total = 0 → called = []
  | .inDrain j total _, pc, called =>
      total = 0 → (j = idx → RingState.untouched pc = true) → called = []
  | .batchWakeProducer _ total _, _, _ => 0 < total
  | .dropNotified (.finished (.recvBatch _)), _, _ => True
  | .disarm (.finished (.recvBatch _)), _, _ => True
  | _, _, called => called = []

end AsyncReceiverPc

/-- The link of producer `idx` to the consumer. -/
structure AsyncLink (α : Type*) where
  ring : RingState α
  sender : AsyncSenderPc α
  producerWaiter : AsyncGate
  faninWaiter : AsyncGate
  receiver : AsyncReceiverPc α
  enqueued : List α
  handed : List α
  called : List α

namespace AsyncLink

open AsyncGate RingState

variable {α : Type*} {cap : Cap} {idx : Nat} {link : AsyncLink α}

/-- The producer has published a value, and its wake has not returned. -/
def SenderDue (link : AsyncLink α) : Prop :=
  unreported link.ring.producer.pc ≠ [] ∨ link.sender.wakes = true

/-- The consumer has given slots back, and its wake has not returned. -/
def ReceiverDue (idx : Nat) (link : AsyncLink α) : Prop :=
  owesWake link.ring.consumer.pc = true ∨ link.receiver.wakes idx = true

def SawFull (link : AsyncLink α) : Prop :=
  sawFull link.ring.producer.pc = true ∨ link.sender.waits = true

def SawEmpty (idx : Nat) (link : AsyncLink α) : Prop :=
  sawEmpty link.ring.consumer.pc = true ∨ link.receiver.passed idx = true

/-- What the producer hears of `tail` through its gate. -/
def ProducerListens (cap : Cap) (idx : Nat) (link : AsyncLink α) : Prop :=
  Listens link.producerWaiter link.sender.phase idx link.ring.shared.tail.latest
    link.ring.producer.tailView (link.ReceiverDue idx) link.SawFull
    (link.ring.shared.lane.published = link.ring.shared.lane.released + cap.size)

/-- What the receiver hears of `head` through the fan-in gate. -/
def ConsumerListens (idx : Nat) (link : AsyncLink α) : Prop :=
  Listens link.faninWaiter link.receiver.phase idx link.ring.shared.head.latest
    link.ring.consumer.headView link.SenderDue (link.SawEmpty idx)
    (link.ring.shared.lane.published = link.ring.shared.lane.released)

structure Ok (cap : Cap) (idx : Nat) (link : AsyncLink α) : Prop where
  shared : SharedOk cap link.ring.shared
  producer : ProducerOk cap link.ring
  consumer : ConsumerOk link.ring
  -- the producer's end
  sends : link.producerWaiter.Ok link.sender.phase
  senderAt : link.sender.RingAt link.ring.producer.pc
  accepted : link.ring.producer.accepted = link.enqueued ++ link.sender.reporting
  tails : link.ProducerListens cap idx
  -- the receiver's end
  receives : link.faninWaiter.Ok link.receiver.phase
  receiverAt : link.receiver.RingAt idx link.ring.consumer.pc
  delivered : link.ring.consumer.delivered =
    link.handed ++ (link.called ++ link.receiver.inHand idx)
  called : link.receiver.CalledAt idx link.ring.consumer.pc link.called
  heads : link.ConsumerListens idx

/-- A future that has found its ring full keeps its gate armed. -/
theorem looks_of_sawFull {pc : AsyncSenderPc α} {ring : ProducerPc α} (here : pc.RingAt ring)
    (saw : sawFull ring = true ∨ pc.waits = true) : pc.phase.looks = true := by
  rcases saw with inRing | waits
  · by_cases inside : ∃ value, pc = .inTrySend value
    · obtain ⟨value, rfl⟩ := inside
      rfl
    · rcases here.quiet fun value same => inside ⟨value, same⟩ with rfl | rfl | rfl | rfl <;>
        cases inRing
  · cases pc <;> first | rfl | cases waits

/-- A future that has found a ring empty keeps its gate armed. -/
theorem looks_of_sawEmpty {pc : AsyncReceiverPc α} {ring : ConsumerPc α}
    (here : pc.RingAt idx ring) (saw : sawEmpty ring = true ∨ pc.passed idx = true) :
    pc.phase.looks = true := by
  rcases saw with inRing | passed
  · by_cases inside : pc.inRing = true
    · cases pc <;> first | rfl | cases inside
    · rcases here.quiet (Bool.eq_false_of_not_eq_true inside) with rfl | rfl | rfl | rfl <;>
        cases inRing
  · cases pc <;> first | rfl | cases passed

/-! ### Steps of the sender -/

namespace Ok

variable {was pc : AsyncSenderPc α}

/-- The sender goes on without a step of its ring or its gate. -/
theorem senderGoes (ok : Ok cap idx link) (senderEq : link.sender = was)
    (goes : was.phase.Goes pc.phase) (here : pc.RingAt link.ring.producer.pc)
    (reporting : pc.reporting = was.reporting) (wakes : was.wakes ≤ pc.wakes)
    (waits : pc.waits ≤ was.waits) : Ok cap idx { link with sender := pc } := by
  subst senderEq
  exact
    { ok with
      sends := ok.sends.goes goes
      senderAt := here
      accepted := by rw [reporting]; exact ok.accepted
      tails := ok.tails.goto goes.looks (fun saw => looks_of_sawFull here saw)
        (Or.imp_right waits)
      heads := ok.heads.comes (Or.imp_right wakes) }

/-- A step inside the ring, seen by the receiver as a store of `head` at most. -/
theorem senderRing (ok : Ok cap idx link) (senderEq : link.sender = was) {ring : RingState α}
    (kept : SharedOk cap ring.shared ∧ ProducerOk cap ring ∧ ConsumerRely link.ring ring)
    (shows : ProducerShows cap link.ring ring) (phase : pc.phase = was.phase)
    (here : pc.RingAt ring.producer.pc)
    (accepted : ring.producer.accepted = link.enqueued ++ pc.reporting)
    (wakes : was.wakes = false) (waits : pc.waits = false) :
    Ok cap idx { link with ring := ring, sender := pc } := by
  subst senderEq
  obtain ⟨shared, producer, rely⟩ := kept
  have consumer : ConsumerOk ring := rely.stable ok.consumer
  have due : link.SenderDue → SenderDue { link with ring := ring, sender := pc } :=
    Or.imp shows.owes fun comes => absurd (wakes.symm.trans comes) Bool.false_ne_true
  have released := rely.released
  obtain ⟨ringShared, ringProducer, ringConsumer⟩ := ring
  obtain rfl : ringConsumer = link.ring.consumer := rely.consumer
  have heard : Heard link.producerWaiter pc.phase idx ringShared.tail.latest
      ringProducer.tailView (link.ReceiverDue idx) := by
    rw [show ringShared.tail = link.ring.shared.tail from shows.tail, phase]
    exact ok.tails.toHeard.sees shows.view_le
  exact
    { shared := shared
      producer := producer
      consumer := consumer
      sends := by
        change link.producerWaiter.Ok pc.phase
        rw [phase]
        exact ok.sends
      senderAt := here
      accepted := accepted
      tails := by
        by_cases saw : sawFull ringProducer.pc = true
        · rcases shows.full saw with ⟨before, lane⟩ | newest
          · refine { heard with
              looking := fun _ => looks_of_sawFull here (.inl saw), covered := fun _ => ?_ }
            change Covers _ (ringShared.lane.published = ringShared.lane.released + cap.size) _
            rw [show ringShared.lane = link.ring.shared.lane from lane]
            exact ok.tails.covered (.inl before)
          · exact .finds heard (looks_of_sawFull here (.inl saw)) newest
        · refine .leaves heard ?_
          rintro (inRing | waiting)
          · exact saw inRing
          · rw [waits] at waiting
            cases waiting
      receives := ok.receives
      receiverAt := ok.receiverAt
      delivered := ok.delivered
      called := ok.called
      heads := by
        rcases shows.head with ⟨head, published⟩ | ⟨later, comes⟩
        · have heads := ok.heads.comes due
          change Listens _ _ _ ringShared.head.latest _ _ _
            (ringShared.lane.published = ringShared.lane.released)
          rw [show ringShared.head = _ from head, show ringShared.lane.published = _ from published,
            show ringShared.lane.released = _ from released]
          exact heads
        · exact ok.heads.stores later (.inl comes) }

/-- The ring's `try_send` comes back. -/
theorem senderReturns (ok : Ok cap idx link) (senderEq : link.sender = was)
    {producer : Producer α}
    (known : ProducerOk cap { link.ring with producer := producer })
    (view : producer.tailView = link.ring.producer.tailView) (idle : producer.pc = .idle)
    (goes : was.phase.Goes pc.phase) (here : pc.RingAt .idle)
    (accepted : producer.accepted = link.enqueued ++ pc.reporting)
    (due : link.SenderDue → pc.wakes = true) (waits : pc.waits = true → link.SawFull) :
    Ok cap idx { link with ring := { link.ring with producer := producer }, sender := pc } := by
  subst senderEq
  rw [← idle] at here
  exact
    { ok with
      shared := ok.shared
      producer := known
      consumer := ok.consumer
      sends := ok.sends.goes goes
      senderAt := here
      accepted := accepted
      tails := by
        change Listens _ _ _ _ producer.tailView _ _ _
        rw [view]
        refine ok.tails.goto goes.looks (fun saw => looks_of_sawFull here saw) ?_
        rintro (inRing | waiting)
        · rw [show sawFull producer.pc = false by rw [idle]; rfl] at inRing
          cases inRing
        · exact waits waiting
      receives := ok.receives
      receiverAt := ok.receiverAt
      delivered := ok.delivered
      called := ok.called
      heads := ok.heads.comes fun comes => .inr (due comes) }

/-- A step of the producer's gate, behind which the producer sees `view` stores. -/
theorem senderTurns (ok : Ok cap idx link) (senderEq : link.sender = was) {gate : AsyncGate}
    {view : Nat} {enqueued : List α}
    (known : ProducerOk cap
      { link.ring with producer := { link.ring.producer with tailView := view } })
    (sends : gate.Ok pc.phase)
    (heard : Heard gate pc.phase idx link.ring.shared.tail.latest view (link.ReceiverDue idx))
    (idle : link.ring.producer.pc = .idle) (here : pc.RingAt .idle)
    (accepted : link.ring.producer.accepted = enqueued ++ pc.reporting)
    (wakes : was.wakes = false) (waits : pc.waits = false) :
    Ok cap idx { link with
      ring := { link.ring with producer := { link.ring.producer with tailView := view } }
      sender := pc
      producerWaiter := gate
      enqueued := enqueued } := by
  subst senderEq
  rw [← idle] at here
  exact
    { ok with
      shared := ok.shared
      producer := known
      consumer := ok.consumer
      sends := sends
      senderAt := here
      accepted := accepted
      tails := by
        refine .leaves heard ?_
        rintro (inRing | waiting)
        · rw [show sawFull link.ring.producer.pc = false by rw [idle]; rfl] at inRing
          cases inRing
        · rw [waits] at waiting
          cases waiting
      receives := ok.receives
      receiverAt := ok.receiverAt
      delivered := ok.delivered
      called := ok.called
      heads := ok.heads.comes <|
        Or.imp_right fun comes => absurd (wakes.symm.trans comes) Bool.false_ne_true }

/-- The first poll of the notification leaves the sender suspended. -/
theorem senderAwaits (ok : Ok cap idx link) {value : α} (senderEq : link.sender = .poll value)
    (pending : link.producerWaiter.poll.1 = false) :
    Ok cap idx { link with
      sender := .suspended value, producerWaiter := link.producerWaiter.poll.2 } := by
  obtain ⟨ring, sender, producerWaiter, faninWaiter, receiver, enqueued, handed, called⟩ := link
  obtain rfl : sender = .poll value := senderEq
  exact
    { ok with
      sends := ok.sends.awaits pending
      tails := ok.tails.awaits ok.sends pending id
      heads := ok.heads }

/-- The sender's step inside `fanin_waiter.wake()`. -/
theorem senderWakes (ok : Ok cap idx link) (senderEq : link.sender = was) (saw : Bool)
    (stage : WakeStage) (idle : link.ring.producer.pc = .idle)
    (goes : was.phase.Goes pc.phase) (here : pc.RingAt .idle)
    (reporting : pc.reporting = was.reporting) (waits : pc.waits = false)
    (comes : (link.faninWaiter.wakeStep (some (idx, link.ring.shared.head.latest)) saw
      stage).2.isSome = true → pc.wakes = true) :
    Ok cap idx { link with
      sender := pc
      faninWaiter :=
        (link.faninWaiter.wakeStep (some (idx, link.ring.shared.head.latest)) saw stage).1 } := by
  subst senderEq
  rw [← idle] at here
  exact
    { ok with
      sends := ok.sends.goes goes
      senderAt := here
      accepted := by rw [reporting]; exact ok.accepted
      tails := by
        refine ok.tails.goto goes.looks (fun saw => looks_of_sawFull here saw) ?_
        exact Or.imp_right fun waiting => absurd (waits.symm.trans waiting) Bool.false_ne_true
      receives := ok.receives.wakeStep ..
      heads :=
        (ok.heads.ownWakeStep ok.receives saw stage).comes fun coming => .inr (comes coming) }

/-! ### Wakes by others -/

/-- A step of another waker of the fan-in gate. -/
theorem faninWakes (ok : Ok cap idx link) {stored : Option (Nat × Nat)}
    (own : ∀ count, stored = some (idx, count) → count = link.ring.shared.head.latest)
    (saw : Bool) (stage : WakeStage) :
    Ok cap idx { link with faninWaiter := (link.faninWaiter.wakeStep stored saw stage).1 } where
  __ := ok
  receives := ok.receives.wakeStep ..
  heads := ok.heads.wakeStep own saw stage

/-- A step of another waker of the producer's gate. -/
theorem producerWakes (ok : Ok cap idx link) {stored : Option (Nat × Nat)}
    (own : ∀ count, stored = some (idx, count) → count = link.ring.shared.tail.latest)
    (saw : Bool) (stage : WakeStage) :
    Ok cap idx { link with
      producerWaiter := (link.producerWaiter.wakeStep stored saw stage).1 } where
  __ := ok
  sends := ok.sends.wakeStep ..
  tails := ok.tails.wakeStep own saw stage

/-! ### Steps of the receiver -/

variable {stood next : AsyncReceiverPc α}

/-- What the invariant says of the receiver where it stands. -/
theorem standing (ok : Ok cap idx link) (receiverEq : link.receiver = stood) :
    link.faninWaiter.Ok stood.phase ∧ stood.RingAt idx link.ring.consumer.pc ∧
      link.ring.consumer.delivered = link.handed ++ (link.called ++ stood.inHand idx) ∧
        stood.CalledAt idx link.ring.consumer.pc link.called ∧
          Heard link.faninWaiter stood.phase idx link.ring.shared.head.latest
            link.ring.consumer.headView link.SenderDue := by
  subst receiverEq
  exact ⟨ok.receives, ok.receiverAt, ok.delivered, ok.called, ok.heads.toHeard⟩

/-- The receiver goes on without a step of the ring or its gate. -/
theorem receiverGoes (ok : Ok cap idx link) (receiverEq : link.receiver = stood)
    (goes : stood.phase.Goes next.phase) (here : next.RingAt idx link.ring.consumer.pc)
    (inHand : next.inHand idx = stood.inHand idx)
    (called : next.CalledAt idx link.ring.consumer.pc link.called)
    (wakes : stood.wakes idx ≤ next.wakes idx) (passed : next.passed idx ≤ stood.passed idx) :
    Ok cap idx { link with receiver := next } := by
  subst receiverEq
  exact
    { ok with
      receives := ok.receives.goes goes
      receiverAt := here
      delivered := by rw [inHand]; exact ok.delivered
      called := called
      tails := ok.tails.comes (Or.imp_right wakes)
      heads := ok.heads.goto goes.looks (fun saw => looks_of_sawEmpty here saw)
        (Or.imp_right passed) }

/-- A step inside the ring, seen by the producer as a store of `tail` at most. -/
theorem receiverRing (ok : Ok cap idx link) (receiverEq : link.receiver = stood)
    {ring : RingState α} {called : List α}
    (kept : SharedOk cap ring.shared ∧ ConsumerOk ring ∧ ProducerRely link.ring ring)
    (shows : ConsumerShows link.ring ring) (phase : next.phase = stood.phase)
    (here : next.RingAt idx ring.consumer.pc)
    (delivered : ring.consumer.delivered = link.handed ++ (called ++ next.inHand idx))
    (calledAt : next.CalledAt idx ring.consumer.pc called)
    (wakes : stood.wakes idx = false) (passed : next.passed idx = false) :
    Ok cap idx { link with ring := ring, receiver := next, called := called } := by
  subst receiverEq
  obtain ⟨shared, consumer, rely⟩ := kept
  have producer : ProducerOk cap ring := rely.stable ok.producer
  have due : link.ReceiverDue idx →
      ReceiverDue idx { link with ring := ring, receiver := next, called := called } :=
    Or.imp shows.owes fun comes => absurd (wakes.symm.trans comes) Bool.false_ne_true
  have published := rely.published
  obtain ⟨ringShared, ringProducer, ringConsumer⟩ := ring
  obtain rfl : ringProducer = link.ring.producer := rely.producer
  have heard : Heard link.faninWaiter next.phase idx ringShared.head.latest
      ringConsumer.headView link.SenderDue := by
    rw [show ringShared.head = link.ring.shared.head from shows.head, phase]
    exact ok.heads.toHeard.sees shows.view_le
  exact
    { shared := shared
      producer := producer
      consumer := consumer
      sends := ok.sends
      senderAt := ok.senderAt
      accepted := ok.accepted
      tails := by
        rcases shows.tail with ⟨tail, released⟩ | ⟨later, owes⟩
        · have tails := ok.tails.comes due
          change Listens _ _ _ ringShared.tail.latest _ _ _
            (ringShared.lane.published = ringShared.lane.released + cap.size)
          rw [show ringShared.tail = _ from tail, show ringShared.lane.published = _ from published,
            show ringShared.lane.released = _ from released]
          exact tails
        · exact ok.tails.stores later (.inl owes)
      receives := by
        change link.faninWaiter.Ok next.phase
        rw [phase]
        exact ok.receives
      receiverAt := here
      delivered := delivered
      called := calledAt
      heads := by
        by_cases saw : sawEmpty ringConsumer.pc = true
        · have looks := looks_of_sawEmpty here (.inl saw)
          rcases shows.empty saw with ⟨before, lane⟩ | newest
          · refine { heard with looking := fun _ => looks, covered := fun _ => ?_ }
            change Covers _ (ringShared.lane.published = ringShared.lane.released) _
            rw [show ringShared.lane = link.ring.shared.lane from lane]
            exact ok.heads.covered (.inl before)
          · exact .finds heard looks newest
        · refine .leaves heard ?_
          rintro (inRing | empty)
          · exact saw inRing
          · rw [passed] at empty
            cases empty }

/-- A call of the ring comes back. -/
theorem receiverReturns (ok : Ok cap idx link) (receiverEq : link.receiver = stood)
    {consumer : Consumer α}
    (known : ConsumerOk { link.ring with consumer := consumer })
    (view : consumer.headView = link.ring.consumer.headView) (idle : consumer.pc = .idle)
    (goes : stood.phase.Goes next.phase) (here : next.RingAt idx .idle)
    (delivered : consumer.delivered = link.handed ++ (link.called ++ next.inHand idx))
    (called : next.CalledAt idx .idle link.called)
    (due : link.ReceiverDue idx → next.wakes idx = true)
    (passed : next.passed idx = true → link.SawEmpty idx) :
    Ok cap idx { link with
      ring := { link.ring with consumer := consumer }, receiver := next } := by
  subst receiverEq
  rw [← idle] at here called
  exact
    { ok with
      shared := ok.shared
      producer := ok.producer
      consumer := known
      sends := ok.sends
      senderAt := ok.senderAt
      accepted := ok.accepted
      tails := ok.tails.comes fun comes => .inr (due comes)
      receives := ok.receives.goes goes
      receiverAt := here
      delivered := delivered
      called := called
      heads := by
        change Listens _ _ _ _ consumer.headView _ _ _
        rw [view]
        refine ok.heads.goto goes.looks (fun saw => looks_of_sawEmpty here saw) ?_
        rintro (inRing | empty)
        · rw [show sawEmpty consumer.pc = false by rw [idle]; rfl] at inRing
          cases inRing
        · exact passed empty }

/-- A step of the fan-in gate, behind which the receiver sees `view` stores. -/
theorem receiverTurns (ok : Ok cap idx link) (receiverEq : link.receiver = stood)
    {gate : AsyncGate} {view : Nat} {handed called : List α}
    (known : ConsumerOk
      { link.ring with consumer := { link.ring.consumer with headView := view } })
    (receives : gate.Ok next.phase)
    (heard : Heard gate next.phase idx link.ring.shared.head.latest view link.SenderDue)
    (idle : link.ring.consumer.pc = .idle) (here : next.RingAt idx .idle)
    (delivered : link.ring.consumer.delivered = handed ++ (called ++ next.inHand idx))
    (calledAt : next.CalledAt idx .idle called)
    (wakes : stood.wakes idx = false) (passed : next.passed idx = false) :
    Ok cap idx { link with
      ring := { link.ring with consumer := { link.ring.consumer with headView := view } }
      receiver := next
      faninWaiter := gate
      handed := handed
      called := called } := by
  subst receiverEq
  rw [← idle] at here calledAt
  exact
    { ok with
      shared := ok.shared
      producer := ok.producer
      consumer := known
      sends := ok.sends
      senderAt := ok.senderAt
      accepted := ok.accepted
      tails := ok.tails.comes <|
        Or.imp_right fun comes => absurd (wakes.symm.trans comes) Bool.false_ne_true
      receives := receives
      receiverAt := here
      delivered := delivered
      called := calledAt
      heads := by
        refine .leaves heard ?_
        rintro (inRing | empty)
        · rw [show sawEmpty link.ring.consumer.pc = false by rw [idle]; rfl] at inRing
          cases inRing
        · rw [passed] at empty
          cases empty }

/-- The first poll of the notification leaves the receiver suspended. -/
theorem receiverAwaits (ok : Ok cap idx link) {future : ReceiveFuture}
    (receiverEq : link.receiver = .poll future) (pending : link.faninWaiter.poll.1 = false) :
    Ok cap idx { link with
      receiver := .suspended future, faninWaiter := link.faninWaiter.poll.2 } := by
  obtain ⟨ring, sender, producerWaiter, faninWaiter, receiver, enqueued, handed, called⟩ := link
  obtain rfl : receiver = .poll future := receiverEq
  exact
    { ok with
      receives := ok.receives.awaits pending
      tails := ok.tails
      heads := ok.heads.awaits ok.receives pending id }

/-- The receiver's step inside `producer_waiters[idx].wake()`. -/
theorem receiverWakes (ok : Ok cap idx link) (receiverEq : link.receiver = stood) (saw : Bool)
    (stage : WakeStage) (idle : link.ring.consumer.pc = .idle)
    (goes : stood.phase.Goes next.phase) (here : next.RingAt idx .idle)
    (inHand : next.inHand idx = stood.inHand idx)
    (called : next.CalledAt idx .idle link.called) (passed : next.passed idx = false)
    (comes : (link.producerWaiter.wakeStep (some (idx, link.ring.shared.tail.latest)) saw
      stage).2.isSome = true → next.wakes idx = true) :
    Ok cap idx { link with
      receiver := next
      producerWaiter :=
        (link.producerWaiter.wakeStep (some (idx, link.ring.shared.tail.latest)) saw
          stage).1 } := by
  subst receiverEq
  rw [← idle] at here called
  exact
    { ok with
      sends := ok.sends.wakeStep ..
      tails := (ok.tails.ownWakeStep ok.sends saw stage).comes fun coming => .inr (comes coming)
      receives := ok.receives.goes goes
      receiverAt := here
      delivered := by rw [inHand]; exact ok.delivered
      called := called
      heads := by
        refine ok.heads.goto goes.looks (fun saw => looks_of_sawEmpty here saw) ?_
        exact Or.imp_right fun empty => absurd (passed.symm.trans empty) Bool.false_ne_true }

/-- The check for an item that is left loads `head`. -/
theorem receiverLoads (ok : Ok cap idx link) {view : Nat}
    (known : ConsumerOk
      { link.ring with consumer := { link.ring.consumer with headView := view } })
    (le : link.ring.consumer.headView ≤ view) :
    Ok cap idx { link with
      ring := { link.ring with consumer := { link.ring.consumer with headView := view } } } where
  __ := ok
  shared := ok.shared
  producer := ok.producer
  consumer := known
  sends := ok.sends
  senderAt := ok.senderAt
  accepted := ok.accepted
  tails := ok.tails
  receives := ok.receives
  receiverAt := ok.receiverAt
  delivered := ok.delivered
  called := ok.called
  heads := ok.heads.sees le

end Ok

theorem ok_new : Ok cap idx ⟨.new, .idle, .new, .new, .idle, [], [], ([] : List α)⟩ where
  shared := (new_ok cap).1
  producer := (new_ok cap).2.1
  consumer := (new_ok cap).2.2
  sends := AsyncGate.ok_new
  senderAt := rfl
  accepted := rfl
  tails := by
    refine listens_new ?_
    rintro (inRing | waiting)
    · cases inRing
    · cases waiting
  receives := AsyncGate.ok_new
  receiverAt := rfl
  delivered := rfl
  called := rfl
  heads := by
    refine listens_new ?_
    rintro (inRing | empty)
    · cases inRing
    · cases empty

end AsyncLink

end ArbitroKit
