import ArbitroKit.FutureQueue
import ArbitroKit.RingAsyncReceiver
import ArbitroKit.RingClosed

/-!
# The ring as a queue of futures

The ring between two tasks refines the queue whose ends can be futures: a `send_async`
takes effect with its store of `head`, a `recv_async` with its read of the slot, and a
future that is dropped has done neither.
-/

namespace ArbitroKit

open Coherent SlotLane Cyclic Transition

namespace RingSenderPc

variable {α : Type*}

/-- The send future there is: its value, and whether the ring has published it. -/
def sending (ring : ProducerPc α) : RingSenderPc α → Option (α × Bool)
  | .unpolled value => some (value, false)
  | .enterTrySend value => some (value, false)
  | .inTrySend value => some (value, !(RingState.unreported ring).isEmpty)
  | .waits _ (.dropNotified .dropped) => none
  | .waits _ (.disarm .dropped) => none
  | .waits value _ => some (value, false)
  | _ => none

/-- What the caller sees of a poll of the send future. -/
def polled (value : α) : ProducerPc α → FutureQueue.Event α
  | .returned (.trySend (.ok ())) _ => .sendOk value
  | .returned (.trySend (.error (.closed refused))) _ => .sendClosed refused
  | _ => .sendPoll

theorem polled_eq {value : α} {pc : ProducerPc α}
    (notReturned : ∀ result accepted, pc = .returned (.trySend result) accepted → False) :
    polled value pc = .sendPoll := by
  unfold polled
  split
  · exact (notReturned _ _ rfl).elim
  · exact (notReturned _ _ rfl).elim
  · rfl

/-- What the callers see of a step of the sender's task. -/
def tickEvent (ring : ProducerPc α) : RingSenderPc α → FutureQueue.Event α
  | .inCall => .sendCall
  | .inTrySend value => polled value ring
  | .inClose => .leaving
  | _ => .sendPoll

end RingSenderPc

namespace RingReceiverPc

variable {α : Type*}

/-- The receive future there is, with the value it has read. -/
def receiving (ring : ConsumerPc α) : RingReceiverPc → Option (Option α)
  | .unpolled => some none
  | .enterTryRecv => some none
  | .inTryRecv => some (RingState.undelivered ring).head?
  | .waits (.dropNotified .dropped) => none
  | .waits (.disarm .dropped) => none
  | .waits _ => some none
  | _ => none

/-- What the caller sees of a poll of the receive future. -/
def polled : ConsumerPc α → FutureQueue.Event α
  | .returned (.tryRecv (.ok value)) => .recvSome value
  | .returned (.tryRecv (.error .closed)) => .recvNone
  | _ => .recvPoll

theorem polled_eq {pc : ConsumerPc α}
    (notReturned : ∀ result, pc = .returned (.tryRecv result) → False) :
    polled pc = .recvPoll := by
  unfold polled
  split
  · exact (notReturned _ rfl).elim
  · exact (notReturned _ rfl).elim
  · rfl

/-- What the callers see of a step of the receiver's task. -/
def tickEvent (ring : ConsumerPc α) : RingReceiverPc → FutureQueue.Event α
  | .inCall => .recvCall
  | .inTryRecv => polled ring
  | .inClose => .leaving
  | _ => .recvPoll

end RingReceiverPc

namespace AsyncRing

open AsyncGate RingState

variable {α : Type*} {cap : Cap} {s after : AsyncRing α}

/-- What the ring stands for: the values that its slots own, from `tail` to `head`. -/
def asQueue (cap : Cap) (s : AsyncRing α) : FutureQueue α where
  queue := inRing cap s.ring.shared
  sent := s.ring.shared.lane.sent
  received := s.ring.shared.lane.received
  sending := s.sender.sending s.ring.producer.pc
  receiving := s.receiver.receiving s.ring.consumer.pc
  closed := s.ring.shared.closed

/-- What the callers see of a step of the sender. -/
def senderEvent (s : AsyncRing α) : RingSenderAction α → FutureQueue.Event α
  | .trySend _ => .sendCall
  | .trySendBulk _ => .sendCall
  | .drop => .closes
  | .sendAsync value => .sendStarts value
  | .cancel =>
      match s.sender with
      | .unpolled value => .sendDropped value
      | .waits value _ => .sendDropped value
      | _ => .leaving
  | .tick _ _ => s.sender.tickEvent s.ring.producer.pc

/-- What the callers see of a step of the receiver. -/
def receiverEvent (s : AsyncRing α) : RingReceiverAction → FutureQueue.Event α
  | .tryRecv => .recvCall
  | .drain => .recvCall
  | .drop => .closes
  | .recvAsync => .recvStarts
  | .cancel => .recvDropped
  | .tick _ _ => s.receiver.tickEvent s.ring.consumer.pc

/-- The outcome of a call or future that the step hands over, if any. -/
def event (s : AsyncRing α) : AsyncRingAction α → FutureQueue.Event α
  | .sender action => s.senderEvent action
  | .receiver action => s.receiverEvent action

/-! ### The ring meanwhile -/

/-- What a step does to the ring itself: a step of one of its handles, or a task has
synchronised with the other side outside of a call. -/
inductive RingMove (cap : Cap) (ring : RingState α) : RingState α → Prop
  | stays : RingMove cap ring ring
  | producer {action : ProducerAction α} {next : RingState α}
      (taken : ring.producerStep cap action = some next) : RingMove cap ring next
  | consumer {action : ConsumerAction} {next : RingState α} (calm : action ≠ .panic)
      (taken : ring.consumerStep cap action = some next) : RingMove cap ring next
  | seesTail (view : Nat) (idle : ring.producer.pc = .idle) :
      RingMove cap ring { ring with producer := { ring.producer with tailView := view } }
  | seesHead (view : Nat) (idle : ring.consumer.pc = .idle) :
      RingMove cap ring { ring with consumer := { ring.consumer with headView := view } }

theorem ringMove_of_producerTick {index : Nat} {saw : Bool}
    (taken : s.producerTick cap index saw = some after) : RingMove cap s.ring after.ring := by
  rcases (producerTicks_of taken).frame.2.2.2 with same | ticked
  · rw [same]
    exact .stays
  · exact .producer (show s.ring.producerStep cap (.tick index) = _ from ticked)

theorem ringMove_of_consumerTick {index : Nat} {saw : Bool}
    (taken : s.consumerTick cap index saw = some after) : RingMove cap s.ring after.ring := by
  rcases (consumerTicks_of taken).frame.2.2.2 with same | ticked
  · rw [same]
    exact .stays
  · exact .consumer (by simp : ConsumerAction.tick index ≠ .panic) ticked

theorem ringMove_of_sendWait {value : α} {pc : AwaitPc RingCheck} {index : Nat}
    (idle : s.ring.producer.pc = .idle) (taken : s.sendWait cap value index pc = some after) :
    RingMove cap s.ring after.ring := by
  cases pc with
  | check phase rest =>
      cases rest with
      | head | closed =>
          cases taken
          exact .stays
      | tail head =>
          obtain ⟨⟨tail, loadedState⟩, loaded, rfl⟩ := Option.map_eq_some_iff.mp taken
          obtain ⟨-, rfl⟩ := loadTail_eq_some loaded
          exact .seesTail index idle
  | notified | poll | suspended | dropNotified next | disarm next =>
      simp only [AsyncRing.sendWait] at taken
      obtain ⟨step, ticks, rfl⟩ := Option.map_eq_some_iff.mp taken
      exact .seesTail _ idle

theorem ringMove_of_recvWait {pc : AwaitPc RingCheck} {index : Nat}
    (idle : s.ring.consumer.pc = .idle) (taken : s.recvWait index pc = some after) :
    RingMove cap s.ring after.ring := by
  cases pc with
  | check phase rest =>
      cases rest with
      | head =>
          obtain ⟨⟨head, loadedState⟩, loaded, rfl⟩ := Option.map_eq_some_iff.mp taken
          obtain ⟨-, rfl⟩ := loadHead_eq_some loaded
          exact .seesHead index idle
      | tail head | closed =>
          cases taken
          exact .stays
  | notified | poll | suspended | dropNotified next | disarm next =>
      simp only [AsyncRing.recvWait] at taken
      obtain ⟨step, ticks, rfl⟩ := Option.map_eq_some_iff.mp taken
      exact .seesHead _ idle

theorem ringMove_of_senderStep (ok : LinkOk cap s) {action : RingSenderAction α}
    (taken : s.senderStep cap action = some after) : RingMove cap s.ring after.ring := by
  have here := ok.senderAt
  have entered {call : ProducerAction α} {pc : RingSenderPc α}
      (taken : s.producerCall cap call pc = some after) : RingMove cap s.ring after.ring := by
    unfold AsyncRing.producerCall at taken
    split at taken
    · obtain ⟨ring, called, rfl⟩ := Option.map_eq_some_iff.mp taken
      exact .producer called
    · cases taken
  cases action with
  | trySend value | trySendBulk items | drop => exact entered taken
  | sendAsync value | cancel =>
      simp only [AsyncRing.senderStep] at taken
      split at taken <;> cases taken <;> exact .stays
  | tick index saw =>
      change s.senderTick cap index saw = some after at taken
      unfold AsyncRing.senderTick at taken
      cases pcEq : s.sender with
      | idle | gone => simp [pcEq] at taken
      | inCall | inTrySend value =>
          simp only [pcEq] at taken
          split at taken
          · obtain ⟨next, ticked, rfl⟩ := Option.map_eq_some_iff.mp taken
            exact (ringMove_of_producerTick ticked :)
          · exact ringMove_of_producerTick taken
      | inClose =>
          simp only [pcEq] at taken
          split at taken
          · cases taken
            exact .stays
          · exact ringMove_of_producerTick taken
      | unpolled value =>
          simp only [pcEq, Option.some.injEq] at taken
          subst taken
          exact .stays
      | enterTrySend value =>
          simp only [pcEq] at taken
          obtain ⟨ring, called, rfl⟩ := Option.map_eq_some_iff.mp taken
          exact .producer called
      | waits value pc =>
          rw [pcEq] at here
          simp only [pcEq] at taken
          exact ringMove_of_sendWait here taken

theorem ringMove_of_receiverStep (ok : LinkOk cap s) {action : RingReceiverAction}
    (taken : s.receiverStep cap action = some after) : RingMove cap s.ring after.ring := by
  have here := ok.receiverAt
  have entered {call : ConsumerAction} {pc : RingReceiverPc} (calm : call ≠ .panic)
      (taken : s.consumerCall cap call pc = some after) : RingMove cap s.ring after.ring := by
    unfold AsyncRing.consumerCall at taken
    split at taken
    · obtain ⟨ring, called, rfl⟩ := Option.map_eq_some_iff.mp taken
      exact .consumer calm called
    · cases taken
  cases action with
  | tryRecv | drain | drop => exact entered (by simp) taken
  | recvAsync | cancel =>
      simp only [AsyncRing.receiverStep] at taken
      split at taken <;> cases taken <;> exact .stays
  | tick index saw =>
      change s.receiverTick cap index saw = some after at taken
      unfold AsyncRing.receiverTick at taken
      cases pcEq : s.receiver with
      | idle | gone => simp [pcEq] at taken
      | inCall | inTryRecv =>
          simp only [pcEq] at taken
          split at taken
          · obtain ⟨next, ticked, rfl⟩ := Option.map_eq_some_iff.mp taken
            exact (ringMove_of_consumerTick ticked :)
          · exact ringMove_of_consumerTick taken
      | inClose =>
          simp only [pcEq] at taken
          split at taken
          · cases taken
            exact .stays
          · exact ringMove_of_consumerTick taken
      | unpolled =>
          simp only [pcEq, Option.some.injEq] at taken
          subst taken
          exact .stays
      | enterTryRecv =>
          simp only [pcEq] at taken
          obtain ⟨ring, called, rfl⟩ := Option.map_eq_some_iff.mp taken
          exact .consumer (by simp) called
      | waits pc =>
          rw [pcEq] at here
          simp only [pcEq] at taken
          exact ringMove_of_recvWait here taken

theorem ringMove_of_step (ok : LinkOk cap s) {action : AsyncRingAction α}
    (taken : s.step cap action = some after) : RingMove cap s.ring after.ring := by
  cases action with
  | sender action => exact ringMove_of_senderStep ok taken
  | receiver action => exact ringMove_of_receiverStep ok taken

/-! ### What a task may say of the other side -/

/-- A refusal, or the end of the stream, is said of a ring that is closed for good. -/
structure SaysClosed (ring : RingState α) : Prop where
  refused : toldClosed ring.producer.pc = true → ring.shared.closed = true
  disconnect : Disconnect ring

/-- A call is told so only by a look at `closed`. -/
theorem told_of_producerStep {ring next : RingState α} {action : ProducerAction α}
    (taken : ring.producerStep cap action = some next)
    (told : toldClosed next.producer.pc = true) : next.shared.closed = true := by
  rcases refuses_of_producerStep taken with elsewhere | refuses
  · rw [refusedAt_of_toldClosed told] at elsewhere
    cases elsewhere
  · cases refuses with
    | started call value => cases told
    | refreshed call value head tail index here read full => cases told
    | judged call value index here =>
        change ring.shared.closed = true
        cases closed : ring.shared.closed with
        | true => rfl
        | false =>
            rw [closed] at told
            cases call <;> cases told

theorem SaysClosed.moves {ring next : RingState α} (tells : SaysClosed ring)
    (shared : SharedOk cap ring.shared) (consumer : ConsumerOk ring)
    (moves : RingMove cap ring next) : SaysClosed next := by
  have refused := tells.refused
  have disconnect := tells.disconnect
  cases moves with
  | stays => exact tells
  | producer taken => exact ⟨told_of_producerStep taken, disconnect.producer_step taken⟩
  | @consumer action _ calm taken =>
      have within : ring.panicsWithinCache (.consumer action) = true := by
        cases action <;> first | rfl | exact absurd rfl calm
      have same := (consumer_step shared consumer within taken).2.2.producer
      refine ⟨fun told => ?_, disconnect.consumer_step shared consumer same taken⟩
      rw [same] at told
      exact closed_of_consumerStep taken (refused told)
  | seesTail view idle => exact ⟨refused, disconnect.closedBy, disconnect.rechecks,
      fun said => have finished := disconnect.said said
        ⟨finished.dropped, finished.closed, finished.drained, finished.settled⟩⟩
  | seesHead view idle =>
      refine ⟨refused, disconnect.closedBy, fun call tail here => ?_, fun said => ?_⟩
      · rw [show ring.consumer.pc = _ from here] at idle
        cases idle
      · rw [show _ = _ from idle] at said
        cases said

theorem saysClosed (reached : (system cap).Reachable s) : SaysClosed s.ring := by
  apply reached.invariant fun s => SaysClosed s.ring
  · rintro - rfl
    exact ⟨fun told => (by cases told), fun closed => (by cases closed),
      fun _ _ here => (by cases here), fun said => (by cases said)⟩
  · intro before action after reached tells taken
    have ok := linkOk reached
    exact tells.moves ok.shared ok.consumer (ringMove_of_step ok taken)

/-! ### Steps of the sender -/

/-- A step of the sender leaves the other end alone, and appends values at most. -/
structure SenderAppends (s after : AsyncRing α) (values : List α) : Prop where
  receiver : after.receiver = s.receiver
  consumer : after.ring.consumer = s.ring.consumer
  received : after.ring.shared.lane.received = s.ring.shared.lane.received
  sent : after.ring.shared.lane.sent = s.ring.shared.lane.sent ++ values
  closed : after.ring.shared.closed = s.ring.shared.closed

theorem LinkOk.queue_eq (ok : LinkOk cap s) : (s.asQueue cap).queue =
    s.ring.shared.lane.sent.drop s.ring.shared.lane.received.length :=
  ok.shared.inRing_eq

theorem LinkOk.received_le (ok : LinkOk cap s) :
    s.ring.shared.lane.received.length ≤ s.ring.shared.lane.sent.length := by
  rw [← ok.shared.received_append, List.length_append]
  exact Nat.le_add_right _ _

theorem LinkOk.queue_le (ok : LinkOk cap s) : (s.asQueue cap).queue.length ≤ cap.size := by
  obtain ⟨ordered, near, -⟩ := ok.shared.near
  have released_le := ok.shared.sound.released_le
  rw [ok.queue_eq, List.length_drop, ok.shared.sound.length_sent]
  omega

theorem SenderAppends.asQueue {values : List α} (appends : SenderAppends s after values)
    (ok : LinkOk cap s) (okAfter : LinkOk cap after) :
    after.asQueue cap = { (s.asQueue cap).push values with
        sending := after.sender.sending after.ring.producer.pc } ∧
      (s.asQueue cap).queue.length + values.length ≤ cap.size := by
  have queue : (after.asQueue cap).queue = (s.asQueue cap).queue ++ values := by
    rw [okAfter.queue_eq, ok.queue_eq, appends.sent, appends.received,
      List.drop_append_of_le_length ok.received_le]
  constructor
  · rw [FutureQueue.mk.injEq]
    refine ⟨queue, appends.sent, appends.received, rfl, ?_, appends.closed⟩
    change after.receiver.receiving after.ring.consumer.pc = _
    rw [appends.receiver, appends.consumer]
    rfl
  · rw [← List.length_append, ← queue]
    exact okAfter.queue_le

/-- A step that the queue does not see. -/
theorem SenderAppends.still (appends : SenderAppends s after []) (ok : LinkOk cap s)
    (okAfter : LinkOk cap after) (same : after.sender.sending after.ring.producer.pc =
      s.sender.sending s.ring.producer.pc) : after.asQueue cap = s.asQueue cap := by
  rw [(appends.asQueue ok okAfter).1, same, FutureQueue.push, List.append_nil, List.append_nil]
  rfl

/-- A step at which there is only the future to tell of. -/
theorem SenderAppends.goes (appends : SenderAppends s after []) (ok : LinkOk cap s)
    (okAfter : LinkOk cap after) : after.asQueue cap =
      { s.asQueue cap with sending := after.sender.sending after.ring.producer.pc } := by
  rw [(appends.asQueue ok okAfter).1, FutureQueue.push, List.append_nil, List.append_nil]

/-- The queue does not see where the task goes. -/
theorem SenderAppends.senderAt {values : List α} (appends : SenderAppends s after values)
    (pc : RingSenderPc α) : SenderAppends s (after.senderAt pc) values :=
  ⟨appends.receiver, appends.consumer, appends.received, appends.sent, appends.closed⟩

/-- A step of a call that is no future. -/
theorem SenderAppends.pushes {values : List α} (appends : SenderAppends s after values)
    (ok : LinkOk cap s) (okAfter : LinkOk cap after)
    (before : s.sender.sending s.ring.producer.pc = none)
    (behind : after.sender.sending after.ring.producer.pc = none) :
    FutureQueue.Moves cap.size (s.asQueue cap) .sendCall (after.asQueue cap) := by
  obtain ⟨same, room⟩ := appends.asQueue ok okAfter
  rw [same, behind, ← before]
  exact .pushes values before room

/-- The ring stays as it is but for what the producer has seen. -/
theorem SenderAppends.quiet (receiver : after.receiver = s.receiver)
    (consumer : after.ring.consumer = s.ring.consumer)
    (shared : after.ring.shared.lane = s.ring.shared.lane ∧
      after.ring.shared.closed = s.ring.shared.closed) : SenderAppends s after [] where
  receiver := receiver
  consumer := consumer
  received := by rw [shared.1]
  sent := by rw [shared.1, List.append_nil]
  closed := shared.2

theorem ProducerTicks.appends (ok : LinkOk cap s) {index : Nat} {saw : Bool}
    (ticks : ProducerTicks cap s index saw after) : ∃ values, SenderAppends s after values := by
  have frame := ticks.frame
  have further (moves : ProducerMoves s.ring after.ring)
      (ticked : s.ring.producerTick cap index = some after.ring) :
      ∃ values, SenderAppends s after values := by
    obtain ⟨values, sent⟩ := moves.sent
    obtain ⟨closed, consumer⟩ := closed_of_producerTick ticked
    have rely := (producer_step ok.shared ok.producer
      (show s.ring.producerStep cap (.tick index) = _ from ticked)).2.2
    exact ⟨values, frame.2.1, consumer, rely.received, sent.symm, closed⟩
  cases ticks with
  | silent silent ticked => exact further (producerMoves_tick silent ticked) ticked
  | @inWake which stage wakes goes =>
      cases which <;> exact ⟨[], .quiet rfl rfl ⟨rfl, rfl⟩⟩
  | @woken which ring wakes leaves ticked =>
      cases which <;> exact further (producerWake_tick wakes ticked).1 ticked

/-- A call comes back with the queue as it was. -/
theorem ProducerTicks.returns {index : Nat} {saw : Bool} {outcome : ProducerOutcome α}
    {accepted : List α} (returned : s.ring.producer.pc = .returned outcome accepted)
    (ticks : ProducerTicks cap s index saw after) : SenderAppends s after [] := by
  cases ticks with
  | silent silent ticked =>
      simp only [RingState.producerTick, returned, Option.some.injEq] at ticked
      subst ticked
      exact .quiet rfl rfl ⟨rfl, rfl⟩
  | inWake wakes | woken wakes =>
      rw [returned] at wakes
      cases wakes

/-- A handle's drop leaves the slots and the gate of `closed`. -/
theorem ProducerTicks.closes {index : Nat} {saw : Bool}
    (closing : producerActivity s.ring.producer.pc = .closing)
    (ticks : ProducerTicks cap s index saw after) : SenderAppends s after [] := by
  have further (ticked : s.ring.producerTick cap index = some after.ring)
      (receiver : after.receiver = s.receiver) : SenderAppends s after [] := by
    refine .quiet receiver (closed_of_producerTick ticked).2
      ⟨?_, (closed_of_producerTick ticked).1⟩
    cases pcEq : s.ring.producer.pc with
    | dropWakeFull | dropWakeEmpty =>
        simp only [RingState.producerTick, pcEq, Option.some.injEq] at ticked
        rw [← ticked]
        rfl
    | returned outcome accepted =>
        rw [pcEq] at closing
        cases outcome <;> cases closing
    | sendRefresh call | sendClosed call | sendWrite call | sendPublish call | sendWake call =>
        rw [pcEq] at closing
        cases call <;> cases closing
    | _ =>
        rw [pcEq] at closing
        cases closing
  have receiver := ticks.frame.2.1
  cases ticks with
  | silent silent ticked => exact further ticked receiver
  | @inWake which stage wakes goes => cases which <;> exact .quiet rfl rfl ⟨rfl, rfl⟩
  | @woken which ring wakes leaves ticked => cases which <;> exact further ticked receiver

/-- Inside `try_send` the ring has taken the value or it has not. -/
theorem unreported_of_inTrySend {value : α} {pc : ProducerPc α} (inside : InTrySend value pc) :
    unreported pc = [] ∨ unreported pc = [value] := by
  cases pc with
  | sendWake call sent =>
      cases call with
      | trySend => exact .inr (by rw [unreported, show sent = value from inside])
      | send => exact inside.elim
  | returned outcome accepted =>
      cases outcome with
      | trySend result =>
          rcases result with (refused | refused) | ⟨⟩
          · exact .inl inside.2
          · exact .inl inside.2
          · exact .inr inside
      | send result | trySendBulk taken items => exact inside.elim
  | bulkWake items written => exact inside.elim
  | _ => exact .inl rfl

theorem moves_of_still (same : after.asQueue cap = s.asQueue cap)
    {event : FutureQueue.Event α} (silent : event.silent = true) :
    FutureQueue.Moves cap.size (s.asQueue cap) event (after.asQueue cap) := by
  rw [same]
  exact .idles event silent

/-- One step inside the `try_send` of a future. -/
theorem inTrySend_moves (ok : LinkOk cap s) (okAfter : LinkOk cap after) {value : α}
    {index : Nat} {saw : Bool} (here : s.sender = .inTrySend value)
    (there : after.sender = .inTrySend value) (ticks : ProducerTicks cap s index saw after)
    (accepted : after.ring.producer.accepted = s.ring.producer.accepted)
    (owes : unreported s.ring.producer.pc ≠ [] → unreported after.ring.producer.pc ≠ []) :
    FutureQueue.Moves cap.size (s.asQueue cap) .sendPoll (after.asQueue cap) := by
  have inside := ok.senderAt
  have insideAfter := okAfter.senderAt
  rw [here] at inside
  rw [there] at insideAfter
  obtain ⟨values, appends⟩ := ticks.appends ok
  have sent := appends.sent
  rw [okAfter.producer.sent_eq, ok.producer.sent_eq, accepted, List.append_assoc,
    List.append_cancel_left_eq] at sent
  have sending : s.sender.sending s.ring.producer.pc =
      some (value, !(unreported s.ring.producer.pc).isEmpty) := by
    rw [here]
    rfl
  have sendingAfter : after.sender.sending after.ring.producer.pc =
      some (value, !(unreported after.ring.producer.pc).isEmpty) := by
    rw [there]
    rfl
  rcases unreported_of_inTrySend inside with before | before
  · rcases unreported_of_inTrySend insideAfter with behind | behind
    · rw [behind, before, List.nil_append] at sent
      obtain rfl := sent
      refine moves_of_still (appends.still ok okAfter ?_) rfl
      rw [sending, sendingAfter, before, behind]
    · rw [behind, before, List.nil_append] at sent
      obtain rfl := sent
      obtain ⟨same, room⟩ := appends.asQueue ok okAfter
      rw [same, sendingAfter, behind]
      rw [before] at sending
      exact .takesEffect value sending room
  · have behind : unreported after.ring.producer.pc = [value] := by
      apply (unreported_of_inTrySend insideAfter).resolve_left
      apply owes
      rw [before]
      exact List.cons_ne_nil value []
    rw [behind, before] at sent
    obtain rfl : values = [] := List.self_eq_append_right.mp sent
    refine moves_of_still (appends.still ok okAfter ?_) rfl
    rw [sending, sendingAfter, before, behind]

/-- The notification does not change what the future offers. -/
theorem sending_ticks {value : α} {gate : AsyncGate} {pc : AwaitPc RingCheck}
    {step : Awaited RingCheck} {ring : ProducerPc α} (ticks : pc.tick gate .head = some step) :
    (sendWaited value step.next).sending ring = (RingSenderPc.waits value pc).sending ring := by
  cases AwaitPc.tick_steps ticks with
  | arm | pending pending => rfl
  | ready looks ready => rcases looks with rfl | rfl <;> rfl
  | dropNotified next | disarm next => cases next <;> rfl

/-- A wait of `send_async` goes on without the queue. -/
theorem sendWait_still (ok : LinkOk cap s) (okAfter : LinkOk cap after) {value : α}
    {pc : AwaitPc RingCheck} {index : Nat} (here : s.sender = .waits value pc)
    (taken : s.sendWait cap value index pc = some after) : after.asQueue cap = s.asQueue cap := by
  have waited {phase : WaitPhase} {ready : Bool} {ring : ProducerPc α} :
      (sendWaited value (AwaitPc.answered phase ready)).sending ring = some (value, false) := by
    cases phase <;> cases ready <;> rfl
  cases pc with
  | check phase rest =>
      cases rest with
      | head =>
          cases taken
          refine SenderAppends.still (.quiet rfl rfl ⟨rfl, rfl⟩) ok okAfter ?_
          rw [here]
          rfl
      | closed =>
          cases taken
          refine SenderAppends.still (.quiet rfl rfl ⟨rfl, rfl⟩) ok okAfter ?_
          rw [here]
          exact waited
      | tail head =>
          obtain ⟨⟨tail, loadedState⟩, loaded, rfl⟩ := Option.map_eq_some_iff.mp taken
          obtain ⟨-, rfl⟩ := loadTail_eq_some loaded
          refine SenderAppends.still (.quiet rfl rfl ⟨rfl, rfl⟩) ok okAfter ?_
          rw [here]
          dsimp only
          split
          · rfl
          · exact waited
  | notified | poll | suspended | dropNotified next | disarm next =>
      simp only [AsyncRing.sendWait] at taken
      obtain ⟨step, ticks, rfl⟩ := Option.map_eq_some_iff.mp taken
      refine SenderAppends.still (.quiet rfl rfl ⟨rfl, rfl⟩) ok okAfter ?_
      rw [here]
      exact sending_ticks ticks

theorem senderTick_moves (ok : LinkOk cap s) (tells : SaysClosed s.ring) {index : Nat}
    {saw : Bool} (taken : s.senderTick cap index saw = some after) :
    FutureQueue.Moves cap.size (s.asQueue cap) (s.senderEvent (.tick index saw))
      (after.asQueue cap) := by
  have okAfter := ok.senderTick taken
  have here := ok.senderAt
  unfold AsyncRing.senderTick at taken
  rw [senderEvent]
  cases pcEq : s.sender with
  | idle | gone => simp [pcEq] at taken
  | inCall =>
      simp only [pcEq] at taken
      split at taken
      · obtain ⟨next, ticked, rfl⟩ := Option.map_eq_some_iff.mp taken
        obtain ⟨values, appends⟩ := (producerTicks_of ticked).appends ok
        exact (appends.senderAt .idle).pushes ok okAfter (by rw [pcEq]; rfl) rfl
      · have ticks := producerTicks_of taken
        obtain ⟨values, appends⟩ := ticks.appends ok
        refine appends.pushes ok okAfter (by rw [pcEq]; rfl) ?_
        rw [ticks.frame.1, pcEq]
        rfl
  | unpolled value =>
      simp only [pcEq, Option.some.injEq] at taken
      subst taken
      refine moves_of_still ?_ rfl
      refine SenderAppends.still (.quiet rfl rfl ⟨rfl, rfl⟩) ok okAfter ?_
      rw [pcEq]
      rfl
  | enterTrySend value =>
      rw [pcEq] at here
      simp only [pcEq] at taken
      obtain ⟨ring, called, rfl⟩ := Option.map_eq_some_iff.mp taken
      simp only [producerStep, show s.ring.producer.pc = .idle from here,
        Option.some.injEq] at called
      subst called
      refine moves_of_still (SenderAppends.still ?_ ok okAfter ?_) rfl
      · apply SenderAppends.senderAt
        unfold trySendStart
        dsimp only
        split <;> exact .quiet rfl rfl ⟨rfl, rfl⟩
      · rw [pcEq]
        change some (value, !(unreported (s.ring.trySendStart cap .trySend value).producer.pc).isEmpty)
          = some (value, false)
        unfold trySendStart
        dsimp only
        split <;> rfl
  | inTrySend value =>
      rw [pcEq] at here
      simp only [pcEq] at taken
      split at taken
      · rename_i result accepted returned
        obtain ⟨next, ticked, rfl⟩ := Option.map_eq_some_iff.mp taken
        have appends := (producerTicks_of ticked).returns returned
        have told := tells.refused
        have came := appends.senderAt (trySendReturned result)
        have sending : (s.asQueue cap).sending = some (value, !accepted.isEmpty) := by
          change s.sender.sending s.ring.producer.pc = _
          rw [pcEq, returned]
          rfl
        rw [returned] at here told ⊢
        rcases result with (refused | refused) | ⟨⟩
        · obtain ⟨rfl, rfl⟩ := here
          exact moves_of_still (came.still ok okAfter sending.symm) rfl
        · obtain ⟨rfl, rfl⟩ := here
          rw [came.goes ok okAfter]
          exact .refused refused sending (told rfl)
        · obtain rfl := show accepted = [value] from here
          rw [came.goes ok okAfter]
          exact .completes value sending
      · rename_i notReturned
        have ticks := producerTicks_of taken
        have kept : after.ring.producer.accepted = s.ring.producer.accepted ∧
            (unreported s.ring.producer.pc ≠ [] → unreported after.ring.producer.pc ≠ []) := by
          rcases ticks.frame.2.2.2 with same | ticked
          · rw [same]
            exact ⟨rfl, id⟩
          · have shows := inTrySend_tick ok.shared ok.producer here
              (LinkOk.notReturned_of_inTrySend here notReturned) ticked
            exact ⟨shows.2.1, shows.2.2.owes⟩
        rw [RingSenderPc.tickEvent, RingSenderPc.polled_eq notReturned]
        exact inTrySend_moves ok okAfter pcEq (ticks.frame.1.trans pcEq) ticks kept.1 kept.2
  | waits value pc =>
      simp only [pcEq] at taken
      exact moves_of_still (sendWait_still ok okAfter pcEq taken) rfl
  | inClose =>
      rw [pcEq] at here
      simp only [pcEq] at taken
      split at taken
      · cases taken
        refine moves_of_still ?_ rfl
        refine SenderAppends.still (.quiet rfl rfl ⟨rfl, rfl⟩) ok okAfter ?_
        rw [pcEq]
        rfl
      · rename_i running
        have ticks := producerTicks_of taken
        have closing := here.resolve_right running
        refine moves_of_still ((ticks.closes closing).still ok okAfter ?_) rfl
        rw [ticks.frame.1, pcEq]
        rfl

theorem moves_of_close (same : after.asQueue cap = { s.asQueue cap with closed := true }) :
    FutureQueue.Moves cap.size (s.asQueue cap) .closes (after.asQueue cap) := by
  rw [same]
  exact .closes

/-- Entering a call that is no future. -/
theorem producerCall_still (ok : LinkOk cap s) (okAfter : LinkOk cap after)
    {call : ProducerAction α} (taken : s.producerCall cap call .inCall = some after)
    (starts : ∀ ring, s.ring.producerStep cap call = some ring →
      ring.consumer = s.ring.consumer ∧ ring.shared = s.ring.shared) :
    after.asQueue cap = s.asQueue cap := by
  unfold AsyncRing.producerCall at taken
  split at taken
  · rename_i idle
    obtain ⟨ring, called, rfl⟩ := Option.map_eq_some_iff.mp taken
    obtain ⟨consumer, shared⟩ := starts ring called
    have quiet : SenderAppends s (s.setRing ring) [] :=
      .quiet rfl consumer ⟨congrArg Ring.lane shared, congrArg Ring.closed shared⟩
    refine (quiet.senderAt .inCall).still ok okAfter ?_
    rw [idle]
    rfl
  · cases taken

/-- Every step of the sender is a step of the queue with the same event. -/
theorem senderStep_moves (ok : LinkOk cap s) (tells : SaysClosed s.ring)
    {action : RingSenderAction α} (taken : s.senderStep cap action = some after) :
    FutureQueue.Moves cap.size (s.asQueue cap) (s.senderEvent action) (after.asQueue cap) := by
  have okAfter := ok.senderStep taken
  cases action with
  | tick index saw => exact senderTick_moves ok tells taken
  | trySend value =>
      refine moves_of_still (producerCall_still ok okAfter taken fun ring called => ?_) rfl
      simp only [producerStep] at called
      split at called <;> cases called
      unfold trySendStart
      dsimp only
      split <;> exact ⟨rfl, rfl⟩
  | trySendBulk items =>
      refine moves_of_still (producerCall_still ok okAfter taken fun ring called => ?_) rfl
      simp only [producerStep] at called
      split at called
      · split at called
        · cases called
          exact ⟨rfl, rfl⟩
        · split at called <;> cases called <;> exact ⟨rfl, rfl⟩
      · cases called
  | drop =>
      simp only [AsyncRing.senderStep, AsyncRing.producerCall] at taken
      split at taken
      · rename_i idle
        obtain ⟨ring, called, rfl⟩ := Option.map_eq_some_iff.mp taken
        simp only [producerStep] at called
        split at called <;> cases called
        refine moves_of_close ?_
        have same : s.sender.sending s.ring.producer.pc = none := by
          rw [idle]
          rfl
        rw [FutureQueue.mk.injEq]
        exact ⟨rfl, rfl, rfl, same.symm, rfl, rfl⟩
      · cases taken
  | sendAsync value =>
      simp only [AsyncRing.senderStep] at taken
      split at taken
      · rename_i idle
        cases taken
        have quiet : SenderAppends s (s.senderAt (.unpolled value)) [] :=
          .quiet rfl rfl ⟨rfl, rfl⟩
        rw [quiet.goes ok okAfter]
        refine .startSend value ?_
        change s.sender.sending _ = none
        rw [idle]
        rfl
      · cases taken
  | cancel =>
      simp only [AsyncRing.senderStep] at taken
      split at taken
      · rename_i value unpolled
        cases taken
        have quiet : SenderAppends s (s.senderAt .idle) [] := .quiet rfl rfl ⟨rfl, rfl⟩
        rw [quiet.goes ok okAfter]
        simp only [senderEvent, unpolled]
        refine .dropSend value ?_
        change s.sender.sending _ = some (value, false)
        rw [unpolled]
        rfl
      · rename_i value suspended
        cases taken
        have quiet : SenderAppends s
            (s.senderAt (.waits value (.dropNotified .dropped))) [] := .quiet rfl rfl ⟨rfl, rfl⟩
        rw [quiet.goes ok okAfter]
        simp only [senderEvent, suspended]
        refine .dropSend value ?_
        change s.sender.sending _ = some (value, false)
        rw [suspended]
        rfl
      · cases taken

end AsyncRing

end ArbitroKit
