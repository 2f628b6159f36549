import ArbitroKit.RingAsyncQueue

/-!
# The ring between two tasks refines the queue of futures

The receiver's half of the refinement, and the refinement of whole runs.
-/

namespace ArbitroKit

open Coherent SlotLane Cyclic Transition

namespace AsyncRing

open AsyncGate RingState

variable {α : Type*} {cap : Cap} {s after : AsyncRing α}

/-! ### Steps of the receiver -/

/-- A step of the receiver leaves the other end alone, and takes the oldest values at
most. -/
structure ReceiverTakes (s after : AsyncRing α) (values : List α) : Prop where
  sender : after.sender = s.sender
  producer : after.ring.producer = s.ring.producer
  sent : after.ring.shared.lane.sent = s.ring.shared.lane.sent
  received : after.ring.shared.lane.received = s.ring.shared.lane.received ++ values
  closed : after.ring.shared.closed = s.ring.shared.closed

theorem LinkOk.conserved (ok : LinkOk cap s) :
    s.ring.shared.lane.received ++ (s.asQueue cap).queue = s.ring.shared.lane.sent :=
  ok.shared.received_append

theorem ReceiverTakes.queue {values : List α} (takes : ReceiverTakes s after values)
    (ok : LinkOk cap s) (okAfter : LinkOk cap after) :
    (s.asQueue cap).queue = values ++ (after.asQueue cap).queue := by
  have whole := okAfter.conserved
  rw [takes.received, takes.sent, ← ok.conserved, List.append_assoc] at whole
  exact (List.append_cancel_left whole).symm

theorem ReceiverTakes.asQueue {values : List α} (takes : ReceiverTakes s after values) :
    after.asQueue cap =
      { s.asQueue cap with
        queue := (after.asQueue cap).queue
        received := (s.asQueue cap).received ++ values
        receiving := after.receiver.receiving after.ring.consumer.pc } := by
  rw [FutureQueue.mk.injEq]
  refine ⟨rfl, takes.sent, takes.received, ?_, rfl, takes.closed⟩
  change after.sender.sending after.ring.producer.pc = _
  rw [takes.sender, takes.producer]
  rfl

/-- A step at which there is only the future to tell of. -/
theorem ReceiverTakes.goes (takes : ReceiverTakes s after []) (ok : LinkOk cap s)
    (okAfter : LinkOk cap after) : after.asQueue cap =
      { s.asQueue cap with receiving := after.receiver.receiving after.ring.consumer.pc } := by
  have queue := takes.queue ok okAfter
  rw [List.nil_append] at queue
  rw [takes.asQueue, List.append_nil, ← queue]

/-- A step that the queue does not see. -/
theorem ReceiverTakes.still (takes : ReceiverTakes s after []) (ok : LinkOk cap s)
    (okAfter : LinkOk cap after) (same : after.receiver.receiving after.ring.consumer.pc =
      s.receiver.receiving s.ring.consumer.pc) : after.asQueue cap = s.asQueue cap := by
  rw [takes.goes ok okAfter, same]
  rfl

/-- The queue does not see where the task goes. -/
theorem ReceiverTakes.receiverAt {values : List α} (takes : ReceiverTakes s after values)
    (pc : RingReceiverPc) : ReceiverTakes s (after.receiverAt pc) values :=
  ⟨takes.sender, takes.producer, takes.sent, takes.received, takes.closed⟩

/-- The oldest value is taken. -/
theorem ReceiverTakes.pop {value : α} (takes : ReceiverTakes s after [value])
    (ok : LinkOk cap s) (okAfter : LinkOk cap after) :
    (s.asQueue cap).queue = value :: (after.asQueue cap).queue ∧
      after.asQueue cap = { (s.asQueue cap).pop value (after.asQueue cap).queue with
        receiving := after.receiver.receiving after.ring.consumer.pc } :=
  ⟨takes.queue ok okAfter, takes.asQueue⟩

/-- A step of a call that is no future. -/
theorem ReceiverTakes.pops {values : List α} (takes : ReceiverTakes s after values)
    (single : values = [] ∨ ∃ value, values = [value]) (ok : LinkOk cap s)
    (okAfter : LinkOk cap after) (before : s.receiver.receiving s.ring.consumer.pc = none)
    (behind : after.receiver.receiving after.ring.consumer.pc = none) :
    FutureQueue.Moves cap.size (s.asQueue cap) .recvCall (after.asQueue cap) := by
  rcases single with rfl | ⟨value, rfl⟩
  · exact moves_of_still (takes.still ok okAfter (behind.trans before.symm)) rfl
  · obtain ⟨oldest, same⟩ := takes.pop ok okAfter
    rw [behind, ← before] at same
    rw [same]
    exact .pops value _ before oldest

theorem ReceiverTakes.quiet (sender : after.sender = s.sender)
    (producer : after.ring.producer = s.ring.producer)
    (shared : after.ring.shared.lane.sent = s.ring.shared.lane.sent ∧
      after.ring.shared.lane.received = s.ring.shared.lane.received ∧
      after.ring.shared.closed = s.ring.shared.closed) : ReceiverTakes s after [] where
  sender := sender
  producer := producer
  sent := shared.1
  received := by rw [shared.2.1, List.append_nil]
  closed := shared.2.2

theorem ConsumerTicks.takes (ok : LinkOk cap s) {index : Nat} {saw : Bool}
    (ticks : ConsumerTicks cap s index saw after) :
    ∃ values, (values = [] ∨ ∃ value, values = [value]) ∧ ReceiverTakes s after values := by
  have frame := ticks.frame
  have further (moves : ConsumerMoves s.ring after.ring)
      (ticked : s.ring.consumerTick cap index = some after.ring) :
      ∃ values, (values = [] ∨ ∃ value, values = [value]) ∧ ReceiverTakes s after values := by
    have rely := (consumer_step ok.shared ok.consumer rfl
      (show s.ring.consumerStep cap (.tick index) = _ from ticked)).2.2
    have sent : after.ring.shared.lane.sent = s.ring.shared.lane.sent := by
      rw [Lane.sent, Lane.sent, rely.written, rely.published]
    have closed := closed_of_consumerTick ticked
    rcases moves.received with same | ⟨value, took⟩
    · exact ⟨[], .inl rfl, .quiet frame.1 rely.producer ⟨sent, same, closed⟩⟩
    · exact ⟨[value], .inr ⟨value, rfl⟩, frame.1, rely.producer, sent, took, closed⟩
  cases ticks with
  | silent silent ticked =>
      exact further (consumerMoves_tick ok.consumer silent ok.receiverAt.calm ticked) ticked
  | @inWake which stage wakes goes =>
      cases which <;> exact ⟨[], .inl rfl, .quiet rfl rfl ⟨rfl, rfl, rfl⟩⟩
  | @woken which ring wakes leaves ticked =>
      cases which <;> exact further (consumerWake_tick wakes ticked).1 ticked

/-- A call comes back with the queue as it was. -/
theorem ConsumerTicks.returns {index : Nat} {saw : Bool} {outcome : ConsumerOutcome α}
    (returned : s.ring.consumer.pc = .returned outcome)
    (ticks : ConsumerTicks cap s index saw after) : ReceiverTakes s after [] := by
  cases ticks with
  | silent silent ticked =>
      simp only [RingState.consumerTick, returned, Option.some.injEq] at ticked
      subst ticked
      exact .quiet rfl rfl ⟨rfl, rfl, rfl⟩
  | inWake wakes | woken wakes =>
      rw [returned] at wakes
      cases wakes

/-- A handle's drop leaves the slots and the gate of `closed`. -/
theorem ConsumerTicks.closes (ok : LinkOk cap s) {index : Nat} {saw : Bool}
    (closing : consumerActivity s.ring.consumer.pc = .closing)
    (ticks : ConsumerTicks cap s index saw after) : ReceiverTakes s after [] := by
  have further (ticked : s.ring.consumerTick cap index = some after.ring)
      (sender : after.sender = s.sender) : ReceiverTakes s after [] := by
    have producer := (consumer_step ok.shared ok.consumer rfl
      (show s.ring.consumerStep cap (.tick index) = _ from ticked)).2.2.producer
    have lane : after.ring.shared.lane = s.ring.shared.lane := by
      cases pcEq : s.ring.consumer.pc with
      | dropWakeFull | dropWakeEmpty =>
          simp only [RingState.consumerTick, pcEq, Option.some.injEq] at ticked
          rw [← ticked]
          rfl
      | returned outcome =>
          rw [pcEq] at closing
          cases outcome <;> cases closing
      | recvRefresh call | recvClosed call | recvRecheck call | recvRead call | recvRelease call
      | recvWake call =>
          rw [pcEq] at closing
          cases call <;> cases closing
      | _ =>
          rw [pcEq] at closing
          cases closing
    exact .quiet sender producer ⟨by rw [lane], by rw [lane], closed_of_consumerTick ticked⟩
  have sender := ticks.frame.1
  cases ticks with
  | silent silent ticked => exact further ticked sender
  | @inWake which stage wakes goes => cases which <;> exact .quiet rfl rfl ⟨rfl, rfl, rfl⟩
  | @woken which ring wakes leaves ticked => cases which <;> exact further ticked sender

/-- Inside `try_recv` the call has read one value or none. -/
theorem undelivered_of_inTryRecv {pc : ConsumerPc α} (inside : InTryRecv pc) :
    undelivered pc = [] ∨ ∃ value, undelivered pc = [value] := by
  cases pc with
  | recvRelease call tail value | recvWake call value => exact .inr ⟨value, rfl⟩
  | returned outcome =>
      cases outcome with
      | tryRecv result =>
          cases result with
          | ok value => exact .inr ⟨value, rfl⟩
          | error refused => exact .inl rfl
      | recv result | drain consumed | panicked => exact inside.elim
  | drainCallback start head tail value => exact inside.elim
  | _ => exact .inl rfl

/-- One step inside the `try_recv` of a future. -/
theorem inTryRecv_moves (ok : LinkOk cap s) (okAfter : LinkOk cap after) {index : Nat}
    {saw : Bool} (here : s.receiver = .inTryRecv) (there : after.receiver = .inTryRecv)
    (ticks : ConsumerTicks cap s index saw after)
    (delivered : after.ring.consumer.delivered = s.ring.consumer.delivered) :
    FutureQueue.Moves cap.size (s.asQueue cap) .recvPoll (after.asQueue cap) := by
  have insideAfter := okAfter.receiverAt
  rw [there] at insideAfter
  obtain ⟨values, single, takes⟩ := ticks.takes ok
  have received := takes.received
  rw [okAfter.consumer.received_eq, ok.consumer.received_eq, delivered, List.append_assoc,
    List.append_cancel_left_eq] at received
  have receiving : s.receiver.receiving s.ring.consumer.pc =
      some (undelivered s.ring.consumer.pc).head? := by
    rw [here]
    rfl
  have receivingAfter : after.receiver.receiving after.ring.consumer.pc =
      some (undelivered after.ring.consumer.pc).head? := by
    rw [there]
    rfl
  rcases single with rfl | ⟨value, rfl⟩
  · rw [List.append_nil] at received
    exact moves_of_still
      (takes.still ok okAfter (by rw [receiving, receivingAfter, received])) rfl
  · -- one value at most is in the call's hands
    have first : undelivered s.ring.consumer.pc = [] := by
      rcases undelivered_of_inTryRecv insideAfter with none | ⟨other, one⟩
      · rw [none] at received
        exact (List.append_eq_nil_iff.mp received.symm).1
      · rw [one] at received
        have lengths := congrArg List.length received
        rw [List.length_append, List.length_singleton, List.length_singleton] at lengths
        exact List.length_eq_zero_iff.mp (by omega)
    rw [first, List.nil_append] at received
    rw [first] at receiving
    rw [received] at receivingAfter
    obtain ⟨oldest, same⟩ := takes.pop ok okAfter
    rw [receivingAfter] at same
    rw [same]
    exact .takes value _ receiving oldest

/-- The notification does not change what the future asks for. -/
theorem receiving_ticks {gate : AsyncGate} {pc : AwaitPc RingCheck} {step : Awaited RingCheck}
    {ring : ConsumerPc α} (ticks : pc.tick gate .head = some step) :
    (recvWaited step.next).receiving ring = (RingReceiverPc.waits pc).receiving ring := by
  cases AwaitPc.tick_steps ticks with
  | arm | pending pending => rfl
  | ready looks ready => rcases looks with rfl | rfl <;> rfl
  | dropNotified next | disarm next => cases next <;> rfl

/-- A wait of `recv_async` goes on without the queue. -/
theorem recvWait_still (ok : LinkOk cap s) (okAfter : LinkOk cap after)
    {pc : AwaitPc RingCheck} {index : Nat} (here : s.receiver = .waits pc)
    (taken : s.recvWait index pc = some after) : after.asQueue cap = s.asQueue cap := by
  have waited {phase : WaitPhase} {ready : Bool} {ring : ConsumerPc α} :
      (recvWaited (AwaitPc.answered phase ready)).receiving ring = some none := by
    cases phase <;> cases ready <;> rfl
  cases pc with
  | check phase rest =>
      cases rest with
      | head =>
          obtain ⟨⟨head, loadedState⟩, loaded, rfl⟩ := Option.map_eq_some_iff.mp taken
          obtain ⟨-, rfl⟩ := loadHead_eq_some loaded
          refine ReceiverTakes.still (.quiet rfl rfl ⟨rfl, rfl, rfl⟩) ok okAfter ?_
          rw [here]
          rfl
      | tail head =>
          cases taken
          refine ReceiverTakes.still (.quiet rfl rfl ⟨rfl, rfl, rfl⟩) ok okAfter ?_
          rw [here]
          dsimp only [AsyncRing.receiverAt]
          split
          · rfl
          · exact waited
      | closed =>
          cases taken
          refine ReceiverTakes.still (.quiet rfl rfl ⟨rfl, rfl, rfl⟩) ok okAfter ?_
          rw [here]
          exact waited
  | notified | poll | suspended | dropNotified next | disarm next =>
      simp only [AsyncRing.recvWait] at taken
      obtain ⟨step, ticks, rfl⟩ := Option.map_eq_some_iff.mp taken
      refine ReceiverTakes.still (.quiet rfl rfl ⟨rfl, rfl, rfl⟩) ok okAfter ?_
      rw [here]
      exact receiving_ticks ticks

/-- A finished ring holds nothing. -/
theorem queue_of_finished (ok : LinkOk cap s) (finished : Finished s.ring) :
    (s.asQueue cap).queue = [] := by
  have released_le := ok.shared.sound.released_le
  rw [ok.queue_eq, List.drop_eq_nil_iff, ok.shared.sound.length_sent, finished.drained]
  exact released_le

theorem receiverTick_moves (ok : LinkOk cap s) (tells : SaysClosed s.ring) {index : Nat}
    {saw : Bool} (taken : s.receiverTick cap index saw = some after) :
    FutureQueue.Moves cap.size (s.asQueue cap) (s.receiverEvent (.tick index saw))
      (after.asQueue cap) := by
  have okAfter := ok.receiverTick taken
  have here := ok.receiverAt
  unfold AsyncRing.receiverTick at taken
  rw [receiverEvent]
  cases pcEq : s.receiver with
  | idle | gone => simp [pcEq] at taken
  | inCall =>
      simp only [pcEq] at taken
      split at taken
      · obtain ⟨next, ticked, rfl⟩ := Option.map_eq_some_iff.mp taken
        obtain ⟨values, single, takes⟩ := (consumerTicks_of ticked).takes ok
        exact (takes.receiverAt .idle).pops single ok okAfter (by rw [pcEq]; rfl) rfl
      · have ticks := consumerTicks_of taken
        obtain ⟨values, single, takes⟩ := ticks.takes ok
        refine takes.pops single ok okAfter (by rw [pcEq]; rfl) ?_
        rw [ticks.frame.2.1, pcEq]
        rfl
  | unpolled =>
      simp only [pcEq, Option.some.injEq] at taken
      subst taken
      refine moves_of_still ?_ rfl
      refine ReceiverTakes.still (.quiet rfl rfl ⟨rfl, rfl, rfl⟩) ok okAfter ?_
      rw [pcEq]
      rfl
  | enterTryRecv =>
      rw [pcEq] at here
      simp only [pcEq] at taken
      obtain ⟨ring, called, rfl⟩ := Option.map_eq_some_iff.mp taken
      simp only [consumerStep, show s.ring.consumer.pc = .idle from here,
        Option.some.injEq] at called
      subst called
      refine moves_of_still (ReceiverTakes.still ?_ ok okAfter ?_) rfl
      · apply ReceiverTakes.receiverAt
        unfold tryRecvStart
        dsimp only
        split <;> exact .quiet rfl rfl ⟨rfl, rfl, rfl⟩
      · rw [pcEq]
        change some (undelivered (s.ring.tryRecvStart .tryRecv).consumer.pc).head? = some none
        unfold tryRecvStart
        dsimp only
        split <;> rfl
  | inTryRecv =>
      rw [pcEq] at here
      simp only [pcEq] at taken
      split at taken
      · rename_i result returned
        obtain ⟨next, ticked, rfl⟩ := Option.map_eq_some_iff.mp taken
        have came := ((consumerTicks_of ticked).returns returned).receiverAt
          (tryRecvReturned result)
        have said := tells.disconnect.said
        have receiving : (s.asQueue cap).receiving =
            some (handedOut (.tryRecv result)).head? := by
          change s.receiver.receiving s.ring.consumer.pc = _
          rw [pcEq, returned]
          rfl
        rw [returned] at said ⊢
        rcases result with (- | -) | value
        · exact moves_of_still (came.still ok okAfter receiving.symm) rfl
        · have finished := said rfl
          rw [came.goes ok okAfter]
          exact .ends receiving finished.closed (queue_of_finished ok finished)
        · rw [came.goes ok okAfter]
          exact .returns value receiving
      · rename_i notReturned
        have ticks := consumerTicks_of taken
        have delivered : after.ring.consumer.delivered = s.ring.consumer.delivered := by
          rcases ticks.frame.2.2.2 with same | ticked
          · rw [same]
          · exact (inTryRecv_tick ok.shared ok.consumer here
              (LinkOk.notReturned_of_inTryRecv here notReturned) ticked).2.1
        rw [RingReceiverPc.tickEvent, RingReceiverPc.polled_eq notReturned]
        exact inTryRecv_moves ok okAfter pcEq (ticks.frame.2.1.trans pcEq) ticks delivered
  | waits pc =>
      simp only [pcEq] at taken
      exact moves_of_still (recvWait_still ok okAfter pcEq taken) rfl
  | inClose =>
      rw [pcEq] at here
      simp only [pcEq] at taken
      split at taken
      · cases taken
        refine moves_of_still ?_ rfl
        refine ReceiverTakes.still (.quiet rfl rfl ⟨rfl, rfl, rfl⟩) ok okAfter ?_
        rw [pcEq]
        rfl
      · rename_i running
        have ticks := consumerTicks_of taken
        have closing := here.resolve_right running
        refine moves_of_still ((ticks.closes ok closing).still ok okAfter ?_) rfl
        rw [ticks.frame.2.1, pcEq]
        rfl

/-- Entering a call that is no future. -/
theorem consumerCall_still (ok : LinkOk cap s) (okAfter : LinkOk cap after)
    {call : ConsumerAction} (taken : s.consumerCall cap call .inCall = some after)
    (starts : ∀ ring, s.ring.consumerStep cap call = some ring →
      ring.producer = s.ring.producer ∧ ring.shared = s.ring.shared) :
    after.asQueue cap = s.asQueue cap := by
  unfold AsyncRing.consumerCall at taken
  split at taken
  · rename_i idle
    obtain ⟨ring, called, rfl⟩ := Option.map_eq_some_iff.mp taken
    obtain ⟨producer, shared⟩ := starts ring called
    have quiet : ReceiverTakes s (s.setRing ring) [] :=
      .quiet rfl producer ⟨congrArg (fun shared => shared.lane.sent) shared,
        congrArg (fun shared => shared.lane.received) shared, congrArg Ring.closed shared⟩
    refine (quiet.receiverAt .inCall).still ok okAfter ?_
    rw [idle]
    rfl
  · cases taken

/-- Every step of the receiver is a step of the queue with the same event. -/
theorem receiverStep_moves (ok : LinkOk cap s) (tells : SaysClosed s.ring)
    {action : RingReceiverAction} (taken : s.receiverStep cap action = some after) :
    FutureQueue.Moves cap.size (s.asQueue cap) (s.receiverEvent action) (after.asQueue cap) := by
  have okAfter := ok.receiverStep taken
  cases action with
  | tick index saw => exact receiverTick_moves ok tells taken
  | tryRecv =>
      refine moves_of_still (consumerCall_still ok okAfter taken fun ring called => ?_) rfl
      simp only [consumerStep] at called
      split at called <;> cases called
      unfold tryRecvStart
      dsimp only
      split <;> exact ⟨rfl, rfl⟩
  | drain =>
      refine moves_of_still (consumerCall_still ok okAfter taken fun ring called => ?_) rfl
      simp only [consumerStep] at called
      split at called <;> cases called
      exact ⟨rfl, rfl⟩
  | drop =>
      simp only [AsyncRing.receiverStep, AsyncRing.consumerCall] at taken
      split at taken
      · rename_i idle
        obtain ⟨ring, called, rfl⟩ := Option.map_eq_some_iff.mp taken
        simp only [consumerStep] at called
        split at called <;> cases called
        refine moves_of_close ?_
        have same : s.receiver.receiving s.ring.consumer.pc = none := by
          rw [idle]
          rfl
        rw [FutureQueue.mk.injEq]
        exact ⟨rfl, rfl, rfl, rfl, same.symm, rfl⟩
      · cases taken
  | recvAsync =>
      simp only [AsyncRing.receiverStep] at taken
      split at taken
      · rename_i idle
        cases taken
        have quiet : ReceiverTakes s (s.receiverAt .unpolled) [] :=
          .quiet rfl rfl ⟨rfl, rfl, rfl⟩
        rw [quiet.goes ok okAfter]
        refine .startRecv ?_
        change s.receiver.receiving _ = none
        rw [idle]
        rfl
      · cases taken
  | cancel =>
      simp only [AsyncRing.receiverStep] at taken
      split at taken
      · rename_i unpolled
        cases taken
        have quiet : ReceiverTakes s (s.receiverAt .idle) [] := .quiet rfl rfl ⟨rfl, rfl, rfl⟩
        rw [quiet.goes ok okAfter]
        refine .dropRecv ?_
        change s.receiver.receiving _ = some none
        rw [unpolled]
        rfl
      · rename_i suspended
        cases taken
        have quiet : ReceiverTakes s (s.receiverAt (.waits (.dropNotified .dropped))) [] :=
          .quiet rfl rfl ⟨rfl, rfl, rfl⟩
        rw [quiet.goes ok okAfter]
        refine .dropRecv ?_
        change s.receiver.receiving _ = some none
        rw [suspended]
        rfl
      · cases taken

/-! ### Whole runs -/

theorem asQueue_new (cap : Cap) : (new : AsyncRing α).asQueue cap = .empty := by
  rw [asQueue, (linkOk_new cap).shared.inRing_eq]
  rfl

/-- Every step of the ring is a step of the queue of futures with the same event. -/
theorem step_moves (reached : (system cap).Reachable s) {action : AsyncRingAction α}
    (taken : s.step cap action = some after) :
    FutureQueue.Moves cap.size (s.asQueue cap) (s.event action) (after.asQueue cap) := by
  have ok := linkOk reached
  have tells := saysClosed reached
  cases action with
  | sender action => exact senderStep_moves ok tells taken
  | receiver action => exact receiverStep_moves ok tells taken

/-- The ring hands out what was sent once and in order, and a future that has taken effect
stands for the newest item that was sent, or received. -/
theorem asQueue_sound (reached : (system cap).Reachable s) :
    FutureQueue.Sound cap.size (s.asQueue cap) := by
  apply FutureQueue.sound
  apply reached.project (asQueue cap)
  · rintro - rfl
    exact asQueue_new cap
  · intro before action after reached taken
    exact .inr ⟨before.event action, step_moves reached taken⟩

/-- Every run of the ring between two tasks, whatever futures are dropped in it, shows step
by step the events of a run of the queue of futures, and the end of a future means there
what it says. -/
theorem refines_futureQueue {events : List (FutureQueue.Event α)}
    (ran : (system cap).Shows event new events s) :
    (FutureQueue.system cap.size).Shows (fun _ label => label) .empty events (s.asQueue cap) ∧
      ∀ action after, s.step cap action = some after →
        FutureQueue.Means (s.asQueue cap) (s.event action) (after.asQueue cap) := by
  have start : (system cap).Reachable (new : AsyncRing α) := .initial rfl
  refine ⟨?_, fun action after taken => ?_⟩
  · rw [← asQueue_new cap]
    exact ran.simulates start (asQueue cap) fun _ _ _ reached taken => step_moves reached taken
  · have reached := ran.reachable start
    exact (asQueue_sound reached).means (step_moves reached taken)

/-- One slot is filled, a `send_async` goes to sleep behind it, and is dropped. -/
def dropAsleep : List (AsyncRingAction Nat) :=
  [AsyncRingAction.sender (.trySend 1)] ++ List.replicate 5 (.sender (.tick 0 false)) ++
    [.sender (.sendAsync 2)] ++ List.replicate 13 (.sender (.tick 0 false)) ++
    [.sender .cancel] ++ List.replicate 2 (.sender (.tick 0 false))

theorem refines_futureQueue_dropAsleep :
    ∃ events s, (system oneSlotCap).Shows event (new : AsyncRing Nat) events s ∧
      events.filter (fun event => !event.silent) = [.sendStarts 2, .sendDropped 2] ∧
      (s.asQueue oneSlotCap).queue = [1] ∧
      (FutureQueue.system oneSlotCap.size).Shows (fun _ label => label) .empty events
        (s.asQueue oneSlotCap) := by
  have ran : (Transition.executeShowing (fun s action => s.step oneSlotCap action) event
      (new : AsyncRing Nat) dropAsleep).map (fun shown =>
        (shown.1.filter fun event => !event.silent, (shown.2.asQueue oneSlotCap).queue)) =
      some ([.sendStarts 2, .sendDropped 2], [1]) := by
    rfl
  obtain ⟨⟨events, s⟩, ran, outcome⟩ := Option.map_eq_some_iff.mp ran
  obtain ⟨seen, queue⟩ := Prod.mk.inj outcome
  have shows : (system oneSlotCap).Shows event new events s := System.shows_of_execute ran
  exact ⟨events, s, shows, seen, queue, (refines_futureQueue shows).1⟩

end AsyncRing

end ArbitroKit
