import ArbitroKit.MpmcDelivery

/-!
# Sends on a terminated channel

`try_send` and `send` ask `is_terminal_for_producer` before they scan;
`try_send_batch` does not.  A send that begins after the signal, or after the
last consumer has gone, is followed to its return: what it changed, what it
returned, and whether its scan met a ring with room.
-/

namespace ArbitroKit

open Transition

/-- A send with its argument. -/
inductive MpmcSend (α : Type*) where
  | trySend (value : α)
  | trySendBatch (items : List α)
  | send (value : α)

namespace MpmcSend

variable {α : Type*}

def action : MpmcSend α → MpmcProducerAction α
  | .trySend value => .trySend value
  | .trySendBatch items => .trySendBatch items
  | .send value => .send value

/-- What the send returns when it takes nothing over. -/
def refusal : MpmcSend α → MpmcSendOutcome α
  | .trySend value => .trySend (.error value)
  | .trySendBatch items => .trySendBatch 0 items
  | .send _ => .send

end MpmcSend

namespace MpmcState

variable {α : Type*} {size : MpmcSize} {s after : MpmcState α} {p : Nat}

/-- `is_terminal_for_producer`. -/
def isTerminalForProducer (s : MpmcState α) : Bool :=
  s.shutdown || decide (s.liveConsumers = 0)

/-- The two states differ in the cursor of a ring or in the producer's own. -/
def movesCursor (size : MpmcSize) (p : Nat) (before after : MpmcState α) : Bool :=
  ((before.producers p).cursor != (after.producers p).cursor) ||
    (List.range size.n).any fun shard => (List.range size.m).any fun q =>
      ((before.rings shard q).head != (after.rings shard q).head) ||
        ((before.rings shard q).tail != (after.rings shard q).tail)

/-- The step is the producer's batch scan at a ring with room. -/
def meetsRoom (size : MpmcSize) (p : Nat) (s : MpmcState α) : MpmcAction α → Bool
  | .producer q .tick =>
      q == p &&
        match (s.producers p).pc with
        | .batchScan _ start k => !s.full size ((start + k) % size.n) p
        | _ => false
  | _ => false

/-- The step is the producer's. -/
def stepsAs (p : Nat) : MpmcAction α → Bool
  | .producer q _ => q == p
  | _ => false

/-- The producer's call has an outcome. -/
def hasReturned (p : Nat) (s : MpmcState α) : Bool :=
  match (s.producers p).pc with
  | .returned _ => true
  | _ => false

/-- A send that is running, or has just returned: whether its own steps have moved a
cursor, and whether it has met a ring with room. -/
structure LateSend (α : Type*) where
  state : MpmcState α
  moved : Bool
  metRoom : Bool

/-- One step of the channel, unless the producer leaves its call with it. -/
def lateSendStep (size : MpmcSize) (p : Nat) (w : LateSend α) (action : MpmcAction α) :
    Option (LateSend α) :=
  if stepsAs p action && hasReturned p w.state then
    none
  else
    (w.state.step size action).map fun after =>
      { state := after
        moved := w.moved || (stepsAs p action && movesCursor size p w.state after)
        metRoom := w.metRoom || meetsRoom size p w.state action }

/-- The runs of one send of producer `p` that begins on a terminated channel, among
whatever the other handles do. -/
def lateSends (size : MpmcSize) (p : Nat) (call : MpmcSend α) :
    System (LateSend α) (MpmcAction α) :=
  System.ofFunction
    (fun w => w.moved = false ∧ w.metRoom = false ∧
      ∃ s, (system size).Reachable s ∧ s.isTerminalForProducer = true ∧
        s.step size (.producer p call.action) = some w.state)
    (lateSendStep size p)

/-! ### Terminated for good -/

theorem liveConsumers_frameTick {shard : Nat} {rest : List (MpmcFrame α)} {frame : MpmcFrame α}
    (taken : s.frameTick size shard rest frame = some after) :
    after.liveConsumers = s.liveConsumers := by
  unfold frameTick at taken
  cases frame with
  | scanHead call p tail | drainHead call p count progress tail
  | drainCallback call p count head tail | terminalShutdown call asker
  | workTail call phase p head | waitPark call =>
      dsimp only at taken
      split at taken <;> cases taken <;> rfl
  | scanRead call p tail | drainRead call p count head tail =>
      dsimp only at taken
      split at taken <;> cases taken <;> rfl
  | undefined => cases taken
  | _ =>
      cases taken
      rfl

/-- The count of live consumers does not come back from zero. -/
theorem liveConsumers_consumerStep {shard : Nat} {action : MpmcConsumerAction}
    (taken : s.consumerStep size shard action = some after) (none : s.liveConsumers = 0) :
    after.liveConsumers = 0 := by
  cases action with
  | tick =>
      simp only [consumerStep, consumerTick] at taken
      split at taken
      · cases taken
      · rw [liveConsumers_frameTick taken, none]
      · split at taken <;> cases taken <;> simp [consumerAt, none]
      · split at taken <;> cases taken <;> exact none
      · cases taken
  | tryRecv | recv | tryRecvBatch | recvBatch =>
      simp only [consumerStep, call] at taken
      split at taken
      · split at taken <;> cases taken
        exact none
      · cases taken
  | drop | panic | spin | spurious =>
      simp only [consumerStep] at taken
      split at taken <;> cases taken
      exact none

theorem shutdown_step {action : MpmcAction α} (taken : s.step size action = some after)
    (shut : s.shutdown = true) : after.shutdown = true := by
  cases action with
  | producer q action =>
      rw [(producerStep_frame (producer_of_step taken).2).shutdown]
      exact shut
  | consumer shard action =>
      rw [(consumerStep_frame (consumer_of_step taken).2).shutdown]
      exact shut
  | signaller k action => exact (signallerStep_frame taken).shutdown shut

theorem liveConsumers_step {action : MpmcAction α} (taken : s.step size action = some after)
    (none : s.liveConsumers = 0) : after.liveConsumers = 0 := by
  cases action with
  | producer q action =>
      rw [(producerStep_frame (producer_of_step taken).2).liveConsumers]
      exact none
  | consumer shard action => exact liveConsumers_consumerStep (consumer_of_step taken).2 none
  | signaller k action =>
      rw [(signallerStep_frame taken).liveConsumers]
      exact none

theorem isTerminalForProducer_iff : s.isTerminalForProducer = true ↔
    s.shutdown = true ∨ s.liveConsumers = 0 := by
  simp [isTerminalForProducer]

theorem isTerminalForProducer_step {action : MpmcAction α}
    (taken : s.step size action = some after) (terminal : s.isTerminalForProducer = true) :
    after.isTerminalForProducer = true := by
  rw [isTerminalForProducer_iff] at terminal ⊢
  rcases terminal with shut | none
  · exact .inl (shutdown_step taken shut)
  · exact .inr (liveConsumers_step taken none)

theorem producers_of_other {action : MpmcAction α} (taken : s.step size action = some after)
    (other : stepsAs p action = false) : after.producers p = s.producers p := by
  cases action with
  | producer q action =>
      apply (producerStep_frame (producer_of_step taken).2).producers
      exact (ne_of_beq_false other).symm
  | consumer shard action => rw [(consumerStep_frame (consumer_of_step taken).2).producers]
  | signaller k action => rw [(signallerStep_frame taken).producers]

/-! ### The steps of such a send -/

/-- Where a send stands that began on a terminated channel, by whether it has met room. -/
inductive Late (s : MpmcState α) : MpmcSend α → Bool → MpmcProducerPc α → Prop
  | asking (value : α) : Late s (.trySend value) false (.loadShutdown .trySend value)
  | askingLive (value : α) (none : s.liveConsumers = 0) :
      Late s (.trySend value) false (.loadLive .trySend value)
  | sending (value : α) : Late s (.send value) false (.sendShutdown value)
  | sendingLive (value : α) (none : s.liveConsumers = 0) :
      Late s (.send value) false (.sendLive value)
  | scanning (items : List α) (start k : Nat) :
      Late s (.trySendBatch items) false (.batchScan items start k)
  | refused (call : MpmcSend α) : Late s call false (.returned call.refusal)
  | writing (items left written : List α) (shard : Nat) (head : Usize) (count : Nat) :
      Late s (.trySendBatch items) true (.batchWrite left shard head count written)
  | publishing (items left written : List α) (shard : Nat) (head : Usize)
      (some : written ≠ []) :
      Late s (.trySendBatch items) true (.batchPublish left shard head written)
  | waking (items left written : List α) (shard : Nat) (some : written ≠ []) :
      Late s (.trySendBatch items) true (.batchWake left shard written)
  | accepted (items left : List α) (count : Nat) (some : 0 < count) :
      Late s (.trySendBatch items) true (.returned (.trySendBatch count left))

theorem Late.mono {call : MpmcSend α} {metRoom : Bool} {pc : MpmcProducerPc α}
    (late : Late s call metRoom pc) (live : s.liveConsumers = 0 → after.liveConsumers = 0) :
    Late after call metRoom pc := by
  cases late with
  | askingLive value none => exact .askingLive value (live none)
  | sendingLive value none => exact .sendingLive value (live none)
  | publishing items left written shard head some => exact .publishing _ _ _ _ _ some
  | waking items left written shard some => exact .waking _ _ _ _ some
  | accepted items left count some => exact .accepted _ _ _ some
  | _ => constructor

structure LateSendOk (p : Nat) (call : MpmcSend α) (w : LateSend α) : Prop where
  terminal : w.state.isTerminalForProducer = true
  here : Late w.state call w.metRoom (w.state.producers p).pc
  unmoved : w.metRoom = false → w.moved = false

theorem movesCursor_of_same (rings : after.rings = s.rings)
    (cursor : (after.producers p).cursor = (s.producers p).cursor) :
    movesCursor size p s after = false := by
  simp [movesCursor, rings, cursor]

theorem movesCursor_producerAt (s : MpmcState α) (p : Nat) (pc : MpmcProducerPc α) :
    movesCursor size p s (s.producerAt p pc) = false := by
  apply movesCursor_of_same
  · rfl
  · rw [producers_producerAt]

/-- What a step of the send itself does. -/
structure LateStep (size : MpmcSize) (p : Nat) (call : MpmcSend α) (metRoom : Bool)
    (s after : MpmcState α) : Prop where
  here : Late after call metRoom (after.producers p).pc
  unmoved : metRoom = false → movesCursor size p s after = false

theorem LateStep.goto {call : MpmcSend α} {metRoom : Bool} {pc : MpmcProducerPc α}
    (late : Late s call metRoom pc) : LateStep size p call metRoom s (s.producerAt p pc) where
  here := by
    rw [producers_producerAt]
    exact late.mono id
  unmoved _ := movesCursor_producerAt s p pc

/-- Once room has been met, only the place matters. -/
theorem LateStep.taking {call : MpmcSend α}
    (late : Late after call true (after.producers p).pc) : LateStep size p call true s after where
  here := late
  unmoved same := by cases same

theorem lateTick {call : MpmcSend α} {metRoom : Bool}
    (terminal : s.isTerminalForProducer = true)
    (late : Late s call metRoom (s.producers p).pc) (running : hasReturned p s = false)
    (taken : s.producerTick size p = some after) :
    LateStep size p call (metRoom || meetsRoom size p s (.producer p .tick)) s after := by
  have none_of_open (shut : ¬ s.shutdown = true) : s.liveConsumers = 0 :=
    (isTerminalForProducer_iff.mp terminal).resolve_left shut
  unfold producerTick at taken
  cases pcEq : (s.producers p).pc with
  | loadShutdown sendCall value =>
      rw [pcEq] at late
      cases late
      simp only [pcEq] at taken
      simp only [meetsRoom, pcEq, Bool.and_false, Bool.or_false]
      split at taken <;> cases taken
      · exact .goto (.refused (.trySend value))
      · exact .goto (.askingLive value (none_of_open ‹_›))
  | loadLive sendCall value =>
      rw [pcEq] at late
      cases late with
      | askingLive _ none =>
          simp only [pcEq, none, if_true] at taken
          simp only [meetsRoom, pcEq, Bool.and_false, Bool.or_false]
          cases taken
          exact .goto (.refused (.trySend value))
  | sendShutdown value =>
      rw [pcEq] at late
      cases late
      simp only [pcEq] at taken
      simp only [meetsRoom, pcEq, Bool.and_false, Bool.or_false]
      split at taken <;> cases taken
      · exact .goto (.refused (.send value))
      · exact .goto (.sendingLive value (none_of_open ‹_›))
  | sendLive value =>
      rw [pcEq] at late
      cases late with
      | sendingLive _ none =>
          simp only [pcEq, none, if_true] at taken
          simp only [meetsRoom, pcEq, Bool.and_false, Bool.or_false]
          cases taken
          exact .goto (.refused (.send value))
  | batchScan items start k =>
      rw [pcEq] at late
      cases late
      simp only [pcEq] at taken
      simp only [meetsRoom, pcEq, BEq.rfl, Bool.true_and, Bool.false_or]
      split at taken
      · rename_i full
        rw [full]
        split at taken <;> cases taken
        · exact .goto (.scanning items start (k + 1))
        · exact .goto (.refused (.trySendBatch items))
      · rename_i room
        rw [eq_false_of_ne_true room]
        cases taken
        exact .goto (.writing _ _ _ _ _ _)
  | batchWrite left shard head count written =>
      rw [pcEq] at late
      cases late
      simp only [pcEq] at taken
      split at taken
      · cases taken
      · split at taken <;> cases taken
        · apply LateStep.taking
          rw [producers_producerAt]
          exact .publishing _ _ _ _ _ (by simp)
        · apply LateStep.taking
          rw [producers_producerAt]
          exact .writing _ _ _ _ _ _
  | batchPublish left shard head written =>
      rw [pcEq] at late
      cases late with
      | publishing items _ _ _ _ some =>
          simp only [pcEq, Option.some.injEq] at taken
          subst taken
          apply LateStep.taking
          rw [producers_producerAt]
          exact .waking _ _ _ _ some
  | batchWake left shard written =>
      rw [pcEq] at late
      cases late with
      | waking items _ _ _ some =>
          simp only [pcEq, Option.some.injEq] at taken
          subst taken
          apply LateStep.taking
          rw [producers_producerAt]
          exact .accepted _ _ _ (List.length_pos_iff.mpr some)
  | returned outcome => simp [hasReturned, pcEq] at running
  | _ =>
      rw [pcEq] at late
      cases late

theorem late_start {call : MpmcSend α}
    (taken : s.producerStep size p call.action = some after) :
    Late after call false (after.producers p).pc := by
  cases call with
  | trySend value =>
      simp only [MpmcSend.action, producerStep] at taken
      split at taken <;> cases taken
      rw [producers_begin]
      exact .asking value
  | send value =>
      simp only [MpmcSend.action, producerStep] at taken
      split at taken <;> cases taken
      rw [producers_begin]
      exact .sending value
  | trySendBatch items =>
      simp only [MpmcSend.action, producerStep] at taken
      split at taken
      · split at taken <;> cases taken
        · rw [producers_begin]
          exact .refused (.trySendBatch items)
        · rw [producers_begin]
          exact .scanning items _ 0
      · cases taken

/-- While the send runs, its next step is the only one its producer can take. -/
theorem tick_of_late {call : MpmcSend α} {metRoom : Bool} {action : MpmcProducerAction α}
    (late : Late s call metRoom (s.producers p).pc)
    (taken : s.producerStep size p action = some after) : action = .tick := by
  cases action with
  | tick => rfl
  | _ =>
      simp only [producerStep] at taken
      split at taken
      · rename_i pcEq
        rw [pcEq] at late
        cases late
      · cases taken

theorem lateSendOk {call : MpmcSend α} {w : LateSend α}
    (reached : (lateSends size p call).Reachable w) : LateSendOk p call w := by
  apply reached.invariant (LateSendOk p call)
  · rintro w ⟨unmoved, unmet, s, -, terminal, taken⟩
    constructor
    · exact isTerminalForProducer_step taken terminal
    · rw [unmet]
      exact late_start (producer_of_step taken).2
    · exact fun _ => unmoved
  · rintro w action next - ok taken
    simp only [lateSends, System.ofFunction, lateSendStep] at taken
    split at taken
    · cases taken
    · rename_i stays
      obtain ⟨after, moved, rfl⟩ := Option.map_eq_some_iff.mp taken
      have terminal := isTerminalForProducer_step moved ok.terminal
      cases ours : stepsAs p action with
      | false =>
          have unmet : meetsRoom size p w.state action = false := by
            unfold meetsRoom
            split
            · simp only [stepsAs] at ours
              rw [ours, Bool.false_and]
            · rfl
          constructor
          · exact terminal
          · simp only [unmet, Bool.or_false]
            rw [producers_of_other moved ours]
            exact ok.here.mono (liveConsumers_step moved)
          · simpa [unmet, ours] using ok.unmoved
      | true =>
          simp only [ours, Bool.true_and, Bool.not_eq_true] at stays
          cases action with
          | producer q action =>
              obtain rfl : q = p := eq_of_beq ours
              obtain ⟨-, moved⟩ := producer_of_step moved
              obtain rfl := tick_of_late ok.here moved
              have step := lateTick ok.terminal ok.here stays moved
              constructor
              · exact terminal
              · exact step.here
              · intro unmet
                rw [step.unmoved unmet, Bool.and_false, Bool.or_false]
                exact ok.unmoved (Bool.or_eq_false_iff.mp unmet).1
          | consumer shard action => cases ours
          | signaller k action => cases ours

/-- The send took nothing over, moved no cursor and handed back what it was given. -/
structure Refused (call : MpmcSend α) (w : LateSend α) (outcome : MpmcSendOutcome α) : Prop where
  unmoved : w.moved = false
  outcome_eq : outcome = call.refusal

theorem batch_of_met {call : MpmcSend α} {pc : MpmcProducerPc α} (late : Late s call true pc) :
    ∃ items, call = .trySendBatch items := by
  cases late with
  | writing items | publishing items | waking items | accepted items => exact ⟨items, rfl⟩

/-- A send that began on a terminated channel is refused exactly when it met no ring with
room, and only `try_send_batch` looks for one. -/
theorem lateSend_refused_iff {call : MpmcSend α} {w : LateSend α} {outcome : MpmcSendOutcome α}
    (reached : (lateSends size p call).Reachable w)
    (returned : (w.state.producers p).pc = .returned outcome) :
    (Refused call w outcome ↔ w.metRoom = false) ∧
      (w.metRoom = true → ∃ items, call = .trySendBatch items) := by
  have ok := lateSendOk reached
  have here := ok.here
  rw [returned] at here
  constructor
  · constructor
    · intro refused
      have outcomeEq := refused.outcome_eq
      by_contra met
      rw [eq_true_of_ne_false met] at here
      cases here with
      | accepted items left count some =>
          simp only [MpmcSend.refusal, MpmcSendOutcome.trySendBatch.injEq] at outcomeEq
          omega
    · intro unmet
      rw [unmet] at here
      constructor
      · exact ok.unmoved unmet
      · cases here
        rfl
  · intro met
    rw [met] at here
    exact batch_of_met here

/-- A signal from its call to its return. -/
def signalled : List (MpmcAction Nat) :=
  .signaller 0 .signal :: List.replicate 5 (.signaller 0 .tick)

/-- Both consumers of the two shards go, one after the other. -/
def bothDropped : List (MpmcAction Nat) :=
  [MpmcAction.consumer 0 .drop] ++ consumerTicks 0 1 ++ [MpmcAction.consumer 1 .drop] ++
    consumerTicks 1 3

/-- A send that begins after `before` and runs through the steps `during`. -/
def sendAfter (before : List (MpmcAction Nat)) (call : MpmcSend Nat)
    (during : List (MpmcAction Nat)) : Option (MpmcState Nat × LateSend Nat) :=
  (Transition.execute (fun s action => s.step twoShards action) (new twoShards) before).bind
    fun s => (s.step twoShards (.producer 0 call.action)).bind fun first =>
      (Transition.execute (lateSendStep twoShards 0) ⟨first, false, false⟩ during).map
        fun w => (s, w)

theorem reachable_of_sendAfter {before during : List (MpmcAction Nat)} {call : MpmcSend Nat}
    {s : MpmcState Nat} {w : LateSend Nat} (ran : sendAfter before call during = some (s, w))
    (terminal : s.isTerminalForProducer = true) :
    (system twoShards).Reachable s ∧ (lateSends twoShards 0 call).Reachable w := by
  obtain ⟨reached, started, taken⟩ := Option.bind_eq_some_iff.mp ran
  obtain ⟨first, moved, taken⟩ := Option.bind_eq_some_iff.mp taken
  obtain ⟨last, finished, same⟩ := Option.map_eq_some_iff.mp taken
  obtain ⟨rfl, rfl⟩ := Prod.mk.inj same
  have reached' : (system twoShards).Reachable reached := System.reachable_of_execute rfl started
  refine ⟨reached', ?_⟩
  have start : (lateSends twoShards 0 call).Reachable ⟨first, false, false⟩ :=
    .initial ⟨rfl, rfl, reached, reached', terminal, moved⟩
  exact start.leads (System.leads_of_execute finished)

theorem lateSend_refused_signalled :
    ∃ w : LateSend Nat, (lateSends twoShards 0 (.trySend 5)).Reachable w ∧
      (w.state.producers 0).pc = .returned (.trySend (.error 5)) ∧
        Refused (.trySend 5) w (.trySend (.error 5)) := by
  have ran : (sendAfter signalled (.trySend 5) (producerTicks 1)).map
      (fun seen => (seen.1.isTerminalForProducer, (seen.2.state.producers 0).pc,
        seen.2.metRoom)) =
        some (true, .returned (.trySend (.error 5)), false) := by
    rfl
  obtain ⟨⟨s, w⟩, ran, seen⟩ := Option.map_eq_some_iff.mp ran
  obtain ⟨terminal, returned, unmet⟩ := by simpa only [Prod.mk.injEq] using seen
  obtain ⟨-, reached⟩ := reachable_of_sendAfter ran terminal
  exact ⟨w, reached, returned, (lateSend_refused_iff reached returned).1.mpr unmet⟩

/-- A batch that begins after the last consumer has gone is acknowledged into a ring
nobody will read. -/
theorem lateBatch_taken_bothDropped :
    ∃ s : MpmcState Nat, ∃ w : LateSend Nat, (system twoShards).Reachable s ∧
      s.liveConsumers = 0 ∧ s.consumers 0 = .gone ∧ s.consumers 1 = .gone ∧
        (lateSends twoShards 0 (.trySendBatch [5])).Reachable w ∧
          (w.state.producers 0).pc = .returned (.trySendBatch 1 []) ∧
            (w.state.rings 0 0).head = 1 ∧ w.moved = true := by
  have ran : (sendAfter bothDropped (.trySendBatch [5]) (producerTicks 4)).map
      (fun seen => (seen.1.isTerminalForProducer, (seen.1.liveConsumers, seen.1.consumers 0,
        seen.1.consumers 1), (seen.2.state.producers 0).pc,
          (seen.2.state.rings 0 0).head, seen.2.moved)) =
        some (true, (0, .gone, .gone), .returned (.trySendBatch 1 []), 1, true) := by
    rfl
  obtain ⟨⟨s, w⟩, ran, seen⟩ := Option.map_eq_some_iff.mp ran
  obtain ⟨terminal, ⟨none, first, second⟩, returned, head, moved⟩ := by
    simpa only [Prod.mk.injEq] using seen
  obtain ⟨reachedStart, reached⟩ := reachable_of_sendAfter ran terminal
  exact ⟨s, w, reachedStart, none, first, second, reached, returned, head, moved⟩

end MpmcState

end ArbitroKit
