import ArbitroKit.AsyncGate
import ArbitroKit.Mpsc

/-!
# The futures of the many-producer channel

`route/mpsc.rs` over `NotifyWaiter`: `send_async_send`, `recv_async_send` and
`recv_batch_async_send`.  A step is one atomic operation, one slot access, one callback
of a batch, or one poll or drop of a notification.  Between two polls a future can be
dropped; while it is being polled it cannot.  The loads of a ring's cursors may be
stale; what the gates hand over says how stale.
-/

namespace ArbitroKit

open Coherent SlotLane Cyclic Transition

/-- What follows once a sender's notification is dropped: the loop goes on, or the
future is over, and the ring has taken its value or not. -/
inductive AfterSend (α : Type*) where
  | again (value : α)
  | finished (sent : Option α)

/-- Where a producer handle and its future stand. -/
inductive AsyncSenderPc (α : Type*) where
  | idle
  -- the future exists and has not been polled
  | unpolled (value : α)
  -- the loop of `send_async_send`: `notified()`, the check, the ring's `try_send`
  | notified (value : α)
  | loadShutdown (value : α)
  | enterTrySend (value : α)
  | inTrySend (value : α)
  | wakeFanin (value : α) (stage : WakeStage)
  -- `notified.await`: its first poll, and suspended
  | poll (value : α)
  | suspended (value : α)
  | dropNotified (next : AfterSend α)
  | disarm (next : AfterSend α)
  -- the handle's `drop`: the ring handle first, then the count
  | enterClose
  | inClose
  | fetchSub
  | wakeLast (stage : WakeStage)
  | gone

/-- The two receive futures. -/
inductive ReceiveFuture where
  | recvAsyncSend
  | recvBatchAsyncSend
  deriving DecidableEq, Repr

/-- How a receive future ended; the ring a value comes from is kept for the statements. -/
inductive ReceiveOutcome (α : Type*) where
  | recv (idx : Nat) (value : α)
  | recvBatch (total : Nat)
  | shutdown
  | dropped

/-- What follows once the receiver's notification is dropped. -/
inductive AfterReceive (α : Type*) where
  | again (future : ReceiveFuture)
  | finished (outcome : ReceiveOutcome α)

/-- Where the consumer handle and its future stand. -/
inductive AsyncReceiverPc (α : Type*) where
  | idle
  | unpolled (future : ReceiveFuture)
  | notified (future : ReceiveFuture)
  -- `recv_async_send`: the scan at ring `idx`
  | enterTryRecv (idx : Nat)
  | inTryRecv (idx : Nat)
  | wakeProducer (idx : Nat) (value : α) (stage : WakeStage)
  -- `recv_batch_async_send`: the round at ring `idx`
  | enterDrain (idx total : Nat) (round : Bool)
  | inDrain (idx total : Nat) (round : Bool)
  | batchWakeProducer (idx total : Nat) (stage : WakeStage)
  -- `is_shutdown_signaled() || (all_producers_gone() && !…any(|c| !c.is_empty()))`
  | loadShutdown (future : ReceiveFuture)
  | loadLive (future : ReceiveFuture)
  | emptyHead (future : ReceiveFuture) (idx : Nat)
  | emptyTail (future : ReceiveFuture) (idx : Nat) (head : Usize)
  | poll (future : ReceiveFuture)
  | suspended (future : ReceiveFuture)
  | dropNotified (next : AfterReceive α)
  | disarm (next : AfterReceive α)
  -- the handle's fields are dropped, ring by ring
  | enterClose (idx : Nat)
  | inClose (idx : Nat)
  | gone

/-- Where a `signal` call stands. -/
inductive AsyncSignalPc where
  | idle
  | wakeFanin (stage : WakeStage)
  | wakeProducer (idx : Nat) (stage : WakeStage)
  deriving DecidableEq, Repr

/-- What happened so far, for the statements only: the values of the send futures that
completed with their value in the ring, those that completed receive futures have given
out of each ring, and those on which the running batch has called its callback. -/
structure AsyncHistory (α : Type*) where
  enqueued : Nat → List α
  handed : Nat → List α
  called : Nat → List α

structure AsyncMpsc (α : Type*) where
  rings : Nat → RingState α
  faninWaiter : AsyncGate
  producerWaiters : Nat → AsyncGate
  liveProducers : Nat
  shutdown : Bool
  senders : Nat → AsyncSenderPc α
  receiver : AsyncReceiverPc α
  signallers : Nat → AsyncSignalPc
  history : AsyncHistory α

/-- `tick` lets the running future take its next step: `index` is what a load of the
peer's cursor returns, and `saw` what T3a makes of the count. -/
inductive AsyncSenderAction (α : Type*) where
  | sendAsyncSend (value : α)
  | tick (index : Nat) (saw : Bool)
  -- the future is dropped before it has completed
  | cancel
  -- the handle is dropped
  | drop

inductive AsyncReceiverAction where
  | receive (future : ReceiveFuture)
  | tick (index : Nat) (saw : Bool)
  | cancel
  | drop

inductive AsyncSignalAction where
  | signal
  | tick (saw : Bool)

inductive AsyncAction (α : Type*) where
  | sender (i : Nat) (action : AsyncSenderAction α)
  | receiver (action : AsyncReceiverAction)
  | signaller (k : Nat) (action : AsyncSignalAction)

namespace RingState

variable {α : Type*}

/-- The producer has synchronised with the first `seen` stores of `tail`. -/
def seeTail (s : RingState α) (seen : Nat) : RingState α :=
  { s with producer := { s.producer with tailView := max s.producer.tailView seen } }

/-- The consumer has synchronised with the first `seen` stores of `head`. -/
def seeHeadUpTo (s : RingState α) (seen : Nat) : RingState α :=
  { s with consumer := { s.consumer with headView := max s.consumer.headView seen } }

end RingState

namespace AsyncMpsc

variable {α : Type*}

/-- `Mpsc::new`. -/
def new (size : MpscSize) : AsyncMpsc α where
  rings _ := RingState.new
  faninWaiter := .new
  producerWaiters _ := .new
  liveProducers := size.m
  shutdown := false
  senders _ := .idle
  receiver := .idle
  signallers _ := .idle
  history := { enqueued := fun _ => [], handed := fun _ => [], called := fun _ => [] }

def setRing (s : AsyncMpsc α) (i : Nat) (ring : RingState α) : AsyncMpsc α :=
  { s with rings := Function.update s.rings i ring }

def setFaninWaiter (s : AsyncMpsc α) (gate : AsyncGate) : AsyncMpsc α :=
  { s with faninWaiter := gate }

def setProducerWaiter (s : AsyncMpsc α) (i : Nat) (gate : AsyncGate) : AsyncMpsc α :=
  { s with producerWaiters := Function.update s.producerWaiters i gate }

def senderAt (s : AsyncMpsc α) (i : Nat) (pc : AsyncSenderPc α) : AsyncMpsc α :=
  { s with senders := Function.update s.senders i pc }

def receiverAt (s : AsyncMpsc α) (pc : AsyncReceiverPc α) : AsyncMpsc α :=
  { s with receiver := pc }

def signallerAt (s : AsyncMpsc α) (k : Nat) (pc : AsyncSignalPc) : AsyncMpsc α :=
  { s with signallers := Function.update s.signallers k pc }

/-- Producer `i`'s task synchronises through its gate. -/
def seeTail (s : AsyncMpsc α) (i : Nat) (seen : Nat) : AsyncMpsc α :=
  s.setRing i ((s.rings i).seeTail seen)

/-- The receiving task synchronises through the fan-in gate. -/
def seeHeads (s : AsyncMpsc α) (seen : Nat → Nat) : AsyncMpsc α :=
  { s with rings := fun idx => (s.rings idx).seeHeadUpTo (seen idx) }

/-- A step of producer `i` inside its ring. -/
def ringProducer (size : MpscSize) (s : AsyncMpsc α) (i : Nat)
    (action : ProducerAction α) : Option (AsyncMpsc α) :=
  ((s.rings i).producerStep size.cap action).map (s.setRing i)

/-- A step of the consumer inside ring `i`. -/
def ringConsumer (size : MpscSize) (s : AsyncMpsc α) (i : Nat)
    (action : ConsumerAction) : Option (AsyncMpsc α) :=
  ((s.rings i).consumerStep size.cap action).map (s.setRing i)

/-! ### Senders -/

/-- The ring's `try_send` comes back to the loop. -/
def trySendReturned (value : α) (result : Except (TrySendError α) Unit) : AsyncSenderPc α :=
  match result with
  | .ok () => .wakeFanin value .probe
  | .error (.full value) => .poll value
  | .error (.closed _) => .dropNotified (.finished none)

/-- One poll of producer `i`'s notification. -/
def pollSender (s : AsyncMpsc α) (i : Nat) (value : α)
    (pending : AsyncMpsc α → Option (AsyncMpsc α)) : Option (AsyncMpsc α) :=
  let (ready, gate) := (s.producerWaiters i).poll
  let polled := s.setProducerWaiter i gate
  if ready then
    some ((polled.seeTail i (gate.delivered i)).senderAt i (.dropNotified (.again value)))
  else
    pending polled

/-- The future of producer `i` is over. -/
def sendCompleted (s : AsyncMpsc α) (i : Nat) (sent : Option α) : AsyncMpsc α :=
  { s with history := { s.history with
      enqueued := Function.update s.history.enqueued i
        (s.history.enqueued i ++ sent.toList) } }

/-- A step of `fanin_waiter.wake()` by producer `i`. -/
def wakeFaninBy (s : AsyncMpsc α) (i : Nat) (saw : Bool) (stage : WakeStage) :
    AsyncMpsc α × Option WakeStage :=
  let (gate, next) :=
    s.faninWaiter.wakeStep (some (i, (s.rings i).shared.head.latest)) saw stage
  (s.setFaninWaiter gate, next)

/-- The next step of producer `i`'s task. -/
def senderTick (size : MpscSize) (s : AsyncMpsc α) (i index : Nat) (saw : Bool) :
    Option (AsyncMpsc α) :=
  match s.senders i with
  | .idle => none
  | .unpolled value => some (s.senderAt i (.notified value))
  | .notified value =>
      let gate := s.producerWaiters i
      some (((s.setProducerWaiter i gate.arm).seeTail i (gate.probed i)).senderAt i
        (.loadShutdown value))
  | .loadShutdown value =>
      if s.shutdown then
        some (s.senderAt i (.dropNotified (.finished none)))
      else
        some (s.senderAt i (.enterTrySend value))
  | .enterTrySend value =>
      (s.ringProducer size i (.trySend value)).map fun s => s.senderAt i (.inTrySend value)
  | .inTrySend value =>
      match (s.rings i).producer.pc with
      | .returned (.trySend result) _ =>
          (s.ringProducer size i (.tick index)).map fun s =>
            s.senderAt i (trySendReturned value result)
      | _ => s.ringProducer size i (.tick index)
  | .wakeFanin value stage =>
      let (woken, next) := s.wakeFaninBy i saw stage
      match next with
      | some stage => some (woken.senderAt i (.wakeFanin value stage))
      | none => some (woken.senderAt i (.dropNotified (.finished (some value))))
  | .poll value => s.pollSender i value fun s => some (s.senderAt i (.suspended value))
  | .suspended value => s.pollSender i value fun _ => none
  | .dropNotified next =>
      some ((s.setProducerWaiter i (s.producerWaiters i).dropNotified).senderAt i (.disarm next))
  | .disarm next =>
      let disarmed := s.setProducerWaiter i (s.producerWaiters i).disarm
      match next with
      | .again value => some (disarmed.senderAt i (.notified value))
      | .finished sent => some ((disarmed.sendCompleted i sent).senderAt i .idle)
  | .enterClose => (s.ringProducer size i .drop).map fun s => s.senderAt i .inClose
  | .inClose =>
      match (s.rings i).producer.pc with
      | .gone => some (s.senderAt i .fetchSub)
      | _ => s.ringProducer size i (.tick index)
  | .fetchSub =>
      let after := { s with liveProducers := s.liveProducers - 1 }
      if s.liveProducers = 1 then
        some (after.senderAt i (.wakeLast .probe))
      else
        some (after.senderAt i .gone)
  | .wakeLast stage =>
      let (woken, next) := s.wakeFaninBy i saw stage
      match next with
      | some stage => some (woken.senderAt i (.wakeLast stage))
      | none => some (woken.senderAt i .gone)
  | .gone => none

/-- The side of producer `i`. -/
def senderStep (size : MpscSize) (s : AsyncMpsc α) (i : Nat) :
    AsyncSenderAction α → Option (AsyncMpsc α)
  | .tick index saw => s.senderTick size i index saw
  | .sendAsyncSend value =>
      match s.senders i with
      | .idle => some (s.senderAt i (.unpolled value))
      | _ => none
  | .cancel =>
      match s.senders i with
      | .unpolled _ => some (s.senderAt i .idle)
      | .suspended _ => some (s.senderAt i (.dropNotified (.finished none)))
      | _ => none
  | .drop =>
      match s.senders i with
      | .idle => some (s.senderAt i .enterClose)
      | _ => none

/-! ### Receiver -/

/-- The scan of `recv_async_send` goes to ring `idx`, or is over. -/
def scanAt (size : MpscSize) (idx : Nat) : AsyncReceiverPc α :=
  if idx < size.m then .enterTryRecv idx else .loadShutdown .recvAsyncSend

/-- The round of `recv_batch_async_send` goes to ring `idx`; after the last ring there is
another one if this one made progress. -/
def roundAt (size : MpscSize) (idx total : Nat) (round : Bool) : AsyncReceiverPc α :=
  if idx < size.m then
    .enterDrain idx total round
  else if round then
    .enterDrain 0 total false
  else if 0 < total then
    .dropNotified (.finished (.recvBatch total))
  else
    .loadShutdown .recvBatchAsyncSend

/-- The loop of a receive future behind `notified()`. -/
def lookFrom (size : MpscSize) : ReceiveFuture → AsyncReceiverPc α
  | .recvAsyncSend => scanAt size 0
  | .recvBatchAsyncSend => roundAt size 0 0 false

/-- The check for an item that is left goes to ring `idx`, or has found none. -/
def emptyAt (size : MpscSize) (future : ReceiveFuture) (idx : Nat) : AsyncReceiverPc α :=
  if idx < size.m then .emptyHead future idx else .dropNotified (.finished .shutdown)

/-- The callback of the batch has been called on the value in ring `idx`'s drain. -/
def noteCallback (s : AsyncMpsc α) (idx : Nat) : AsyncMpsc α :=
  match (s.rings idx).consumer.pc with
  | .drainCallback _ _ _ value =>
      { s with history := { s.history with
          called := Function.update s.history.called idx
            (s.history.called idx ++ [value]) } }
  | _ => s

/-- One poll of the receiver's notification. -/
def pollReceiver (s : AsyncMpsc α) (future : ReceiveFuture)
    (pending : AsyncMpsc α → Option (AsyncMpsc α)) : Option (AsyncMpsc α) :=
  let (ready, gate) := s.faninWaiter.poll
  let polled := s.setFaninWaiter gate
  if ready then
    some ((polled.seeHeads gate.delivered).receiverAt (.dropNotified (.again future)))
  else
    pending polled

/-- The receive future is over. -/
def receiveCompleted (s : AsyncMpsc α) (outcome : ReceiveOutcome α) : AsyncMpsc α :=
  match outcome with
  | .recv idx value =>
      { s with history := { s.history with
          handed := Function.update s.history.handed idx (s.history.handed idx ++ [value]) } }
  | .recvBatch _ =>
      { s with history := { s.history with
          handed := fun idx => s.history.handed idx ++ s.history.called idx
          called := fun _ => [] } }
  | .shutdown => s
  | .dropped => s

/-- A step of `producer_waiters[idx].wake()` by the receiver. -/
def wakeProducerBy (s : AsyncMpsc α) (idx : Nat) (saw : Bool) (stage : WakeStage) :
    AsyncMpsc α × Option WakeStage :=
  let (gate, next) := (s.producerWaiters idx).wakeStep
    (some (idx, (s.rings idx).shared.tail.latest)) saw stage
  (s.setProducerWaiter idx gate, next)

/-- The next step of the receiving task. -/
def receiverTick (size : MpscSize) (s : AsyncMpsc α) (index : Nat) (saw : Bool) :
    Option (AsyncMpsc α) :=
  match s.receiver with
  | .idle => none
  | .unpolled future => some (s.receiverAt (.notified future))
  | .notified future =>
      some (((s.setFaninWaiter s.faninWaiter.arm).seeHeads s.faninWaiter.probed).receiverAt
        (lookFrom size future))
  | .enterTryRecv idx =>
      (s.ringConsumer size idx .tryRecv).map fun s => s.receiverAt (.inTryRecv idx)
  | .inTryRecv idx =>
      match (s.rings idx).consumer.pc with
      | .returned (.tryRecv result) =>
          (s.ringConsumer size idx (.tick index)).map fun s =>
            match result with
            | .ok value => s.receiverAt (.wakeProducer idx value .probe)
            | .error _ => s.receiverAt (scanAt size (idx + 1))
      | _ => s.ringConsumer size idx (.tick index)
  | .wakeProducer idx value stage =>
      let (woken, next) := s.wakeProducerBy idx saw stage
      match next with
      | some stage => some (woken.receiverAt (.wakeProducer idx value stage))
      | none => some (woken.receiverAt (.dropNotified (.finished (.recv idx value))))
  | .enterDrain idx total round =>
      (s.ringConsumer size idx .drain).map fun s => s.receiverAt (.inDrain idx total round)
  | .inDrain idx total round =>
      match (s.rings idx).consumer.pc with
      | .returned (.drain n) =>
          (s.ringConsumer size idx (.tick index)).map fun s =>
            if 0 < n then
              s.receiverAt (.batchWakeProducer idx (total + n) .probe)
            else
              s.receiverAt (roundAt size (idx + 1) total round)
      | _ => (s.noteCallback idx).ringConsumer size idx (.tick index)
  | .batchWakeProducer idx total stage =>
      let (woken, next) := s.wakeProducerBy idx saw stage
      match next with
      | some stage => some (woken.receiverAt (.batchWakeProducer idx total stage))
      | none => some (woken.receiverAt (roundAt size (idx + 1) total true))
  | .loadShutdown future =>
      if s.shutdown then
        some (s.receiverAt (.dropNotified (.finished .shutdown)))
      else
        some (s.receiverAt (.loadLive future))
  | .loadLive future =>
      if s.liveProducers = 0 then
        some (s.receiverAt (emptyAt size future 0))
      else
        some (s.receiverAt (.poll future))
  | .emptyHead future idx =>
      ((s.rings idx).loadHead index).map fun (head, ring) =>
        (s.setRing idx ring).receiverAt (.emptyTail future idx head)
  | .emptyTail future idx head =>
      if head = (s.rings idx).shared.tail.current then
        some (s.receiverAt (emptyAt size future (idx + 1)))
      else
        some (s.receiverAt (.poll future))
  | .poll future => s.pollReceiver future fun s => some (s.receiverAt (.suspended future))
  | .suspended future => s.pollReceiver future fun _ => none
  | .dropNotified next =>
      some ((s.setFaninWaiter s.faninWaiter.dropNotified).receiverAt (.disarm next))
  | .disarm next =>
      let disarmed := s.setFaninWaiter s.faninWaiter.disarm
      match next with
      | .again future => some (disarmed.receiverAt (.notified future))
      | .finished outcome => some ((disarmed.receiveCompleted outcome).receiverAt .idle)
  | .enterClose idx =>
      if idx < size.m then
        (s.ringConsumer size idx .drop).map fun s => s.receiverAt (.inClose idx)
      else
        some (s.receiverAt .gone)
  | .inClose idx =>
      match (s.rings idx).consumer.pc with
      | .gone => some (s.receiverAt (.enterClose (idx + 1)))
      | _ => s.ringConsumer size idx (.tick index)
  | .gone => none

/-- The consumer's side. -/
def receiverStep (size : MpscSize) (s : AsyncMpsc α) : AsyncReceiverAction → Option (AsyncMpsc α)
  | .tick index saw => s.receiverTick size index saw
  | .receive future =>
      match s.receiver with
      | .idle => some (s.receiverAt (.unpolled future))
      | _ => none
  | .cancel =>
      match s.receiver with
      | .unpolled _ => some (s.receiverAt .idle)
      | .suspended _ => some (s.receiverAt (.dropNotified (.finished .dropped)))
      | _ => none
  | .drop =>
      match s.receiver with
      | .idle => some (s.receiverAt (.enterClose 0))
      | _ => none

/-! ### Shutdown -/

/-- `MpscShutdown::signal`, by handle `k`. -/
def signallerStep (size : MpscSize) (s : AsyncMpsc α) (k : Nat) :
    AsyncSignalAction → Option (AsyncMpsc α)
  | .signal =>
      match s.signallers k with
      | .idle => some ({ s with shutdown := true }.signallerAt k (.wakeFanin .probe))
      | _ => none
  | .tick saw =>
      match s.signallers k with
      | .idle => none
      | .wakeFanin stage =>
          let (gate, next) := s.faninWaiter.wakeStep none saw stage
          let woken := s.setFaninWaiter gate
          match next with
          | some stage => some (woken.signallerAt k (.wakeFanin stage))
          | none => some (woken.signallerAt k (.wakeProducer 0 .probe))
      | .wakeProducer idx stage =>
          if idx < size.m then
            let (gate, next) := (s.producerWaiters idx).wakeStep none saw stage
            let woken := s.setProducerWaiter idx gate
            match next with
            | some stage => some (woken.signallerAt k (.wakeProducer idx stage))
            | none => some (woken.signallerAt k (.wakeProducer (idx + 1) .probe))
          else
            some (s.signallerAt k .idle)

def step (size : MpscSize) (s : AsyncMpsc α) : AsyncAction α → Option (AsyncMpsc α)
  | .sender i action => if i < size.m then s.senderStep size i action else none
  | .receiver action => s.receiverStep size action
  | .signaller k action => s.signallerStep size k action

/-- Every schedule of the polls, wakes and drops from `Mpsc::new`. -/
def system (size : MpscSize) : System (AsyncMpsc α) (AsyncAction α) :=
  System.ofFunction (fun s => s = new size) fun s action => s.step size action

end AsyncMpsc

end ArbitroKit
