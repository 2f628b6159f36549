import ArbitroKit.RingDelivery

/-!
# The many-producer channel

`route/mpsc.rs`: one ring for each producer, one consumer that scans them, and
any number of shutdown handles.  The rings' own waiters do nothing; the channel
blocks on a fan-in waiter and on one backpressure waiter for each producer.
Calls into a ring take the ring's own steps, one at a time, with loads that
give the current value.
-/

namespace ArbitroKit

open Coherent SlotLane Cyclic Transition

/-- The sizes of a channel, as `Mpsc::new` asserts them. -/
structure MpscSize where
  cap : Cap
  m : Nat
  m_pos : 0 < m
  m_le : m ≤ 255

theorem MpscSize.one_le : 1 ≤ 255 := by decide

theorem MpscSize.two_le : 2 ≤ 255 := by decide

/-- The public method a single send runs under. -/
inductive MpscSendCall where
  | trySend
  | send
  | sendAsyncSend
  deriving DecidableEq, Repr

/-- What a finished producer call returned. -/
inductive MpscSendOutcome (α : Type*) where
  | trySend (result : Except α Unit)
  | trySendBulk (consumed : Nat) (items : List α)
  | send
  | sendAsyncSend

/-- The public method a receive runs under. -/
inductive MpscRecvCall where
  | tryRecv
  | recv
  deriving DecidableEq, Repr

/-- The public method a batch receive runs under. -/
inductive MpscBatchCall where
  | tryRecvBatch
  | recvBatch
  deriving DecidableEq, Repr

/-- A blocking receive, which goes on after an empty scan. -/
inductive MpscBlocking where
  | recv
  | recvBatch
  deriving DecidableEq, Repr

/-- What a finished consumer call returned; `none` is `Err(Shutdown)`. -/
inductive MpscRecvOutcome (α : Type*) where
  | tryRecv (result : Option α)
  | recv (result : Option α)
  | tryRecvBatch (total : Nat)
  | recvBatch (result : Option Nat)
  | panicked

/-- Where a producer handle stands outside its ring. -/
inductive MpscProducerPc (α : Type*) where
  | idle
  -- `send`: the check at the head of its loop
  | sendLoop (value : α)
  -- `send_async_send`: `notified()`, then the check at the head of its loop
  | asyncArm (value : α)
  | asyncLoop (value : α)
  -- `try_send`: the check, the ring's `try_send`, the fan-in wake
  | loadShutdown (call : MpscSendCall) (value : α)
  | enterTrySend (call : MpscSendCall) (value : α)
  | inTrySend (call : MpscSendCall) (value : α)
  | wakeFanin (call : MpscSendCall)
  -- `try_send_bulk`
  | bulkLoadShutdown (items : List α)
  | enterBulk (items : List α)
  | inBulk
  | bulkWakeFanin (consumed : Nat) (items : List α)
  -- `wait_until(|| shutdown || !is_full())`
  | waitShutdown (phase : WaitPhase) (value : α)
  | waitHead (phase : WaitPhase) (value : α)
  | waitTail (phase : WaitPhase) (value : α) (head : Usize)
  | waitAnnounce (value : α)
  | waitPark (value : α)
  | waitLeave (value : α)
  -- `notified.await`
  | asyncAwait (value : α)
  -- `drop`: the ring handle first, then the count
  | enterClose
  | inClose
  | fetchSub
  | wakeLast
  | gone
  | returned (outcome : MpscSendOutcome α)

/-- Who evaluates `any_ring_has_work` or `is_finished`: the check before
`Err(Shutdown)`, or the predicate of `wait_until`. -/
inductive MpscAsker where
  | check
  | predicate (phase : WaitPhase)
  deriving DecidableEq, Repr

/-- Where the consumer handle stands outside its rings. -/
inductive MpscConsumerPc (α : Type*) where
  | idle
  -- `try_recv`: the scan at ring `idx`
  | enterTryRecv (call : MpscRecvCall) (idx : Nat)
  | inTryRecv (call : MpscRecvCall) (idx : Nat)
  | wakeProducer (call : MpscRecvCall) (idx : Nat) (value : α)
  -- `try_recv_batch`: the pass at ring `idx`
  | enterDrain (call : MpscBatchCall) (idx total : Nat) (progress : Bool)
  | inDrain (call : MpscBatchCall) (idx total : Nat)  (progress : Bool)
  | batchWakeProducer (call : MpscBatchCall) (idx total : Nat)
  -- `is_finished`
  | finishedShutdown (call : MpscBlocking) (asker : MpscAsker)
  | finishedLive (call : MpscBlocking) (asker : MpscAsker)
  -- `any_ring_has_work` at ring `idx`, in `is_finished` or as the first half
  -- of the predicate
  | workHead (call : MpscBlocking) (asker : MpscAsker) (inFinished : Bool) (idx : Nat)
  | workTail (call : MpscBlocking) (asker : MpscAsker) (inFinished : Bool) (idx : Nat)
      (head : Usize)
  | waitAnnounce (call : MpscBlocking)
  | waitPark (call : MpscBlocking)
  | waitLeave (call : MpscBlocking)
  -- the handle's fields are dropped, ring by ring
  | enterClose (idx : Nat)
  | inClose (idx : Nat)
  | gone
  | returned (outcome : MpscRecvOutcome α)

/-- Where a `signal` call stands. -/
inductive MpscSignalPc where
  | idle
  | wakeFanin
  | wakeProducer (idx : Nat)
  deriving DecidableEq, Repr

/-- What happened so far, for the statements only: items acknowledged by
returned calls for each producer, the same at the first `signal`, and how many
items were published in each ring at the consumer's last load of its `head`. -/
structure MpscHistory where
  acked : Nat → Nat
  ackedAtSignal : Nat → Nat
  looked : Nat → Nat

structure MpscState (α : Type*) where
  rings : Nat → RingState α
  faninWaiter : Waiter
  producerWaiters : Nat → Waiter
  liveProducers : Nat
  shutdown : Bool
  producers : Nat → MpscProducerPc α
  consumer : MpscConsumerPc α
  signallers : Nat → MpscSignalPc
  history : MpscHistory

inductive MpscProducerAction (α : Type*) where
  | trySend (value : α)
  | trySendBulk (items : List α)
  | send (value : α)
  | sendAsyncSend (value : α)
  | drop
  | tick
  | spin
  | spurious

inductive MpscConsumerAction where
  | tryRecv
  | tryRecvBatch
  | recv
  | recvBatch
  | drop
  | tick
  | panic
  | spin
  | spurious

inductive MpscSignalAction where
  | signal
  | tick

inductive MpscAction (α : Type*) where
  | producer (i : Nat) (action : MpscProducerAction α)
  | consumer (action : MpscConsumerAction)
  | signaller (k : Nat) (action : MpscSignalAction)

namespace MpscState

variable {α : Type*}

/-- `Mpsc::new`. -/
def new (size : MpscSize) : MpscState α where
  rings _ := RingState.new
  faninWaiter := Waiter.new
  producerWaiters _ := Waiter.new
  liveProducers := size.m
  shutdown := false
  producers _ := .idle
  consumer := .idle
  signallers _ := .idle
  history := { acked := 0, ackedAtSignal := 0, looked := 0 }

def setRing (s : MpscState α) (i : Nat) (ring : RingState α) : MpscState α :=
  { s with rings := Function.update s.rings i ring }

def producerAt (s : MpscState α) (i : Nat) (pc : MpscProducerPc α) : MpscState α :=
  { s with producers := Function.update s.producers i pc }

def consumerAt (s : MpscState α) (pc : MpscConsumerPc α) : MpscState α :=
  { s with consumer := pc }

def signallerAt (s : MpscState α) (k : Nat) (pc : MpscSignalPc) : MpscState α :=
  { s with signallers := Function.update s.signallers k pc }

def wakeFanin (s : MpscState α) : MpscState α :=
  { s with faninWaiter := s.faninWaiter.wake }

def setProducerWaiter (s : MpscState α) (i : Nat) (waiter : Waiter) : MpscState α :=
  { s with producerWaiters := Function.update s.producerWaiters i waiter }

def wakeProducer (s : MpscState α) (i : Nat) : MpscState α :=
  s.setProducerWaiter i (s.producerWaiters i).wake

def acknowledge (s : MpscState α) (i count : Nat) : MpscState α :=
  { s with history := { s.history with
      acked := Function.update s.history.acked i (s.history.acked i + count) } }

def look (s : MpscState α) (i : Nat) : MpscState α :=
  { s with history := { s.history with
      looked := Function.update s.history.looked i (s.rings i).shared.lane.published } }

/-- A step of producer `i` inside its ring. -/
def ringProducer (size : MpscSize) (s : MpscState α) (i : Nat)
    (action : ProducerAction α) : Option (MpscState α) :=
  ((s.rings i).producerStep size.cap action).map (s.setRing i)

def ringProducerTick (size : MpscSize) (s : MpscState α) (i : Nat) : Option (MpscState α) :=
  s.ringProducer size i (.tick (s.rings i).shared.tail.latest)

/-- The ring's consumer is about to load `head`. -/
def loadsHead : ConsumerPc α → Bool
  | .recvRefresh _ _ => true
  | .recvRecheck _ _ => true
  | .drainLoad _ => true
  | _ => false

/-- A step of the consumer inside ring `i`. -/
def ringConsumer (size : MpscSize) (s : MpscState α) (i : Nat)
    (action : ConsumerAction) : Option (MpscState α) :=
  ((s.rings i).consumerStep size.cap action).map (s.setRing i)

/-- What the consumer's next step inside ring `i` adds to the history. -/
def noteTick (s : MpscState α) (i : Nat) : MpscState α :=
  if loadsHead (s.rings i).consumer.pc then s.look i else s

def ringConsumerTick (size : MpscSize) (s : MpscState α) (i : Nat) : Option (MpscState α) :=
  (s.noteTick i).ringConsumer size i (.tick (s.rings i).shared.head.latest)

/-! ### Producers -/

/-- The ring took the value over. -/
def sendAccepted (call : MpscSendCall) : MpscSendOutcome α :=
  match call with
  | .trySend => .trySend (.ok ())
  | .send => .send
  | .sendAsyncSend => .sendAsyncSend

/-- The ring was full, or the channel shut down. -/
def sendRejected (call : MpscSendCall) (value : α) (ringClosed : Bool) :
    MpscProducerPc α :=
  match call, ringClosed with
  | .trySend, _ => .returned (.trySend (.error value))
  | .send, _ => .waitShutdown .entry value
  | .sendAsyncSend, false => .asyncAwait value
  | .sendAsyncSend, true => .returned .sendAsyncSend

/-- The predicate of `send` came out. -/
def sendWaited (phase : WaitPhase) (ready : Bool) (value : α) : MpscProducerPc α :=
  match phase, ready with
  | .entry, true => .sendLoop value
  | .announced, true => .waitLeave value
  | .entry, false => .waitAnnounce value
  | .announced, false => .waitPark value

/-- The guard of `send_async_send`'s future goes with every exit. -/
def disarm (s : MpscState α) (i : Nat) (call : MpscSendCall) : MpscState α :=
  match call with
  | .sendAsyncSend => s.setProducerWaiter i (s.producerWaiters i).leave
  | _ => s

/-- The ring's `try_send` comes back to the call it runs under. -/
def trySendReturned (s : MpscState α) (i : Nat) (call : MpscSendCall)
    (result : Except (TrySendError α) Unit) : MpscState α :=
  match result with
  | .ok () => s.producerAt i (.wakeFanin call)
  | .error (.full value) => s.producerAt i (sendRejected call value false)
  | .error (.closed value) =>
      (s.disarm i call).producerAt i (sendRejected call value true)

/-- The next step of producer `i`'s running call. -/
def producerTick (size : MpscSize) (s : MpscState α) (i : Nat) : Option (MpscState α) :=
  match s.producers i with
  | .idle => none
  | .sendLoop value =>
      if s.shutdown then
        some (s.producerAt i (.returned .send))
      else
        some (s.producerAt i (.loadShutdown .send value))
  | .asyncArm value =>
      some ((s.setProducerWaiter i (s.producerWaiters i).announce).producerAt i
        (.asyncLoop value))
  | .asyncLoop value =>
      if s.shutdown then
        some ((s.disarm i .sendAsyncSend).producerAt i (.returned .sendAsyncSend))
      else
        some (s.producerAt i (.enterTrySend .sendAsyncSend value))
  | .loadShutdown call value =>
      if s.shutdown then
        some (s.producerAt i (sendRejected call value false))
      else
        some (s.producerAt i (.enterTrySend call value))
  | .enterTrySend call value =>
      (s.ringProducer size i (.trySend value)).map fun s =>
        s.producerAt i (.inTrySend call value)
  | .inTrySend call _ =>
      match (s.rings i).producer.pc with
      | .returned (.trySend result) _ =>
          (s.ringProducerTick size i).map fun s => s.trySendReturned i call result
      | _ => s.ringProducerTick size i
  | .wakeFanin call =>
      some (((s.wakeFanin.disarm i call).acknowledge i 1).producerAt i
        (.returned (sendAccepted call)))
  | .bulkLoadShutdown items =>
      if s.shutdown then
        some (s.producerAt i (.returned (.trySendBulk 0 items)))
      else
        some (s.producerAt i (.enterBulk items))
  | .enterBulk items =>
      (s.ringProducer size i (.trySendBulk items)).map fun s => s.producerAt i .inBulk
  | .inBulk =>
      match (s.rings i).producer.pc with
      | .returned (.trySendBulk consumed items) _ =>
          (s.ringProducerTick size i).map fun s =>
            if 0 < consumed then
              s.producerAt i (.bulkWakeFanin consumed items)
            else
              s.producerAt i (.returned (.trySendBulk 0 items))
      | _ => s.ringProducerTick size i
  | .bulkWakeFanin consumed items =>
      some ((s.wakeFanin.acknowledge i consumed).producerAt i
        (.returned (.trySendBulk consumed items)))
  | .waitShutdown phase value =>
      if s.shutdown then
        some (s.producerAt i (sendWaited phase true value))
      else
        some (s.producerAt i (.waitHead phase value))
  | .waitHead phase value =>
      some (s.producerAt i (.waitTail phase value (s.rings i).shared.head.current))
  | .waitTail phase value head =>
      let full := RingState.isFull size.cap head (s.rings i).shared.tail.current
      some (s.producerAt i (sendWaited phase (!full) value))
  | .waitAnnounce value =>
      some ((s.setProducerWaiter i (s.producerWaiters i).announce).producerAt i
        (.waitShutdown .announced value))
  | .waitPark value =>
      if (s.producerWaiters i).token then
        some ((s.setProducerWaiter i (s.producerWaiters i).consume).producerAt i
          (.waitShutdown .announced value))
      else
        none
  | .waitLeave value =>
      some ((s.setProducerWaiter i (s.producerWaiters i).leave).producerAt i
        (.sendLoop value))
  | .asyncAwait value =>
      if (s.producerWaiters i).token then
        some ((s.setProducerWaiter i (s.producerWaiters i).consume.leave).producerAt i
          (.asyncArm value))
      else
        none
  | .enterClose =>
      (s.ringProducer size i .drop).map fun s => s.producerAt i .inClose
  | .inClose =>
      match (s.rings i).producer.pc with
      | .gone => some (s.producerAt i .fetchSub)
      | _ => s.ringProducerTick size i
  | .fetchSub =>
      let after := { s with liveProducers := s.liveProducers - 1 }
      if s.liveProducers = 1 then
        some (after.producerAt i .wakeLast)
      else
        some (after.producerAt i .gone)
  | .wakeLast => some (s.wakeFanin.producerAt i .gone)
  | .gone => none
  | .returned _ => some (s.producerAt i .idle)

/-- The side of producer `i`. -/
def producerStep (size : MpscSize) (s : MpscState α) (i : Nat) :
    MpscProducerAction α → Option (MpscState α)
  | .tick => s.producerTick size i
  | .trySend value =>
      match s.producers i with
      | .idle => some (s.producerAt i (.loadShutdown .trySend value))
      | _ => none
  | .trySendBulk items =>
      match s.producers i with
      | .idle =>
          if items.isEmpty then
            some (s.producerAt i (.returned (.trySendBulk 0 items)))
          else
            some (s.producerAt i (.bulkLoadShutdown items))
      | _ => none
  | .send value =>
      match s.producers i with
      | .idle => some (s.producerAt i (.sendLoop value))
      | _ => none
  | .sendAsyncSend value =>
      match s.producers i with
      | .idle => some (s.producerAt i (.asyncArm value))
      | _ => none
  | .drop =>
      match s.producers i with
      | .idle => some (s.producerAt i .enterClose)
      | _ => none
  | .spin =>
      match s.producers i with
      | .waitAnnounce value => some (s.producerAt i (.waitShutdown .entry value))
      | _ => none
  | .spurious =>
      match s.producers i with
      | .waitPark value => some (s.producerAt i (.waitShutdown .announced value))
      | _ => none

/-! ### Consumer -/

/-- The scan of `try_recv` goes to ring `idx`, or is over. -/
def scanAt (size : MpscSize) (call : MpscRecvCall) (idx : Nat) : MpscConsumerPc α :=
  if idx < size.m then
    .enterTryRecv call idx
  else
    match call with
    | .tryRecv => .returned (.tryRecv none)
    | .recv => .finishedShutdown .recv .check

def recvDelivered (call : MpscRecvCall) (value : α) : MpscRecvOutcome α :=
  match call with
  | .tryRecv => .tryRecv (some value)
  | .recv => .recv (some value)

/-- `try_recv_batch` came back with `total` items. -/
def batchDone (call : MpscBatchCall) (total : Nat) : MpscConsumerPc α :=
  match call with
  | .tryRecvBatch => .returned (.tryRecvBatch total)
  | .recvBatch =>
      if 0 < total then
        .returned (.recvBatch (some total))
      else
        .finishedShutdown .recvBatch .check

/-- The pass of `try_recv_batch` goes to ring `idx`; after the last ring it
starts over if it made progress. -/
def passAt (size : MpscSize) (call : MpscBatchCall) (idx total : Nat) (progress : Bool) :
    MpscConsumerPc α :=
  if idx < size.m then
    .enterDrain call idx total progress
  else if progress then
    .enterDrain call 0 total false
  else
    batchDone call total

/-- `Err(Shutdown)`. -/
def endOfStream (call : MpscBlocking) : MpscRecvOutcome α :=
  match call with
  | .recv => .recv none
  | .recvBatch => .recvBatch none

/-- The loop of a blocking receive from its head. -/
def receiveAgain (size : MpscSize) (call : MpscBlocking) : MpscConsumerPc α :=
  match call with
  | .recv => scanAt size .recv 0
  | .recvBatch => passAt size .recvBatch 0 0 false

/-- `is_finished` came out. -/
def finishedAnswer (size : MpscSize) (call : MpscBlocking) (asker : MpscAsker)
    (finished : Bool) : MpscConsumerPc α :=
  match asker, finished with
  | .check, true => .returned (endOfStream call)
  | .check, false => .workHead call (.predicate .entry) false 0
  | .predicate .entry, true => receiveAgain size call
  | .predicate .announced, true => .waitLeave call
  | .predicate .entry, false => .waitAnnounce call
  | .predicate .announced, false => .waitPark call

/-- `any_ring_has_work` came out. -/
def workAnswer (size : MpscSize) (call : MpscBlocking) (asker : MpscAsker)
    (inFinished work : Bool) : MpscConsumerPc α :=
  match inFinished, work with
  | true, work => finishedAnswer size call asker (!work)
  | false, true => finishedAnswer size call asker true
  | false, false => .finishedShutdown call asker

/-- `any_ring_has_work` goes to ring `idx`, or is over. -/
def workAt (size : MpscSize) (call : MpscBlocking) (asker : MpscAsker)
    (inFinished : Bool) (idx : Nat) : MpscConsumerPc α :=
  if idx < size.m then
    .workHead call asker inFinished idx
  else
    workAnswer size call asker inFinished false

/-- The next step of the running consumer call. -/
def consumerTick (size : MpscSize) (s : MpscState α) : Option (MpscState α) :=
  match s.consumer with
  | .idle => none
  | .enterTryRecv call idx =>
      (s.ringConsumer size idx .tryRecv).map fun s => s.consumerAt (.inTryRecv call idx)
  | .inTryRecv call idx =>
      match (s.rings idx).consumer.pc with
      | .returned (.tryRecv result) =>
          (s.ringConsumerTick size idx).map fun s =>
            match result with
            | .ok value => s.consumerAt (.wakeProducer call idx value)
            | .error _ => s.consumerAt (scanAt size call (idx + 1))
      | _ => s.ringConsumerTick size idx
  | .wakeProducer call idx value =>
      some ((s.wakeProducer idx).consumerAt (.returned (recvDelivered call value)))
  | .enterDrain call idx total progress =>
      (s.ringConsumer size idx .drain).map fun s =>
        s.consumerAt (.inDrain call idx total progress)
  | .inDrain call idx total progress =>
      match (s.rings idx).consumer.pc with
      | .returned (.drain n) =>
          (s.ringConsumerTick size idx).map fun s =>
            if 0 < n then
              s.consumerAt (.batchWakeProducer call idx (total + n))
            else
              s.consumerAt (passAt size call (idx + 1) total progress)
      | .returned .panicked =>
          (s.ringConsumerTick size idx).map fun s => s.consumerAt (.returned .panicked)
      | _ => s.ringConsumerTick size idx
  | .batchWakeProducer call idx total =>
      some ((s.wakeProducer idx).consumerAt (passAt size call (idx + 1) total true))
  | .finishedShutdown call asker =>
      if s.shutdown then
        some (s.consumerAt (finishedAnswer size call asker true))
      else
        some (s.consumerAt (.finishedLive call asker))
  | .finishedLive call asker =>
      if s.liveProducers = 0 then
        some (s.consumerAt (workAt size call asker true 0))
      else
        some (s.consumerAt (finishedAnswer size call asker false))
  | .workHead call asker inFinished idx =>
      some ((s.look idx).consumerAt
        (.workTail call asker inFinished idx (s.rings idx).shared.head.current))
  | .workTail call asker inFinished idx head =>
      if head = (s.rings idx).shared.tail.current then
        some (s.consumerAt (workAt size call asker inFinished (idx + 1)))
      else
        some (s.consumerAt (workAnswer size call asker inFinished true))
  | .waitAnnounce call =>
      some ({ s with faninWaiter := s.faninWaiter.announce }.consumerAt
        (.workHead call (.predicate .announced) false 0))
  | .waitPark call =>
      if s.faninWaiter.token then
        some ({ s with faninWaiter := s.faninWaiter.consume }.consumerAt
          (.workHead call (.predicate .announced) false 0))
      else
        none
  | .waitLeave call =>
      some ({ s with faninWaiter := s.faninWaiter.leave }.consumerAt
        (receiveAgain size call))
  | .enterClose idx =>
      if idx < size.m then
        (s.ringConsumer size idx .drop).map fun s => s.consumerAt (.inClose idx)
      else
        some (s.consumerAt .gone)
  | .inClose idx =>
      match (s.rings idx).consumer.pc with
      | .gone => some (s.consumerAt (.enterClose (idx + 1)))
      | _ => s.ringConsumerTick size idx
  | .gone => none
  | .returned _ => some (s.consumerAt .idle)

/-- The consumer's side. -/
def consumerStep (size : MpscSize) (s : MpscState α) :
    MpscConsumerAction → Option (MpscState α)
  | .tick => s.consumerTick size
  | .tryRecv =>
      match s.consumer with
      | .idle => some (s.consumerAt (scanAt size .tryRecv 0))
      | _ => none
  | .recv =>
      match s.consumer with
      | .idle => some (s.consumerAt (scanAt size .recv 0))
      | _ => none
  | .tryRecvBatch =>
      match s.consumer with
      | .idle => some (s.consumerAt (passAt size .tryRecvBatch 0 0 false))
      | _ => none
  | .recvBatch =>
      match s.consumer with
      | .idle => some (s.consumerAt (passAt size .recvBatch 0 0 false))
      | _ => none
  | .drop =>
      match s.consumer with
      | .idle => some (s.consumerAt (.enterClose 0))
      | _ => none
  | .panic =>
      match s.consumer with
      | .inDrain _ idx _ _ => s.ringConsumer size idx .panic
      | _ => none
  | .spin =>
      match s.consumer with
      | .waitAnnounce call => some (s.consumerAt (.workHead call (.predicate .entry) false 0))
      | _ => none
  | .spurious =>
      match s.consumer with
      | .waitPark call =>
          some (s.consumerAt (.workHead call (.predicate .announced) false 0))
      | _ => none

/-! ### Shutdown -/

/-- `MpscShutdown::signal`, by handle `k`. -/
def signallerStep (size : MpscSize) (s : MpscState α) (k : Nat) :
    MpscSignalAction → Option (MpscState α)
  | .signal =>
      match s.signallers k with
      | .idle =>
          let snapshot := if s.shutdown then s.history.ackedAtSignal else s.history.acked
          some ({ s with
              shutdown := true
              history := { s.history with ackedAtSignal := snapshot } }.signallerAt k
            .wakeFanin)
      | _ => none
  | .tick =>
      match s.signallers k with
      | .idle => none
      | .wakeFanin => some (s.wakeFanin.signallerAt k (.wakeProducer 0))
      | .wakeProducer idx =>
          if idx < size.m then
            some ((s.wakeProducer idx).signallerAt k (.wakeProducer (idx + 1)))
          else
            some (s.signallerAt k .idle)

def step (size : MpscSize) (s : MpscState α) : MpscAction α → Option (MpscState α)
  | .producer i action => if i < size.m then s.producerStep size i action else none
  | .consumer action => s.consumerStep size action
  | .signaller k action => s.signallerStep size k action

/-- Every interleaving of the handles from `Mpsc::new`. -/
def system (size : MpscSize) : System (MpscState α) (MpscAction α) :=
  System.ofFunction (fun s => s = new size) fun s action => s.step size action

end MpscState

end ArbitroKit
