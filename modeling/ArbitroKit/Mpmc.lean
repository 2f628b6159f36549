import ArbitroKit.RingDelivery

/-!
# The sharded many-to-many channel

`route/mpmc.rs`: one mini-ring for each producer and shard, one consumer for
each shard.  A step of a handle is one atomic operation, one slot access or one
`wake`.  The receive methods take `&self`, so the callback of `drain_all` may
call them again; a consumer therefore runs a stack of calls, of which only the
innermost takes steps.
-/

namespace ArbitroKit

open SlotLane Cyclic Transition

/-- The sizes of a channel, as `Mpmc::new` asserts them. -/
structure MpmcSize where
  ringCap : Cap
  m : Nat
  m_pos : 0 < m
  m_le : m ≤ 255
  n : Nat
  n_pos : 0 < n

theorem MpmcSize.one_le : 1 ≤ 255 := by decide

theorem MpmcSize.two_le : 2 ≤ 255 := by decide

/-- `PRing`, its slots with their history, and the values its consumer has handed
out. -/
structure PRing (α : Type*) where
  head : Usize
  tail : Usize
  lane : Lane α
  delivered : List α

/-- The public method a single send runs under. -/
inductive MpmcSendCall where
  | trySend
  | send
  deriving DecidableEq, Repr

/-- What a finished producer call returned. -/
inductive MpmcSendOutcome (α : Type*) where
  | trySend (result : Except α Unit)
  | trySendBatch (taken : Nat) (items : List α)
  | send

/-- The public method a receive runs under. -/
inductive MpmcRecvCall where
  | tryRecv
  | recv
  deriving DecidableEq, Repr

/-- The public method a batch receive runs under. -/
inductive MpmcBatchCall where
  | tryRecvBatch
  | recvBatch
  deriving DecidableEq, Repr

/-- A blocking receive, which goes on after an empty scan. -/
inductive MpmcBlocking where
  | recv
  | recvBatch
  deriving DecidableEq, Repr

/-- What a finished receive returned; a blocking one returns `none` for
`Err(Shutdown)`. -/
inductive MpmcRecvOutcome (α : Type*) where
  | tryRecv (result : Option α)
  | recv (result : Option α)
  | tryRecvBatch (count : Nat)
  | recvBatch (result : Option Nat)
  | panicked

/-- Where a producer's thread stands. -/
inductive MpmcProducerPc (α : Type*) where
  | idle
  -- `send`: `is_terminal_for_producer` at the head of its loop
  | sendShutdown (value : α)
  | sendLive (value : α)
  -- `try_send`: the same check, then the scan at the `k`-th shard from `start`
  | loadShutdown (call : MpmcSendCall) (value : α)
  | loadLive (call : MpmcSendCall) (value : α)
  | scan (call : MpmcSendCall) (value : α) (start k : Nat)
  | write (call : MpmcSendCall) (value : α) (shard : Nat) (head : Usize)
  | publish (call : MpmcSendCall) (value : α) (shard : Nat) (head : Usize)
  | wakeConsumer (call : MpmcSendCall) (value : α) (shard : Nat)
  -- `try_send_batch`; `written` are the items drained so far
  | batchScan (items : List α) (start k : Nat)
  | batchWrite (items : List α) (shard : Nat) (head : Usize) (left : Nat) (written : List α)
  | batchPublish (items : List α) (shard : Nat) (head : Usize) (written : List α)
  | batchWake (items : List α) (shard : Nat) (written : List α)
  -- `wait_until(|| has_idle_shard() || is_terminal_for_producer())`
  | waitIdle (phase : WaitPhase) (value : α) (shard : Nat)
  | waitShutdown (phase : WaitPhase) (value : α)
  | waitLive (phase : WaitPhase) (value : α)
  | waitAnnounce (value : α)
  | waitPark (value : α)
  | waitLeave (value : α)
  -- `drop`
  | fetchSub
  | wakeLast (shard : Nat)
  | gone
  | returned (outcome : MpmcSendOutcome α)

/-- Who evaluates `is_terminal_for_consumer`: the check before `Err(Shutdown)`, or
the predicate of `wait_until`. -/
inductive MpmcAsker where
  | check
  | predicate (phase : WaitPhase)
  deriving DecidableEq, Repr

/-- One running receive call. -/
inductive MpmcFrame (α : Type*) where
  -- `try_recv`: the scan at ring `p`
  | scanTail (call : MpmcRecvCall) (p : Nat)
  | scanHead (call : MpmcRecvCall) (p : Nat) (tail : Usize)
  | scanRead (call : MpmcRecvCall) (p : Nat) (tail : Usize)
  | scanStore (call : MpmcRecvCall) (p : Nat) (tail : Usize) (value : α)
  | scanWake (call : MpmcRecvCall) (p : Nat) (value : α)
  -- `drain_all`: the pass at ring `p`; from the first item on `tail` is the cursor
  -- in the guard
  | drainTail (call : MpmcBatchCall) (p count : Nat) (progress : Bool)
  | drainHead (call : MpmcBatchCall) (p count : Nat) (progress : Bool) (tail : Usize)
  | drainRead (call : MpmcBatchCall) (p count : Nat) (head tail : Usize)
  | drainCallback (call : MpmcBatchCall) (p count : Nat) (head tail : Usize)
  | drainStore (call : MpmcBatchCall) (p count : Nat) (tail : Usize)
  | drainWake (call : MpmcBatchCall) (p count : Nat)
  | drainUnwind (p : Nat) (tail : Usize)
  -- `is_terminal_for_consumer`
  | terminalShutdown (call : MpmcBlocking) (asker : MpmcAsker)
  | terminalLive (call : MpmcBlocking) (asker : MpmcAsker)
  -- `any_ring_has_work` at ring `p`, the first half of the predicate
  | workHead (call : MpmcBlocking) (phase : WaitPhase) (p : Nat)
  | workTail (call : MpmcBlocking) (phase : WaitPhase) (p : Nat) (head : Usize)
  | waitAnnounce (call : MpmcBlocking)
  | waitPark (call : MpmcBlocking)
  | waitLeave (call : MpmcBlocking)
  | returned (outcome : MpmcRecvOutcome α)
  -- a slot without any bits was read: nothing is defined from here on
  | undefined

/-- Where a consumer's thread stands: inside a stack of receives, innermost first,
or in the drop of its handle. -/
inductive MpmcConsumerPc (α : Type*) where
  | running (frames : List (MpmcFrame α))
  | fetchSub
  | wakeLast (p : Nat)
  | gone

/-- Where a `signal` call stands. -/
inductive MpmcSignalPc where
  | idle
  | wakeConsumer (shard : Nat)
  | wakeProducer (p : Nat)
  deriving DecidableEq, Repr

/-- The `MpmcProducer` handle, with the history of what its finished calls took over
and of which consumers were gone when its running call began. -/
structure MpmcProducer (α : Type*) where
  cursor : BitVec 32
  pc : MpmcProducerPc α
  accepted : List α
  goneAtStart : Nat → Bool

/-- What happened so far, for the statements only; tables are by shard and
producer: items acknowledged by returned calls, the same at the first terminal
event and at the first drop of a consumer, how many items were published when a
receive of the shard last loaded the ring's `head`, and whether an item was ever
placed by a call that began when the shard's consumer was gone. -/
structure MpmcHistory where
  acked : Nat → Nat → Nat
  ackedAtTerminal : Nat → Nat → Nat
  ackedAtDrop : Nat → Nat → Nat
  looked : Nat → Nat → Nat
  deadOnArrival : Nat → Nat → Bool

structure MpmcState (α : Type*) where
  rings : Nat → Nat → PRing α
  consumerWaiters : Nat → Waiter
  producerWaiters : Nat → Waiter
  shutdown : Bool
  liveProducers : Nat
  liveConsumers : Nat
  producers : Nat → MpmcProducer α
  consumers : Nat → MpmcConsumerPc α
  signallers : Nat → MpmcSignalPc
  history : MpmcHistory

inductive MpmcProducerAction (α : Type*) where
  | trySend (value : α)
  | trySendBatch (items : List α)
  | send (value : α)
  | drop
  | tick
  | spin
  | spurious

/-- `panic` is the user callback of the innermost call unwinding instead of
returning; a receive may start inside a callback. -/
inductive MpmcConsumerAction where
  | tryRecv
  | tryRecvBatch
  | recv
  | recvBatch
  | drop
  | tick
  | panic
  | spin
  | spurious

inductive MpmcSignalAction where
  | signal
  | tick

inductive MpmcAction (α : Type*) where
  | producer (p : Nat) (action : MpmcProducerAction α)
  | consumer (shard : Nat) (action : MpmcConsumerAction)
  | signaller (k : Nat) (action : MpmcSignalAction)

/-- A table by shard and producer with one entry replaced. -/
def setEntry {β : Type*} (table : Nat → Nat → β) (shard p : Nat) (entry : β) :
    Nat → Nat → β :=
  Function.update table shard (Function.update (table shard) p entry)

namespace PRing

variable {α : Type*}

/-- `PRing::new`. -/
def new : PRing α where
  head := 0
  tail := 0
  lane := Lane.empty
  delivered := []

/-- `head.store(h, Release)`. -/
def storeHead (ring : PRing α) (head : Usize) : PRing α :=
  { ring with head := head, lane := ring.lane.publish }

/-- `tail.store(t, Release)`. -/
def storeTail (ring : PRing α) (tail : Usize) : PRing α :=
  { ring with tail := tail, lane := ring.lane.release }

def writeSlot (ring : PRing α) (index : Nat) (value : α) : PRing α :=
  { ring with lane := ring.lane.write index value }

def deliver (ring : PRing α) (value : α) : PRing α :=
  { ring with delivered := ring.delivered ++ [value] }

end PRing

namespace MpmcState

variable {α : Type*}

/-- `Mpmc::new`. -/
def new (size : MpmcSize) : MpmcState α where
  rings _ _ := PRing.new
  consumerWaiters _ := Waiter.new
  producerWaiters _ := Waiter.new
  shutdown := false
  liveProducers := size.m
  liveConsumers := size.n
  producers p :=
    { cursor := BitVec.ofNat 32 (p % size.n)
      pc := .idle
      accepted := []
      goneAtStart := fun _ => false }
  consumers _ := .running []
  signallers _ := .idle
  history :=
    { acked := fun _ _ => 0
      ackedAtTerminal := fun _ _ => 0
      ackedAtDrop := fun _ _ => 0
      looked := fun _ _ => 0
      deadOnArrival := fun _ _ => false }

def setRing (s : MpmcState α) (shard p : Nat) (ring : PRing α) : MpmcState α :=
  { s with rings := setEntry s.rings shard p ring }

def setProducer (s : MpmcState α) (p : Nat) (producer : MpmcProducer α) : MpmcState α :=
  { s with producers := Function.update s.producers p producer }

def producerAt (s : MpmcState α) (p : Nat) (pc : MpmcProducerPc α) : MpmcState α :=
  s.setProducer p { s.producers p with pc := pc }

def consumerAt (s : MpmcState α) (shard : Nat) (pc : MpmcConsumerPc α) : MpmcState α :=
  { s with consumers := Function.update s.consumers shard pc }

def signallerAt (s : MpmcState α) (k : Nat) (pc : MpmcSignalPc) : MpmcState α :=
  { s with signallers := Function.update s.signallers k pc }

def setConsumerWaiter (s : MpmcState α) (shard : Nat) (waiter : Waiter) : MpmcState α :=
  { s with consumerWaiters := Function.update s.consumerWaiters shard waiter }

def setProducerWaiter (s : MpmcState α) (p : Nat) (waiter : Waiter) : MpmcState α :=
  { s with producerWaiters := Function.update s.producerWaiters p waiter }

/-- `consumer_waiter.wake()`. -/
def wakeConsumer (s : MpmcState α) (shard : Nat) : MpmcState α :=
  s.setConsumerWaiter shard (s.consumerWaiters shard).wake

/-- `producer_waiters[p].wake()`. -/
def wakeProducer (s : MpmcState α) (p : Nat) : MpmcState α :=
  s.setProducerWaiter p (s.producerWaiters p).wake

/-- The consumer of the shard has been dropped. -/
def dropped (s : MpmcState α) (shard : Nat) : Bool :=
  match s.consumers shard with
  | .running _ => false
  | .fetchSub => false
  | .wakeLast _ => true
  | .gone => true

def anyDropped (size : MpmcSize) (gone : Nat → Bool) : Bool :=
  (List.range size.n).any gone

/-! ### History -/

/-- Producer `p` publishes in the shard. -/
def notePlaced (s : MpmcState α) (shard p : Nat) : MpmcState α :=
  { s with history := { s.history with
      deadOnArrival := setEntry s.history.deadOnArrival shard p
        (s.history.deadOnArrival shard p || (s.producers p).goneAtStart shard) } }

/-- A call of producer `p` returns with `values` placed in the shard. -/
def acknowledge (s : MpmcState α) (shard p : Nat) (values : List α) : MpmcState α :=
  let producer := s.producers p
  { s.setProducer p { producer with accepted := producer.accepted ++ values } with
    history := { s.history with
      acked := setEntry s.history.acked shard p
        (s.history.acked shard p + values.length) } }

/-- A terminal event happens: the first one is remembered. -/
def noteTerminal (s : MpmcState α) : MpmcState α :=
  if s.shutdown || s.liveProducers = 0 then s
  else { s with history := { s.history with ackedAtTerminal := s.history.acked } }

/-- A consumer is dropped: the first drop is remembered. -/
def noteDrop (size : MpmcSize) (s : MpmcState α) : MpmcState α :=
  { s with history := { s.history with
      ackedAtDrop := if anyDropped size s.dropped then s.history.ackedAtDrop
        else s.history.acked } }

def look (s : MpmcState α) (shard p : Nat) : MpmcState α :=
  { s with history := { s.history with
      looked := setEntry s.history.looked shard p (s.rings shard p).lane.published } }

/-! ### Producers -/

/-- No shard took the value, or the channel is terminal. -/
def sendRejected (call : MpmcSendCall) (value : α) : MpmcProducerPc α :=
  match call with
  | .trySend => .returned (.trySend (.error value))
  | .send => .waitIdle .entry value 0

def sendAccepted (call : MpmcSendCall) : MpmcSendOutcome α :=
  match call with
  | .trySend => .trySend (.ok ())
  | .send => .send

/-- The predicate of `send` came out. -/
def sendWaited (phase : WaitPhase) (ready : Bool) (value : α) : MpmcProducerPc α :=
  match phase, ready with
  | .entry, true => .sendShutdown value
  | .announced, true => .waitLeave value
  | .entry, false => .waitAnnounce value
  | .announced, false => .waitPark value

/-- `cursor % n`. -/
def cursorStart (size : MpmcSize) (producer : MpmcProducer α) : Nat :=
  producer.cursor.toNat % size.n

/-- `cursor.set(((s + 1) % n) as u32)`. -/
def advanceCursor (size : MpmcSize) (s : MpmcState α) (p shard : Nat) : MpmcState α :=
  s.setProducer p
    { s.producers p with cursor := BitVec.ofNat 32 ((shard + 1) % size.n) }

/-- `PRing::is_full` with the current cursors. -/
def full (size : MpmcSize) (s : MpmcState α) (shard p : Nat) : Bool :=
  RingState.isFull size.ringCap (s.rings shard p).head (s.rings shard p).tail

/-- The next step of producer `p`'s running call. -/
def producerTick (size : MpmcSize) (s : MpmcState α) (p : Nat) : Option (MpmcState α) :=
  match (s.producers p).pc with
  | .idle => none
  | .sendShutdown value =>
      if s.shutdown then
        some (s.producerAt p (.returned .send))
      else
        some (s.producerAt p (.sendLive value))
  | .sendLive value =>
      if s.liveConsumers = 0 then
        some (s.producerAt p (.returned .send))
      else
        some (s.producerAt p (.loadShutdown .send value))
  | .loadShutdown call value =>
      if s.shutdown then
        some (s.producerAt p (sendRejected call value))
      else
        some (s.producerAt p (.loadLive call value))
  | .loadLive call value =>
      if s.liveConsumers = 0 then
        some (s.producerAt p (sendRejected call value))
      else
        some (s.producerAt p (.scan call value (cursorStart size (s.producers p)) 0))
  | .scan call value start k =>
      let shard := (start + k) % size.n
      if s.full size shard p then
        if k + 1 < size.n then
          some (s.producerAt p (.scan call value start (k + 1)))
        else
          some (s.producerAt p (sendRejected call value))
      else
        some (s.producerAt p (.write call value shard (s.rings shard p).head))
  | .write call value shard head =>
      some ((s.setRing shard p
          ((s.rings shard p).writeSlot (size.ringCap.slot head) value)).producerAt p
        (.publish call value shard head))
  | .publish call value shard head =>
      some (((s.setRing shard p ((s.rings shard p).storeHead (head + 1))).notePlaced
          shard p).producerAt p
        (.wakeConsumer call value shard))
  | .wakeConsumer call value shard =>
      some ((((s.wakeConsumer shard).advanceCursor size p shard).acknowledge shard p
          [value]).producerAt p
        (.returned (sendAccepted call)))
  | .batchScan items start k =>
      let shard := (start + k) % size.n
      let ring := s.rings shard p
      if s.full size shard p then
        if k + 1 < size.n then
          some (s.producerAt p (.batchScan items start (k + 1)))
        else
          some (s.producerAt p (.returned (.trySendBatch 0 items)))
      else
        let avail := size.ringCap.size - (ring.head - ring.tail).toNat
        some (s.producerAt p
          (.batchWrite items shard ring.head (min items.length avail) []))
  | .batchWrite items shard head left written =>
      match items with
      | [] => none
      | value :: items =>
          let s := s.setRing shard p
            ((s.rings shard p).writeSlot (size.ringCap.slot head) value)
          if left ≤ 1 then
            some (s.producerAt p
              (.batchPublish items shard (head + 1) (written ++ [value])))
          else
            some (s.producerAt p
              (.batchWrite items shard (head + 1) (left - 1) (written ++ [value])))
  | .batchPublish items shard head written =>
      some (((s.setRing shard p ((s.rings shard p).storeHead head)).notePlaced
          shard p).producerAt p
        (.batchWake items shard written))
  | .batchWake items shard written =>
      some ((((s.wakeConsumer shard).advanceCursor size p shard).acknowledge shard p
          written).producerAt p
        (.returned (.trySendBatch written.length items)))
  | .waitIdle phase value shard =>
      if s.full size shard p then
        if shard + 1 < size.n then
          some (s.producerAt p (.waitIdle phase value (shard + 1)))
        else
          some (s.producerAt p (.waitShutdown phase value))
      else
        some (s.producerAt p (sendWaited phase true value))
  | .waitShutdown phase value =>
      if s.shutdown then
        some (s.producerAt p (sendWaited phase true value))
      else
        some (s.producerAt p (.waitLive phase value))
  | .waitLive phase value =>
      some (s.producerAt p (sendWaited phase (decide (s.liveConsumers = 0)) value))
  | .waitAnnounce value =>
      some ((s.setProducerWaiter p (s.producerWaiters p).announce).producerAt p
        (.waitIdle .announced value 0))
  | .waitPark value =>
      if (s.producerWaiters p).token then
        some ((s.setProducerWaiter p (s.producerWaiters p).consume).producerAt p
          (.waitIdle .announced value 0))
      else
        none
  | .waitLeave value =>
      some ((s.setProducerWaiter p (s.producerWaiters p).leave).producerAt p
        (.sendShutdown value))
  | .fetchSub =>
      if s.liveProducers = 1 then
        some ({ s.noteTerminal with liveProducers := 0 }.producerAt p (.wakeLast 0))
      else
        some ({ s with liveProducers := s.liveProducers - 1 }.producerAt p .gone)
  | .wakeLast shard =>
      if shard < size.n then
        some ((s.wakeConsumer shard).producerAt p (.wakeLast (shard + 1)))
      else
        some (s.producerAt p .gone)
  | .gone => none
  | .returned _ => some (s.producerAt p .idle)

/-- A call of producer `p` begins. -/
def begin (s : MpmcState α) (p : Nat) (pc : MpmcProducerPc α) : MpmcState α :=
  s.setProducer p { s.producers p with pc := pc, goneAtStart := s.dropped }

/-- The side of producer `p`. -/
def producerStep (size : MpmcSize) (s : MpmcState α) (p : Nat) :
    MpmcProducerAction α → Option (MpmcState α)
  | .tick => s.producerTick size p
  | .trySend value =>
      match (s.producers p).pc with
      | .idle => some (s.begin p (.loadShutdown .trySend value))
      | _ => none
  | .trySendBatch items =>
      match (s.producers p).pc with
      | .idle =>
          if items.isEmpty then
            some (s.begin p (.returned (.trySendBatch 0 items)))
          else
            some (s.begin p (.batchScan items (cursorStart size (s.producers p)) 0))
      | _ => none
  | .send value =>
      match (s.producers p).pc with
      | .idle => some (s.begin p (.sendShutdown value))
      | _ => none
  | .drop =>
      match (s.producers p).pc with
      | .idle => some (s.producerAt p .fetchSub)
      | _ => none
  | .spin =>
      match (s.producers p).pc with
      | .waitAnnounce value => some (s.producerAt p (.waitIdle .entry value 0))
      | _ => none
  | .spurious =>
      match (s.producers p).pc with
      | .waitPark value => some (s.producerAt p (.waitIdle .announced value 0))
      | _ => none

/-! ### Consumers -/

/-- The scan of `try_recv` goes to ring `p`, or is over. -/
def scanAt (size : MpmcSize) (call : MpmcRecvCall) (p : Nat) : MpmcFrame α :=
  if p < size.m then
    .scanTail call p
  else
    match call with
    | .tryRecv => .returned (.tryRecv none)
    | .recv => .terminalShutdown .recv .check

def recvDelivered (call : MpmcRecvCall) (value : α) : MpmcRecvOutcome α :=
  match call with
  | .tryRecv => .tryRecv (some value)
  | .recv => .recv (some value)

/-- `drain_all` came back with `count` items. -/
def batchDone (call : MpmcBatchCall) (count : Nat) : MpmcFrame α :=
  match call with
  | .tryRecvBatch => .returned (.tryRecvBatch count)
  | .recvBatch =>
      if 0 < count then
        .returned (.recvBatch (some count))
      else
        .terminalShutdown .recvBatch .check

/-- The pass of `drain_all` goes to ring `p`; after the last ring it starts over if
it made progress. -/
def drainAt (size : MpmcSize) (call : MpmcBatchCall) (p count : Nat) (progress : Bool) :
    MpmcFrame α :=
  if p < size.m then
    .drainTail call p count progress
  else if progress then
    .drainTail call 0 count false
  else
    batchDone call count

/-- `Err(Shutdown)`. -/
def endOfStream (call : MpmcBlocking) : MpmcRecvOutcome α :=
  match call with
  | .recv => .recv none
  | .recvBatch => .recvBatch none

/-- The loop of a blocking receive from its head. -/
def receiveAgain (size : MpmcSize) (call : MpmcBlocking) : MpmcFrame α :=
  match call with
  | .recv => scanAt size .recv 0
  | .recvBatch => drainAt size .recvBatch 0 0 false

/-- The predicate of a blocking receive came out. -/
def recvWaited (size : MpmcSize) (call : MpmcBlocking) (phase : WaitPhase) (ready : Bool) :
    MpmcFrame α :=
  match phase, ready with
  | .entry, true => receiveAgain size call
  | .announced, true => .waitLeave call
  | .entry, false => .waitAnnounce call
  | .announced, false => .waitPark call

/-- `is_terminal_for_consumer` came out. -/
def terminalAnswer (size : MpmcSize) (call : MpmcBlocking) (asker : MpmcAsker)
    (terminal : Bool) : MpmcFrame α :=
  match asker with
  | .predicate phase => recvWaited size call phase terminal
  | .check =>
      if terminal then
        .returned (endOfStream call)
      else
        .workHead call .entry 0

/-- `any_ring_has_work` goes to ring `p`, or found nothing. -/
def workAt (size : MpmcSize) (call : MpmcBlocking) (phase : WaitPhase) (p : Nat) :
    MpmcFrame α :=
  if p < size.m then
    .workHead call phase p
  else
    .terminalShutdown call (.predicate phase)

/-- The next step of the innermost call of the shard's consumer, with the calls
around it in `rest`. -/
def frameTick (size : MpmcSize) (s : MpmcState α) (shard : Nat)
    (rest : List (MpmcFrame α)) (frame : MpmcFrame α) : Option (MpmcState α) :=
  let goto (s : MpmcState α) (next : MpmcFrame α) : Option (MpmcState α) :=
    some (s.consumerAt shard (.running (next :: rest)))
  match frame with
  | .scanTail call p => goto s (.scanHead call p (s.rings shard p).tail)
  | .scanHead call p tail =>
      if tail = (s.rings shard p).head then
        goto (s.look shard p) (scanAt size call (p + 1))
      else
        goto (s.look shard p) (.scanRead call p tail)
  | .scanRead call p tail =>
      let (value, lane) := (s.rings shard p).lane.read (size.ringCap.slot tail)
      let s := s.setRing shard p { s.rings shard p with lane := lane }
      match value with
      | some value => goto s (.scanStore call p tail value)
      | none => goto s .undefined
  | .scanStore call p tail value =>
      goto (s.setRing shard p ((s.rings shard p).storeTail (tail + 1))) (.scanWake call p value)
  | .scanWake call p value =>
      goto ((s.setRing shard p ((s.rings shard p).deliver value)).wakeProducer p)
        (.returned (recvDelivered call value))
  | .drainTail call p count progress =>
      goto s (.drainHead call p count progress (s.rings shard p).tail)
  | .drainHead call p count progress tail =>
      if tail = (s.rings shard p).head then
        goto (s.look shard p) (drainAt size call (p + 1) count progress)
      else
        goto (s.look shard p) (.drainRead call p count (s.rings shard p).head tail)
  | .drainRead call p count head tail =>
      let (value, lane) := (s.rings shard p).lane.read (size.ringCap.slot tail)
      let ring := { s.rings shard p with lane := lane }
      match value with
      | some value =>
          goto (s.setRing shard p (ring.deliver value))
            (.drainCallback call p count head (tail + 1))
      | none => goto (s.setRing shard p ring) .undefined
  | .drainCallback call p count head tail =>
      if tail = head then
        goto s (.drainStore call p (count + 1) tail)
      else
        goto s (.drainRead call p (count + 1) head tail)
  | .drainStore call p count tail =>
      goto (s.setRing shard p ((s.rings shard p).storeTail tail)) (.drainWake call p count)
  | .drainWake call p count =>
      goto (s.wakeProducer p) (drainAt size call (p + 1) count true)
  | .drainUnwind p tail =>
      goto (s.setRing shard p ((s.rings shard p).storeTail tail)) (.returned .panicked)
  | .terminalShutdown call asker =>
      if s.shutdown then
        goto s (terminalAnswer size call asker true)
      else
        goto s (.terminalLive call asker)
  | .terminalLive call asker =>
      goto s (terminalAnswer size call asker (decide (s.liveProducers = 0)))
  | .workHead call phase p => goto s (.workTail call phase p (s.rings shard p).head)
  | .workTail call phase p head =>
      if head = (s.rings shard p).tail then
        goto s (workAt size call phase (p + 1))
      else
        goto s (recvWaited size call phase true)
  | .waitAnnounce call =>
      goto (s.setConsumerWaiter shard (s.consumerWaiters shard).announce)
        (.workHead call .announced 0)
  | .waitPark call =>
      if (s.consumerWaiters shard).token then
        goto (s.setConsumerWaiter shard (s.consumerWaiters shard).consume)
          (.workHead call .announced 0)
      else
        none
  | .waitLeave call =>
      goto (s.setConsumerWaiter shard (s.consumerWaiters shard).leave)
        (receiveAgain size call)
  | .returned _ => some (s.consumerAt shard (.running rest))
  | .undefined => none

/-- The next step of the shard's consumer. -/
def consumerTick (size : MpmcSize) (s : MpmcState α) (shard : Nat) : Option (MpmcState α) :=
  match s.consumers shard with
  | .running [] => none
  | .running (frame :: rest) => s.frameTick size shard rest frame
  | .fetchSub =>
      let after := { s.noteDrop size with liveConsumers := s.liveConsumers - 1 }
      if s.liveConsumers = 1 then
        some (after.consumerAt shard (.wakeLast 0))
      else
        some (after.consumerAt shard .gone)
  | .wakeLast p =>
      if p < size.m then
        some ((s.wakeProducer p).consumerAt shard (.wakeLast (p + 1)))
      else
        some (s.consumerAt shard .gone)
  | .gone => none

/-- A receive may start on an idle handle and inside a callback. -/
def mayCall : List (MpmcFrame α) → Bool
  | [] => true
  | .drainCallback _ _ _ _ _ :: _ => true
  | _ => false

/-- A receive starts at `frame`. -/
def call (s : MpmcState α) (shard : Nat) (frame : MpmcFrame α) : Option (MpmcState α) :=
  match s.consumers shard with
  | .running frames =>
      if mayCall frames then
        some (s.consumerAt shard (.running (frame :: frames)))
      else
        none
  | _ => none

/-- The side of the shard's consumer. -/
def consumerStep (size : MpmcSize) (s : MpmcState α) (shard : Nat) :
    MpmcConsumerAction → Option (MpmcState α)
  | .tick => s.consumerTick size shard
  | .tryRecv => s.call shard (scanAt size .tryRecv 0)
  | .recv => s.call shard (scanAt size .recv 0)
  | .tryRecvBatch => s.call shard (drainAt size .tryRecvBatch 0 0 false)
  | .recvBatch => s.call shard (drainAt size .recvBatch 0 0 false)
  | .drop =>
      match s.consumers shard with
      | .running [] => some (s.consumerAt shard .fetchSub)
      | _ => none
  | .panic =>
      match s.consumers shard with
      | .running (.drainCallback _ p _ _ tail :: rest) =>
          some (s.consumerAt shard (.running (.drainUnwind p tail :: rest)))
      | _ => none
  | .spin =>
      match s.consumers shard with
      | .running (.waitAnnounce call :: rest) =>
          some (s.consumerAt shard (.running (.workHead call .entry 0 :: rest)))
      | _ => none
  | .spurious =>
      match s.consumers shard with
      | .running (.waitPark call :: rest) =>
          some (s.consumerAt shard (.running (.workHead call .announced 0 :: rest)))
      | _ => none

/-! ### Shutdown -/

/-- `MpmcShutdown::signal`, by handle `k`. -/
def signallerStep (size : MpmcSize) (s : MpmcState α) (k : Nat) :
    MpmcSignalAction → Option (MpmcState α)
  | .signal =>
      match s.signallers k with
      | .idle =>
          some ({ s.noteTerminal with shutdown := true }.signallerAt k (.wakeConsumer 0))
      | _ => none
  | .tick =>
      match s.signallers k with
      | .idle => none
      | .wakeConsumer shard =>
          if shard < size.n then
            some ((s.wakeConsumer shard).signallerAt k (.wakeConsumer (shard + 1)))
          else
            some (s.signallerAt k (.wakeProducer 0))
      | .wakeProducer p =>
          if p < size.m then
            some ((s.wakeProducer p).signallerAt k (.wakeProducer (p + 1)))
          else
            some (s.signallerAt k .idle)

def step (size : MpmcSize) (s : MpmcState α) : MpmcAction α → Option (MpmcState α)
  | .producer p action => if p < size.m then s.producerStep size p action else none
  | .consumer shard action => if shard < size.n then s.consumerStep size shard action else none
  | .signaller k action => s.signallerStep size k action

/-- Every interleaving of the handles from `Mpmc::new`. -/
def system (size : MpmcSize) : System (MpmcState α) (MpmcAction α) :=
  System.ofFunction (fun s => s = new size) fun s action => s.step size action

/-! ### Teardown -/

/-- The loop of `MpmcInner::drop` over one ring: the same walk from `tail` to `head`
as in `Ring::drop`. -/
def dropRing (size : MpmcSize) (ring : PRing α) : Lane α :=
  RingState.dropFrom size.ringCap ring.head ring.tail ring.lane

/-- `MpmcInner::drop`, run when the last handle is gone. -/
def dropInner (size : MpmcSize) (s : MpmcState α) (shard p : Nat) : Lane α :=
  if shard < size.n ∧ p < size.m then dropRing size (s.rings shard p)
  else (s.rings shard p).lane

end MpmcState

end ArbitroKit
