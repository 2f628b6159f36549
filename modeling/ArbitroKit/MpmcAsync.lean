import ArbitroKit.AsyncWatch
import ArbitroKit.Mpmc

/-!
# The sharded channel between tasks

`route/mpmc.rs` over `NotifyWaiter`: `send_async` and `recv_async` next to the calls that
never wait.  A step is one atomic operation, one slot access, one callback of a batch, or one
poll or drop of a notification; a load of one's own cursor, which nobody else stores, is taken
together with the load of the peer's.  Between two polls a future can be dropped.  Every load
of what others store may be stale, of a cursor, of `shutdown` and of a count of live handles;
what the gates hand over says how stale.  A handle runs one call or one future at a time,
although `send_async` and `recv_async` take `&self`, and a callback neither receives nor
panics.
-/

namespace ArbitroKit

open Coherent SlotLane Cyclic Transition

/-- `PRing` between two tasks: of each cursor, how many stores the other side has seen. -/
structure TaskRing (α : Type*) where
  head : Location Usize
  tail : Location Usize
  lane : Lane α
  headView : Nat
  tailView : Nat

/-- The public method a send runs under. -/
inductive MpmcTaskSend (α : Type*) where
  | trySend
  | sendAsync (value : α)
  | trySendBatch

/-- The public method a single receive runs under. -/
inductive MpmcTaskRecv where
  | tryRecv
  | recvAsync
  deriving DecidableEq, Repr

/-- Where a producer handle and its future stand. -/
inductive MpmcSenderPc (α : Type*) where
  | idle
  -- the future of `send_async`: not polled yet, `is_terminal_for_producer` at the head of its
  -- loop, its wait
  | unpolled (value : α)
  | loopShutdown (value : α)
  | loopLive (value : α)
  | waits (value : α) (pc : AwaitPc Nat)
  -- `try_send`: the same check
  | loadShutdown (call : MpmcTaskSend α) (value : α)
  | loadLive (call : MpmcTaskSend α) (value : α)
  -- the scan at the `k`-th shard from `start`; `items` is the one value or the vector
  | scan (call : MpmcTaskSend α) (items : List α) (start k : Nat)
  | write (call : MpmcTaskSend α) (shard : Nat) (head : Usize) (left written : List α)
  | publish (call : MpmcTaskSend α) (shard : Nat) (head : Usize) (written : List α)
  | wakeConsumer (shard : Nat) (written : List α) (stage : WakeStage)
  -- `drop`
  | fetchSub
  | wakeLast (shard : Nat) (stage : WakeStage)
  | gone

/-- Where a consumer handle and its future stand. -/
inductive MpmcReceiverPc (α : Type*) where
  | idle
  -- the future of `recv_async`: not polled yet, `is_terminal_for_consumer`, its wait
  | unpolled
  | loopShutdown
  | loopLive
  | waits (pc : AwaitPc Nat)
  -- `try_recv`: the scan at ring `p`
  | scan (call : MpmcTaskRecv) (p : Nat)
  | scanRead (call : MpmcTaskRecv) (p : Nat) (tail : Usize)
  | scanStore (p : Nat) (tail : Usize) (value : α)
  | scanWake (p : Nat) (value : α) (stage : WakeStage)
  -- `drain_all`: the pass at ring `p`; from the first item on `tail` is the cursor in the guard
  | drain (p : Nat) (progress : Bool)
  | drainRead (p : Nat) (head tail : Usize)
  | drainCallback (p : Nat) (head tail : Usize) (value : α)
  | drainStore (p : Nat) (tail : Usize)
  | drainWake (p : Nat) (stage : WakeStage)
  -- `drop`
  | fetchSub
  | wakeLast (p : Nat) (stage : WakeStage)
  | gone
  -- a slot without any bits was read: nothing is defined from here on
  | undefined

/-- Where a `signal` call stands. -/
inductive MpmcTaskSignalPc where
  | idle
  | wakeConsumer (shard : Nat) (stage : WakeStage)
  | wakeProducer (p : Nat) (stage : WakeStage)
  deriving DecidableEq, Repr

/-- What a task has seen of `shutdown`, and of the other side's count having come to zero. -/
structure TerminalView where
  shutdown : Nat
  live : Nat

structure MpmcSender (α : Type*) where
  cursor : BitVec 32
  pc : MpmcSenderPc α
  view : TerminalView

structure MpmcReceiver (α : Type*) where
  pc : MpmcReceiverPc α
  view : TerminalView

/-- The tables are by shard and producer.  `accepted` and `delivered` are history: the values
that finished calls and futures have left in a ring, and those handed out of it. -/
structure AsyncMpmc (α : Type*) where
  rings : Nat → Nat → TaskRing α
  consumerWaiters : Nat → AsyncGate
  producerWaiters : Nat → AsyncGate
  shutdown : Bool
  liveProducers : Nat
  liveConsumers : Nat
  senders : Nat → MpmcSender α
  receivers : Nat → MpmcReceiver α
  signallers : Nat → MpmcTaskSignalPc
  accepted : Nat → Nat → List α
  delivered : Nat → Nat → List α

/-- `tick`: `index` is the store that a load returns, and `saw` what T3a makes of the count. -/
inductive MpmcSenderAction (α : Type*) where
  | trySend (value : α)
  | trySendBatch (items : List α)
  | sendAsync (value : α)
  | tick (index : Nat) (saw : Bool)
  -- the future is dropped before it has completed
  | cancel
  -- the handle is dropped
  | drop

inductive MpmcReceiverAction where
  | tryRecv
  | tryRecvBatch
  | recvAsync
  | tick (index : Nat) (saw : Bool)
  | cancel
  | drop

inductive MpmcTaskSignalAction where
  | signal
  | tick (saw : Bool)

inductive AsyncMpmcAction (α : Type*) where
  | sender (p : Nat) (action : MpmcSenderAction α)
  | receiver (shard : Nat) (action : MpmcReceiverAction)
  | signaller (k : Nat) (action : MpmcTaskSignalAction)

namespace TaskRing

variable {α : Type*}

/-- `PRing::new`. -/
def new : TaskRing α where
  head := .new 0
  tail := .new 0
  lane := Lane.empty
  headView := 0
  tailView := 0

/-- `head.store(h, Release)`. -/
def storeHead (ring : TaskRing α) (head : Usize) : TaskRing α :=
  { ring with head := ring.head.store head, lane := ring.lane.publish }

/-- `tail.store(t, Release)`. -/
def storeTail (ring : TaskRing α) (tail : Usize) : TaskRing α :=
  { ring with tail := ring.tail.store tail, lane := ring.lane.release }

def writeSlot (ring : TaskRing α) (index : Nat) (value : α) : TaskRing α :=
  { ring with lane := ring.lane.write index value }

/-- The producer's Acquire load of `tail`. -/
def loadTail (ring : TaskRing α) (index : Nat) : Option (Usize × TaskRing α) :=
  (ring.tail.load ring.tailView index).map fun tail => (tail, { ring with tailView := index })

/-- The consumer's Acquire load of `head`. -/
def loadHead (ring : TaskRing α) (index : Nat) : Option (Usize × TaskRing α) :=
  (ring.head.load ring.headView index).map fun head => (head, { ring with headView := index })

end TaskRing

namespace AsyncMpmc

variable {α : Type*}

/-- `Mpmc::new`. -/
def new (size : MpmcSize) : AsyncMpmc α where
  rings _ _ := .new
  consumerWaiters _ := .new
  producerWaiters _ := .new
  shutdown := false
  liveProducers := size.m
  liveConsumers := size.n
  senders p := ⟨BitVec.ofNat 32 (p % size.n), .idle, ⟨0, 0⟩⟩
  receivers _ := ⟨.idle, ⟨0, 0⟩⟩
  signallers _ := .idle
  accepted _ _ := []
  delivered _ _ := []

def setRing (s : AsyncMpmc α) (shard p : Nat) (ring : TaskRing α) : AsyncMpmc α :=
  { s with rings := setEntry s.rings shard p ring }

def setSender (s : AsyncMpmc α) (p : Nat) (sender : MpmcSender α) : AsyncMpmc α :=
  { s with senders := Function.update s.senders p sender }

def senderAt (s : AsyncMpmc α) (p : Nat) (pc : MpmcSenderPc α) : AsyncMpmc α :=
  s.setSender p { s.senders p with pc := pc }

def setReceiver (s : AsyncMpmc α) (shard : Nat) (receiver : MpmcReceiver α) : AsyncMpmc α :=
  { s with receivers := Function.update s.receivers shard receiver }

def receiverAt (s : AsyncMpmc α) (shard : Nat) (pc : MpmcReceiverPc α) : AsyncMpmc α :=
  s.setReceiver shard { s.receivers shard with pc := pc }

def signallerAt (s : AsyncMpmc α) (k : Nat) (pc : MpmcTaskSignalPc) : AsyncMpmc α :=
  { s with signallers := Function.update s.signallers k pc }

def setConsumerWaiter (s : AsyncMpmc α) (shard : Nat) (gate : AsyncGate) : AsyncMpmc α :=
  { s with consumerWaiters := Function.update s.consumerWaiters shard gate }

def setProducerWaiter (s : AsyncMpmc α) (p : Nat) (gate : AsyncGate) : AsyncMpmc α :=
  { s with producerWaiters := Function.update s.producerWaiters p gate }

/-! ### What the gates hand over

A gate numbers what its task watches: `shutdown`, the other side's count, and from 2 on the
cursor of each peer. -/

/-- How many stores of a flag there are that matter: setting it again changes nothing. -/
def stores (set : Bool) : Nat := set.toNat

/-- A load of a flag, which `view` says to be seen set or not. -/
def loadFlag (set : Bool) (view index : Nat) : Option Bool :=
  if view ≤ index ∧ index ≤ stores set then some (decide (index = 1)) else none

/-- A step of `consumer_waiter.wake()` behind a store that the shard's gate knows as `idx`. -/
def wakeConsumerBy (s : AsyncMpmc α) (shard idx count : Nat) (saw : Bool) (stage : WakeStage) :
    AsyncMpmc α × Option WakeStage :=
  let (gate, next) := (s.consumerWaiters shard).wakeStep (some (idx, count)) saw stage
  (s.setConsumerWaiter shard gate, next)

/-- A step of `producer_waiters[p].wake()` behind a store that the gate knows as `idx`. -/
def wakeProducerBy (s : AsyncMpmc α) (p idx count : Nat) (saw : Bool) (stage : WakeStage) :
    AsyncMpmc α × Option WakeStage :=
  let (gate, next) := (s.producerWaiters p).wakeStep (some (idx, count)) saw stage
  (s.setProducerWaiter p gate, next)

/-- Producer `p`'s task synchronises through its gate. -/
def senderSees (s : AsyncMpmc α) (p : Nat) (seen : Nat → Nat) : AsyncMpmc α :=
  let sender := s.senders p
  { s with
    rings := fun shard => Function.update (s.rings shard) p
      { s.rings shard p with
        tailView := max (s.rings shard p).tailView (seen (shard + 2)) }
    senders := Function.update s.senders p
      { sender with
        view := ⟨max sender.view.shutdown (seen 0), max sender.view.live (seen 1)⟩ } }

/-- The shard's consumer synchronises through its gate. -/
def receiverSees (s : AsyncMpmc α) (shard : Nat) (seen : Nat → Nat) : AsyncMpmc α :=
  let receiver := s.receivers shard
  { s with
    rings := Function.update s.rings shard fun p =>
      { s.rings shard p with headView := max (s.rings shard p).headView (seen (p + 2)) }
    receivers := Function.update s.receivers shard
      { receiver with
        view := ⟨max receiver.view.shutdown (seen 0), max receiver.view.live (seen 1)⟩ } }

/-! ### Producers -/

/-- The channel is terminal, or no shard has room. -/
def sendRejected : MpmcTaskSend α → MpmcSenderPc α
  | .trySend => .idle
  | .sendAsync value => .waits value (.check .entry 0)
  | .trySendBatch => .idle

/-- `cursor % n`. -/
def cursorStart (size : MpmcSize) (sender : MpmcSender α) : Nat :=
  sender.cursor.toNat % size.n

/-- The wait of `send_async` goes on, or its loop does. -/
def sendWaited (value : α) : AwaitNext Nat → MpmcSenderPc α
  | .goes pc => .waits value pc
  | .returned => .loopShutdown value
  | .dropped => .idle

/-- Producer `p` loads `shutdown`. -/
def senderShutdown (s : AsyncMpmc α) (p index : Nat) (next : Bool → MpmcSenderPc α) :
    Option (AsyncMpmc α) :=
  let sender := s.senders p
  (loadFlag s.shutdown sender.view.shutdown index).map fun set =>
    s.setSender p { sender with pc := next set, view := { sender.view with shutdown := index } }

/-- Producer `p` loads `live_consumers`, to see whether it is zero. -/
def senderLive (s : AsyncMpmc α) (p index : Nat) (next : Bool → MpmcSenderPc α) :
    Option (AsyncMpmc α) :=
  let sender := s.senders p
  (loadFlag (decide (s.liveConsumers = 0)) sender.view.live index).map fun zero =>
    s.setSender p { sender with pc := next zero, view := { sender.view with live := index } }

/-- One turn of the predicate of `send_async`: `shutdown`, `live_consumers`, then the shards. -/
def senderCheck (size : MpmcSize) (s : AsyncMpmc α) (p : Nat) (value : α) (phase : WaitPhase)
    (k index : Nat) : Option (AsyncMpmc α) :=
  let next (ready : Bool) := sendWaited value (AwaitPc.turned phase k (size.n + 2) ready)
  match k with
  | 0 => s.senderShutdown p index next
  | 1 => s.senderLive p index next
  | shard + 2 =>
      ((s.rings shard p).loadTail index).map fun (tail, ring) =>
        (s.setRing shard p ring).senderAt p
          (next (!RingState.isFull size.ringCap ring.head.current tail))

/-- The next step of the wait of `send_async`. -/
def senderWait (size : MpmcSize) (s : AsyncMpmc α) (p : Nat) (value : α) (index : Nat) :
    AwaitPc Nat → Option (AsyncMpmc α)
  | .check phase k => s.senderCheck size p value phase k index
  | pc =>
      (pc.tick (s.producerWaiters p) 0).map fun step =>
        ((s.setProducerWaiter p step.gate).senderSees p step.seen).senderAt p
          (sendWaited value step.next)

/-- The next step of producer `p`'s running call. -/
def senderTick (size : MpmcSize) (s : AsyncMpmc α) (p index : Nat) (saw : Bool) :
    Option (AsyncMpmc α) :=
  match (s.senders p).pc with
  | .idle => none
  | .unpolled value => some (s.senderAt p (.loopShutdown value))
  | .loopShutdown value =>
      s.senderShutdown p index fun set => if set then .idle else .loopLive value
  | .loopLive value =>
      s.senderLive p index fun zero =>
        if zero then .idle else .loadShutdown (.sendAsync value) value
  | .waits value pc => s.senderWait size p value index pc
  | .loadShutdown call value =>
      s.senderShutdown p index fun set =>
        if set then sendRejected call else .loadLive call value
  | .loadLive call value =>
      s.senderLive p index fun zero =>
        if zero then sendRejected call
        else .scan call [value] (cursorStart size (s.senders p)) 0
  | .scan call items start k =>
      let shard := (start + k) % size.n
      ((s.rings shard p).loadTail index).map fun (tail, ring) =>
        let head := ring.head.current
        let used := (head - tail).toNat
        (s.setRing shard p ring).senderAt p
          (if size.ringCap.size ≤ used then
            if k + 1 < size.n then .scan call items start (k + 1) else sendRejected call
          else
            .write call shard head (items.take (size.ringCap.size - used)) [])
  | .write call shard head left written =>
      match left with
      | [] => some (s.senderAt p (.publish call shard head written))
      | value :: left =>
          some ((s.setRing shard p
            ((s.rings shard p).writeSlot (size.ringCap.slot head) value)).senderAt p
              (.write call shard (head + 1) left (written ++ [value])))
  | .publish _ shard head written =>
      some ((s.setRing shard p ((s.rings shard p).storeHead head)).senderAt p
        (.wakeConsumer shard written .probe))
  | .wakeConsumer shard written stage =>
      let (woken, next) :=
        s.wakeConsumerBy shard (p + 2) (s.rings shard p).head.latest saw stage
      match next with
      | some stage => some (woken.senderAt p (.wakeConsumer shard written stage))
      | none =>
          -- `cursor.set(((s + 1) % n) as u32)`, and the call returns
          some ({ woken with
            accepted := setEntry s.accepted shard p (s.accepted shard p ++ written) }.setSender p
              { s.senders p with
                cursor := BitVec.ofNat 32 ((shard + 1) % size.n)
                pc := .idle })
  | .fetchSub =>
      let after := { s with liveProducers := s.liveProducers - 1 }
      if s.liveProducers = 1 then
        some (after.senderAt p (.wakeLast 0 .probe))
      else
        some (after.senderAt p .gone)
  | .wakeLast shard stage =>
      if shard < size.n then
        let (woken, next) := s.wakeConsumerBy shard 1 1 saw stage
        match next with
        | some stage => some (woken.senderAt p (.wakeLast shard stage))
        | none => some (woken.senderAt p (.wakeLast (shard + 1) .probe))
      else
        some (s.senderAt p .gone)
  | .gone => none

/-- A call of the idle producer handle. -/
def senderCall (s : AsyncMpmc α) (p : Nat) (pc : MpmcSenderPc α) : Option (AsyncMpmc α) :=
  match (s.senders p).pc with
  | .idle => some (s.senderAt p pc)
  | _ => none

/-- The side of producer `p`. -/
def senderStep (size : MpmcSize) (s : AsyncMpmc α) (p : Nat) :
    MpmcSenderAction α → Option (AsyncMpmc α)
  | .tick index saw => s.senderTick size p index saw
  | .trySend value => s.senderCall p (.loadShutdown .trySend value)
  | .trySendBatch items =>
      s.senderCall p
        (if items.isEmpty then .idle
          else .scan .trySendBatch items (cursorStart size (s.senders p)) 0)
  | .sendAsync value => s.senderCall p (.unpolled value)
  | .drop => s.senderCall p .fetchSub
  | .cancel =>
      match (s.senders p).pc with
      | .unpolled _ => some (s.senderAt p .idle)
      | .waits value .suspended => some (s.senderAt p (.waits value (.dropNotified .dropped)))
      | _ => none

/-! ### Consumers -/

/-- The scan of `try_recv` goes to ring `p`, or has found nothing. -/
def scanAt (size : MpmcSize) (call : MpmcTaskRecv) (p : Nat) : MpmcReceiverPc α :=
  if p < size.m then
    .scan call p
  else
    match call with
    | .tryRecv => .idle
    | .recvAsync => .loopShutdown

/-- The pass of `drain_all` goes to ring `p`; after the last ring it starts over if it made
progress. -/
def drainAt (size : MpmcSize) (p : Nat) (progress : Bool) : MpmcReceiverPc α :=
  if p < size.m then .drain p progress
  else if progress then .drain 0 false
  else .idle

/-- The wait of `recv_async` goes on, or its loop does. -/
def recvWaited (size : MpmcSize) : AwaitNext Nat → MpmcReceiverPc α
  | .goes pc => .waits pc
  | .returned => scanAt size .recvAsync 0
  | .dropped => .idle

/-- The shard's consumer loads `shutdown`. -/
def receiverShutdown (s : AsyncMpmc α) (shard index : Nat) (next : Bool → MpmcReceiverPc α) :
    Option (AsyncMpmc α) :=
  let receiver := s.receivers shard
  (loadFlag s.shutdown receiver.view.shutdown index).map fun set =>
    s.setReceiver shard
      { receiver with pc := next set, view := { receiver.view with shutdown := index } }

/-- The shard's consumer loads `live_producers`, to see whether it is zero. -/
def receiverLive (s : AsyncMpmc α) (shard index : Nat) (next : Bool → MpmcReceiverPc α) :
    Option (AsyncMpmc α) :=
  let receiver := s.receivers shard
  (loadFlag (decide (s.liveProducers = 0)) receiver.view.live index).map fun zero =>
    s.setReceiver shard
      { receiver with pc := next zero, view := { receiver.view with live := index } }

/-- One turn of the predicate of `recv_async`: the rings, `shutdown`, then `live_producers`. -/
def receiverCheck (size : MpmcSize) (s : AsyncMpmc α) (shard : Nat) (phase : WaitPhase)
    (k index : Nat) : Option (AsyncMpmc α) :=
  let next (ready : Bool) := recvWaited size (AwaitPc.turned phase k (size.m + 2) ready)
  if k < size.m then
    ((s.rings shard k).loadHead index).map fun (head, ring) =>
      (s.setRing shard k ring).receiverAt shard (next (decide (head ≠ ring.tail.current)))
  else if k = size.m then
    s.receiverShutdown shard index next
  else
    s.receiverLive shard index next

/-- The next step of the wait of `recv_async`. -/
def receiverWait (size : MpmcSize) (s : AsyncMpmc α) (shard index : Nat) :
    AwaitPc Nat → Option (AsyncMpmc α)
  | .check phase k => s.receiverCheck size shard phase k index
  | pc =>
      (pc.tick (s.consumerWaiters shard) 0).map fun step =>
        ((s.setConsumerWaiter shard step.gate).receiverSees shard step.seen).receiverAt shard
          (recvWaited size step.next)

/-- `assume_init_read` of a slot, and where the consumer goes with the value. -/
def readSlot (s : AsyncMpmc α) (shard p index : Nat) (next : α → MpmcReceiverPc α) :
    AsyncMpmc α :=
  let (value, lane) := (s.rings shard p).lane.read index
  let read := s.setRing shard p { s.rings shard p with lane := lane }
  match value with
  | some value => read.receiverAt shard (next value)
  | none => read.receiverAt shard .undefined

/-- The value goes to the caller, or to its callback. -/
def deliver (s : AsyncMpmc α) (shard p : Nat) (value : α) : AsyncMpmc α :=
  { s with delivered := setEntry s.delivered shard p (s.delivered shard p ++ [value]) }

/-- The next step of the running call of the shard's consumer. -/
def receiverTick (size : MpmcSize) (s : AsyncMpmc α) (shard index : Nat) (saw : Bool) :
    Option (AsyncMpmc α) :=
  match (s.receivers shard).pc with
  | .idle => none
  | .unpolled => some (s.receiverAt shard (scanAt size .recvAsync 0))
  | .loopShutdown =>
      s.receiverShutdown shard index fun set => if set then .idle else .loopLive
  | .loopLive =>
      s.receiverLive shard index fun zero => if zero then .idle else .waits (.check .entry 0)
  | .waits pc => s.receiverWait size shard index pc
  | .scan call p =>
      ((s.rings shard p).loadHead index).map fun (head, ring) =>
        (s.setRing shard p ring).receiverAt shard
          (if ring.tail.current = head then scanAt size call (p + 1)
          else .scanRead call p ring.tail.current)
  | .scanRead _ p tail =>
      some (s.readSlot shard p (size.ringCap.slot tail) (.scanStore p tail))
  | .scanStore p tail value =>
      some ((s.setRing shard p ((s.rings shard p).storeTail (tail + 1))).receiverAt shard
        (.scanWake p value .probe))
  | .scanWake p value stage =>
      let (woken, next) :=
        s.wakeProducerBy p (shard + 2) (s.rings shard p).tail.latest saw stage
      match next with
      | some stage => some (woken.receiverAt shard (.scanWake p value stage))
      | none => some ((woken.deliver shard p value).receiverAt shard .idle)
  | .drain p progress =>
      ((s.rings shard p).loadHead index).map fun (head, ring) =>
        (s.setRing shard p ring).receiverAt shard
          (if ring.tail.current = head then drainAt size (p + 1) progress
          else .drainRead p head ring.tail.current)
  | .drainRead p head tail =>
      some (s.readSlot shard p (size.ringCap.slot tail) (.drainCallback p head (tail + 1)))
  | .drainCallback p head tail value =>
      some ((s.deliver shard p value).receiverAt shard
        (if tail = head then .drainStore p tail else .drainRead p head tail))
  | .drainStore p tail =>
      some ((s.setRing shard p ((s.rings shard p).storeTail tail)).receiverAt shard
        (.drainWake p .probe))
  | .drainWake p stage =>
      let (woken, next) :=
        s.wakeProducerBy p (shard + 2) (s.rings shard p).tail.latest saw stage
      match next with
      | some stage => some (woken.receiverAt shard (.drainWake p stage))
      | none => some (woken.receiverAt shard (drainAt size (p + 1) true))
  | .fetchSub =>
      let after := { s with liveConsumers := s.liveConsumers - 1 }
      if s.liveConsumers = 1 then
        some (after.receiverAt shard (.wakeLast 0 .probe))
      else
        some (after.receiverAt shard .gone)
  | .wakeLast p stage =>
      if p < size.m then
        let (woken, next) := s.wakeProducerBy p 1 1 saw stage
        match next with
        | some stage => some (woken.receiverAt shard (.wakeLast p stage))
        | none => some (woken.receiverAt shard (.wakeLast (p + 1) .probe))
      else
        some (s.receiverAt shard .gone)
  | .gone => none
  | .undefined => none

/-- A call of the idle consumer handle. -/
def receiverCall (s : AsyncMpmc α) (shard : Nat) (pc : MpmcReceiverPc α) :
    Option (AsyncMpmc α) :=
  match (s.receivers shard).pc with
  | .idle => some (s.receiverAt shard pc)
  | _ => none

/-- The side of the shard's consumer. -/
def receiverStep (size : MpmcSize) (s : AsyncMpmc α) (shard : Nat) :
    MpmcReceiverAction → Option (AsyncMpmc α)
  | .tick index saw => s.receiverTick size shard index saw
  | .tryRecv => s.receiverCall shard (scanAt size .tryRecv 0)
  | .tryRecvBatch => s.receiverCall shard (drainAt size 0 false)
  | .recvAsync => s.receiverCall shard .unpolled
  | .drop => s.receiverCall shard .fetchSub
  | .cancel =>
      match (s.receivers shard).pc with
      | .unpolled => some (s.receiverAt shard .idle)
      | .waits .suspended => some (s.receiverAt shard (.waits (.dropNotified .dropped)))
      | _ => none

/-! ### Shutdown -/

/-- `MpmcShutdown::signal`, by handle `k`. -/
def signallerStep (size : MpmcSize) (s : AsyncMpmc α) (k : Nat) :
    MpmcTaskSignalAction → Option (AsyncMpmc α)
  | .signal =>
      match s.signallers k with
      | .idle => some ({ s with shutdown := true }.signallerAt k (.wakeConsumer 0 .probe))
      | _ => none
  | .tick saw =>
      match s.signallers k with
      | .idle => none
      | .wakeConsumer shard stage =>
          if shard < size.n then
            let (woken, next) := s.wakeConsumerBy shard 0 1 saw stage
            match next with
            | some stage => some (woken.signallerAt k (.wakeConsumer shard stage))
            | none => some (woken.signallerAt k (.wakeConsumer (shard + 1) .probe))
          else
            some (s.signallerAt k (.wakeProducer 0 .probe))
      | .wakeProducer p stage =>
          if p < size.m then
            let (woken, next) := s.wakeProducerBy p 0 1 saw stage
            match next with
            | some stage => some (woken.signallerAt k (.wakeProducer p stage))
            | none => some (woken.signallerAt k (.wakeProducer (p + 1) .probe))
          else
            some (s.signallerAt k .idle)

def step (size : MpmcSize) (s : AsyncMpmc α) : AsyncMpmcAction α → Option (AsyncMpmc α)
  | .sender p action => if p < size.m then s.senderStep size p action else none
  | .receiver shard action =>
      if shard < size.n then s.receiverStep size shard action else none
  | .signaller k action => s.signallerStep size k action

/-- Every schedule of the polls, wakes and drops from `Mpmc::new`. -/
def system (size : MpmcSize) : System (AsyncMpmc α) (AsyncMpmcAction α) :=
  System.ofFunction (fun s => s = new size) fun s action => s.step size action

end AsyncMpmc

end ArbitroKit
