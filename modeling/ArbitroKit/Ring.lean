import ArbitroKit.CoherentLocation
import ArbitroKit.SlotLane
import ArbitroKit.TransitionSystem
import ArbitroKit.Waiter

/-!
# The split-handle SPSC ring

`stream/ring.rs` as an interleaving of its two handles.  A step of a handle is
one atomic operation, one slot access, one `wake`, or the user callback of
`drain` coming back; what happens between two of them is private to the handle
and belongs to the step before.  Cursors are `usize` words that wrap.  A load of
the peer's cursor may return any value not older than the one last read; the
step says which.
-/

namespace ArbitroKit

open Coherent SlotLane Cyclic

abbrev Usize := BitVec 64

/-- `CAP`: a power of two that fits `usize`, as `Ring::new` asserts. -/
abbrev Cap := Capacity 64

/-- The capacities of the sample runs: one slot and two. -/
def oneSlotCap : Cap := ⟨0, by decide⟩

def twoSlotCap : Cap := ⟨1, by decide⟩

/-- `TrySendError`. -/
inductive TrySendError (α : Type*) where
  | full (value : α)
  | closed (value : α)
  deriving DecidableEq, Repr

/-- `TryRecvError`. -/
inductive TryRecvError where
  | empty
  | closed
  deriving DecidableEq, Repr

/-- The public method a single send runs under. -/
inductive SendCall where
  | trySend
  | send
  deriving DecidableEq, Repr

/-- The public method a single receive runs under. -/
inductive RecvCall where
  | tryRecv
  | recv
  deriving DecidableEq, Repr

/-- What a finished producer call returned. -/
inductive ProducerOutcome (α : Type*) where
  | trySend (result : Except (TrySendError α) Unit)
  | send (result : Except α Unit)
  | trySendBulk (taken : Nat) (items : List α)

/-- What a finished consumer call returned. -/
inductive ConsumerOutcome (α : Type*) where
  | tryRecv (result : Except TryRecvError α)
  | recv (result : Option α)
  | drain (consumed : Nat)
  | panicked

/-- Where the producer's thread stands, with the local variables that are still
needed. -/
inductive ProducerPc (α : Type*) where
  | idle
  -- `try_send`: the cache says full, refresh it
  | sendRefresh (call : SendCall) (value : α) (head : Usize)
  -- still full, look at `closed`
  | sendClosed (call : SendCall) (value : α)
  | sendWrite (call : SendCall) (value : α) (head : Usize)
  | sendPublish (call : SendCall) (value : α) (head : Usize)
  | sendWake (call : SendCall) (value : α)
  -- `try_send_bulk`; `written` are the items popped so far
  | bulkRefresh (items : List α) (head : Usize)
  | bulkWrite (items : List α) (head : Usize) (left : Nat) (written : List α)
  | bulkPublish (items : List α) (head : Usize) (written : List α)
  | bulkWake (items : List α) (written : List α)
  -- `send` after a full `try_send`: `wait_until(|| !is_full() || is_closed())`
  | sendRetry (value : α)
  | waitHead (phase : WaitPhase) (value : α)
  | waitTail (phase : WaitPhase) (value : α) (head : Usize)
  | waitClosed (phase : WaitPhase) (value : α)
  | waitAnnounce (value : α)
  | waitPark (value : α)
  | waitLeave (value : α)
  -- `close`, run by the handle's drop
  | dropWakeFull
  | dropWakeEmpty
  | gone
  -- the call returns; `accepted` are the values it took over
  | returned (outcome : ProducerOutcome α) (accepted : List α)

/-- Where the consumer's thread stands. -/
inductive ConsumerPc (α : Type*) where
  | idle
  -- `try_recv`
  | recvRefresh (call : RecvCall) (tail : Usize)
  | recvClosed (call : RecvCall) (tail : Usize)
  | recvRecheck (call : RecvCall) (tail : Usize)
  | recvRead (call : RecvCall) (tail : Usize)
  | recvRelease (call : RecvCall) (tail : Usize) (value : α)
  | recvWake (call : RecvCall) (value : α)
  -- `drain`; `tail` is the cursor in the `Commit` guard
  | drainLoad (start : Usize)
  | drainRead (start head tail : Usize)
  | drainCallback (start head tail : Usize) (value : α)
  | drainCommit (start head tail : Usize)
  | drainWake (head : Usize) (consumed : Nat)
  | drainUnwind (start tail : Usize)
  -- `recv` after an empty `try_recv`: `wait_until(|| !is_empty() || is_closed())`
  | recvRetry
  | waitHead (phase : WaitPhase)
  | waitTail (phase : WaitPhase) (head : Usize)
  | waitClosed (phase : WaitPhase)
  | waitAnnounce
  | waitPark
  | waitLeave
  | dropWakeFull
  | dropWakeEmpty
  | gone
  | returned (outcome : ConsumerOutcome α)
  -- a slot without any bits was read: nothing is defined from here on
  | undefined

/-- The shared struct behind the `Arc`, its slots with their history. -/
structure Ring (α : Type*) where
  head : Location Usize
  tail : Location Usize
  notFull : Waiter
  notEmpty : Waiter
  closed : Bool
  lane : Lane α

/-- The `Producer` handle.  `tailView` is the position of the last value of
`tail` it was given, and `accepted` is the history of what its finished calls
took over. -/
structure Producer (α : Type*) where
  cachedTail : Usize
  pc : ProducerPc α
  tailView : Nat
  accepted : List α

/-- The `Consumer` handle; `delivered` is the history of what its calls returned
or handed to a callback. -/
structure Consumer (α : Type*) where
  cachedHead : Usize
  pc : ConsumerPc α
  headView : Nat
  delivered : List α

structure RingState (α : Type*) where
  shared : Ring α
  producer : Producer α
  consumer : Consumer α

/-- What the producer's side does next.  `tick index` lets the running call take
its next step, reading the value of the peer's cursor at `index` if the step is
such a load. -/
inductive ProducerAction (α : Type*) where
  | trySend (value : α)
  | send (value : α)
  | trySendBulk (items : List α)
  | drop
  | tick (index : Nat)
  | spin
  | spurious

/-- What the consumer's side does next; `panic` is the user callback of `drain`
unwinding instead of returning. -/
inductive ConsumerAction where
  | tryRecv
  | recv
  | drain
  | drop
  | tick (index : Nat)
  | panic
  | spin
  | spurious

inductive RingAction (α : Type*) where
  | producer (action : ProducerAction α)
  | consumer (action : ConsumerAction)

namespace RingState

variable {α : Type*}

/-- `Ring::new`. -/
def new : RingState α where
  shared :=
    { head := Location.new 0
      tail := Location.new 0
      notFull := Waiter.new
      notEmpty := Waiter.new
      closed := false
      lane := Lane.empty }
  producer := { cachedTail := 0, pc := .idle, tailView := 0, accepted := [] }
  consumer := { cachedHead := 0, pc := .idle, headView := 0, delivered := [] }

def producerAt (s : RingState α) (pc : ProducerPc α) : RingState α :=
  { s with producer := { s.producer with pc := pc } }

def consumerAt (s : RingState α) (pc : ConsumerPc α) : RingState α :=
  { s with consumer := { s.consumer with pc := pc } }

/-- `not_full.wake()`. -/
def wakeNotFull (s : RingState α) : RingState α :=
  { s with shared := { s.shared with notFull := s.shared.notFull.wake } }

/-- `not_empty.wake()`. -/
def wakeNotEmpty (s : RingState α) : RingState α :=
  { s with shared := { s.shared with notEmpty := s.shared.notEmpty.wake } }

/-- The Release store on `head`. -/
def storeHead (s : RingState α) (head : Usize) : RingState α :=
  { s with shared :=
      { s.shared with head := s.shared.head.store head, lane := s.shared.lane.publish } }

/-- The Release store on `tail`. -/
def storeTail (s : RingState α) (tail : Usize) : RingState α :=
  { s with shared :=
      { s.shared with tail := s.shared.tail.store tail, lane := s.shared.lane.release } }

def writeSlot (s : RingState α) (index : Nat) (value : α) : RingState α :=
  { s with shared := { s.shared with lane := s.shared.lane.write index value } }

/-- The producer's Acquire load of `tail`. -/
def loadTail (s : RingState α) (index : Nat) : Option (Usize × RingState α) :=
  (s.shared.tail.load s.producer.tailView index).map fun tail =>
    (tail, { s with producer := { s.producer with tailView := index } })

/-- The consumer's Acquire load of `head`. -/
def loadHead (s : RingState α) (index : Nat) : Option (Usize × RingState α) :=
  (s.shared.head.load s.consumer.headView index).map fun head =>
    (head, { s with consumer := { s.consumer with headView := index } })

/-- What the consumer's Acquire load of a set `closed` does to its view: the flag was
stored (Release) after the producer's last store of `head`. -/
def seeHead (s : RingState α) : RingState α :=
  { s with consumer := { s.consumer with headView := s.shared.head.latest } }

def setCachedTail (s : RingState α) (tail : Usize) : RingState α :=
  { s with producer := { s.producer with cachedTail := tail } }

def setCachedHead (s : RingState α) (head : Usize) : RingState α :=
  { s with consumer := { s.consumer with cachedHead := head } }

/-- `assume_init_read` of a slot, and where the consumer goes with the value. -/
def readSlot (s : RingState α) (index : Nat) (next : α → ConsumerPc α) : RingState α :=
  let (value, lane) := s.shared.lane.read index
  let s := { s with shared := { s.shared with lane := lane } }
  match value with
  | some value => s.consumerAt (next value)
  | none => s.consumerAt .undefined

/-- `head.wrapping_sub(tail) >= CAP`. -/
def isFull (cap : Cap) (head tail : Usize) : Bool :=
  decide (cap.size ≤ (head - tail).toNat)

def deliver (s : RingState α) (values : List α) : RingState α :=
  { s with consumer :=
      { s.consumer with delivered := s.consumer.delivered ++ values } }

/-! ### Producer -/

/-- Up to the first decision of `try_send`: load the own cursor, ask the cache. -/
def trySendStart (cap : Cap) (s : RingState α) (call : SendCall) (value : α) :
    RingState α :=
  let head := s.shared.head.current
  if isFull cap head s.producer.cachedTail then
    s.producerAt (.sendRefresh call value head)
  else
    s.producerAt (.sendWrite call value head)

/-- A full ring: `try_send` says whether it is closed, `send` gives up on a
closed ring and otherwise waits. -/
def sendRejected (call : SendCall) (value : α) (closed : Bool) : ProducerPc α :=
  match call, closed with
  | .trySend, true => .returned (.trySend (.error (.closed value))) []
  | .trySend, false => .returned (.trySend (.error (.full value))) []
  | .send, true => .returned (.send (.error value)) []
  | .send, false => .waitHead .entry value

def sendAccepted (call : SendCall) (value : α) : ProducerPc α :=
  match call with
  | .trySend => .returned (.trySend (.ok ())) [value]
  | .send => .returned (.send (.ok ())) [value]

/-- `avail = CAP.saturating_sub(used)`, `take = items.len().min(avail)`, and
into the loop unless nothing can be taken. -/
def bulkStart (cap : Cap) (items : List α) (head cachedTail : Usize) : ProducerPc α :=
  let avail := cap.size - (head - cachedTail).toNat
  if avail = 0 then
    .returned (.trySendBulk 0 items) []
  else
    .bulkWrite items head (min items.length avail) []

/-- The predicate of `send` came out. -/
def sendWaited (phase : WaitPhase) (ready : Bool) (value : α) : ProducerPc α :=
  match phase, ready with
  | .entry, true => .sendRetry value
  | .announced, true => .waitLeave value
  | .entry, false => .waitAnnounce value
  | .announced, false => .waitPark value

/-- The next step of the running producer call. -/
def producerTick (cap : Cap) (s : RingState α) (index : Nat) : Option (RingState α) :=
  match s.producer.pc with
  | .idle => none
  | .sendRefresh call value head =>
      (s.loadTail index).map fun (tail, s) =>
        if isFull cap head tail then
          (s.setCachedTail tail).producerAt (.sendClosed call value)
        else
          (s.setCachedTail tail).producerAt (.sendWrite call value head)
  | .sendClosed call value =>
      some (s.producerAt (sendRejected call value s.shared.closed))
  | .sendWrite call value head =>
      some ((s.writeSlot (cap.slot head) value).producerAt
        (.sendPublish call value head))
  | .sendPublish call value head =>
      some ((s.storeHead (head + 1)).producerAt (.sendWake call value))
  | .sendWake call value =>
      some (s.wakeNotEmpty.producerAt (sendAccepted call value))
  | .bulkRefresh items head =>
      (s.loadTail index).map fun (tail, s) =>
        (s.setCachedTail tail).producerAt (bulkStart cap items head tail)
  | .bulkWrite items head left written =>
      match items.getLast? with
      | none => none
      | some value =>
          let s := s.writeSlot (cap.slot head) value
          if left ≤ 1 then
            some (s.producerAt
              (.bulkPublish items.dropLast (head + 1) (written ++ [value])))
          else
            some (s.producerAt
              (.bulkWrite items.dropLast (head + 1) (left - 1) (written ++ [value])))
  | .bulkPublish items head written =>
      some ((s.storeHead head).producerAt (.bulkWake items written))
  | .bulkWake items written =>
      some (s.wakeNotEmpty.producerAt
        (.returned (.trySendBulk written.length items) written))
  | .sendRetry value => some (s.trySendStart cap .send value)
  | .waitHead phase value =>
      some (s.producerAt (.waitTail phase value s.shared.head.current))
  | .waitTail phase value head =>
      (s.loadTail index).map fun (tail, s) =>
        if isFull cap head tail then
          s.producerAt (.waitClosed phase value)
        else
          s.producerAt (sendWaited phase true value)
  | .waitClosed phase value =>
      some (s.producerAt (sendWaited phase s.shared.closed value))
  | .waitAnnounce value =>
      some ({ s with shared :=
          { s.shared with notFull := s.shared.notFull.announce } }.producerAt
        (.waitHead .announced value))
  | .waitPark value =>
      if s.shared.notFull.token then
        some ({ s with shared :=
            { s.shared with notFull := s.shared.notFull.consume } }.producerAt
          (.waitHead .announced value))
      else
        none
  | .waitLeave value =>
      some ({ s with shared :=
          { s.shared with notFull := s.shared.notFull.leave } }.producerAt
        (.sendRetry value))
  | .dropWakeFull => some (s.wakeNotFull.producerAt .dropWakeEmpty)
  | .dropWakeEmpty => some (s.wakeNotEmpty.producerAt .gone)
  | .gone => none
  | .returned _ accepted =>
      some { s with producer :=
        { s.producer with pc := .idle, accepted := s.producer.accepted ++ accepted } }

/-- The producer's side. -/
def producerStep (cap : Cap) (s : RingState α) :
    ProducerAction α → Option (RingState α)
  | .tick index => s.producerTick cap index
  | .trySend value =>
      match s.producer.pc with
      | .idle => some (s.trySendStart cap .trySend value)
      | _ => none
  | .send value =>
      match s.producer.pc with
      | .idle => some (s.trySendStart cap .send value)
      | _ => none
  | .trySendBulk items =>
      match s.producer.pc with
      | .idle =>
          if items.isEmpty then
            some (s.producerAt (.returned (.trySendBulk 0 items) []))
          else if isFull cap s.shared.head.current s.producer.cachedTail then
            some (s.producerAt (.bulkRefresh items s.shared.head.current))
          else
            some (s.producerAt
              (bulkStart cap items s.shared.head.current s.producer.cachedTail))
      | _ => none
  | .drop =>
      match s.producer.pc with
      | .idle =>
          some ({ s with shared := { s.shared with closed := true } }.producerAt
            .dropWakeFull)
      | _ => none
  | .spin =>
      match s.producer.pc with
      | .waitAnnounce value => some (s.producerAt (.waitHead .entry value))
      | _ => none
  | .spurious =>
      match s.producer.pc with
      | .waitPark value => some (s.producerAt (.waitHead .announced value))
      | _ => none

/-! ### Consumer -/

/-- Up to the first decision of `try_recv`. -/
def tryRecvStart (s : RingState α) (call : RecvCall) : RingState α :=
  let tail := s.shared.tail.current
  if s.consumer.cachedHead = tail then
    s.consumerAt (.recvRefresh call tail)
  else
    s.consumerAt (.recvRead call tail)

def recvFailed (call : RecvCall) (error : TryRecvError) : ConsumerPc α :=
  match call, error with
  | .tryRecv, error => .returned (.tryRecv (.error error))
  | .recv, .closed => .returned (.recv none)
  | .recv, .empty => .waitHead .entry

def recvDelivered (call : RecvCall) (value : α) : ConsumerPc α :=
  match call with
  | .tryRecv => .returned (.tryRecv (.ok value))
  | .recv => .returned (.recv (some value))

/-- The value a finished receive gives to its caller. -/
def handedOut : ConsumerOutcome α → List α
  | .tryRecv (.ok value) => [value]
  | .recv (some value) => [value]
  | _ => []

/-- The predicate of `recv` came out. -/
def recvWaited (phase : WaitPhase) (ready : Bool) : ConsumerPc α :=
  match phase, ready with
  | .entry, true => .recvRetry
  | .announced, true => .waitLeave
  | .entry, false => .waitAnnounce
  | .announced, false => .waitPark

/-- The next step of the running consumer call. -/
def consumerTick (cap : Cap) (s : RingState α) (index : Nat) : Option (RingState α) :=
  match s.consumer.pc with
  | .idle => none
  | .recvRefresh call tail =>
      (s.loadHead index).map fun (head, s) =>
        if head = tail then
          (s.setCachedHead head).consumerAt (.recvClosed call tail)
        else
          (s.setCachedHead head).consumerAt (.recvRead call tail)
  | .recvClosed call tail =>
      if s.shared.closed then
        some (s.seeHead.consumerAt (.recvRecheck call tail))
      else
        some (s.consumerAt (recvFailed call .empty))
  | .recvRecheck call tail =>
      (s.loadHead index).map fun (head, s) =>
        if head = tail then
          (s.setCachedHead head).consumerAt (recvFailed call .closed)
        else
          (s.setCachedHead head).consumerAt (.recvRead call tail)
  | .recvRead call tail =>
      some (s.readSlot (cap.slot tail) fun value => .recvRelease call tail value)
  | .recvRelease call tail value =>
      some ((s.storeTail (tail + 1)).consumerAt (.recvWake call value))
  | .recvWake call value =>
      some (s.wakeNotFull.consumerAt (recvDelivered call value))
  | .drainLoad start =>
      (s.loadHead index).map fun (head, s) =>
        if start = head then
          s.consumerAt (.returned (.drain 0))
        else
          s.consumerAt (.drainRead start head start)
  | .drainRead start head tail =>
      some (s.readSlot (cap.slot tail) fun value =>
        .drainCallback start head (tail + 1) value)
  | .drainCallback start head tail value =>
      if tail = head then
        some ((s.deliver [value]).consumerAt (.drainCommit start head tail))
      else
        some ((s.deliver [value]).consumerAt (.drainRead start head tail))
  | .drainCommit start head tail =>
      some ((s.storeTail tail).consumerAt (.drainWake head (tail - start).toNat))
  | .drainWake head consumed =>
      some ((s.wakeNotFull.setCachedHead head).consumerAt
        (.returned (.drain consumed)))
  | .drainUnwind _ tail =>
      some ((s.storeTail tail).consumerAt (.returned .panicked))
  | .recvRetry => some (s.tryRecvStart .recv)
  | .waitHead phase =>
      (s.loadHead index).map fun (head, s) => s.consumerAt (.waitTail phase head)
  | .waitTail phase head =>
      if head = s.shared.tail.current then
        some (s.consumerAt (.waitClosed phase))
      else
        some (s.consumerAt (recvWaited phase true))
  | .waitClosed phase =>
      some (s.consumerAt (recvWaited phase s.shared.closed))
  | .waitAnnounce =>
      some ({ s with shared :=
          { s.shared with notEmpty := s.shared.notEmpty.announce } }.consumerAt
        (.waitHead .announced))
  | .waitPark =>
      if s.shared.notEmpty.token then
        some ({ s with shared :=
            { s.shared with notEmpty := s.shared.notEmpty.consume } }.consumerAt
          (.waitHead .announced))
      else
        none
  | .waitLeave =>
      some ({ s with shared :=
          { s.shared with notEmpty := s.shared.notEmpty.leave } }.consumerAt
        .recvRetry)
  | .dropWakeFull => some (s.wakeNotFull.consumerAt .dropWakeEmpty)
  | .dropWakeEmpty => some (s.wakeNotEmpty.consumerAt .gone)
  | .gone => none
  | .returned outcome => some ((s.deliver (handedOut outcome)).consumerAt .idle)
  | .undefined => none

/-- The consumer's side. -/
def consumerStep (cap : Cap) (s : RingState α) :
    ConsumerAction → Option (RingState α)
  | .tick index => s.consumerTick cap index
  | .tryRecv =>
      match s.consumer.pc with
      | .idle => some (s.tryRecvStart .tryRecv)
      | _ => none
  | .recv =>
      match s.consumer.pc with
      | .idle => some (s.tryRecvStart .recv)
      | _ => none
  | .drain =>
      match s.consumer.pc with
      | .idle => some (s.consumerAt (.drainLoad s.shared.tail.current))
      | _ => none
  | .drop =>
      match s.consumer.pc with
      | .idle =>
          some ({ s with shared := { s.shared with closed := true } }.consumerAt
            .dropWakeFull)
      | _ => none
  | .panic =>
      match s.consumer.pc with
      | .drainCallback start _ tail value =>
          some ((s.deliver [value]).consumerAt (.drainUnwind start tail))
      | _ => none
  | .spin =>
      match s.consumer.pc with
      | .waitAnnounce => some (s.consumerAt (.waitHead .entry))
      | _ => none
  | .spurious =>
      match s.consumer.pc with
      | .waitPark => some (s.consumerAt (.waitHead .announced))
      | _ => none

def step (cap : Cap) (s : RingState α) : RingAction α → Option (RingState α)
  | .producer action => s.producerStep cap action
  | .consumer action => s.consumerStep cap action

/-- Every interleaving of one producer and one consumer from `Ring::new`. -/
def system (cap : Cap) : Transition.System (RingState α) (RingAction α) :=
  Transition.System.ofFunction (fun s => s = new) (fun s action => s.step cap action)

/-! ### Teardown -/

/-- The loop of `Ring::drop`: destroy slot by slot from cursor `i` up to `head`. -/
def dropFrom (cap : Cap) (head i : Usize) (lane : Lane α) : Lane α :=
  if i = head then lane
  else dropFrom cap head (i + 1) (lane.destroy (cap.slot i))
termination_by (head - i).toNat
decreasing_by exact toNat_sub_add_one_lt (by assumption)

/-- `Ring::drop`, run when the last handle is gone. -/
def dropRing (cap : Cap) (ring : Ring α) : Lane α :=
  dropFrom cap ring.head.current ring.tail.current ring.lane

end RingState

end ArbitroKit
