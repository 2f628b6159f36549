import ArbitroKit.ParkWaiter
import ArbitroKit.Ring

/-!
# The blocking ring over thread-parking waiters

`stream/ring.rs` with `waiter/park.rs` in the place of the waiter contract: `send`
and `recv` register their thread on their waiter, announce themselves in its flag
and park; a `wake` probes the flag, clones the registered handle under the mutex and
unparks that thread.  Each thread has its `park` token, and a handle may go to
another thread between two calls.

The cursors, the slots and the place of each running call are those of the ring's
own model, of which every run here is a run.  What that model does in one step, a
`wake`, an announcement or a sleep, is made of several steps here.
-/

namespace ArbitroKit

open Transition

/-- The two handles, each of which parks on a waiter of its own: the producer on
`not_full`, the consumer on `not_empty`. -/
inductive Side where
  | producer
  | consumer
  deriving DecidableEq, Repr

namespace Side

def peer : Side → Side
  | .producer => .consumer
  | .consumer => .producer

end Side

/-- The shared fields of a `ParkWaiter`. -/
structure ParkCell where
  parked : ParkFlag
  registered : Bool
  worker : Option Nat
  deriving DecidableEq, Repr

/-- Where a handle's thread stands inside a waiter method. -/
inductive ParkStage where
  -- in the ring's own code, or at the first step of a waiter method
  | running
  -- `set_worker`: the mutex, then `registered`
  | setWorker
  | publishRegistered
  -- `wait_slow`, behind its assertion
  | slow
  | fence
  -- `wake`, behind T3a
  | wakeFence
  | wakeRecheck
  | wakeDeliver
  | unpark (thread : Nat)
  | panicked
  deriving DecidableEq, Repr

/-- A handle: the thread it is on, the thread it has registered last, and where that
thread stands. -/
structure ParkedHandle where
  thread : Nat
  worker : Option Nat
  stage : ParkStage
  deriving DecidableEq, Repr

structure ParkedRing (α : Type*) where
  ring : RingState α
  cells : Side → ParkCell
  handles : Side → ParkedHandle
  tokens : Nat → Bool

/-- What the ring's place means to the waiters. -/
inductive ParkPlace where
  | idle
  | call
  -- in front of `wake` of the waiter on which the target parks
  | wake (target : Side)
  -- the predicate before the announcement, the announcement, and the predicate behind it
  | entry
  | announce
  | announced
  | park
  | leave
  -- a callback has panicked
  | unwinding
  deriving DecidableEq, Repr

inductive ParkedAction (α : Type*) where
  | producer (action : ProducerAction α)
  | consumer (action : ConsumerAction)
  | move (side : Side) (thread : Nat)
  -- code outside the ring unparks a thread, or parks on a thread that is in no call
  | strayUnpark (thread : Nat)
  | strayPark (thread : Nat)

namespace ParkedRing

variable {α : Type*}

def producerPlace : ProducerPc α → ParkPlace
  | .idle => .idle
  | .gone => .idle
  | .sendWake _ _ => .wake .consumer
  | .bulkWake _ _ => .wake .consumer
  | .dropWakeFull => .wake .producer
  | .dropWakeEmpty => .wake .consumer
  | .waitHead .entry _ => .entry
  | .waitTail .entry _ _ => .entry
  | .waitClosed .entry _ => .entry
  | .waitAnnounce _ => .announce
  | .waitHead .announced _ => .announced
  | .waitTail .announced _ _ => .announced
  | .waitClosed .announced _ => .announced
  | .waitPark _ => .park
  | .waitLeave _ => .leave
  | _ => .call

def consumerPlace : ConsumerPc α → ParkPlace
  | .idle => .idle
  | .gone => .idle
  | .recvWake _ _ => .wake .producer
  | .drainWake _ _ => .wake .producer
  | .dropWakeFull => .wake .producer
  | .dropWakeEmpty => .wake .consumer
  | .waitHead .entry => .entry
  | .waitTail .entry _ => .entry
  | .waitClosed .entry => .entry
  | .waitAnnounce => .announce
  | .waitHead .announced => .announced
  | .waitTail .announced _ => .announced
  | .waitClosed .announced => .announced
  | .waitPark => .park
  | .waitLeave => .leave
  | .drainUnwind _ _ => .unwinding
  | _ => .call

def place (ring : RingState α) : Side → ParkPlace
  | .producer => producerPlace ring.producer.pc
  | .consumer => consumerPlace ring.consumer.pc

/-- The next step of the side's running call in the ring's model. -/
def ringTick (cap : Cap) (ring : RingState α) (side : Side) (index : Nat) :
    Option (RingState α) :=
  match side with
  | .producer => ring.producerTick cap index
  | .consumer => ring.consumerTick cap index

/-- A sleep returns. -/
def ringWoken (cap : Cap) (ring : RingState α) (side : Side) : Option (RingState α) :=
  match side with
  | .producer => ring.producerStep cap .spurious
  | .consumer => ring.consumerStep cap .spurious

/-- One more turn of the spinning loop. -/
def ringSpins (cap : Cap) (ring : RingState α) (side : Side) : Option (RingState α) :=
  match side with
  | .producer => ring.producerStep cap .spin
  | .consumer => ring.consumerStep cap .spin

/-- The load of the peer's cursor reads its latest value, as it does behind the fence of
the announcement. -/
def fresh (ring : RingState α) (side : Side) (index : Nat) : Bool :=
  match side with
  | .producer => decide (index = ring.shared.tail.latest)
  | .consumer => decide (index = ring.shared.head.latest)

/-- `Ring::new`, each handle on a thread. -/
def new (producerThread consumerThread : Nat) : ParkedRing α where
  ring := .new
  cells _ := ⟨.unparked, false, none⟩
  handles side :=
    match side with
    | .producer => ⟨producerThread, none, .running⟩
    | .consumer => ⟨consumerThread, none, .running⟩
  tokens _ := false

def setRing (s : ParkedRing α) (ring : RingState α) : ParkedRing α :=
  { s with ring := ring }

def setCell (s : ParkedRing α) (side : Side) (cell : ParkCell) : ParkedRing α :=
  { s with cells := Function.update s.cells side cell }

def setHandle (s : ParkedRing α) (side : Side) (handle : ParkedHandle) : ParkedRing α :=
  { s with handles := Function.update s.handles side handle }

def stageAt (s : ParkedRing α) (side : Side) (stage : ParkStage) : ParkedRing α :=
  s.setHandle side { s.handles side with stage := stage }

def setToken (s : ParkedRing α) (thread : Nat) (token : Bool) : ParkedRing α :=
  { s with tokens := Function.update s.tokens thread token }

/-- `register`: nothing to do when the thread is the registered one. -/
def register (s : ParkedRing α) (side : Side) : ParkedRing α :=
  let handle := s.handles side
  if handle.worker = some handle.thread then
    s
  else
    s.setHandle side ⟨handle.thread, some handle.thread, .setWorker⟩

/-- The `wake` the side is in returns. -/
def wakeDone (cap : Cap) (s : ParkedRing α) (side : Side) (index : Nat) :
    Option (ParkedRing α) :=
  (ringTick cap s.ring side index).map fun ring => (s.setRing ring).stageAt side .running

/-- The next step of a side's thread inside a call. -/
def tick (cap : Cap) (s : ParkedRing α) (side : Side) (index : Nat) : Option (ParkedRing α) :=
  match (s.handles side).stage, place s.ring side with
  -- T3a
  | .running, .wake target =>
      if (s.cells target).parked = .parked then
        some (s.stageAt side .wakeDeliver)
      else
        some (s.stageAt side .wakeFence)
  -- the assertion at the head of `wait_slow`
  | .running, .announce =>
      if (s.cells side).registered then
        some (s.stageAt side .slow)
      else
        some (s.stageAt side .panicked)
  | .running, before =>
      (ringTick cap s.ring side index).map fun ring =>
        if before = .call ∧ place ring side = .entry then
          (s.setRing ring).register side
        else
          s.setRing ring
  | .setWorker, _ =>
      some ((s.setCell side { s.cells side with worker := some (s.handles side).thread }).stageAt
        side .publishRegistered)
  | .publishRegistered, _ =>
      some ((s.setCell side { s.cells side with registered := true }).stageAt side .running)
  -- T1
  | .slow, .announce =>
      (ringTick cap s.ring side index).map fun ring =>
        ((s.setRing ring).setCell side { s.cells side with parked := .parked }).stageAt side .fence
  | .fence, _ => some (s.stageAt side .slow)
  | .slow, .park =>
      if s.tokens (s.handles side).thread then
        (ringWoken cap s.ring side).map fun ring =>
          (s.setRing ring).setToken (s.handles side).thread false
      else
        none
  -- T2
  | .slow, .leave =>
      (ringTick cap s.ring side index).map fun ring =>
        ((s.setRing ring).setCell side { s.cells side with parked := .unparked }).stageAt side
          .running
  | .slow, before =>
      if before = .announced → fresh s.ring side index = true then
        (ringTick cap s.ring side index).map fun ring =>
          if place ring side = .call then (s.setRing ring).stageAt side .running
          else s.setRing ring
      else
        none
  -- T3b
  | .wakeFence, _ => some (s.stageAt side .wakeRecheck)
  | .wakeRecheck, .wake target =>
      if (s.cells target).parked = .parked then
        some (s.stageAt side .wakeDeliver)
      else
        s.wakeDone cap side index
  -- T4
  | .wakeDeliver, .wake target =>
      match (s.cells target).worker with
      | some thread => some (s.stageAt side (.unpark thread))
      | none => s.wakeDone cap side index
  | .unpark thread, _ => (s.setToken thread true).wakeDone cap side index
  | _, _ => none

/-- The side's handle is in a call. -/
def inCall (s : ParkedRing α) (side : Side) : Bool := decide (place s.ring side ≠ .idle)

/-- The side's thread is not in a call of the other handle. -/
def mayCall (s : ParkedRing α) (side : Side) : Bool :=
  !s.inCall side.peer || decide ((s.handles side).thread ≠ (s.handles side.peer).thread)

/-- The thread is in no call. -/
def outside (s : ParkedRing α) (thread : Nat) : Bool :=
  [Side.producer, Side.consumer].all fun side =>
    !s.inCall side || decide ((s.handles side).thread ≠ thread)

/-- A call starts, a sleep returns without a token, or a spinning loop goes on. -/
def begin (s : ParkedRing α) (side : Side) (ring : Option (RingState α)) :
    Option (ParkedRing α) :=
  if s.mayCall side then ring.map s.setRing else none

def waitGoesOn (s : ParkedRing α) (side : Side) (ring : Option (RingState α)) :
    Option (ParkedRing α) :=
  if (s.handles side).stage = .slow then ring.map s.setRing else none

def step (cap : Cap) (s : ParkedRing α) : ParkedAction α → Option (ParkedRing α)
  | .producer (.tick index) => s.tick cap .producer index
  | .producer .spin => s.waitGoesOn .producer (ringSpins cap s.ring .producer)
  | .producer .spurious => s.waitGoesOn .producer (ringWoken cap s.ring .producer)
  | .producer call => s.begin .producer (s.ring.producerStep cap call)
  | .consumer (.tick index) => s.tick cap .consumer index
  | .consumer .spin => s.waitGoesOn .consumer (ringSpins cap s.ring .consumer)
  | .consumer .spurious => s.waitGoesOn .consumer (ringWoken cap s.ring .consumer)
  | .consumer .panic => (s.ring.consumerStep cap .panic).map s.setRing
  | .consumer call => s.begin .consumer (s.ring.consumerStep cap call)
  | .move side thread =>
      if s.inCall side then none
      else some (s.setHandle side { s.handles side with thread := thread })
  | .strayUnpark thread => some (s.setToken thread true)
  | .strayPark thread => if s.outside thread then some (s.setToken thread false) else none

/-- Every interleaving of the two handles, which start on any threads. -/
def system (cap : Cap) : System (ParkedRing α) (ParkedAction α) :=
  System.ofFunction
    (fun s => ∃ producerThread consumerThread, s = new producerThread consumerThread)
    fun s action => s.step cap action

/-- A callback of `drain` panics. -/
def isPanic : ParkedAction α → Bool
  | .consumer .panic => true
  | _ => false

/-- The runs in which no callback panics. -/
def calm (cap : Cap) : System (ParkedRing α) (ParkedAction α) :=
  (system cap).guarded fun _ action => isPanic action = false

end ParkedRing

end ArbitroKit
