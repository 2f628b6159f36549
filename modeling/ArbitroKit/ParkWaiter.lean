import ArbitroKit.StoreBuffer
import ArbitroKit.TransitionSystem

/-!
# The thread-parking waiter

`waiter/park.rs`: one thread waits, any number of threads publish data and call
`wake`.  A step is one atomic operation, one acquisition of the mutex, one
evaluated load of the predicate or one `park` or `unpark`.  Data stores go through
the threads' store buffers.  The flag `parked` is only ever written by atomic
swaps, so no store to it is pending in a buffer, and every thread loads the flag
from the memory.
-/

namespace ArbitroKit

open Buffered Transition

/-- `UNPARKED` and `PARKED`. -/
inductive ParkFlag where
  | unparked
  | parked
  deriving DecidableEq, Repr

/-- `TIGHT_SPIN`. -/
def tightSpin : Nat := 64

/-- The waiting thread and the threads that wake it. -/
inductive ParkThread (ι : Type*) where
  | waiter
  | waker (i : ι)
  deriving DecidableEq

/-- The waiting methods. -/
inductive ParkCall where
  | waitUntil
  | waitUntilDeadline
  deriving DecidableEq, Repr

/-- What a wait returned; with a deadline, whether it elapsed first. -/
inductive ParkOutcome where
  | waitUntil
  | waitUntilDeadline (elapsed : Bool)
  deriving DecidableEq, Repr

/-- Where the waiting thread stands; `ready` is the predicate and `rest` what is left of
its evaluation. -/
inductive ParkWaiterPc (L V : Type*) where
  | idle
  -- `set_worker`, behind the mutex
  | publishRegistered
  -- the evaluation on entry, and the assertion at the head of the slow path
  | entry (call : ParkCall) (ready : Probe L V) (rest : Probe L V)
  | hasWorker (call : ParkCall) (ready : Probe L V)
  -- the spinning loops; the clock is read between two turns of a timed wait
  | spin (call : ParkCall) (ready : Probe L V) (turn : Nat) (rest : Probe L V)
  | spinClock (ready : Probe L V) (turn : Nat)
  -- T1, and the evaluation behind its fence
  | announce (call : ParkCall) (ready : Probe L V)
  | fence (call : ParkCall) (ready : Probe L V)
  | recheck (call : ParkCall) (ready : Probe L V) (rest : Probe L V)
  -- the park loop
  | clock (ready : Probe L V)
  | park (call : ParkCall) (ready : Probe L V)
  | parkReturned (call : ParkCall) (ready : Probe L V) (rest : Probe L V)
  -- T2, with the predicate true or the deadline elapsed
  | leave (call : ParkCall)
  | leaveElapsed (ready : Probe L V)
  | lastLook (rest : Probe L V)
  | returned (outcome : ParkOutcome)
  | panicked

/-- Where a waking thread stands: behind a publication, inside `wake`. -/
inductive ParkWakerPc where
  | idle
  -- T3a
  | probe
  -- T3b
  | fence
  | recheck
  -- T4: the clone under the mutex, and `unpark`
  | deliver
  | unpark
  deriving DecidableEq, Repr

/-- A `ParkWaiter` with its waiting thread, whose `park` token is `token`, and its
wakers. -/
structure ParkState (ι L V : Type*) where
  memory : Memory (ParkThread ι) L V
  parked : ParkFlag
  registered : Bool
  /-- The waiting thread's handle is stored. -/
  worker : Bool
  token : Bool
  waiter : ParkWaiterPc L V
  wakers : ι → ParkWakerPc

/-- `clock` is `Instant::now() >= deadline`. -/
inductive ParkAction (ι L V : Type*) where
  -- the waiting thread: its calls, its own writes between them, its steps
  | setWorker
  | wait (call : ParkCall) (ready : Probe L V)
  | store (location : L) (value : V)
  | exchange (location : L) (value : V)
  | tick
  | clock (elapsed : Bool)
  | spurious
  -- a waker: a publication by a store or a read-modify-write, then its `wake`
  | publish (i : ι) (location : L) (value : V)
  | publishExchange (i : ι) (location : L) (value : V)
  | wakerTick (i : ι)
  | flush (thread : ParkThread ι)

namespace ParkState

variable {ι L V : Type*} [DecidableEq ι] [DecidableEq L]

/-- `ParkWaiter::default`, over the given data. -/
def new (cells : L → V) : ParkState ι L V where
  memory := .initial cells
  parked := .unparked
  registered := false
  worker := false
  token := false
  waiter := .idle
  wakers _ := .idle

def waiterAt (s : ParkState ι L V) (pc : ParkWaiterPc L V) : ParkState ι L V :=
  { s with waiter := pc }

def wakerAt (s : ParkState ι L V) (i : ι) (pc : ParkWakerPc) : ParkState ι L V :=
  { s with wakers := Function.update s.wakers i pc }

/-! ### The waiting thread -/

/-- One load of the predicate, or its answer. -/
def evaluate (s : ParkState ι L V) (rest : Probe L V)
    (loaded : Probe L V → ParkWaiterPc L V) (answered : Bool → ParkWaiterPc L V) :
    ParkState ι L V :=
  match rest with
  | .load location next => s.waiterAt (loaded (next (s.memory.load .waiter location)))
  | .answer ready => s.waiterAt (answered ready)

/-- The predicate has become true. -/
def readyOutcome (call : ParkCall) : ParkOutcome :=
  match call with
  | .waitUntil => .waitUntil
  | .waitUntilDeadline => .waitUntilDeadline false

/-- The next turn of the spinning loops, or the announcement. -/
def spinAt (spinIters : Nat) (call : ParkCall) (ready : Probe L V) (turn : Nat) :
    ParkWaiterPc L V :=
  if turn < tightSpin + spinIters then
    .spin call ready turn ready
  else
    .announce call ready

/-- The next turn of the park loop. -/
def parkLoop (call : ParkCall) (ready : Probe L V) : ParkWaiterPc L V :=
  match call with
  | .waitUntil => .park .waitUntil ready
  | .waitUntilDeadline => .clock ready

/-- The next step of the waiting thread. -/
def tick (spinIters : Nat) (s : ParkState ι L V) : Option (ParkState ι L V) :=
  match s.waiter with
  | .idle => none
  | .publishRegistered => some ({ s with registered := true }.waiterAt .idle)
  | .entry call ready rest =>
      some (s.evaluate rest (.entry call ready) fun answer =>
        if answer then .returned (readyOutcome call) else .hasWorker call ready)
  | .hasWorker call ready =>
      if s.registered then
        some (s.waiterAt (spinAt spinIters call ready 0))
      else
        some (s.waiterAt .panicked)
  | .spin call ready turn rest =>
      some (s.evaluate rest (.spin call ready turn) fun answer =>
        if answer then .returned (readyOutcome call)
        else
          match call with
          | .waitUntil => spinAt spinIters .waitUntil ready (turn + 1)
          | .waitUntilDeadline => .spinClock ready turn)
  | .spinClock _ _ => none
  | .announce call ready =>
      if s.memory.drained .waiter then
        some ({ s with parked := .parked }.waiterAt (.fence call ready))
      else
        none
  | .fence call ready =>
      if s.memory.drained .waiter then
        some (s.waiterAt (.recheck call ready ready))
      else
        none
  | .recheck call ready rest =>
      some (s.evaluate rest (.recheck call ready) fun answer =>
        if answer then .leave call else parkLoop call ready)
  | .clock _ => none
  | .park call ready =>
      if s.token then
        some ({ s with token := false }.waiterAt (.parkReturned call ready ready))
      else
        none
  | .parkReturned call ready rest =>
      some (s.evaluate rest (.parkReturned call ready) fun answer =>
        if answer then .leave call else parkLoop call ready)
  | .leave call =>
      if s.memory.drained .waiter then
        some ({ s with parked := .unparked }.waiterAt (.returned (readyOutcome call)))
      else
        none
  | .leaveElapsed ready =>
      if s.memory.drained .waiter then
        some ({ s with parked := .unparked }.waiterAt (.lastLook ready))
      else
        none
  | .lastLook rest =>
      some (s.evaluate rest .lastLook fun answer => .returned (.waitUntilDeadline (!answer)))
  | .returned _ => some (s.waiterAt .idle)
  | .panicked => none

/-! ### The wakers -/

/-- The next step of waker `i` inside `wake`. -/
def wakerTick (s : ParkState ι L V) (i : ι) : Option (ParkState ι L V) :=
  match s.wakers i with
  | .idle => none
  | .probe =>
      if s.parked = .parked then
        some (s.wakerAt i .deliver)
      else
        some (s.wakerAt i .fence)
  | .fence => if s.memory.drained (.waker i) then some (s.wakerAt i .recheck) else none
  | .recheck =>
      if s.parked = .parked then
        some (s.wakerAt i .deliver)
      else
        some (s.wakerAt i .idle)
  | .deliver =>
      if s.memory.drained (.waker i) then
        if s.worker then
          some (s.wakerAt i .unpark)
        else
          some (s.wakerAt i .idle)
      else
        none
  | .unpark =>
      if s.memory.drained (.waker i) then
        some ({ s with token := true }.wakerAt i .idle)
      else
        none

def step (spinIters : Nat) (s : ParkState ι L V) :
    ParkAction ι L V → Option (ParkState ι L V)
  | .setWorker =>
      match s.waiter with
      | .idle =>
          if s.memory.drained .waiter then
            some ({ s with worker := true }.waiterAt .publishRegistered)
          else
            none
      | _ => none
  | .wait call ready =>
      match s.waiter with
      | .idle => some (s.waiterAt (.entry call ready ready))
      | _ => none
  | .store location value =>
      match s.waiter with
      | .idle => some { s with memory := s.memory.store .waiter location value }
      | _ => none
  | .exchange location value =>
      match s.waiter with
      | .idle =>
          if s.memory.drained .waiter then
            some { s with memory := s.memory.write location value }
          else
            none
      | _ => none
  | .tick => s.tick spinIters
  | .clock elapsed =>
      match s.waiter with
      | .spinClock ready turn =>
          if elapsed then
            some (s.waiterAt (.returned (.waitUntilDeadline true)))
          else
            some (s.waiterAt (spinAt spinIters .waitUntilDeadline ready (turn + 1)))
      | .clock ready =>
          if elapsed then
            some (s.waiterAt (.leaveElapsed ready))
          else
            some (s.waiterAt (.park .waitUntilDeadline ready))
      | _ => none
  | .spurious =>
      match s.waiter with
      | .park call ready => some (s.waiterAt (.parkReturned call ready ready))
      | _ => none
  | .publish i location value =>
      match s.wakers i with
      | .idle =>
          some ({ s with memory := s.memory.store (.waker i) location value }.wakerAt i .probe)
      | _ => none
  | .publishExchange i location value =>
      match s.wakers i with
      | .idle =>
          if s.memory.drained (.waker i) then
            some ({ s with memory := s.memory.write location value }.wakerAt i .probe)
          else
            none
      | _ => none
  | .wakerTick i => s.wakerTick i
  | .flush thread => (s.memory.flush thread).map fun memory => { s with memory := memory }

/-- Every interleaving from a fresh waiter over the given data. -/
def system (spinIters : Nat) (cells : L → V) :
    System (ParkState ι L V) (ParkAction ι L V) :=
  System.ofFunction (fun s => s = new cells) fun s action => s.step spinIters action

end ParkState

end ArbitroKit
