import ArbitroKit.StoreBuffer
import ArbitroKit.TransitionSystem

/-!
# The wake gate of the async waiter

`waiter/notify.rs`: one task waits on futures of a `Notify`, each of which keeps the
gate armed while it lives; any number of threads publish data and call `wake`.  A
step is one atomic operation, one load of the predicate, or one poll or drop of a
future.  Data stores go through the threads' store buffers; `armed` is only ever
written by read-modify-writes, so no store to it is pending in a buffer.

Of the `Notify` the model has what is documented of it: `notify_one` releases the
waiting future, or stores the one permit, which the next poll consumes; a released
future that is dropped without being polled again passes its notification on.
-/

namespace ArbitroKit

open Buffered Transition

/-- A `Notified` future: not polled yet, registered, released, or finished. -/
inductive Notified where
  | created
  | waiting
  | notified
  | done
  deriving DecidableEq, Repr

/-- A `Notify` with the future of its one task. -/
structure Notify where
  permit : Bool
  future : Option Notified
  deriving DecidableEq, Repr

namespace Notify

/-- `Notify::default`. -/
def new : Notify := ⟨false, none⟩

/-- `notify.notified()`. -/
def notified (notify : Notify) : Notify := { notify with future := some .created }

/-- `notify.notify_one()`. -/
def notifyOne (notify : Notify) : Notify :=
  match notify.future with
  | some .waiting => { notify with future := some .notified }
  | _ => { notify with permit := true }

/-- One poll of the future, and whether it is ready. -/
def poll (notify : Notify) : Bool × Notify :=
  match notify.future with
  | some .created =>
      if notify.permit then
        (true, ⟨false, some .done⟩)
      else
        (false, { notify with future := some .waiting })
  | some .notified => (true, { notify with future := some .done })
  | some .done => (true, notify)
  | _ => (false, notify)

/-- The future is dropped. -/
def dropFuture (notify : Notify) : Notify :=
  match notify.future with
  | some .notified => ⟨true, none⟩
  | _ => { notify with future := none }

/-- A permit is stored, or the future has been released. -/
def released (notify : Notify) : Bool :=
  notify.permit || decide (notify.future = some .notified)

theorem released_notifyOne (notify : Notify) : notify.notifyOne.released = true := by
  unfold notifyOne
  split
  · exact Bool.or_true _
  · exact Bool.true_or _

/-- A release does not get lost at a drop. -/
@[simp]
theorem released_dropFuture (notify : Notify) :
    notify.dropFuture.released = notify.released := by
  unfold dropFuture
  split
  · rename_i notified
    simp [released, notified]
  · rename_i notNotified
    have none : notify.future ≠ some .notified := notNotified
    simp [released, none]

end Notify

/-- The task, on the threads that poll it, and the threads that wake it. -/
inductive NotifyThread (ι : Type*) where
  | task
  | waker (i : ι)
  deriving DecidableEq

/-- How the task waits: in `wait_until`, or in a loop of its own that builds the
future, checks and awaits. -/
inductive NotifyCall where
  | waitUntil
  | direct
  deriving DecidableEq, Repr

/-- What follows once a future is dropped. -/
inductive AfterDrop (L V : Type*) where
  | finished
  | awaited (call : NotifyCall) (ready : Probe L V)

/-- Where the task stands; `ready` is the predicate and `rest` what is left of its
evaluation. -/
inductive NotifyTaskPc (L V : Type*) where
  | idle
  -- `wait_until`: the evaluation on entry
  | entry (ready rest : Probe L V)
  -- T1 and the construction of the future
  | notified (call : NotifyCall) (ready : Probe L V)
  | check (call : NotifyCall) (ready rest : Probe L V)
  -- the await: its first poll, and suspended
  | poll (call : NotifyCall) (ready : Probe L V)
  | suspended (call : NotifyCall) (ready : Probe L V)
  -- the fields of the future drop in order: `notified`, then the guard (T2)
  | dropNotified (next : AfterDrop L V)
  | disarm (next : AfterDrop L V)
  -- `wait_until`: the evaluation behind the await
  | again (ready rest : Probe L V)

/-- Where a waking thread stands: behind a publication, inside `wake`. -/
inductive NotifyWakerPc where
  | idle
  -- T3a
  | probe
  -- T3b
  | fetchAdd
  | notifyOne
  deriving DecidableEq, Repr

/-- A `WakeGate` with its task and its wakers. -/
structure NotifyState (ι L V : Type*) where
  memory : Memory (NotifyThread ι) L V
  armed : BitVec 64
  notify : Notify
  task : NotifyTaskPc L V
  wakers : ι → NotifyWakerPc

/-- `cancel` drops the future of the whole call while it is suspended.  The relaxed load
of T3a may return any earlier count: `probe` says what it saw. -/
inductive NotifyAction (ι L V : Type*) where
  -- the task: its calls, its own writes between them, its steps
  | wait (call : NotifyCall) (ready : Probe L V)
  | store (location : L) (value : V)
  | exchange (location : L) (value : V)
  | tick
  | cancel
  -- a waker: a publication by a store or a read-modify-write, then its `wake`
  | publish (i : ι) (location : L) (value : V)
  | publishExchange (i : ι) (location : L) (value : V)
  | probe (i : ι) (armed : Bool)
  | wakerTick (i : ι)
  | flush (thread : NotifyThread ι)

namespace NotifyState

variable {ι L V : Type*} [DecidableEq ι] [DecidableEq L]

/-- `NotifyWaiter::default`, over the given data. -/
def new (cells : L → V) : NotifyState ι L V where
  memory := .initial cells
  armed := 0
  notify := .new
  task := .idle
  wakers _ := .idle

def taskAt (s : NotifyState ι L V) (pc : NotifyTaskPc L V) : NotifyState ι L V :=
  { s with task := pc }

def wakerAt (s : NotifyState ι L V) (i : ι) (pc : NotifyWakerPc) : NotifyState ι L V :=
  { s with wakers := Function.update s.wakers i pc }

/-! ### The task -/

/-- One load of the predicate, or its answer. -/
def evaluate (s : NotifyState ι L V) (rest : Probe L V)
    (loaded : Probe L V → NotifyTaskPc L V) (answered : Bool → NotifyTaskPc L V) :
    NotifyState ι L V :=
  match rest with
  | .load location next => s.taskAt (loaded (next (s.memory.load .task location)))
  | .answer ready => s.taskAt (answered ready)

/-- The call goes on behind the drop of a future. -/
def behindDrop (next : AfterDrop L V) : NotifyTaskPc L V :=
  match next with
  | .finished => .idle
  | .awaited .waitUntil ready => .again ready ready
  | .awaited .direct ready => .notified .direct ready

/-- The next step of the task. -/
def tick (s : NotifyState ι L V) : Option (NotifyState ι L V) :=
  match s.task with
  | .idle => none
  | .entry ready rest =>
      some (s.evaluate rest (.entry ready) fun answer =>
        if answer then .idle else .notified .waitUntil ready)
  | .notified call ready =>
      if s.memory.drained .task then
        some ({ s with armed := s.armed + 1, notify := s.notify.notified }.taskAt
          (.check call ready ready))
      else
        none
  | .check call ready rest =>
      some (s.evaluate rest (.check call ready) fun answer =>
        if answer then .dropNotified .finished else .poll call ready)
  | .poll call ready =>
      let (finished, notify) := s.notify.poll
      if finished then
        some ({ s with notify := notify }.taskAt (.dropNotified (.awaited call ready)))
      else
        some ({ s with notify := notify }.taskAt (.suspended call ready))
  | .suspended call ready =>
      let (finished, notify) := s.notify.poll
      if finished then
        some ({ s with notify := notify }.taskAt (.dropNotified (.awaited call ready)))
      else
        none
  | .dropNotified next =>
      some ({ s with notify := s.notify.dropFuture }.taskAt (.disarm next))
  | .disarm next =>
      if s.memory.drained .task then
        some ({ s with armed := s.armed - 1 }.taskAt (behindDrop next))
      else
        none
  | .again ready rest =>
      some (s.evaluate rest (.again ready) fun answer =>
        if answer then .idle else .notified .waitUntil ready)

/-! ### The wakers -/

/-- T3a, where the load saw the gate armed or not. -/
def probe (s : NotifyState ι L V) (i : ι) (armed : Bool) : Option (NotifyState ι L V) :=
  match s.wakers i with
  | .probe => some (s.wakerAt i (if armed then .notifyOne else .fetchAdd))
  | _ => none

/-- The next step of waker `i` behind T3a. -/
def wakerTick (s : NotifyState ι L V) (i : ι) : Option (NotifyState ι L V) :=
  match s.wakers i with
  | .idle => none
  | .probe => none
  | .fetchAdd =>
      if s.memory.drained (.waker i) then
        if s.armed ≠ 0 then
          some (s.wakerAt i .notifyOne)
        else
          some (s.wakerAt i .idle)
      else
        none
  | .notifyOne =>
      if s.memory.drained (.waker i) then
        some ({ s with notify := s.notify.notifyOne }.wakerAt i .idle)
      else
        none

def step (s : NotifyState ι L V) : NotifyAction ι L V → Option (NotifyState ι L V)
  | .wait call ready =>
      match s.task with
      | .idle =>
          match call with
          | .waitUntil => some (s.taskAt (.entry ready ready))
          | .direct => some (s.taskAt (.notified .direct ready))
      | _ => none
  | .store location value =>
      match s.task with
      | .idle => some { s with memory := s.memory.store .task location value }
      | _ => none
  | .exchange location value =>
      match s.task with
      | .idle =>
          if s.memory.drained .task then
            some { s with memory := s.memory.write location value }
          else
            none
      | _ => none
  | .tick => s.tick
  | .cancel =>
      match s.task with
      | .suspended _ _ => some (s.taskAt (.dropNotified .finished))
      | _ => none
  | .publish i location value =>
      match s.wakers i with
      | .idle =>
          some ({ s with memory := s.memory.store (.waker i) location value }.wakerAt i .probe)
      | _ => none
  | .publishExchange i location value =>
      match s.wakers i with
      | .idle =>
          if s.memory.drained (.waker i) then
            some ({ s with memory := s.memory.write location value }.wakerAt i .probe)
          else
            none
      | _ => none
  | .probe i armed => s.probe i armed
  | .wakerTick i => s.wakerTick i
  | .flush thread => (s.memory.flush thread).map fun memory => { s with memory := memory }

/-- Every interleaving from a fresh waiter over the given data. -/
def system (cells : L → V) : System (NotifyState ι L V) (NotifyAction ι L V) :=
  System.ofFunction (fun s => s = new cells) step

end NotifyState

end ArbitroKit
