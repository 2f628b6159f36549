import ArbitroKit.AsyncGate
import ArbitroKit.OneShot

/-!
# The one-shot channel of a task

`route/oneshot.rs` over `NotifyWaiter`: the receiver's handle becomes the future of
`recv_async`, which the task polls, and which can be dropped between two polls.  A step
is one atomic operation, one slot access, or one poll or drop of a notification.
-/

namespace ArbitroKit

open Coherent SlotLane Transition

/-- The shared part with both handles.  `shot` has what does not depend on the waiter,
`gate` is the waiter, `stage` where the sender stands inside its `wake`, and `wait` where
the notification of the receive future stands. -/
structure OneShotAsync (α : Type*) where
  shot : OneShot α
  gate : AsyncGate
  stage : WakeStage
  wait : GatePhase
  /-- The receive future has been dropped before it completed. -/
  cancelled : Bool

inductive RecvAsyncAction where
  | recvAsync
  | drop
  | tick (index : Nat)
  -- the future is dropped before it has completed
  | cancel

/-- `saw` is what T3a makes of the count. -/
inductive OneShotAsyncAction (α : Type*) where
  | sender (action : SenderAction α) (saw : Bool)
  | tryRecv
  | call (id index : Nat)
  | receiver (action : RecvAsyncAction)
  | dropInner

namespace OneShotAsync

variable {α : Type*}

/-- `OneShot::<T, NotifyWaiter>::new`. -/
def new : OneShotAsync α where
  shot := .new
  gate := .new
  stage := .probe
  wait := .away
  cancelled := false

def shotAt (s : OneShotAsync α) (shot : OneShot α) : OneShotAsync α := { s with shot := shot }

def receiverAt (s : OneShotAsync α) (pc : ReceiverPc α) : OneShotAsync α :=
  s.shotAt (s.shot.receiverAt pc)

/-- The sender stands in front of a step of its `wake`. -/
def waking : SenderPc α → Bool
  | .sendWake => true
  | .dropWake => true
  | _ => false

/-- A step of `waiter.wake()` by the sender.  Its store is the first change of the state,
as long as there is a receiver to see it. -/
def wakeTick (s : OneShotAsync α) (saw : Bool) : OneShotAsync α :=
  let (gate, next) := s.gate.wakeStep (some (0, 1)) saw s.stage
  match next with
  | some stage => { s with gate := gate, stage := stage }
  | none => { s with gate := gate, shot := s.shot.senderAt .gone }

def senderStep (s : OneShotAsync α) (action : SenderAction α) (saw : Bool) :
    Option (OneShotAsync α) :=
  if waking s.shot.sender then
    match action with
    | .tick _ => some (s.wakeTick saw)
    | _ => none
  else
    (s.shot.senderStep action).map s.shotAt

/-- The task has synchronised with the first `seen` stores of the state. -/
def seeState (s : OneShotAsync α) (seen : Nat) : OneShotAsync α :=
  s.shotAt { s.shot with view := max s.shot.view seen }

/-- T1 and the construction of the notification. -/
def arm (s : OneShotAsync α) : OneShotAsync α :=
  { s with gate := s.gate.arm, wait := .armed }.seeState (s.gate.probed 0)

/-- One poll of the notification. -/
def poll (s : OneShotAsync α) (pending : OneShotAsync α → Option (OneShotAsync α)) :
    Option (OneShotAsync α) :=
  let (ready, gate) := s.gate.poll
  if ready then
    some ({ s with gate := gate, wait := .dropNotified }.seeState (gate.delivered 0))
  else
    pending { s with gate := gate }

def dropNotified (s : OneShotAsync α) : OneShotAsync α :=
  { s with gate := s.gate.dropNotified, wait := .disarm }

def disarm (s : OneShotAsync α) : OneShotAsync α :=
  { s with gate := s.gate.disarm, wait := .away }

/-- The next step of the receive future, or of the receiver's drop. -/
def receiverTick (s : OneShotAsync α) (index : Nat) : Option (OneShotAsync α) :=
  match s.shot.receiver with
  | .waitAnnounce => some (s.arm.receiverAt (.waitLoad .announced))
  | .waitPark =>
      match s.wait with
      | .away => none
      | .armed => s.poll fun s => some { s with wait := .suspended }
      | .suspended => s.poll fun _ => none
      | .dropNotified => some s.dropNotified
      | .disarm => some (s.disarm.receiverAt (if s.cancelled then .gone else .waitLoad .entry))
  | .waitLeave =>
      match s.wait with
      | .armed => some s.dropNotified
      | .disarm => some (s.disarm.receiverAt .lastExchange)
      | _ => none
  | _ => (s.shot.receiverTick index).map s.shotAt

def receiverStep (s : OneShotAsync α) : RecvAsyncAction → Option (OneShotAsync α)
  | .tick index => s.receiverTick index
  | .recvAsync => (s.shot.receiverStep .recv).map s.shotAt
  | .drop => (s.shot.receiverStep .drop).map s.shotAt
  | .cancel =>
      match s.shot.receiver with
      -- not polled yet
      | .recvExchange => some ({ s with cancelled := true }.receiverAt .gone)
      | .waitPark =>
          match s.wait with
          | .suspended => some { s with wait := .dropNotified, cancelled := true }
          | _ => none
      | _ => none

def step (s : OneShotAsync α) : OneShotAsyncAction α → Option (OneShotAsync α)
  | .sender action saw => s.senderStep action saw
  | .tryRecv => (s.shot.step .tryRecv).map s.shotAt
  | .call id index => (s.shot.step (.call id index)).map s.shotAt
  | .receiver action => s.receiverStep action
  | .dropInner => (s.shot.step .dropInner).map s.shotAt

/-- Every schedule of the polls, wakes and drops. -/
def system : System (OneShotAsync α) (OneShotAsyncAction α) :=
  System.ofFunction (fun s => s = new) step

end OneShotAsync

end ArbitroKit
