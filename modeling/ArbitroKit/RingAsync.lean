import ArbitroKit.AsyncWait
import ArbitroKit.Ring

/-!
# The ring between two tasks

`stream/ring.rs` over `NotifyWaiter`: `send_async` and `recv_async` next to the calls that
never wait.  A step is one atomic operation, one slot access, one callback of `drain`, or
one poll or drop of a notification.  Between two polls a future can be dropped.  The loads
of the peer's cursor may be stale; what the gates hand over says how stale.  `closed` is
read at its newest value, as in the ring's own model.  A handle runs one call or one future
at a time, and a callback of `drain` does not panic.
-/

namespace ArbitroKit

open Coherent SlotLane Cyclic Transition

/-- The two waiters: the producer waits on `not_full`, the consumer on `not_empty`. -/
inductive RingGate where
  | notFull
  | notEmpty
  deriving DecidableEq, Repr

/-- What is left of `!is_full() || is_closed()`, and of `!is_empty() || is_closed()`. -/
inductive RingCheck where
  | head
  | tail (head : Usize)
  | closed
  deriving DecidableEq, Repr

/-- Where the producer handle and its future stand. -/
inductive RingSenderPc (α : Type*) where
  | idle
  -- `try_send` or `try_send_bulk` by its own
  | inCall
  -- the future of `send_async`: not polled yet, its `try_send`, its wait
  | unpolled (value : α)
  | enterTrySend (value : α)
  | inTrySend (value : α)
  | waits (value : α) (pc : AwaitPc RingCheck)
  -- the handle's drop
  | inClose
  | gone

/-- Where the consumer handle and its future stand. -/
inductive RingReceiverPc where
  | idle
  -- `try_recv` or `drain` by its own
  | inCall
  | unpolled
  | enterTryRecv
  | inTryRecv
  | waits (pc : AwaitPc RingCheck)
  | inClose
  | gone
  deriving DecidableEq, Repr

/-- `Ring<T, CAP, NotifyWaiter>` with both handles; the stages are those of the `wake` that
a handle is in. -/
structure AsyncRing (α : Type*) where
  ring : RingState α
  notFull : AsyncGate
  notEmpty : AsyncGate
  sender : RingSenderPc α
  receiver : RingReceiverPc
  sendStage : WakeStage
  recvStage : WakeStage

/-- `tick`: `index` is what a load of the peer's cursor returns, and `saw` what T3a makes of
the count. -/
inductive RingSenderAction (α : Type*) where
  | trySend (value : α)
  | trySendBulk (items : List α)
  | sendAsync (value : α)
  | tick (index : Nat) (saw : Bool)
  -- the future is dropped before it has completed
  | cancel
  -- the handle is dropped
  | drop

inductive RingReceiverAction where
  | tryRecv
  | drain
  | recvAsync
  | tick (index : Nat) (saw : Bool)
  | cancel
  | drop

inductive AsyncRingAction (α : Type*) where
  | sender (action : RingSenderAction α)
  | receiver (action : RingReceiverAction)

namespace AsyncRing

variable {α : Type*}

/-- `Ring::new`. -/
def new : AsyncRing α where
  ring := .new
  notFull := .new
  notEmpty := .new
  sender := .idle
  receiver := .idle
  sendStage := .probe
  recvStage := .probe

def gate (s : AsyncRing α) : RingGate → AsyncGate
  | .notFull => s.notFull
  | .notEmpty => s.notEmpty

def setGate (s : AsyncRing α) (which : RingGate) (gate : AsyncGate) : AsyncRing α :=
  match which with
  | .notFull => { s with notFull := gate }
  | .notEmpty => { s with notEmpty := gate }

def setRing (s : AsyncRing α) (ring : RingState α) : AsyncRing α := { s with ring := ring }

def senderAt (s : AsyncRing α) (pc : RingSenderPc α) : AsyncRing α := { s with sender := pc }

def receiverAt (s : AsyncRing α) (pc : RingReceiverPc) : AsyncRing α :=
  { s with receiver := pc }

/-! ### The wakes inside the ring's calls -/

/-- The waiter that the producer's call wakes next. -/
def producerWakes : ProducerPc α → Option RingGate
  | .sendWake _ _ => some .notEmpty
  | .bulkWake _ _ => some .notEmpty
  | .dropWakeFull => some .notFull
  | .dropWakeEmpty => some .notEmpty
  | _ => none

/-- The waiter that the consumer's call wakes next. -/
def consumerWakes : ConsumerPc α → Option RingGate
  | .recvWake _ _ => some .notFull
  | .drainWake _ _ => some .notFull
  | .dropWakeFull => some .notFull
  | .dropWakeEmpty => some .notEmpty
  | _ => none

/-- The producer's own stores of `head`, for the side that waits for them. -/
def producerStored (s : AsyncRing α) : RingGate → Option (Nat × Nat)
  | .notFull => none
  | .notEmpty => some (0, s.ring.shared.head.latest)

/-- The consumer's own stores of `tail`, for the side that waits for them. -/
def consumerStored (s : AsyncRing α) : RingGate → Option (Nat × Nat)
  | .notFull => some (0, s.ring.shared.tail.latest)
  | .notEmpty => none

/-- A step of the producer inside its ring call. -/
def producerTick (cap : Cap) (s : AsyncRing α) (index : Nat) (saw : Bool) :
    Option (AsyncRing α) :=
  match producerWakes s.ring.producer.pc with
  | none => (s.ring.producerTick cap index).map s.setRing
  | some which =>
      let (gate, next) := (s.gate which).wakeStep (s.producerStored which) saw s.sendStage
      match next with
      | some stage => some { s.setGate which gate with sendStage := stage }
      | none =>
          (s.ring.producerTick cap index).map fun ring =>
            { (s.setGate which gate).setRing ring with sendStage := .probe }

/-- A step of the consumer inside its ring call. -/
def consumerTick (cap : Cap) (s : AsyncRing α) (index : Nat) (saw : Bool) :
    Option (AsyncRing α) :=
  match consumerWakes s.ring.consumer.pc with
  | none => (s.ring.consumerTick cap index).map s.setRing
  | some which =>
      let (gate, next) := (s.gate which).wakeStep (s.consumerStored which) saw s.recvStage
      match next with
      | some stage => some { s.setGate which gate with recvStage := stage }
      | none =>
          (s.ring.consumerTick cap index).map fun ring =>
            { (s.setGate which gate).setRing ring with recvStage := .probe }

/-! ### Sender -/

/-- The ring's `try_send` comes back to the loop of `send_async`. -/
def trySendReturned (result : Except (TrySendError α) Unit) : RingSenderPc α :=
  match result with
  | .ok () => .idle
  | .error (.full value) => .waits value (.check .entry .head)
  | .error (.closed _) => .idle

/-- The wait of `send_async` goes on, or the loop does. -/
def sendWaited (value : α) : AwaitNext RingCheck → RingSenderPc α
  | .goes pc => .waits value pc
  | .returned => .enterTrySend value
  | .dropped => .idle

/-- One load of `!is_full() || is_closed()`. -/
def sendCheck (cap : Cap) (s : AsyncRing α) (value : α) (phase : WaitPhase) (index : Nat) :
    RingCheck → Option (AsyncRing α)
  | .head =>
      some (s.senderAt (.waits value (.check phase (.tail s.ring.shared.head.current))))
  | .tail head =>
      (s.ring.loadTail index).map fun (tail, ring) =>
        (s.setRing ring).senderAt
          (if RingState.isFull cap head tail then .waits value (.check phase .closed)
            else sendWaited value (AwaitPc.answered phase true))
  | .closed =>
      some (s.senderAt (sendWaited value (AwaitPc.answered phase s.ring.shared.closed)))

/-- The next step of the wait of `send_async`. -/
def sendWait (cap : Cap) (s : AsyncRing α) (value : α) (index : Nat) :
    AwaitPc RingCheck → Option (AsyncRing α)
  | .check phase rest => s.sendCheck cap value phase index rest
  | pc =>
      (pc.tick s.notFull .head).map fun step =>
        let seen := max s.ring.producer.tailView (step.seen 0)
        { s with
          ring := { s.ring with producer := { s.ring.producer with tailView := seen } }
          notFull := step.gate
          sender := sendWaited value step.next }

/-- The next step of the producer's side. -/
def senderTick (cap : Cap) (s : AsyncRing α) (index : Nat) (saw : Bool) :
    Option (AsyncRing α) :=
  match s.sender with
  | .idle => none
  | .inCall =>
      match s.ring.producer.pc with
      | .returned _ _ => (s.producerTick cap index saw).map fun s => s.senderAt .idle
      | _ => s.producerTick cap index saw
  | .unpolled value => some (s.senderAt (.enterTrySend value))
  | .enterTrySend value =>
      (s.ring.producerStep cap (.trySend value)).map fun ring =>
        (s.setRing ring).senderAt (.inTrySend value)
  | .inTrySend _ =>
      match s.ring.producer.pc with
      | .returned (.trySend result) _ =>
          (s.producerTick cap index saw).map fun s => s.senderAt (trySendReturned result)
      | _ => s.producerTick cap index saw
  | .waits value pc => s.sendWait cap value index pc
  | .inClose =>
      match s.ring.producer.pc with
      | .gone => some (s.senderAt .gone)
      | _ => s.producerTick cap index saw
  | .gone => none

/-- A call of the idle producer handle. -/
def producerCall (cap : Cap) (s : AsyncRing α) (call : ProducerAction α) (pc : RingSenderPc α) :
    Option (AsyncRing α) :=
  match s.sender with
  | .idle => (s.ring.producerStep cap call).map fun ring => (s.setRing ring).senderAt pc
  | _ => none

def senderStep (cap : Cap) (s : AsyncRing α) : RingSenderAction α → Option (AsyncRing α)
  | .tick index saw => s.senderTick cap index saw
  | .trySend value => s.producerCall cap (.trySend value) .inCall
  | .trySendBulk items => s.producerCall cap (.trySendBulk items) .inCall
  | .drop => s.producerCall cap .drop .inClose
  | .sendAsync value =>
      match s.sender with
      | .idle => some (s.senderAt (.unpolled value))
      | _ => none
  | .cancel =>
      match s.sender with
      | .unpolled _ => some (s.senderAt .idle)
      | .waits value .suspended => some (s.senderAt (.waits value (.dropNotified .dropped)))
      | _ => none

/-! ### Receiver -/

/-- The ring's `try_recv` comes back to the loop of `recv_async`. -/
def tryRecvReturned (result : Except TryRecvError α) : RingReceiverPc :=
  match result with
  | .ok _ => .idle
  | .error .closed => .idle
  | .error .empty => .waits (.check .entry .head)

/-- The wait of `recv_async` goes on, or the loop does. -/
def recvWaited : AwaitNext RingCheck → RingReceiverPc
  | .goes pc => .waits pc
  | .returned => .enterTryRecv
  | .dropped => .idle

/-- One load of `!is_empty() || is_closed()`. -/
def recvCheck (s : AsyncRing α) (phase : WaitPhase) (index : Nat) :
    RingCheck → Option (AsyncRing α)
  | .head =>
      (s.ring.loadHead index).map fun (head, ring) =>
        (s.setRing ring).receiverAt (.waits (.check phase (.tail head)))
  | .tail head =>
      some (s.receiverAt
        (if head = s.ring.shared.tail.current then .waits (.check phase .closed)
          else recvWaited (AwaitPc.answered phase true)))
  | .closed =>
      some (s.receiverAt (recvWaited (AwaitPc.answered phase s.ring.shared.closed)))

/-- The next step of the wait of `recv_async`. -/
def recvWait (s : AsyncRing α) (index : Nat) : AwaitPc RingCheck → Option (AsyncRing α)
  | .check phase rest => s.recvCheck phase index rest
  | pc =>
      (pc.tick s.notEmpty .head).map fun step =>
        let seen := max s.ring.consumer.headView (step.seen 0)
        { s with
          ring := { s.ring with consumer := { s.ring.consumer with headView := seen } }
          notEmpty := step.gate
          receiver := recvWaited step.next }

/-- The next step of the consumer's side. -/
def receiverTick (cap : Cap) (s : AsyncRing α) (index : Nat) (saw : Bool) :
    Option (AsyncRing α) :=
  match s.receiver with
  | .idle => none
  | .inCall =>
      match s.ring.consumer.pc with
      | .returned _ => (s.consumerTick cap index saw).map fun s => s.receiverAt .idle
      | _ => s.consumerTick cap index saw
  | .unpolled => some (s.receiverAt .enterTryRecv)
  | .enterTryRecv =>
      (s.ring.consumerStep cap .tryRecv).map fun ring =>
        (s.setRing ring).receiverAt .inTryRecv
  | .inTryRecv =>
      match s.ring.consumer.pc with
      | .returned (.tryRecv result) =>
          (s.consumerTick cap index saw).map fun s => s.receiverAt (tryRecvReturned result)
      | _ => s.consumerTick cap index saw
  | .waits pc => s.recvWait index pc
  | .inClose =>
      match s.ring.consumer.pc with
      | .gone => some (s.receiverAt .gone)
      | _ => s.consumerTick cap index saw
  | .gone => none

/-- A call of the idle consumer handle. -/
def consumerCall (cap : Cap) (s : AsyncRing α) (call : ConsumerAction) (pc : RingReceiverPc) :
    Option (AsyncRing α) :=
  match s.receiver with
  | .idle => (s.ring.consumerStep cap call).map fun ring => (s.setRing ring).receiverAt pc
  | _ => none

def receiverStep (cap : Cap) (s : AsyncRing α) : RingReceiverAction → Option (AsyncRing α)
  | .tick index saw => s.receiverTick cap index saw
  | .tryRecv => s.consumerCall cap .tryRecv .inCall
  | .drain => s.consumerCall cap .drain .inCall
  | .drop => s.consumerCall cap .drop .inClose
  | .recvAsync =>
      match s.receiver with
      | .idle => some (s.receiverAt .unpolled)
      | _ => none
  | .cancel =>
      match s.receiver with
      | .unpolled => some (s.receiverAt .idle)
      | .waits .suspended => some (s.receiverAt (.waits (.dropNotified .dropped)))
      | _ => none

def step (cap : Cap) (s : AsyncRing α) : AsyncRingAction α → Option (AsyncRing α)
  | .sender action => s.senderStep cap action
  | .receiver action => s.receiverStep cap action

/-- Every schedule of the polls, wakes and drops from `Ring::new`. -/
def system (cap : Cap) : System (AsyncRing α) (AsyncRingAction α) :=
  System.ofFunction (fun s => s = new) fun s action => s.step cap action

end AsyncRing

end ArbitroKit
