import ArbitroKit.RingAsyncMoves

/-!
# The ring's two futures and their gates

The invariant of the ring between two tasks: what holds of the cursors and slots, where
each future stands with its gate, and what it has seen while it looks for work.  Every
step of either side keeps it, a dropped future included.
-/

namespace ArbitroKit

open Coherent SlotLane Cyclic Transition

namespace RingCheck

/-- The announced evaluation has found the cursors against it. -/
def Saw : Option RingCheck → Prop
  | none => True
  | some .closed => True
  | some .head => False
  | some (.tail _) => False

/-- What such an evaluation makes sure of: first of the cursors, at its end of `closed`
too. -/
def Calm (nothing closed : Prop) : Option RingCheck → Prop
  | none => nothing ∧ ¬ closed
  | some _ => nothing

end RingCheck

namespace RingSenderPc

variable {α : Type*}

/-- Where the task stands with `not_full`. -/
def phase : RingSenderPc α → GatePhase
  | .waits _ pc => pc.phase
  | _ => .away

/-- The future has found the ring full. -/
def Found : RingSenderPc α → Prop
  | .waits _ pc => pc.Found RingCheck.Saw
  | _ => False

def looked : RingSenderPc α → Option RingCheck
  | .waits _ pc => pc.looked
  | _ => none

/-- The `head` that a check has loaded is the producer's own. -/
def CheckAt (published : Nat) : RingSenderPc α → Prop
  | .waits _ (.check _ (.tail head)) => head = BitVec.ofNat 64 published
  | _ => True

/-- What the ring's producer handle is doing meanwhile. -/
def RingAt : RingSenderPc α → ProducerPc α → Prop
  | .inCall, _ => True
  | .inTrySend value, pc => RingState.InTrySend value pc
  | .inClose, pc => RingState.producerActivity pc = .closing ∨ pc = .gone
  | .gone, pc => pc = .gone
  | _, pc => pc = .idle

theorem not_found {pc : RingSenderPc α} (away : pc.phase = .away) : ¬ pc.Found := by
  intro found
  cases pc with
  | waits value pc =>
      have looks := AwaitPc.looks_of_found found
      rw [show pc.phase = .away from away] at looks
      cases looks
  | _ => exact found

/-- Behind its ring the task stands with its gate as the step of its wait says. -/
theorem phase_sendWaited (value : α) (next : AwaitNext RingCheck) :
    (AsyncRing.sendWaited value next).phase = next.phase := by
  cases next <;> rfl

theorem found_sendWaited (value : α) (next : AwaitNext RingCheck) :
    (AsyncRing.sendWaited value next).Found = next.Found RingCheck.Saw := by
  cases next <;> rfl

theorem looked_sendWaited (value : α) (next : AwaitNext RingCheck) :
    (AsyncRing.sendWaited value next).looked = next.looked := by
  cases next <;> rfl

theorem ringAt_sendWaited {value : α} {next : AwaitNext RingCheck} {pc : ProducerPc α}
    (idle : pc = .idle) : (AsyncRing.sendWaited value next).RingAt pc := by
  cases next <;> exact idle

end RingSenderPc

namespace RingReceiverPc

/-- Where the task stands with `not_empty`. -/
def phase : RingReceiverPc → GatePhase
  | .waits pc => pc.phase
  | _ => .away

/-- The future has found the ring empty. -/
def Found : RingReceiverPc → Prop
  | .waits pc => pc.Found RingCheck.Saw
  | _ => False

def looked : RingReceiverPc → Option RingCheck
  | .waits pc => pc.looked
  | _ => none

/-- The `head` that a check has loaded is the last one the consumer has seen. -/
def CheckAt (head : Location Usize) (view : Nat) : RingReceiverPc → Prop
  | .waits (.check _ (.tail loaded)) => head.load view view = some loaded
  | _ => True

/-- What the ring's consumer handle is doing meanwhile. -/
def RingAt {α : Type*} : RingReceiverPc → ConsumerPc α → Prop
  | .inCall, pc => AsyncRing.unwinds pc = false
  | .inTryRecv, pc => RingState.InTryRecv pc
  | .inClose, pc => RingState.consumerActivity pc = .closing ∨ pc = .gone
  | .gone, pc => pc = .gone
  | _, pc => pc = .idle

theorem not_found {pc : RingReceiverPc} (away : pc.phase = .away) : ¬ pc.Found := by
  intro found
  cases pc with
  | waits pc =>
      have looks := AwaitPc.looks_of_found found
      rw [show pc.phase = .away from away] at looks
      cases looks
  | _ => exact found

theorem phase_recvWaited (next : AwaitNext RingCheck) :
    (AsyncRing.recvWaited next).phase = next.phase := by
  cases next <;> rfl

theorem found_recvWaited (next : AwaitNext RingCheck) :
    (AsyncRing.recvWaited next).Found = next.Found RingCheck.Saw := by
  cases next <;> rfl

theorem looked_recvWaited (next : AwaitNext RingCheck) :
    (AsyncRing.recvWaited next).looked = next.looked := by
  cases next <;> rfl

theorem ringAt_recvWaited {α : Type*} {next : AwaitNext RingCheck} {pc : ConsumerPc α}
    (idle : pc = .idle) : (AsyncRing.recvWaited next).RingAt pc := by
  cases next <;> exact idle

/-- A store does not take back what has been loaded. -/
theorem CheckAt.store {pc : RingReceiverPc} {head : Location Usize} {view : Nat}
    (check : pc.CheckAt head view) (stored : Usize) : pc.CheckAt (head.store stored) view := by
  cases pc with
  | waits pc =>
      cases pc with
      | check phase rest =>
          cases rest with
          | tail loaded => exact Location.load_store check stored
          | head | closed => trivial
      | _ => trivial
  | _ => trivial

/-- No callback panics. -/
theorem RingAt.calm {α : Type*} {pc : RingReceiverPc} {ring : ConsumerPc α}
    (here : pc.RingAt ring) : AsyncRing.unwinds ring = false := by
  cases ring with
  | drainUnwind start tail =>
      cases pc with
      | inCall => exact here
      | inTryRecv => exact here.elim
      | inClose =>
          rcases here with closing | gone
          · cases closing
          · cases gone
      | _ => cases here
  | _ => rfl

end RingReceiverPc

namespace AsyncRing

open AsyncGate RingState

variable {α : Type*}

/-- What the sender hears of `tail` through `not_full`. -/
def TailListens (cap : Cap) (s : AsyncRing α) : Prop :=
  Listens s.notFull s.sender.phase 0 s.ring.shared.tail.latest s.ring.producer.tailView
    (consumerDue s.ring.consumer.pc = true) s.sender.Found
    (RingCheck.Calm (s.ring.shared.lane.published = s.ring.shared.lane.released + cap.size)
      (s.ring.shared.closed = true) s.sender.looked)

/-- What the receiver hears of `head` through `not_empty`. -/
def HeadListens (s : AsyncRing α) : Prop :=
  Listens s.notEmpty s.receiver.phase 0 s.ring.shared.head.latest s.ring.consumer.headView
    (producerDue s.ring.producer.pc = true) s.receiver.Found
    (RingCheck.Calm (s.ring.shared.lane.published = s.ring.shared.lane.released)
      (s.ring.shared.closed = true) s.receiver.looked)

/-- The invariant of the ring between two tasks. -/
structure LinkOk (cap : Cap) (s : AsyncRing α) : Prop where
  shared : SharedOk cap s.ring.shared
  producer : ProducerOk cap s.ring
  consumer : ConsumerOk s.ring
  -- the sender's end
  sends : s.notFull.Ok s.sender.phase
  senderAt : s.sender.RingAt s.ring.producer.pc
  senderCheck : s.sender.CheckAt s.ring.shared.lane.published
  tails : s.TailListens cap
  -- the receiver's end
  receives : s.notEmpty.Ok s.receiver.phase
  receiverAt : s.receiver.RingAt s.ring.consumer.pc
  receiverCheck : s.receiver.CheckAt s.ring.shared.head s.ring.consumer.headView
  heads : s.HeadListens

theorem linkOk_new (cap : Cap) : LinkOk cap (new : AsyncRing α) where
  shared := (new_ok cap).1
  producer := (new_ok cap).2.1
  consumer := (new_ok cap).2.2
  sends := ok_new
  senderAt := rfl
  senderCheck := trivial
  tails := listens_new id
  receives := ok_new
  receiverAt := rfl
  receiverCheck := trivial
  heads := listens_new id

end AsyncRing

end ArbitroKit
