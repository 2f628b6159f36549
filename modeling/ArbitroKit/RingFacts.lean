import ArbitroKit.Ring
import Mathlib.Tactic.Linarith

/-!
# What each ring handle knows

The shared cursors are the words of two counts, values published and values
released.  Each handle knows a count of its peer's cursor that is at most the
true one: `known` is what its cache stands for and `fresh` is the last count it
was given.  Both handles keep the lane sound as long as the producer writes
below `known + CAP` and the consumer reads below a count it has been given.

The consumer's side only holds up when a callback that panics does so within
the cached head; `panicsWithinCache` is that condition on the step.
-/

namespace ArbitroKit

open Coherent SlotLane Cyclic Transition

namespace RingState

variable {α : Type*}

/-- What both handles rely on: a sound lane whose two counts are the cursors. -/
structure SharedOk (cap : Cap) (ring : Ring α) : Prop where
  sound : ring.lane.Sound cap.size
  head : ring.head.current = BitVec.ofNat 64 ring.lane.published
  tail : ring.tail.current = BitVec.ofNat 64 ring.lane.released

/-! ### Producer's side -/

/-- The values a call has written and not published yet. -/
def ahead : ProducerPc α → List α
  | .sendPublish _ value _ => [value]
  | .bulkWrite _ _ _ written => written
  | .bulkPublish _ _ written => written
  | _ => []

/-- The values a call has published and not reported yet. -/
def unreported : ProducerPc α → List α
  | .sendWake _ value => [value]
  | .bulkWake _ written => written
  | .returned _ accepted => accepted
  | _ => []

/-- How many values an outcome says the ring took over. -/
def acceptedCount : ProducerOutcome α → Nat
  | .trySend (.ok ()) => 1
  | .send (.ok ()) => 1
  | .trySendBulk taken _ => taken
  | _ => 0

/-- What the local variables of a producer call stand for. -/
def ProducerAt (cap : Cap) (lane : Lane α) (known : Nat) : ProducerPc α → Prop
  | .sendRefresh _ _ head => head = BitVec.ofNat 64 lane.published
  | .sendWrite _ _ head =>
      head = BitVec.ofNat 64 lane.published ∧ lane.published < known + cap.size
  | .sendPublish _ _ head => head = BitVec.ofNat 64 lane.published
  | .bulkRefresh items head =>
      head = BitVec.ofNat 64 lane.published ∧ items ≠ []
  | .bulkWrite items head left _ =>
      head = BitVec.ofNat 64 lane.written.length ∧
        lane.written.length + left ≤ known + cap.size ∧
          0 < left ∧ left ≤ items.length
  | .bulkPublish _ head _ => head = BitVec.ofNat 64 lane.written.length
  | .returned outcome accepted => accepted.length = acceptedCount outcome
  | _ => True

theorem producerAt_iff {cap : Cap} {lane other : Lane α} {known : Nat} {pc : ProducerPc α}
    (written : other.written = lane.written) (published : other.published = lane.published) :
    ProducerAt cap other known pc ↔ ProducerAt cap lane known pc := by
  cases pc <;> simp only [ProducerAt, written, published]

structure ProducerFacts (cap : Cap) (ring : Ring α) (producer : Producer α)
    (known fresh : Nat) : Prop where
  cached : producer.cachedTail = BitVec.ofNat 64 known
  known_le : known ≤ fresh
  follows : Follows ring.tail producer.tailView fresh ring.lane.released
  room : ring.lane.written.length ≤ known + cap.size
  written : ring.lane.written = ring.lane.sent ++ ahead producer.pc
  reported : ring.lane.sent = producer.accepted ++ unreported producer.pc
  here : ProducerAt cap ring.lane known producer.pc

def ProducerOk (cap : Cap) (s : RingState α) : Prop :=
  ∃ known fresh, ProducerFacts cap s.shared s.producer known fresh

/-- All the producer sees of a consumer step: released counts only grow. -/
structure ProducerRely (before after : RingState α) : Prop where
  producer : after.producer = before.producer
  written : after.shared.lane.written = before.shared.lane.written
  published : after.shared.lane.published = before.shared.lane.published
  tail :
    (after.shared.tail = before.shared.tail ∧
      after.shared.lane.released = before.shared.lane.released) ∨
    (after.shared.tail =
        before.shared.tail.store (BitVec.ofNat 64 after.shared.lane.released) ∧
      before.shared.lane.released ≤ after.shared.lane.released)

/-! ### Consumer's side -/

/-- The values a call has read and not handed out yet. -/
def undelivered : ConsumerPc α → List α
  | .recvRelease _ _ value => [value]
  | .recvWake _ value => [value]
  | .drainCallback _ _ _ value => [value]
  | .returned outcome => handedOut outcome
  | _ => []

/-- What the local variables of a consumer call stand for, with `released` and
`received` counting the values given back and read out. -/
def ConsumerAt (released received known fresh : Nat) : ConsumerPc α → Prop
  | .recvRefresh _ tail =>
      received = released ∧ released ≤ known ∧ tail = BitVec.ofNat 64 released
  | .recvClosed _ tail =>
      received = released ∧ released ≤ known ∧ tail = BitVec.ofNat 64 released
  | .recvRecheck _ tail =>
      received = released ∧ released ≤ known ∧ tail = BitVec.ofNat 64 released
  | .recvRead _ tail =>
      received = released ∧ released < known ∧ tail = BitVec.ofNat 64 released
  | .recvRelease _ tail _ =>
      received = released + 1 ∧ released < known ∧ tail = BitVec.ofNat 64 released
  | .drainLoad start =>
      received = released ∧ released ≤ known ∧ start = BitVec.ofNat 64 released
  | .drainRead start head tail =>
      released ≤ known ∧ start = BitVec.ofNat 64 released ∧
        tail = BitVec.ofNat 64 received ∧
          ∃ last, head = BitVec.ofNat 64 last ∧ received < last ∧ last ≤ fresh
  | .drainCallback start head tail _ =>
      released ≤ known ∧ start = BitVec.ofNat 64 released ∧
        released < received ∧ tail = BitVec.ofNat 64 received ∧
          ∃ last, head = BitVec.ofNat 64 last ∧ received ≤ last ∧ last ≤ fresh
  | .drainCommit start head tail =>
      start = BitVec.ofNat 64 released ∧ released < received ∧
        tail = BitVec.ofNat 64 received ∧ head = BitVec.ofNat 64 received ∧
          received ≤ fresh
  | .drainWake head consumed =>
      0 < consumed ∧ received = released ∧ head = BitVec.ofNat 64 released ∧
        released ≤ fresh
  | .drainUnwind _ tail => tail = BitVec.ofNat 64 received ∧ received ≤ known
  | .undefined => False
  | _ => received = released ∧ released ≤ known

structure ConsumerFacts (ring : Ring α) (consumer : Consumer α)
    (known fresh : Nat) : Prop where
  cached : consumer.cachedHead = BitVec.ofNat 64 known
  known_le : known ≤ fresh
  follows : Follows ring.head consumer.headView fresh ring.lane.published
  delivered : ring.lane.received = consumer.delivered ++ undelivered consumer.pc
  here : ConsumerAt ring.lane.released ring.lane.received.length known fresh
    consumer.pc

def ConsumerOk (s : RingState α) : Prop :=
  ∃ known fresh, ConsumerFacts s.shared s.consumer known fresh

/-- All the consumer sees of a producer step: published counts only grow. -/
structure ConsumerRely (before after : RingState α) : Prop where
  consumer : after.consumer = before.consumer
  received : after.shared.lane.received = before.shared.lane.received
  released : after.shared.lane.released = before.shared.lane.released
  head :
    (after.shared.head = before.shared.head ∧
      after.shared.lane.published = before.shared.lane.published) ∨
    (after.shared.head =
        before.shared.head.store (BitVec.ofNat 64 after.shared.lane.published) ∧
      before.shared.lane.published ≤ after.shared.lane.published)

/-- A callback may panic at an item only if the cached head already covered it
when `drain` started: `index < cached_head - tail` for the item's index in the
call, read modulo `2 ^ 64`. -/
def panicsWithinCache (s : RingState α) : RingAction α → Bool
  | .consumer .panic =>
      match s.consumer.pc with
      | .drainCallback start _ tail _ =>
          decide ((tail - start).toNat ≤ (s.consumer.cachedHead - start).toNat)
      | _ => true
  | _ => true

/-! ### What the facts say about words -/

theorem isFull_iff (cap : Cap) (head tail : Nat) (le : tail ≤ head)
    (near : head ≤ tail + cap.size) :
    isFull cap (BitVec.ofNat 64 head) (BitVec.ofNat 64 tail) = true ↔
      head = tail + cap.size := by
  have small := cap.size_lt
  rw [isFull, decide_eq_true_iff, toNat_sub_ofNat le (by omega)]
  omega

theorem SharedOk.sameQueue {cap : Cap} {before after : Ring α}
    (shared : SharedOk cap before) (head : after.head = before.head)
    (tail : after.tail = before.tail) (lane : after.lane = before.lane) :
    SharedOk cap after where
  sound := by rw [lane]; exact shared.sound
  head := by rw [head, lane]; exact shared.head
  tail := by rw [tail, lane]; exact shared.tail

end RingState

end ArbitroKit
