import ArbitroKit.Mpmc
import Mathlib.Algebra.BigOperators.Group.Finset.Basic
import Mathlib.Algebra.Order.BigOperators.Group.Multiset

/-!
# What each handle of the sharded channel knows

Each mini-ring has one producer and one consumer, and its cursors are the words
of two counts.  A producer knows the room it has found in the one ring it is
writing to.  A consumer's calls each hold at most one ring, and as long as no
ring is held twice, what a ring's cursors say is what its holder knows.
-/

namespace ArbitroKit

open SlotLane Cyclic Transition

section Table

variable {β : Type*} {table : Nat → Nat → β} {shard p : Nat} {entry : β}

@[simp]
theorem setEntry_self : setEntry table shard p entry shard p = entry := by
  simp [setEntry]

theorem setEntry_of_ne {otherShard q : Nat} (other : otherShard ≠ shard ∨ q ≠ p) :
    setEntry table shard p entry otherShard q = table otherShard q := by
  unfold setEntry
  by_cases same : otherShard = shard
  · subst same
    simp [Function.update_of_ne (other.resolve_left (fun ne => ne rfl))]
  · rw [Function.update_of_ne same]

end Table

namespace PRing

variable {α : Type*} {cap : Cap} {ring : PRing α}

/-- A sound lane whose two counts are the cursors. -/
structure Ok (cap : Cap) (ring : PRing α) : Prop where
  sound : ring.lane.Sound cap.size
  head : ring.head = BitVec.ofNat 64 ring.lane.published
  tail : ring.tail = BitVec.ofNat 64 ring.lane.released

/-- All a ring's consumer sees of a producer step. -/
structure Grows (before after : PRing α) : Prop where
  tail : after.tail = before.tail
  received : after.lane.received = before.lane.received
  released : after.lane.released = before.lane.released
  delivered : after.delivered = before.delivered
  published : before.lane.published ≤ after.lane.published

/-- All a ring's producer sees of a consumer step. -/
structure Drains (before after : PRing α) : Prop where
  head : after.head = before.head
  written : after.lane.written = before.lane.written
  published : after.lane.published = before.lane.published
  released : before.lane.released ≤ after.lane.released

theorem Grows.refl (ring : PRing α) : Grows ring ring := ⟨rfl, rfl, rfl, rfl, le_rfl⟩

theorem Drains.refl (ring : PRing α) : Drains ring ring := ⟨rfl, rfl, rfl, le_rfl⟩

theorem Drains.sent {before after : PRing α} (drains : Drains before after) :
    after.lane.sent = before.lane.sent := by
  rw [Lane.sent, Lane.sent, drains.written, drains.published]

theorem new_ok (cap : Cap) : (new : PRing α).Ok cap := ⟨Lane.sound_empty, rfl, rfl⟩

theorem Ok.near (ok : ring.Ok cap) : ring.lane.released ≤ ring.lane.published ∧
    ring.lane.published ≤ ring.lane.released + cap.size ∧ cap.size < 2 ^ 64 := by
  have released_le := ok.sound.released_le
  have received_le := ok.sound.received_le
  have published_le := ok.sound.published_le
  have bounded := ok.sound.bounded
  exact ⟨by omega, by omega, cap.size_lt⟩

theorem Ok.occupancy (ok : ring.Ok cap) :
    (ring.head - ring.tail).toNat = ring.lane.published - ring.lane.released := by
  obtain ⟨ordered, bounded, small⟩ := ok.near
  rw [ok.head, ok.tail, toNat_sub_ofNat ordered (by omega)]

/-- The full test compares the two counts. -/
theorem Ok.isFull_iff (ok : ring.Ok cap) :
    RingState.isFull cap ring.head ring.tail = true ↔
      ring.lane.published = ring.lane.released + cap.size := by
  obtain ⟨ordered, bounded, -⟩ := ok.near
  rw [ok.head, ok.tail]
  exact RingState.isFull_iff cap _ _ ordered bounded

theorem Ok.room_of_not_full (ok : ring.Ok cap)
    (room : RingState.isFull cap ring.head ring.tail = false) :
    ring.lane.published < ring.lane.released + cap.size := by
  obtain ⟨-, bounded, -⟩ := ok.near
  refine lt_of_le_of_ne bounded fun full => ?_
  rw [ok.isFull_iff.mpr full] at room
  cases room

/-- A word that stands for a count from the released to the published one. -/
theorem Ok.ofNat_inj (ok : ring.Ok cap) {first last : Nat} (from_ : ring.lane.released ≤ first)
    (ordered : first ≤ last) (upto : last ≤ ring.lane.published) :
    BitVec.ofNat 64 first = BitVec.ofNat 64 last ↔ first = last := by
  obtain ⟨-, bounded, small⟩ := ok.near
  rw [eq_comm, ofNat_inj_of_near ordered (by omega), eq_comm]

/-! ### Operations -/

theorem Ok.writeSlot (ok : ring.Ok cap)
    (room : ring.lane.written.length < ring.lane.released + cap.size) (value : α)
    {head : Usize} (headEq : head = BitVec.ofNat 64 ring.lane.written.length) :
    (ring.writeSlot (cap.slot head) value).Ok cap where
  sound := by
    rw [headEq, PRing.writeSlot, Capacity.slot_ofNat]
    exact ok.sound.write room value
  head := ok.head
  tail := ok.tail

theorem Ok.storeHead (ok : ring.Ok cap) {head : Usize}
    (headEq : head = BitVec.ofNat 64 ring.lane.written.length) : (ring.storeHead head).Ok cap where
  sound := ok.sound.publish
  head := headEq
  tail := ok.tail

theorem Ok.storeTail (ok : ring.Ok cap) {tail : Usize}
    (tailEq : tail = BitVec.ofNat 64 ring.lane.received.length) : (ring.storeTail tail).Ok cap where
  sound := ok.sound.release
  head := ok.head
  tail := tailEq

theorem Ok.deliver (ok : ring.Ok cap) (value : α) : (ring.deliver value).Ok cap :=
  ⟨ok.sound, ok.head, ok.tail⟩

/-- Reading the slot after the received values, while another value is published. -/
theorem Ok.read (ok : ring.Ok cap) {tail : Usize}
    (tailEq : tail = BitVec.ofNat 64 ring.lane.received.length)
    (available : ring.lane.received.length < ring.lane.published) :
    ∃ value, ring.lane.read (cap.slot tail) =
        (some value, (ring.lane.read (cap.slot tail)).2) ∧
      ({ ring with lane := (ring.lane.read (cap.slot tail)).2 } : PRing α).Ok cap ∧
      (ring.lane.read (cap.slot tail)).2.received = ring.lane.received ++ [value] ∧
      (ring.lane.read (cap.slot tail)).2.released = ring.lane.released ∧
      (ring.lane.read (cap.slot tail)).2.published = ring.lane.published ∧
      (ring.lane.read (cap.slot tail)).2.written = ring.lane.written := by
  obtain ⟨value, next⟩ := ok.sound.exists_next available
  have readEq := ok.sound.read_eq next
  have sound := ok.sound.read available
  rw [tailEq, Capacity.slot_ofNat]
  refine ⟨value, by rw [readEq], ⟨sound, ?_, ?_⟩, ?_⟩
  · rw [readEq]
    exact ok.head
  · rw [readEq]
    exact ok.tail
  · rw [readEq]
    exact ⟨rfl, rfl, rfl, rfl⟩

theorem grows_writeSlot (ring : PRing α) (index : Nat) (value : α) :
    Grows ring (ring.writeSlot index value) := ⟨rfl, rfl, rfl, rfl, le_rfl⟩

theorem grows_storeHead (le : ring.lane.published ≤ ring.lane.written.length) (head : Usize) :
    Grows ring (ring.storeHead head) := ⟨rfl, rfl, rfl, rfl, le⟩

theorem drains_storeTail (le : ring.lane.released ≤ ring.lane.received.length) (tail : Usize) :
    Drains ring (ring.storeTail tail) := ⟨rfl, rfl, rfl, le⟩

end PRing

namespace MpmcState

variable {α : Type*}

@[simp]
theorem rings_setRing (s : MpmcState α) (shard p : Nat) (ring : PRing α) :
    (s.setRing shard p ring).rings shard p = ring :=
  setEntry_self

theorem rings_setRing_of_ne (s : MpmcState α) {shard p otherShard q : Nat} (ring : PRing α)
    (other : otherShard ≠ shard ∨ q ≠ p) :
    (s.setRing shard p ring).rings otherShard q = s.rings otherShard q :=
  setEntry_of_ne other

/-- Every ring is in order. -/
def RingsOk (size : MpmcSize) (s : MpmcState α) : Prop :=
  ∀ shard p, (s.rings shard p).Ok size.ringCap

theorem RingsOk.setRing {size : MpmcSize} {s : MpmcState α} (ok : RingsOk size s) {shard p : Nat}
    {ring : PRing α} (ringOk : ring.Ok size.ringCap) : RingsOk size (s.setRing shard p ring) := by
  intro otherShard q
  by_cases same : otherShard = shard ∧ q = p
  · obtain ⟨rfl, rfl⟩ := same
    rw [rings_setRing]
    exact ringOk
  · rw [rings_setRing_of_ne _ _ (Decidable.not_and_iff_or_not.mp same)]
    exact ok otherShard q

/-! ### Producers -/

/-- The values a call has written to the shard and not published yet. -/
def ahead (shard : Nat) : MpmcProducerPc α → List α
  | .publish _ value here _ => if here = shard then [value] else []
  | .batchWrite _ here _ _ written => if here = shard then written else []
  | .batchPublish _ here _ written => if here = shard then written else []
  | _ => []

/-- The values a call has published and not reported yet. -/
def unreported : MpmcProducerPc α → List α
  | .wakeConsumer _ value _ => [value]
  | .batchWake _ _ written => written
  | _ => []

/-- How many values the call has published in the shard and not acknowledged. -/
def unacked (shard : Nat) : MpmcProducerPc α → Nat
  | .wakeConsumer _ _ here => if here = shard then 1 else 0
  | .batchWake _ here written => if here = shard then written.length else 0
  | _ => 0

/-- What the local variables of a producer call stand for. -/
def ProducerAt (size : MpmcSize) (lanes : Nat → Lane α) : MpmcProducerPc α → Prop
  | .batchScan items _ _ => items ≠ []
  | .write _ _ shard head =>
      shard < size.n ∧ head = BitVec.ofNat 64 (lanes shard).published ∧
        (lanes shard).published < (lanes shard).released + size.ringCap.size
  | .publish _ _ shard head =>
      shard < size.n ∧ head = BitVec.ofNat 64 (lanes shard).published
  | .batchWrite items shard head left _ =>
      shard < size.n ∧ head = BitVec.ofNat 64 (lanes shard).written.length ∧
        (lanes shard).written.length + left ≤ (lanes shard).released + size.ringCap.size ∧
          0 < left ∧ left ≤ items.length
  | .batchPublish _ shard head _ =>
      shard < size.n ∧ head = BitVec.ofNat 64 (lanes shard).written.length
  | _ => True

structure ProducerOk (size : MpmcSize) (s : MpmcState α) (p : Nat) : Prop where
  here : ProducerAt size (fun shard => (s.rings shard p).lane) (s.producers p).pc
  written : ∀ shard, (s.rings shard p).lane.written =
    (s.rings shard p).lane.sent ++ ahead shard (s.producers p).pc
  reported : ((s.producers p).accepted : Multiset α) + unreported (s.producers p).pc =
    ∑ shard ∈ Finset.range size.n, ((s.rings shard p).lane.sent : Multiset α)
  acked : ∀ shard, s.history.acked shard p + unacked shard (s.producers p).pc =
    (s.rings shard p).lane.sent.length

/-- All a producer sees of the others' steps. -/
structure ProducerRely (p : Nat) (before after : MpmcState α) : Prop where
  producer : after.producers p = before.producers p
  rings : ∀ shard, PRing.Drains (before.rings shard p) (after.rings shard p)
  acked : ∀ shard, after.history.acked shard p = before.history.acked shard p

theorem ProducerAt.drains {size : MpmcSize} {before after : Nat → PRing α}
    {pc : MpmcProducerPc α} (here : ProducerAt size (fun shard => (before shard).lane) pc)
    (drains : ∀ shard, PRing.Drains (before shard) (after shard)) :
    ProducerAt size (fun shard => (after shard).lane) pc := by
  cases pc with
  | write call value shard head =>
      obtain ⟨inside, headEq, room⟩ := here
      have drained := drains shard
      refine ⟨inside, headEq.trans (by rw [drained.published]), ?_⟩
      have := drained.released
      have := drained.published
      dsimp only at room ⊢
      omega
  | publish call value shard head =>
      exact ⟨here.1, here.2.trans (by rw [(drains shard).published])⟩
  | batchWrite items shard head left written =>
      obtain ⟨inside, headEq, room, some, enough⟩ := here
      have drained := drains shard
      refine ⟨inside, headEq.trans (by rw [drained.written]), ?_, some, enough⟩
      have := drained.released
      dsimp only at room ⊢
      rw [drained.written]
      omega
  | batchPublish items shard head written =>
      exact ⟨here.1, here.2.trans (by rw [(drains shard).written])⟩
  | batchScan items start k => exact here
  | _ => trivial

theorem ProducerRely.stable {size : MpmcSize} {before after : MpmcState α} {p : Nat}
    (rely : ProducerRely p before after) (ok : ProducerOk size before p) :
    ProducerOk size after p where
  here := by
    rw [rely.producer]
    exact ok.here.drains rely.rings
  written shard := by
    rw [rely.producer, (rely.rings shard).written, (rely.rings shard).sent]
    exact ok.written shard
  reported := by
    rw [rely.producer, ok.reported]
    refine Finset.sum_congr rfl fun shard _ => ?_
    rw [(rely.rings shard).sent]
  acked shard := by
    rw [rely.producer, rely.acked, (rely.rings shard).sent]
    exact ok.acked shard

/-! ### Consumers -/

/-- The ring whose cursor a call has in its local variables. -/
def holds : MpmcFrame α → Option Nat
  | .scanHead _ p _ => some p
  | .scanRead _ p _ => some p
  | .scanStore _ p _ _ => some p
  | .drainHead _ p _ _ _ => some p
  | .drainRead _ p _ _ _ => some p
  | .drainCallback _ p _ _ _ => some p
  | .drainStore _ p _ _ => some p
  | .drainUnwind p _ => some p
  | _ => none

/-- The values a call has read and not handed out yet. -/
def inFlight (p : Nat) : MpmcFrame α → List α
  | .scanStore _ here _ value => if here = p then [value] else []
  | .scanWake _ here value => if here = p then [value] else []
  | _ => []

/-- What the local variables of a call stand for, with the lane of the ring it
holds. -/
def FrameAt (lane : Lane α) : MpmcFrame α → Prop
  | .scanHead _ _ tail =>
      lane.received.length = lane.released ∧ tail = BitVec.ofNat 64 lane.released
  | .scanRead _ _ tail =>
      lane.received.length = lane.released ∧ tail = BitVec.ofNat 64 lane.released ∧
        lane.released < lane.published
  | .scanStore _ _ tail _ =>
      lane.received.length = lane.released + 1 ∧ tail = BitVec.ofNat 64 lane.released
  | .drainHead _ _ _ _ tail =>
      lane.received.length = lane.released ∧ tail = BitVec.ofNat 64 lane.released
  | .drainRead _ _ _ head tail =>
      tail = BitVec.ofNat 64 lane.received.length ∧
        ∃ last, head = BitVec.ofNat 64 last ∧ lane.received.length < last ∧
          last ≤ lane.published
  | .drainCallback _ _ _ head tail =>
      tail = BitVec.ofNat 64 lane.received.length ∧ lane.released < lane.received.length ∧
        ∃ last, head = BitVec.ofNat 64 last ∧ lane.received.length ≤ last ∧
          last ≤ lane.published
  | .drainStore _ _ _ tail => tail = BitVec.ofNat 64 lane.received.length
  | .drainUnwind _ tail =>
      tail = BitVec.ofNat 64 lane.received.length ∧ lane.released < lane.received.length
  | .undefined => False
  | _ => True

def isCallback : MpmcFrame α → Bool
  | .drainCallback _ _ _ _ _ => true
  | _ => false

/-- What the calls of a consumer know of the rings of its shard. -/
structure FramesOk (rings : Nat → PRing α) (frames : List (MpmcFrame α)) : Prop where
  /-- No ring is held twice. -/
  apart : (frames.filterMap holds).Nodup
  each : ∀ frame ∈ frames, ∀ p, holds frame = some p → FrameAt (rings p).lane frame
  defined : MpmcFrame.undefined ∉ frames
  idle : ∀ p, p ∉ frames.filterMap holds →
    (rings p).lane.received.length = (rings p).lane.released
  callbacks : ∀ frame ∈ frames.tail, isCallback frame = true
  delivered : ∀ p, (rings p).lane.received = (rings p).delivered ++ frames.flatMap (inFlight p)

/-- The running calls of a consumer. -/
def framesOf : MpmcConsumerPc α → List (MpmcFrame α)
  | .running frames => frames
  | _ => []

def ConsumerOk (s : MpmcState α) (shard : Nat) : Prop :=
  FramesOk (s.rings shard) (framesOf (s.consumers shard))

/-- All a consumer sees of the others' steps. -/
structure ConsumerRely (shard : Nat) (before after : MpmcState α) : Prop where
  consumer : after.consumers shard = before.consumers shard
  rings : ∀ p, PRing.Grows (before.rings shard p) (after.rings shard p)

theorem FrameAt.grows {before after : PRing α} {frame : MpmcFrame α}
    (here : FrameAt before.lane frame) (grows : PRing.Grows before after) :
    FrameAt after.lane frame := by
  have published := grows.published
  cases frame with
  | scanHead call p tail | scanStore call p tail value | drainHead call p count progress tail
  | drainStore call p count tail | drainUnwind p tail =>
      simp only [FrameAt, grows.received, grows.released] at here ⊢
      exact here
  | scanRead call p tail =>
      simp only [FrameAt, grows.received, grows.released] at here ⊢
      exact ⟨here.1, here.2.1, by omega⟩
  | drainRead call p count head tail =>
      simp only [FrameAt, grows.received] at here ⊢
      obtain ⟨tailEq, last, headEq, before, upto⟩ := here
      exact ⟨tailEq, last, headEq, before, upto.trans published⟩
  | drainCallback call p count head tail =>
      simp only [FrameAt, grows.received, grows.released] at here ⊢
      obtain ⟨tailEq, given, last, headEq, before, upto⟩ := here
      exact ⟨tailEq, given, last, headEq, before, upto.trans published⟩
  | undefined => exact here
  | _ => trivial

theorem ConsumerRely.stable {before after : MpmcState α} {shard : Nat}
    (rely : ConsumerRely shard before after) (ok : ConsumerOk before shard) :
    ConsumerOk after shard := by
  rw [ConsumerOk, rely.consumer]
  exact
    { apart := ok.apart
      each := fun frame member p held => (ok.each frame member p held).grows (rely.rings p)
      defined := ok.defined
      idle := fun p free => by
        rw [(rely.rings p).received, (rely.rings p).released]
        exact ok.idle p free
      callbacks := ok.callbacks
      delivered := fun p => by
        rw [(rely.rings p).received, (rely.rings p).delivered]
        exact ok.delivered p }

end MpmcState

end ArbitroKit
