import ArbitroKit.MpmcDelivery
import ArbitroKit.MpscShutdown
import ArbitroKit.RingQueue
import ArbitroKit.SequentialMpmc

/-!
# A channel in which only one handle moves

Between two steps a channel is what its operations find when nobody else steps: the
cursors, the flags, the values in the slots, and what each handle keeps to itself.
This is a state of the sequential model, and in every state that the interleaved model
reaches, the cursors span what is queued and the handles' copies of them are of use.
-/

namespace ArbitroKit

open SlotLane Cyclic Transition

/-- The released lane keeps the values sent and not received from its released count on. -/
theorem Lane.stores {α : Type*} {cap : Cap} {lane : Lane α} (sound : lane.Sound cap.size)
    (released : lane.received.length = lane.released) :
    Stores cap (fun index => (lane.cells index).owned) (BitVec.ofNat 64 lane.published)
      (BitVec.ofNat 64 lane.released) (lane.sent.drop lane.received.length) := by
  have length_eq : (lane.sent.drop lane.received.length).length =
      lane.published - lane.released := by
    rw [List.length_drop, sound.length_sent, released]
  have received_le := sound.received_le
  have published_le := sound.published_le
  have bounded := sound.bounded
  constructor
  · omega
  · rw [length_eq, ← BitVec.ofNat_add]
    congr 1
    omega
  · intro i inside
    have before : lane.received.length + i < lane.written.length := by omega
    have here := sound.live _ before (Nat.le_add_right _ _)
    rw [← BitVec.ofNat_add, Capacity.slot_ofNat, ← released, here]
    simp [Lane.sent]

namespace RingState

variable {α : Type*} {cap : Cap} {s : RingState α}

/-- The ring as the sequential model has it. -/
def atRest (s : RingState α) : SeqRing α where
  head := s.shared.head.current
  tail := s.shared.tail.current
  closed := s.shared.closed
  slots index := (s.shared.lane.cells index).owned
  cachedTail := s.producer.cachedTail
  cachedHead := s.consumer.cachedHead

/-- How many values are published and not released. -/
def queued (s : RingState α) : Nat := s.shared.lane.published - s.shared.lane.released

/-- The consumer is between two turns of a call, or in none. -/
def resting : ConsumerPc α → Bool
  | .idle => true
  | .recvRetry => true
  | .waitHead _ => true
  | .waitTail _ _ => true
  | .waitClosed _ => true
  | .waitAnnounce => true
  | .waitPark => true
  | .waitLeave => true
  | _ => false

theorem SharedOk.spans (shared : SharedOk cap s.shared) :
    Spans cap s.atRest.head s.atRest.tail s.queued := by
  obtain ⟨ordered, bounded, -⟩ := shared.near
  constructor
  · rw [queued]
    omega
  · change s.shared.head.current = s.shared.tail.current + _
    rw [shared.head, shared.tail, ← BitVec.ofNat_add, queued]
    congr 1
    omega

theorem tailCopy_atRest (shared : SharedOk cap s.shared) (producer : ProducerOk cap s) :
    TailCopy cap s.atRest.cachedTail s.atRest.tail s.queued := by
  obtain ⟨known, fresh, facts⟩ := producer
  have known_le := facts.known_le.trans facts.fresh_le
  have room := facts.room
  have published_le := shared.sound.published_le
  obtain ⟨ordered, -, -⟩ := shared.near
  refine ⟨s.shared.lane.released - known, ?_, ?_⟩
  · change s.shared.tail.current = s.producer.cachedTail + _
    rw [shared.tail, facts.cached, ← BitVec.ofNat_add]
    congr 1
    omega
  · rw [queued]
    omega

theorem resting_at {released received known fresh : Nat} {pc : ConsumerPc α}
    (rests : resting pc = true) (here : ConsumerAt released received known fresh pc) :
    received = released ∧ released ≤ known := by
  cases pc with
  | idle | recvRetry | waitHead | waitTail | waitClosed | waitAnnounce | waitPark | waitLeave =>
      exact here
  | _ => cases rests

theorem headCopy_atRest (shared : SharedOk cap s.shared) (consumer : ConsumerOk s)
    (rests : resting s.consumer.pc = true) :
    HeadCopy s.atRest.cachedHead s.atRest.tail s.queued := by
  obtain ⟨known, fresh, facts⟩ := consumer
  obtain ⟨-, released_le⟩ := resting_at rests facts.here
  have known_le := facts.known_le.trans facts.fresh_le
  refine ⟨known - s.shared.lane.released, ?_, ?_⟩
  · change s.consumer.cachedHead = s.shared.tail.current + _
    rw [shared.tail, facts.cached, ← BitVec.ofNat_add]
    congr 1
    omega
  · rw [queued]
    omega

/-- While its consumer rests, the ring holds what was sent and not received. -/
theorem holds_atRest (reached : (withinCache cap).Reachable s)
    (rests : resting s.consumer.pc = true) : s.atRest.Holds cap (inRing cap s.shared) := by
  obtain ⟨shared, producer, consumer⟩ := invariant reached
  have released : s.shared.lane.received.length = s.shared.lane.released := by
    obtain ⟨known, fresh, facts⟩ := consumer
    exact (resting_at rests facts.here).1
  have length_eq : (inRing cap s.shared).length = s.queued := by
    rw [shared.inRing_eq, List.length_drop, shared.sound.length_sent, released, queued]
  constructor
  · have stores := Lane.stores shared.sound released
    rw [← shared.head, ← shared.tail, ← shared.inRing_eq] at stores
    exact stores
  · rw [length_eq]
    exact tailCopy_atRest shared producer
  · rw [length_eq]
    exact headCopy_atRest shared consumer rests

end RingState

namespace MpscState

variable {α : Type*} {size : MpscSize} {s : MpscState α}

/-- The channel as the sequential model has it. -/
def atRest (s : MpscState α) : SeqMpsc α where
  rings p := (s.rings p).atRest
  liveProducers := s.liveProducers
  shutdown := s.shutdown

/-- The consumer is outside its rings. -/
def resting : MpscConsumerPc α → Bool
  | .inTryRecv _ _ => false
  | .inDrain _ _ _ _ => false
  | .enterClose _ => false
  | .inClose _ => false
  | .gone => false
  | _ => true

theorem idle_of_resting {pc : MpscConsumerPc α} {i : Nat} {activity : ReceiveActivity}
    (rests : resting pc = true) (here : ReceiveActivityAt pc i activity) : activity = .idle := by
  cases pc with
  | inTryRecv | inDrain | enterClose | inClose | gone => cases rests
  | _ => exact here

/-- While the consumer is outside them, the rings hold what was sent and not received. -/
theorem holds_atRest (reached : (withinCache size).Reachable s)
    (rests : resting s.consumer = true) (p : Nat) :
    (s.atRest.rings p).Holds size.cap (RingState.inRing size.cap (s.rings p).shared) := by
  apply RingState.holds_atRest (ring_reachable reached p)
  have idle := idle_of_resting rests ((consumerInStep reached).activity p)
  rw [pc_of_idle idle]
  rfl

end MpscState

namespace PRing

variable {α : Type*} {cap : Cap} {ring : PRing α}

/-- The ring as the sequential model has it. -/
def atRest (ring : PRing α) : SeqPRing α where
  head := ring.head
  tail := ring.tail
  slots index := (ring.lane.cells index).owned

/-- How many values are published and not released. -/
def queued (ring : PRing α) : Nat := ring.lane.published - ring.lane.released

theorem Ok.spans (ok : ring.Ok cap) : Spans cap ring.atRest.head ring.atRest.tail ring.queued := by
  obtain ⟨ordered, bounded, -⟩ := ok.near
  constructor
  · rw [queued]
    omega
  · change ring.head = ring.tail + _
    rw [ok.head, ok.tail, ← BitVec.ofNat_add, queued]
    congr 1
    omega

theorem Ok.stores (ok : ring.Ok cap) (released : ring.lane.received.length = ring.lane.released) :
    Stores cap ring.atRest.slots ring.atRest.head ring.atRest.tail (ring.inRing cap) := by
  have stores := Lane.stores ok.sound released
  rw [← ok.head, ← ok.tail, ← ok.inRing_eq] at stores
  exact stores

end PRing

namespace MpmcState

variable {α : Type*} {size : MpmcSize} {s : MpmcState α}

/-- The channel as the sequential model has it. -/
def atRest (size : MpmcSize) (s : MpmcState α) : SeqMpmc α where
  shards shard p := (s.rings shard p).atRest
  shutdown := s.shutdown
  liveProducers := s.liveProducers
  liveConsumers := s.liveConsumers
  m := size.m
  n := size.n
  cursors p := (s.producers p).cursor.toNat

theorem spans_atRest (reached : (apart size).Reachable s) (shard p : Nat) :
    Spans size.ringCap ((s.atRest size).shards shard p).head
      ((s.atRest size).shards shard p).tail (s.rings shard p).queued :=
  ((invariant reached).1 shard p).spans

/-- While no call of its consumer is inside a ring, a shard's rings hold what was sent and
not received. -/
theorem stores_atRest (reached : (apart size).Reachable s) {shard : Nat}
    (outside : (framesOf (s.consumers shard)).filterMap holds = []) (p : Nat) :
    Stores size.ringCap ((s.atRest size).shards shard p).slots
      ((s.atRest size).shards shard p).head ((s.atRest size).shards shard p).tail
        ((s.rings shard p).inRing size.ringCap) := by
  obtain ⟨rings, -, consumers⟩ := invariant reached
  apply (rings shard p).stores
  apply (consumers shard).idle p
  rw [outside]
  exact List.not_mem_nil

end MpmcState

end ArbitroKit
