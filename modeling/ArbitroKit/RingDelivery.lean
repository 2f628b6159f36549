import ArbitroKit.RingInvariant

/-!
# Exactly-once delivery through the ring

What the two counts mean for the words and slots the program works with: how
full the ring is, where the cached cursors lie, which values sit in its slots,
and what `Ring::drop` finds when both handles are gone.
-/

namespace ArbitroKit

open Coherent SlotLane Cyclic Transition

namespace RingState

variable {α : Type*} {cap : Cap}

/-- The values owned by the slots from `tail` up to `head`, in order. -/
def inRing (cap : Cap) (ring : Ring α) : List α :=
  (List.range (ring.head.current - ring.tail.current).toNat).filterMap fun offset =>
    (ring.lane.cells (cap.slot (ring.tail.current + BitVec.ofNat 64 offset))).owned

/-- The action is a user callback that panics. -/
def isPanic : RingAction α → Bool
  | .consumer .panic => true
  | _ => false

/-- The runs in which no callback panics. -/
def calm (cap : Cap) : System (RingState α) (RingAction α) :=
  (system cap).guarded fun _ action => isPanic action = false

theorem withinCache_of_calm {s : RingState α} (reached : (calm cap).Reachable s) :
    (withinCache cap).Reachable s := by
  refine reached.guarded_mono fun before action after _ noPanic => ?_
  cases action with
  | producer action => rfl
  | consumer action => cases action <;> first | rfl | cases noPanic

section Shared

variable {ring : Ring α}

theorem SharedOk.near (shared : SharedOk cap ring) :
    ring.lane.released ≤ ring.lane.published ∧
      ring.lane.published ≤ ring.lane.released + cap.size ∧ cap.size < 2 ^ 64 := by
  have released_le := shared.sound.released_le
  have received_le := shared.sound.received_le
  have published_le := shared.sound.published_le
  have bounded := shared.sound.bounded
  exact ⟨by omega, by omega, cap.size_lt⟩

theorem SharedOk.occupancy_eq (shared : SharedOk cap ring) :
    (ring.head.current - ring.tail.current).toNat =
      ring.lane.published - ring.lane.released := by
  obtain ⟨ordered, bounded, small⟩ := shared.near
  rw [shared.head, shared.tail, toNat_sub_ofNat ordered (by omega)]

theorem SharedOk.occupancy_le (shared : SharedOk cap ring) :
    (ring.head.current - ring.tail.current).toNat ≤ cap.size := by
  obtain ⟨ordered, bounded, small⟩ := shared.near
  rw [shared.occupancy_eq]
  omega

/-- The slots between the cursors own the values sent and not yet received. -/
theorem SharedOk.inRing_eq (shared : SharedOk cap ring) :
    inRing cap ring = ring.lane.sent.drop ring.lane.received.length := by
  rw [← shared.sound.ownedFrom_released, inRing, shared.occupancy_eq, shared.tail]
  simp only [← BitVec.ofNat_add, Capacity.slot_ofNat]
  rfl

theorem SharedOk.received_append (shared : SharedOk cap ring) :
    ring.lane.received ++ inRing cap ring = ring.lane.sent := by
  rw [shared.inRing_eq, shared.sound.received_append]

end Shared

/-- The loop of `Ring::drop` walks over the counts between two cursors. -/
theorem dropFrom_eq_destroyFrom (cap : Cap) {lane : Lane α} {first count : Nat}
    (near : count < 2 ^ 64) :
    dropFrom cap (BitVec.ofNat 64 (first + count)) (BitVec.ofNat 64 first) lane =
      lane.destroyFrom cap.size first count := by
  induction count generalizing first lane with
  | zero => simp [dropFrom, Lane.destroyFrom]
  | succ count ih =>
      have apart : BitVec.ofNat 64 first ≠ BitVec.ofNat 64 (first + (count + 1)) := by
        intro equal
        have same : first + (count + 1) = first :=
          (ofNat_inj_of_near (by omega) (by omega)).mp equal.symm
        omega
      rw [dropFrom, if_neg apart, ofNat_add_one, Capacity.slot_ofNat, Lane.destroyFrom,
        show first + (count + 1) = first + 1 + count by omega]
      exact ih (by omega)

/-- `Ring::drop` on a ring nobody works on any more. -/
theorem dropRing_spec {ring : Ring α} (shared : SharedOk cap ring)
    (allPublished : ring.lane.written = ring.lane.sent)
    (allReleased : ring.lane.received.length = ring.lane.released) :
    (dropRing cap ring).destroyed = inRing cap ring ∧
      (dropRing cap ring).misread = false ∧ (dropRing cap ring).overwrote = false ∧
        ∀ slot < cap.size, ((dropRing cap ring).cells slot).owned = none := by
  obtain ⟨ordered, bounded, small⟩ := shared.near
  have length : ring.lane.written.length = ring.lane.published := by
    rw [allPublished, shared.sound.length_sent]
  have dropped : dropRing cap ring = ring.lane.destroyFrom cap.size ring.lane.released
      (ring.lane.published - ring.lane.released) := by
    rw [dropRing, shared.head, shared.tail,
      ← dropFrom_eq_destroyFrom cap (by omega)]
    congr 2
    omega
  have holds := shared.sound.holds
  rw [length, allReleased, show ring.lane.published =
    ring.lane.released + (ring.lane.published - ring.lane.released) by omega] at holds
  obtain ⟨destroyed, misread, overwrote, free⟩ := holds.destroyFrom
  rw [dropped]
  refine ⟨?_, misread.trans shared.sound.not_misread,
    overwrote.trans shared.sound.not_overwrote, free⟩
  rw [destroyed, shared.sound.destroyed_eq, List.nil_append, shared.inRing_eq,
    allReleased, allPublished]
  apply List.take_of_length_le
  rw [List.length_drop, shared.sound.length_sent]

section Handles

variable {s : RingState α}

theorem ProducerOk.cachedTail_between (shared : SharedOk cap s.shared)
    (ok : ProducerOk cap s) :
    Between (s.shared.head.current - BitVec.ofNat 64 cap.size) s.producer.cachedTail
      s.shared.tail.current := by
  obtain ⟨known, fresh, facts⟩ := ok
  have known_le := facts.known_le
  have fresh_le := facts.fresh_le
  have room := facts.room
  have published_le := shared.sound.published_le
  obtain ⟨ordered, bounded, small⟩ := shared.near
  rw [shared.head, shared.tail, facts.cached]
  exact between_sub_ofNat (by omega) (by omega) (by omega)

theorem ConsumerOk.cachedHead_between (shared : SharedOk cap s.shared)
    (ok : ConsumerOk s) (idle : s.consumer.pc = .idle) :
    Between s.shared.tail.current s.consumer.cachedHead s.shared.head.current := by
  obtain ⟨known, fresh, facts⟩ := ok
  have known_le := facts.known_le
  have fresh_le := facts.fresh_le
  have here := facts.here
  rw [idle] at here
  obtain ⟨ordered, bounded, small⟩ := shared.near
  rw [shared.head, shared.tail, facts.cached]
  exact between_ofNat here.2 (by omega) (by omega)

theorem ProducerOk.sent_eq (ok : ProducerOk cap s) :
    s.shared.lane.sent = s.producer.accepted ++ unreported s.producer.pc := by
  obtain ⟨known, fresh, facts⟩ := ok
  exact facts.reported

theorem ConsumerOk.received_eq (ok : ConsumerOk s) :
    s.shared.lane.received = s.consumer.delivered ++ undelivered s.consumer.pc := by
  obtain ⟨known, fresh, facts⟩ := ok
  exact facts.delivered

end Handles

/-- The contract of the ring in one state: bounded, with sane caches, no slot
misused, every accepted value delivered or still in the ring in order, and torn
down without leak or double drop. -/
structure ExactlyOnce (cap : Cap) (s : RingState α) : Prop where
  occupancy : (s.shared.head.current - s.shared.tail.current).toNat ≤ cap.size
  cachedTail : s.producer.pc = .idle →
    Between (s.shared.head.current - BitVec.ofNat 64 cap.size) s.producer.cachedTail
      s.shared.tail.current
  cachedHead : s.consumer.pc = .idle →
    Between s.shared.tail.current s.consumer.cachedHead s.shared.head.current
  notOverwrote : s.shared.lane.overwrote = false
  notMisread : s.shared.lane.misread = false
  conserved : s.consumer.delivered ++ undelivered s.consumer.pc ++ inRing cap s.shared =
    s.producer.accepted ++ unreported s.producer.pc
  teardown : s.producer.pc = .gone → s.consumer.pc = .gone →
    (dropRing cap s.shared).destroyed = inRing cap s.shared ∧
      (dropRing cap s.shared).misread = false ∧
        ∀ slot < cap.size, ((dropRing cap s.shared).cells slot).owned = none

theorem exactlyOnce_of_withinCache {s : RingState α}
    (reached : (withinCache cap).Reachable s) : ExactlyOnce cap s := by
  obtain ⟨shared, producer, consumer⟩ := invariant reached
  exact
    { occupancy := shared.occupancy_le
      cachedTail := fun _ => producer.cachedTail_between shared
      cachedHead := consumer.cachedHead_between shared
      notOverwrote := shared.sound.not_overwrote
      notMisread := shared.sound.not_misread
      conserved := by
        rw [← consumer.received_eq, ← producer.sent_eq]
        exact shared.received_append
      teardown := by
        intro producerGone consumerGone
        obtain ⟨known, fresh, producerFacts⟩ := producer
        obtain ⟨known, fresh, consumerFacts⟩ := consumer
        have written := producerFacts.written
        have here := consumerFacts.here
        rw [producerGone] at written
        simp only [ahead, List.append_nil] at written
        rw [consumerGone] at here
        obtain ⟨destroyed, misread, -, free⟩ := dropRing_spec shared written here.1
        exact ⟨destroyed, misread, free⟩ }

/-- The ring delivers exactly once and in order, whatever the interleaving and
however stale the peer's cursor was when it was read. -/
theorem calm_exactlyOnce {s : RingState α} (reached : (calm cap).Reachable s) :
    ExactlyOnce cap s :=
  exactlyOnce_of_withinCache (withinCache_of_calm reached)

/-- Two slots: a bulk of three leaves one item over, a drain is interrupted by a
send that still sees the old `tail`. -/
def sampleRun : List (RingAction Nat) :=
  [.producer (.trySendBulk [3, 2, 1]), .producer (.tick 0), .producer (.tick 0),
    .producer (.tick 0), .consumer .drain, .consumer (.tick 1), .consumer (.tick 0),
    .consumer (.tick 0), .producer (.tick 0), .producer (.tick 0),
    .producer (.trySend 4), .producer (.tick 0), .consumer (.tick 0)]

theorem calm_exactlyOnce_sampleRun :
    ∃ s, Transition.execute (Transition.guardedStep
        (fun _ (action : RingAction Nat) => isPanic action = false)
        fun s action => s.step ⟨1, by decide⟩ action) new sampleRun = some s ∧
      s.shared.lane.received = [1, 2] ∧ ExactlyOnce ⟨1, by decide⟩ s := by
  have ran : (Transition.execute (Transition.guardedStep
      (fun _ (action : RingAction Nat) => isPanic action = false)
      fun s action => s.step ⟨1, by decide⟩ action) new sampleRun).any
        (fun s => s.shared.lane.received = [1, 2]) = true := by
    decide
  obtain ⟨s, ran, received⟩ := Option.any_eq_true _ _ |>.mp ran
  exact ⟨s, ran, of_decide_eq_true received,
    calm_exactlyOnce (System.reachable_of_guarded_execute rfl ran)⟩

end RingState

end ArbitroKit
