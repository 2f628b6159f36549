import ArbitroKit.MpscFrames

/-!
# Using a ring after a callback panicked

`Consumer::drain` publishes the consumed slots while it unwinds, but it sets the
cached head only on its normal way out.  What is left of the invariant depends
on how far the old cached head reached: the receives after the unwind are in
order exactly when it covered the item at which the callback panicked.
-/

namespace ArbitroKit

open Coherent SlotLane Cyclic Transition

namespace RingState

variable {α : Type*} {cap : Cap}

/-- The runs in which only the producer moves. -/
def producerOnly (cap : Cap) : System (RingState α) (RingAction α) :=
  (system cap).guarded fun _ action => ∃ move, action = .producer move

/-- The consumer's invariant of the words. -/
def CacheInRange (s : RingState α) : Prop :=
  Between s.shared.tail.current s.consumer.cachedHead s.shared.head.current

/-- The consumer's invariant holds again, and every later use of the ring is in
order. -/
def UsableAfter (cap : Cap) (s : RingState α) : Prop :=
  s.CacheInRange ∧ ∀ last, (withinCache cap).Leads s last → ExactlyOnce cap last

/-- A callback panics, the producer may go on, and the call unwinds. -/
def Unwinds (cap : Cap) (before after : RingState α) : Prop :=
  ∃ panicked resumed index,
    before.step cap (.consumer .panic) = some panicked ∧
      (producerOnly cap).Leads panicked resumed ∧
        resumed.step cap (.consumer (.tick index)) = some after

/-- What the producer does meanwhile keeps its facts and shows only a growing
published count. -/
theorem producerOnly_rely {first last : RingState α}
    (leads : (producerOnly cap).Leads first last) (shared : SharedOk cap first.shared)
    (ok : ProducerOk cap first) :
    SharedOk cap last.shared ∧ ProducerOk cap last ∧ last.consumer = first.consumer ∧
      last.shared.lane.received = first.shared.lane.received ∧
        last.shared.lane.released = first.shared.lane.released ∧
          first.shared.lane.published ≤ last.shared.lane.published := by
  refine leads.invariant (fun s =>
    SharedOk cap s.shared ∧ ProducerOk cap s ∧ s.consumer = first.consumer ∧
      s.shared.lane.received = first.shared.lane.received ∧
        s.shared.lane.released = first.shared.lane.released ∧
          first.shared.lane.published ≤ s.shared.lane.published)
    ⟨shared, ok, rfl, rfl, rfl, le_rfl⟩ ?_
  rintro before action after ⟨shared, ok, consumer, received, released, published⟩
    ⟨⟨move, rfl⟩, taken⟩
  obtain ⟨shared, ok, rely⟩ := producer_step shared ok taken
  refine ⟨shared, ok, rely.consumer.trans consumer, rely.received.trans received,
    rely.released.trans released, ?_⟩
  rcases rely.head with ⟨-, same⟩ | ⟨-, later⟩ <;> omega

/-- The unwind leaves the cached head in range exactly when it covered the item
at which the callback panicked. -/
theorem cacheInRange_after_unwind {before after : RingState α}
    (reached : (withinCache cap).Reachable before) (unwinds : Unwinds cap before after) :
    after.CacheInRange ↔ before.panicsWithinCache (.consumer .panic) = true := by
  obtain ⟨panicked, resumed, index, panics, meanwhile, unwound⟩ := unwinds
  obtain ⟨shared, producer, ⟨known, fresh, facts⟩⟩ := invariant reached
  obtain ⟨start, head, tail, value, pcEq, rfl⟩ := panic_eq_some cap panics
  have here := facts.here
  simp only [pcEq] at here
  obtain ⟨releasedLe, rfl, started, rfl, last, rfl, beforeLast, lastLe⟩ := here
  have known_le := facts.known_le
  have fresh_le := facts.fresh_le
  obtain ⟨sharedAfter, -, consumerEq, receivedEq, releasedEq, grown⟩ :=
    producerOnly_rely meanwhile (shared.sameQueue rfl rfl rfl)
      (ProducerRely.sameQueue rfl rfl rfl |>.stable producer)
  have afterEq : after = (resumed.storeTail
      (BitVec.ofNat 64 before.shared.lane.received.length)).consumerAt
        (.returned .panicked) := by
    simpa [step, consumerStep, consumerTick, consumerEq, consumerAt] using unwound.symm
  have condition : before.panicsWithinCache (.consumer .panic) = true ↔
      before.shared.lane.received.length ≤ known := by
    obtain ⟨ordered, bounded, small⟩ := shared.near
    simp only [panicsWithinCache, pcEq, decide_eq_true_eq, facts.cached]
    rw [toNat_sub_ofNat started.le (by omega), toNat_sub_ofNat releasedLe (by omega)]
    omega
  obtain ⟨ordered, bounded, small⟩ := sharedAfter.near
  simp only [consumerAt, deliver] at releasedEq grown
  have cachedEq : resumed.consumer.cachedHead = BitVec.ofNat 64 known := by
    rw [consumerEq]
    exact facts.cached
  rw [condition, afterEq]
  simp only [CacheInRange, storeTail, consumerAt, cachedEq, sharedAfter.head,
    Location.current_store]
  constructor
  · intro between
    by_contra beyond
    exact not_between_ofNat (by omega) (by omega) (by omega) between
  · intro within
    exact between_ofNat within (by omega) (by omega)

/-- After a panic within the cached head the run goes on like any other. -/
theorem reachable_after_unwind {before after : RingState α}
    (reached : (withinCache cap).Reachable before) (unwinds : Unwinds cap before after)
    (within : before.panicsWithinCache (.consumer .panic) = true) :
    (withinCache cap).Reachable after := by
  obtain ⟨panicked, resumed, index, panics, meanwhile, unwound⟩ := unwinds
  have afterPanic : (withinCache cap).Reachable panicked := reached.next ⟨within, panics⟩
  have step : (withinCache cap).Step resumed (.consumer (.tick index)) after := ⟨rfl, unwound⟩
  refine System.Reachable.next ?_ step
  refine meanwhile.invariant (withinCache cap).Reachable afterPanic ?_
  rintro before action after reached ⟨⟨move, rfl⟩, taken⟩
  exact reached.next ⟨rfl, taken⟩

theorem usableAfter_iff {before after : RingState α}
    (reached : (withinCache cap).Reachable before) (unwinds : Unwinds cap before after) :
    UsableAfter cap after ↔ before.panicsWithinCache (.consumer .panic) = true := by
  rw [← cacheInRange_after_unwind reached unwinds]
  refine ⟨fun usable => usable.1, fun inRange => ⟨inRange, fun last leads => ?_⟩⟩
  have within := (cacheInRange_after_unwind reached unwinds).mp inRange
  exact exactlyOnce_of_withinCache ((reachable_after_unwind reached unwinds within).leads leads)

end RingState

namespace MpscState

variable {α : Type*} {size : MpscSize}

/-- The runs in which the consumer stands still. -/
def othersOnly (size : MpscSize) : System (MpscState α) (MpscAction α) :=
  (system size).guarded fun _ action => ∀ move, action ≠ .consumer move

/-- A callback panics in the `drain` of ring `idx`, the others may go on, and the
`drain` unwinds. -/
def Unwinds (size : MpscSize) (idx : Nat) (before after : MpscState α) : Prop :=
  before.panicsIn .panic = some idx ∧ ∃ panicked resumed,
    before.step size (.consumer .panic) = some panicked ∧
      (othersOnly size).Leads panicked resumed ∧
        resumed.step size (.consumer .tick) = some after

/-- The consumer's invariant holds again in ring `idx`, and every later use of the
channel is in order in every ring. -/
def UsableAfter (size : MpscSize) (idx : Nat) (s : MpscState α) : Prop :=
  (s.rings idx).CacheInRange ∧
    ∀ last, (withinCache size).Leads s last → ∀ i, RingState.ExactlyOnce size.cap (last.rings i)

theorem othersOnly_ring {first last : MpscState α}
    (leads : (othersOnly size).Leads first last) (j : Nat) :
    (RingState.producerOnly size.cap).Leads (first.rings j) (last.rings j) := by
  have base : (RingState.producerOnly size.cap).Leads (first.rings j) (first.rings j) :=
    Relation.ReflTransGen.refl
  refine leads.invariant (fun s =>
    (RingState.producerOnly size.cap).Leads (first.rings j) (s.rings j)) base ?_
  rintro before action after soFar ⟨others, taken⟩
  cases action with
  | consumer move => exact absurd rfl (others move)
  | signaller k action =>
      simpa [(signallerStep_frame taken).rings] using soFar
  | producer i action =>
      have frame := producerStep_frame (producer_of_step taken).2
      by_cases same : j = i
      · subst same
        rcases frame.ring with same | ⟨move, moved⟩
        · rwa [same]
        · exact soFar.tail ⟨.producer move, ⟨move, rfl⟩, moved⟩
      · rwa [frame.rings j same]

theorem panicsIn_eq_some {s : MpscState α} {idx : Nat}
    (within : s.panicsIn .panic = some idx) :
    ∃ call total progress, s.consumer = .inDrain call idx total progress := by
  simp only [panicsIn] at within
  split at within
  · rename_i call found total progress pcEq
    obtain rfl : found = idx := by simpa using within
    exact ⟨call, total, progress, pcEq⟩
  · cases within

theorem othersOnly_consumer {first last : MpscState α}
    (leads : (othersOnly size).Leads first last) : last.consumer = first.consumer := by
  refine leads.invariant (fun s => s.consumer = first.consumer) rfl ?_
  rintro before action after same ⟨others, taken⟩
  cases action with
  | consumer move => exact absurd rfl (others move)
  | signaller k action => exact (signallerStep_frame taken).consumer.trans same
  | producer i action =>
      exact (producerStep_frame (producer_of_step taken).2).consumer.trans same

/-- The channel's unwinding `drain` is the ring's. -/
theorem Unwinds.ring {idx : Nat} {before after : MpscState α}
    (reached : (withinCache size).Reachable before)
    (unwinds : Unwinds size idx before after) :
    RingState.Unwinds size.cap (before.rings idx) (after.rings idx) := by
  obtain ⟨within, panicked, resumed, panics, meanwhile, unwound⟩ := unwinds
  obtain ⟨call, total, progress, pcEq⟩ := panicsIn_eq_some within
  simp only [step, consumerStep, pcEq] at panics
  obtain ⟨ring, panicsRing, rfl⟩ := ringConsumer_eq_some panics
  have ringMeanwhile : (RingState.producerOnly size.cap).Leads ring (resumed.rings idx) := by
    simpa [setRing] using othersOnly_ring meanwhile idx
  obtain ⟨start, head, tail, value, callback, rfl⟩ :=
    RingState.panic_eq_some size.cap panicsRing
  obtain ⟨shared, producer, -⟩ := RingState.invariant (ring_reachable reached idx)
  obtain ⟨-, -, consumerEq, -⟩ := RingState.producerOnly_rely ringMeanwhile
    (shared.sameQueue rfl rfl rfl)
    (RingState.ProducerRely.sameQueue rfl rfl rfl |>.stable producer)
  have ringPc : (resumed.rings idx).consumer.pc = .drainUnwind start tail := by
    rw [consumerEq]
    rfl
  have outerPc : resumed.consumer = .inDrain call idx total progress := by
    rw [othersOnly_consumer meanwhile]
    exact pcEq
  simp only [step, consumerStep, consumerTick, outerPc, ringPc] at unwound
  obtain ⟨last, unwoundRing, rfl⟩ := ringConsumerTick_eq_some unwound
  refine ⟨_, _, (resumed.rings idx).shared.head.latest, panicsRing, ringMeanwhile, ?_⟩
  simpa [setRing, RingState.step] using unwoundRing

theorem reachable_after_unwind {idx : Nat} {before after : MpscState α}
    (reached : (withinCache size).Reachable before)
    (unwinds : Unwinds size idx before after)
    (within : before.panicsWithinCache (.consumer .panic) = true) :
    (withinCache size).Reachable after := by
  obtain ⟨-, panicked, resumed, panics, meanwhile, unwound⟩ := unwinds
  have afterPanic : (withinCache size).Reachable panicked := reached.next ⟨within, panics⟩
  have step : (withinCache size).Step resumed (.consumer .tick) after := ⟨rfl, unwound⟩
  refine System.Reachable.next ?_ step
  refine meanwhile.invariant (withinCache size).Reachable afterPanic ?_
  rintro before action after reached ⟨others, taken⟩
  cases action with
  | consumer move => exact absurd rfl (others move)
  | producer i action | signaller k action => exact reached.next ⟨rfl, taken⟩

theorem usableAfter_iff {idx : Nat} {before after : MpscState α}
    (reached : (withinCache size).Reachable before)
    (unwinds : Unwinds size idx before after) :
    UsableAfter size idx after ↔
      (before.rings idx).panicsWithinCache (.consumer .panic) = true := by
  have inRange := RingState.cacheInRange_after_unwind (ring_reachable reached idx)
    (unwinds.ring reached)
  rw [← inRange]
  refine ⟨fun usable => usable.1, fun holds => ⟨holds, fun last leads i => ?_⟩⟩
  have within : before.panicsWithinCache (.consumer .panic) = true := by
    simpa [panicsWithinCache, unwinds.1] using inRange.mp holds
  exact RingState.exactlyOnce_of_withinCache
    (ring_reachable ((reachable_after_unwind reached unwinds within).leads leads) i)

end MpscState

/-- A panicking callback leaves the consumer usable exactly when it panics at an
item that the cached head covered before the `drain`; in runs whose panics all
do, the ring is exactly-once throughout.  The same holds for each ring of a
many-producer channel. -/
theorem panicked_drain_usable_iff {α : Type*} (cap : Cap) (size : MpscSize) :
    (∀ before after : RingState α, (RingState.withinCache cap).Reachable before →
      RingState.Unwinds cap before after →
        (RingState.UsableAfter cap after ↔
          before.panicsWithinCache (.consumer .panic) = true)) ∧
    (∀ s : RingState α, (RingState.withinCache cap).Reachable s →
      RingState.ExactlyOnce cap s) ∧
    (∀ (before after : MpscState α) (idx : Nat),
      (MpscState.withinCache size).Reachable before →
        MpscState.Unwinds size idx before after →
          (MpscState.UsableAfter size idx after ↔
            (before.rings idx).panicsWithinCache (.consumer .panic) = true)) ∧
    ∀ s : MpscState α, (MpscState.withinCache size).Reachable s →
      ∀ i, RingState.ExactlyOnce size.cap (s.rings i) :=
  ⟨fun _ _ => RingState.usableAfter_iff,
    fun _ => RingState.exactlyOnce_of_withinCache,
    fun _ _ _ => MpscState.usableAfter_iff,
    fun _ reached i => RingState.exactlyOnce_of_withinCache (MpscState.ring_reachable reached i)⟩

namespace RingState

/-- Two items are sent, one is received, and the callback panics at the other,
which the cached head covers since the receive. -/
def coveredPanic : List (RingAction Nat) :=
  [.producer (.trySendBulk [2, 1]), .producer (.tick 0), .producer (.tick 0),
    .producer (.tick 0), .producer (.tick 0), .producer (.tick 0),
    .consumer .tryRecv, .consumer (.tick 1), .consumer (.tick 0), .consumer (.tick 0),
    .consumer (.tick 0), .consumer (.tick 0),
    .consumer .drain, .consumer (.tick 1), .consumer (.tick 0)]

/-- One item is sent and the callback panics at it, before any receive has
refreshed the cached head. -/
def uncoveredPanic : List (RingAction Nat) :=
  [.producer (.trySend 5), .producer (.tick 0), .producer (.tick 0), .producer (.tick 0),
    .producer (.tick 0), .consumer .drain, .consumer (.tick 1), .consumer (.tick 0)]

theorem panicked_drain_usable_coveredPanic :
    ∃ before after : RingState Nat,
      (withinCache ⟨1, by decide⟩).Reachable before ∧
        Unwinds ⟨1, by decide⟩ before after ∧ UsableAfter ⟨1, by decide⟩ after := by
  have ran : (Transition.execute (Transition.guardedStep
      (fun s (action : RingAction Nat) => s.panicsWithinCache action = true)
      fun s action => s.step ⟨1, by decide⟩ action) new coveredPanic).any (fun before =>
        before.panicsWithinCache (.consumer .panic) &&
          (before.step ⟨1, by decide⟩ (.consumer .panic)).any fun panicked =>
            (panicked.step ⟨1, by decide⟩ (.consumer (.tick 0))).isSome) = true := by
    decide
  obtain ⟨before, ran, rest⟩ := Option.any_eq_true _ _ |>.mp ran
  obtain ⟨within, rest⟩ := Bool.and_eq_true_iff.mp rest
  obtain ⟨panicked, panics, rest⟩ := Option.any_eq_true _ _ |>.mp rest
  obtain ⟨after, unwound⟩ := Option.isSome_iff_exists.mp rest
  have reached : (withinCache ⟨1, by decide⟩).Reachable before :=
    System.reachable_of_guarded_execute rfl ran
  have unwinds : Unwinds ⟨1, by decide⟩ before after :=
    ⟨panicked, panicked, 0, panics, Relation.ReflTransGen.refl, unwound⟩
  refine ⟨before, after, reached, unwinds, ?_⟩
  exact ((panicked_drain_usable_iff ⟨1, by decide⟩ ⟨⟨1, by decide⟩, 1, by decide, by decide⟩).1
    before after reached unwinds).mpr within

/-- After that panic the next `try_recv` takes the stale cached head for a
nonempty ring and reads a slot nothing was ever written to. -/
theorem panicked_drain_misreads :
    ∃ before after last : RingState Nat,
      (withinCache ⟨1, by decide⟩).Reachable before ∧
        Unwinds ⟨1, by decide⟩ before after ∧ ¬ after.CacheInRange ∧
          (calm ⟨1, by decide⟩).Leads after last ∧ last.shared.lane.misread = true := by
  have ran : (Transition.execute (Transition.guardedStep
      (fun s (action : RingAction Nat) => s.panicsWithinCache action = true)
      fun s action => s.step ⟨1, by decide⟩ action) new uncoveredPanic).any (fun before =>
        (before.step ⟨1, by decide⟩ (.consumer .panic)).any fun panicked =>
          (panicked.step ⟨1, by decide⟩ (.consumer (.tick 0))).any fun after =>
            !decide (Between after.shared.tail.current after.consumer.cachedHead
              after.shared.head.current) &&
            (Transition.execute (Transition.guardedStep
              (fun _ (action : RingAction Nat) => isPanic action = false)
              fun s action => s.step ⟨1, by decide⟩ action) after
                [.consumer (.tick 0), .consumer .tryRecv, .consumer (.tick 0)]).any
                  fun last => last.shared.lane.misread) = true := by
    decide
  obtain ⟨before, ran, rest⟩ := Option.any_eq_true _ _ |>.mp ran
  obtain ⟨panicked, panics, rest⟩ := Option.any_eq_true _ _ |>.mp rest
  obtain ⟨after, unwound, rest⟩ := Option.any_eq_true _ _ |>.mp rest
  obtain ⟨outOfRange, rest⟩ := Bool.and_eq_true_iff.mp rest
  obtain ⟨last, used, misread⟩ := Option.any_eq_true _ _ |>.mp rest
  refine ⟨before, after, last, System.reachable_of_guarded_execute rfl ran,
    ⟨panicked, panicked, 0, panics, Relation.ReflTransGen.refl, unwound⟩,
    by simpa [CacheInRange] using outOfRange, ?_, misread⟩
  rw [calm, system, System.guarded_ofFunction]
  exact System.leads_of_execute used

end RingState

end ArbitroKit
