import ArbitroKit.MpmcDelivery

/-!
# Shards whose consumer is gone

`live_consumers` is one count for all shards, so a producer does not see which
shard has lost its consumer: it routes to any shard whose ring has room.  What
keeps an item readable is therefore only that the shards without a consumer
happen to be full, and that a consumer which goes leaves none behind.
-/

namespace ArbitroKit

open SlotLane Cyclic Transition

namespace MpmcState

variable {α : Type*} {size : MpmcSize} {s after : MpmcState α} {shard p : Nat}

/-- Some consumer is still there. -/
def someAlive (size : MpmcSize) (s : MpmcState α) : Bool :=
  (List.range size.n).any fun shard => !s.dropped shard

/-- Some consumer is still there, the shard's own not counted. -/
def otherAlive (size : MpmcSize) (s : MpmcState α) (shard : Nat) : Bool :=
  (List.range size.n).any fun other => other != shard && !s.dropped other

/-- The shard whose room a call is about to check. -/
def looksAt (size : MpmcSize) : MpmcProducerPc α → Option Nat
  | .scan _ _ start k => some ((start + k) % size.n)
  | .batchScan _ start k => some ((start + k) % size.n)
  | _ => none

/-- The shard a call has found room in and has not published to yet. -/
def placing : MpmcProducerPc α → Option Nat
  | .write _ _ shard _ => some shard
  | .publish _ _ shard _ => some shard
  | .batchWrite _ shard _ _ _ => some shard
  | .batchPublish _ shard _ _ => some shard
  | _ => none

/-- The shard a call is about to acknowledge items in, and how many. -/
def acknowledging : MpmcProducerPc α → Option (Nat × Nat)
  | .wakeConsumer _ _ shard => some (shard, 1)
  | .batchWake _ shard written => some (shard, written.length)
  | _ => none

/-- The items producer `p` sent to the shard that were acknowledged after a consumer was
dropped and have not been received. -/
def lateItems (s : MpmcState α) (shard p : Nat) : List α :=
  ((s.rings shard p).lane.sent.take (s.history.acked shard p)).drop
    (max (s.history.ackedAtDrop shard p) (s.rings shard p).lane.received.length)

/-- No call places an item in a shard whose consumer was gone when it began, and what
was acknowledged after a drop can still be received, whenever its call began. -/
structure LateItemsReachable (size : MpmcSize) (s : MpmcState α) : Prop where
  placed : ∀ shard, ∀ p < size.m, s.history.deadOnArrival shard p = false
  unread : ∀ shard < size.n, s.dropped shard = true → ∀ p < size.m, s.lateItems shard p = []

/-- Producer `p` loses nothing it was acknowledged after a drop when the shard's consumer
goes: no such item is left in the shard, and no running call is on its way to
acknowledging one there. -/
def leavesNothing (size : MpmcSize) (s : MpmcState α) (shard p : Nat) : Bool :=
  (!anyDropped size s.dropped || (s.lateItems shard p).isEmpty) &&
    placing (s.producers p).pc != some shard &&
    match acknowledging (s.producers p).pc with
    | some (there, count) =>
        there != shard || decide
          (s.history.acked shard p + count ≤ (s.rings shard p).lane.received.length)
    | none => true

/-- While a consumer is left: a call that checks the room of a shard without a consumer
finds its ring there full, and a consumer that is dropped leaves nothing behind. -/
def spares (size : MpmcSize) (s : MpmcState α) : MpmcAction α → Bool
  | .producer p .tick =>
      match looksAt size (s.producers p).pc with
      | some shard => !s.someAlive size || !s.dropped shard || s.full size shard p
      | none => true
  | .consumer shard .tick =>
      match s.consumers shard with
      | .fetchSub =>
          !s.otherAlive size shard || (List.range size.m).all (s.leavesNothing size shard)
      | _ => true
  | _ => true

/-- The runs whose steps all meet that condition. -/
def sparing (size : MpmcSize) : System (MpmcState α) (MpmcAction α) :=
  (system size).guarded fun s action => s.spares size action = true

/-! ### Consumers that are gone -/

theorem dropped_congr (same : after.consumers = s.consumers) : after.dropped = s.dropped := by
  funext shard
  rw [dropped, dropped, same]

theorem someAlive_iff : s.someAlive size = true ↔ ∃ shard < size.n, s.dropped shard = false := by
  simp [someAlive, List.any_eq_true, List.mem_range]

theorem otherAlive_iff : s.otherAlive size shard = true ↔
    ∃ other < size.n, other ≠ shard ∧ s.dropped other = false := by
  simp [otherAlive, List.any_eq_true, List.mem_range]

/-- Only the last step of a handle changes which consumers are gone, and a consumer that
is gone touches no ring. -/
theorem dropped_of_consumerStep {action : MpmcConsumerAction}
    (taken : s.consumerStep size shard action = some after)
    (stays : s.consumers shard ≠ .fetchSub) :
    after.dropped = s.dropped ∧ (s.dropped shard = true → after.rings = s.rings) := by
  have dropped_eq (same : after.dropped shard = s.dropped shard) :
      after.dropped = s.dropped := by
    funext here
    by_cases there : here = shard
    · rw [there, same]
    · rw [dropped, dropped, (consumerStep_frame taken).consumers here there]
  cases pcEq : s.consumers shard with
  | running frames =>
      have running : ∃ next, after.consumers shard = .running next ∨
          action = .drop ∧ after.consumers shard = .fetchSub := by
        cases action with
        | tick =>
            cases frames with
            | nil => simp [consumerStep, consumerTick, pcEq] at taken
            | cons frame rest =>
                simp only [consumerStep, consumerTick, pcEq] at taken
                rcases frameTick_stack taken with popped | ⟨next, moved⟩
                · exact ⟨_, .inl popped⟩
                · exact ⟨_, .inl moved⟩
        | tryRecv | recv | tryRecvBatch | recvBatch =>
            simp only [consumerStep, call, pcEq] at taken
            split at taken <;> cases taken
            exact ⟨_, .inl (consumers_consumerAt ..)⟩
        | drop =>
            simp only [consumerStep, pcEq] at taken
            split at taken <;> cases taken
            exact ⟨[], .inr ⟨rfl, consumers_consumerAt ..⟩⟩
        | panic | spin | spurious =>
            simp only [consumerStep, pcEq] at taken
            split at taken <;> cases taken
            exact ⟨_, .inl (consumers_consumerAt ..)⟩
      have alive : s.dropped shard = false := by rw [dropped, pcEq]
      refine ⟨dropped_eq ?_, fun gone => ?_⟩
      · obtain ⟨next, moved | ⟨-, moved⟩⟩ := running <;> rw [alive, dropped, moved]
      · rw [alive] at gone
        cases gone
  | fetchSub => exact absurd pcEq stays
  | wakeLast q =>
      have before : s.dropped shard = true := by rw [dropped, pcEq]
      cases action with
      | tick =>
          simp only [consumerStep, consumerTick, pcEq] at taken
          split at taken <;> cases taken <;>
            exact ⟨dropped_eq (by rw [before, dropped, consumers_consumerAt]), fun _ => rfl⟩
      | _ => simp [consumerStep, call, pcEq] at taken
  | gone => cases action <;> simp [consumerStep, consumerTick, call, pcEq] at taken

/-- The last step of a handle. -/
theorem dropped_of_fetchSub {action : MpmcConsumerAction}
    (taken : s.consumerStep size shard action = some after)
    (pcEq : s.consumers shard = .fetchSub) :
    action = .tick ∧ after.rings = s.rings ∧ after.history = (s.noteDrop size).history ∧
      (∀ here, after.dropped here = true → here = shard ∨ s.dropped here = true) ∧
        ∀ here, s.dropped here = true → after.dropped here = true := by
  have frame := consumerStep_frame taken
  cases action with
  | tick =>
      simp only [consumerStep, consumerTick, pcEq] at taken
      refine ⟨rfl, ?_, ?_, fun here gone => ?_, fun here gone => ?_⟩
      · split at taken <;> cases taken <;> rfl
      · split at taken <;> cases taken <;> rfl
      · by_cases same : here = shard
        · exact .inl same
        · rw [dropped, frame.consumers here same] at gone
          exact .inr gone
      · by_cases same : here = shard
        · subst same
          rw [dropped, pcEq] at gone
          cases gone
        · rwa [dropped, frame.consumers here same]
  | _ => simp [consumerStep, call, pcEq] at taken

/-! ### Where a producer places its items -/

/-- What a step of producer `p` does about placing: it finds room in the shard it looks
at, or goes on with a shard it found room in; only there does it touch a ring, publish
and acknowledge. -/
structure Places (size : MpmcSize) (p : Nat) (before after : MpmcState α) : Prop where
  goneAtStart : (after.producers p).goneAtStart = (before.producers p).goneAtStart
  placing : ∀ shard, placing (after.producers p).pc = some shard →
    placing (before.producers p).pc = some shard ∨
      looksAt size (before.producers p).pc = some shard ∧ before.full size shard p = false
  acknowledging : ∀ shard count, acknowledging (after.producers p).pc = some (shard, count) →
    MpmcState.placing (before.producers p).pc = some shard
  rings : ∀ shard, MpmcState.placing (before.producers p).pc ≠ some shard →
    ∀ q, after.rings shard q = before.rings shard q
  acked : after.history.acked = before.history.acked ∨ ∃ shard count,
    MpmcState.acknowledging (before.producers p).pc = some (shard, count) ∧
      after.history.acked =
        setEntry before.history.acked shard p (before.history.acked shard p + count)
  ackedAtDrop : after.history.ackedAtDrop = before.history.ackedAtDrop
  dead : after.history.deadOnArrival = before.history.deadOnArrival ∨
    ∃ shard, MpmcState.placing (before.producers p).pc = some shard ∧
      after.history.deadOnArrival = (before.notePlaced shard p).history.deadOnArrival

theorem nowhere_sendRejected (call : MpmcSendCall) (value : α) :
    placing (sendRejected call value) = none ∧ acknowledging (sendRejected call value) = none := by
  cases call <;> exact ⟨rfl, rfl⟩

theorem nowhere_sendWaited (phase : WaitPhase) (ready : Bool) (value : α) :
    placing (sendWaited phase ready value) = none ∧
      acknowledging (sendWaited phase ready value) = none := by
  cases phase <;> cases ready <;> exact ⟨rfl, rfl⟩

/-- A step that leaves the call without a shard to place in. -/
theorem places_nowhere {moved : MpmcState α} {pc : MpmcProducerPc α}
    (nowhere : placing pc = none ∧ acknowledging pc = none)
    (goneAtStart : (moved.producers p).goneAtStart = (s.producers p).goneAtStart)
    (rings : moved.rings = s.rings) (acked : moved.history.acked = s.history.acked)
    (ackedAtDrop : moved.history.ackedAtDrop = s.history.ackedAtDrop)
    (dead : moved.history.deadOnArrival = s.history.deadOnArrival) :
    Places size p s (moved.producerAt p pc) where
  goneAtStart := by rw [producers_producerAt, goneAtStart]
  placing shard there := by
    rw [producers_producerAt, nowhere.1] at there
    cases there
  acknowledging shard count there := by
    rw [producers_producerAt, nowhere.2] at there
    cases there
  rings shard _ q := by rw [rings_producerAt, rings]
  acked := .inl acked
  ackedAtDrop := ackedAtDrop
  dead := .inl dead

/-- The step that finds room. -/
theorem places_found {pc : MpmcProducerPc α}
    (looks : looksAt size (s.producers p).pc = some shard) (room : s.full size shard p = false)
    (there : placing pc = some shard ∧ acknowledging pc = none) :
    Places size p s (s.producerAt p pc) where
  goneAtStart := by rw [producers_producerAt]
  placing here place := by
    rw [producers_producerAt, there.1] at place
    cases place
    exact .inr ⟨looks, room⟩
  acknowledging here count placed := by
    rw [producers_producerAt, there.2] at placed
    cases placed
  rings _ _ _ := rfl
  acked := .inl rfl
  ackedAtDrop := rfl
  dead := .inl rfl

/-- A slot is written in the shard room was found in. -/
theorem places_write {ring : PRing α} {pc : MpmcProducerPc α}
    (before : placing (s.producers p).pc = some shard)
    (there : placing pc = some shard ∧ acknowledging pc = none) :
    Places size p s ((s.setRing shard p ring).producerAt p pc) where
  goneAtStart := by rw [producers_producerAt]; rfl
  placing here place := by
    rw [producers_producerAt, there.1] at place
    cases place
    exact .inl before
  acknowledging here count placed := by
    rw [producers_producerAt, there.2] at placed
    cases placed
  rings here other q :=
    rings_setRing_of_ne s ring (.inl fun same => other (same ▸ before))
  acked := .inl rfl
  ackedAtDrop := rfl
  dead := .inl rfl

/-- The shard room was found in is published to. -/
theorem places_publish {ring : PRing α} {pc : MpmcProducerPc α} {count : Nat}
    (before : placing (s.producers p).pc = some shard)
    (there : placing pc = none ∧ acknowledging pc = some (shard, count)) :
    Places size p s (((s.setRing shard p ring).notePlaced shard p).producerAt p pc) where
  goneAtStart := by rw [producers_producerAt]; rfl
  placing here place := by
    rw [producers_producerAt, there.1] at place
    cases place
  acknowledging here more placed := by
    rw [producers_producerAt, there.2] at placed
    cases placed
    exact before
  rings here other q :=
    rings_setRing_of_ne s ring (.inl fun same => other (same ▸ before))
  acked := .inl rfl
  ackedAtDrop := rfl
  dead := .inr ⟨shard, before, rfl⟩

/-- What was published is acknowledged. -/
theorem places_acknowledge {values : List α} {outcome : MpmcSendOutcome α}
    (before : acknowledging (s.producers p).pc = some (shard, values.length)) :
    Places size p s ((((s.wakeConsumer shard).advanceCursor size p shard).acknowledge shard p
      values).producerAt p (.returned outcome)) where
  goneAtStart := by
    rw [producers_producerAt]
    simp [acknowledge, advanceCursor, wakeConsumer, setConsumerWaiter, setProducer]
  placing here place := by
    rw [producers_producerAt] at place
    cases place
  acknowledging here count placed := by
    rw [producers_producerAt] at placed
    cases placed
  rings _ _ _ := rfl
  acked := .inr ⟨shard, values.length, before, rfl⟩
  ackedAtDrop := rfl
  dead := .inl rfl

theorem producerTick_places (taken : s.producerTick size p = some after) :
    Places size p s after := by
  unfold producerTick at taken
  cases pcEq : (s.producers p).pc with
  | idle | gone => simp [pcEq] at taken
  | sendShutdown value | sendLive value =>
      simp only [pcEq] at taken
      split at taken <;> cases taken <;> exact places_nowhere ⟨rfl, rfl⟩ rfl rfl rfl rfl rfl
  | loadShutdown call value | loadLive call value =>
      simp only [pcEq] at taken
      split at taken <;> cases taken
      · exact places_nowhere (nowhere_sendRejected _ _) rfl rfl rfl rfl rfl
      · exact places_nowhere ⟨rfl, rfl⟩ rfl rfl rfl rfl rfl
  | waitShutdown phase value =>
      simp only [pcEq] at taken
      split at taken <;> cases taken
      · exact places_nowhere (nowhere_sendWaited _ _ _) rfl rfl rfl rfl rfl
      · exact places_nowhere ⟨rfl, rfl⟩ rfl rfl rfl rfl rfl
  | scan call value start k =>
      simp only [pcEq] at taken
      split at taken
      · split at taken <;> cases taken
        · exact places_nowhere ⟨rfl, rfl⟩ rfl rfl rfl rfl rfl
        · exact places_nowhere (nowhere_sendRejected _ _) rfl rfl rfl rfl rfl
      · rename_i room
        cases taken
        exact places_found (by rw [pcEq]; rfl) (by simpa using room) ⟨rfl, rfl⟩
  | batchScan items start k =>
      simp only [pcEq] at taken
      split at taken
      · split at taken <;> cases taken <;>
          exact places_nowhere ⟨rfl, rfl⟩ rfl rfl rfl rfl rfl
      · rename_i room
        cases taken
        exact places_found (by rw [pcEq]; rfl) (by simpa using room) ⟨rfl, rfl⟩
  | waitIdle phase value shard =>
      simp only [pcEq] at taken
      split at taken
      · split at taken <;> cases taken <;>
          exact places_nowhere ⟨rfl, rfl⟩ rfl rfl rfl rfl rfl
      · cases taken
        exact places_nowhere (nowhere_sendWaited _ _ _) rfl rfl rfl rfl rfl
  | waitLive phase value =>
      simp only [pcEq, Option.some.injEq] at taken
      subst taken
      exact places_nowhere (nowhere_sendWaited _ _ _) rfl rfl rfl rfl rfl
  | returned outcome =>
      simp only [pcEq, Option.some.injEq] at taken
      subst taken
      exact places_nowhere ⟨rfl, rfl⟩ rfl rfl rfl rfl rfl
  | write call value shard head =>
      simp only [pcEq, Option.some.injEq] at taken
      subst taken
      exact places_write (by rw [pcEq]; rfl) ⟨rfl, rfl⟩
  | publish call value shard head =>
      simp only [pcEq, Option.some.injEq] at taken
      subst taken
      exact places_publish (by rw [pcEq]; rfl) ⟨rfl, rfl⟩
  | batchWrite items shard head left written =>
      simp only [pcEq] at taken
      split at taken
      · cases taken
      · split at taken <;> cases taken <;> exact places_write (by rw [pcEq]; rfl) ⟨rfl, rfl⟩
  | batchPublish items shard head written =>
      simp only [pcEq, Option.some.injEq] at taken
      subst taken
      exact places_publish (by rw [pcEq]; rfl) ⟨rfl, rfl⟩
  | wakeConsumer call value shard | batchWake items shard written =>
      simp only [pcEq, Option.some.injEq] at taken
      subst taken
      exact places_acknowledge (by rw [pcEq]; rfl)
  | waitAnnounce value | waitLeave value =>
      simp only [pcEq, Option.some.injEq] at taken
      subst taken
      exact places_nowhere ⟨rfl, rfl⟩ rfl rfl rfl rfl rfl
  | waitPark value =>
      simp only [pcEq] at taken
      split at taken <;> cases taken
      exact places_nowhere ⟨rfl, rfl⟩ rfl rfl rfl rfl rfl
  | fetchSub =>
      simp only [pcEq] at taken
      split at taken <;> cases taken
      · refine places_nowhere ⟨rfl, rfl⟩ ?_ ?_ ?_ ?_ ?_ <;> unfold noteTerminal <;> split <;> rfl
      · exact places_nowhere ⟨rfl, rfl⟩ rfl rfl rfl rfl rfl
  | wakeLast shard =>
      simp only [pcEq] at taken
      split at taken <;> cases taken <;> exact places_nowhere ⟨rfl, rfl⟩ rfl rfl rfl rfl rfl

/-! ### Every step -/

/-- As long as a consumer is left, the calls keep off the shards without a consumer, and
what they are about to acknowledge there has been received. -/
structure DeadShardOk (size : MpmcSize) (s : MpmcState α) : Prop where
  gone : ∀ p shard, (s.producers p).goneAtStart shard = true → s.dropped shard = true
  avoids : s.someAlive size = true → ∀ p < size.m, ∀ shard,
    placing (s.producers p).pc = some shard → s.dropped shard = false
  acks : s.someAlive size = true → ∀ p < size.m, ∀ shard count,
    acknowledging (s.producers p).pc = some (shard, count) → s.dropped shard = true →
      s.history.acked shard p + count ≤ (s.rings shard p).lane.received.length
  reachable : s.someAlive size = true → LateItemsReachable size s

theorem someAlive_congr (same : after.dropped = s.dropped) :
    after.someAlive size = s.someAlive size := by
  rw [someAlive, someAlive, same]

theorem lateItems_congr (rings : after.rings shard p = s.rings shard p)
    (acked : after.history.acked shard p = s.history.acked shard p)
    (ackedAtDrop : after.history.ackedAtDrop = s.history.ackedAtDrop) :
    after.lateItems shard p = s.lateItems shard p := by
  rw [lateItems, rings, acked, ackedAtDrop, lateItems]

theorem lateItems_eq_nil (le : s.history.acked shard p ≤
    max (s.history.ackedAtDrop shard p) (s.rings shard p).lane.received.length) :
    s.lateItems shard p = [] :=
  List.drop_eq_nil_of_le ((List.length_take_le ..).trans le)

/-- A step that leaves the gone consumers, their rings and the acknowledged items. -/
theorem DeadShardOk.carried (ok : DeadShardOk size s) (dropped : after.dropped = s.dropped)
    (producers : after.producers = s.producers)
    (rings : ∀ shard, s.dropped shard = true → after.rings shard = s.rings shard)
    (acked : after.history.acked = s.history.acked)
    (ackedAtDrop : after.history.ackedAtDrop = s.history.ackedAtDrop)
    (dead : after.history.deadOnArrival = s.history.deadOnArrival) : DeadShardOk size after := by
  refine ⟨?_, ?_, fun alive q bound shard count there gone => ?_,
    fun alive => ⟨?_, fun shard inside gone q bound => ?_⟩⟩
  · rw [producers, dropped]
    exact ok.gone
  · rw [someAlive_congr dropped, producers, dropped]
    exact ok.avoids
  · rw [someAlive_congr dropped] at alive
    rw [producers] at there
    rw [dropped] at gone
    rw [acked, rings shard gone]
    exact ok.acks alive q bound shard count there gone
  · rw [someAlive_congr dropped] at alive
    rw [dead]
    exact (ok.reachable alive).placed
  · rw [someAlive_congr dropped] at alive
    rw [dropped] at gone
    rw [lateItems_congr (congrFun (rings shard gone) q) (by rw [acked]) ackedAtDrop]
    exact (ok.reachable alive).unread shard inside gone q bound

/-- A call of producer `p` begins, or goes on after sleeping. -/
theorem DeadShardOk.setProducer (ok : DeadShardOk size s) {producer : MpmcProducer α}
    (nowhere : MpmcState.placing producer.pc = none ∧
      MpmcState.acknowledging producer.pc = none)
    (gone : ∀ shard, producer.goneAtStart shard = true → s.dropped shard = true) :
    DeadShardOk size (s.setProducer p producer) := by
  have producers (q : Nat) : (s.setProducer p producer).producers q = producer ∧ q = p ∨
      (s.setProducer p producer).producers q = s.producers q := by
    by_cases same : q = p
    · subst same
      exact .inl ⟨Function.update_self .., rfl⟩
    · exact .inr (Function.update_of_ne same ..)
  refine ⟨fun q shard before => ?_, fun alive q bound shard there => ?_,
    fun alive q bound shard count there => ?_,
    fun alive => ⟨(ok.reachable alive).placed, (ok.reachable alive).unread⟩⟩
  · rcases producers q with ⟨same, -⟩ | same <;> rw [same] at before
    · exact gone shard before
    · exact ok.gone q shard before
  · rcases producers q with ⟨same, -⟩ | same <;> rw [same] at there
    · rw [nowhere.1] at there
      cases there
    · exact ok.avoids alive q bound shard there
  · rcases producers q with ⟨same, -⟩ | same <;> rw [same] at there
    · rw [nowhere.2] at there
      cases there
    · exact ok.acks alive q bound shard count there

theorem DeadShardOk.producerTick (ok : DeadShardOk size s) (bound : p < size.m)
    (spares : s.spares size (.producer p .tick) = true)
    (taken : s.producerTick size p = some after) : DeadShardOk size after := by
  have frame := producerTick_frame taken
  have places := producerTick_places taken
  have dropped : after.dropped = s.dropped := dropped_congr frame.consumers
  -- a shard without a consumer is not the one the call works in
  have apart (alive : s.someAlive size = true) {shard : Nat} (gone : s.dropped shard = true) :
      MpmcState.placing (s.producers p).pc ≠ some shard := fun there => by
    have left := ok.avoids alive p bound shard there
    rw [gone] at left
    cases left
  have others (q : Nat) (other : q ≠ p) (shard : Nat) :
      after.history.acked shard q = s.history.acked shard q := frame.acked shard q other
  refine ⟨fun q shard before => ?_, fun alive q inside shard there => ?_,
    fun alive q inside shard count there gone => ?_,
    fun alive => ⟨fun shard q inside => ?_, fun shard within gone q inside => ?_⟩⟩
  · rw [dropped]
    by_cases same : q = p
    · subst same
      exact ok.gone q shard (by rwa [places.goneAtStart] at before)
    · exact ok.gone q shard (by rwa [frame.producers q same] at before)
  · rw [someAlive_congr dropped] at alive
    rw [dropped]
    by_cases same : q = p
    · subst same
      rcases places.placing shard there with before | ⟨looks, room⟩
      · exact ok.avoids alive q inside shard before
      · simpa [MpmcState.spares, looks, alive, room] using spares
    · exact ok.avoids alive q inside shard (by rwa [frame.producers q same] at there)
  · rw [someAlive_congr dropped] at alive
    rw [dropped] at gone
    by_cases same : q = p
    · subst same
      exact absurd (places.acknowledging shard count there) (apart alive gone)
    · rw [frame.producers q same] at there
      rw [others q same, places.rings shard (apart alive gone)]
      exact ok.acks alive q inside shard count there gone
  · rw [someAlive_congr dropped] at alive
    have placed := (ok.reachable alive).placed shard q inside
    rcases places.dead with dead | ⟨here, there, dead⟩ <;> rw [dead]
    · exact placed
    · by_cases same : shard = here ∧ q = p
      · obtain ⟨rfl, rfl⟩ := same
        simp only [notePlaced, setEntry_self, placed, Bool.false_or]
        exact Bool.eq_false_iff.mpr fun before =>
          apart alive (ok.gone q shard before) there
      · simp only [notePlaced]
        rw [setEntry_of_ne (Decidable.not_and_iff_or_not.mp same)]
        exact placed
  · rw [someAlive_congr dropped] at alive
    rw [dropped] at gone
    have unread := (ok.reachable alive).unread shard within gone q inside
    have ring := places.rings shard (apart alive gone) q
    rcases places.acked with acked | ⟨here, count, there, acked⟩
    · rwa [lateItems_congr ring (by rw [acked]) places.ackedAtDrop]
    · by_cases same : shard = here ∧ q = p
      · obtain ⟨rfl, rfl⟩ := same
        refine lateItems_eq_nil (le_max_of_le_right ?_)
        rw [acked, setEntry_self, ring]
        exact ok.acks alive q inside shard count there gone
      · have quiet : after.history.acked shard q = s.history.acked shard q := by
          rw [acked, setEntry_of_ne (Decidable.not_and_iff_or_not.mp same)]
        rwa [lateItems_congr ring quiet places.ackedAtDrop]

theorem DeadShardOk.producerStep (ok : DeadShardOk size s) (bound : p < size.m)
    {action : MpmcProducerAction α} (spares : s.spares size (.producer p action) = true)
    (taken : s.producerStep size p action = some after) : DeadShardOk size after := by
  cases action with
  | tick => exact ok.producerTick bound spares taken
  | trySend value | send value =>
      simp only [MpmcState.producerStep] at taken
      split at taken <;> cases taken
      exact ok.setProducer ⟨rfl, rfl⟩ fun _ gone => gone
  | trySendBatch items =>
      simp only [MpmcState.producerStep] at taken
      split at taken
      · split at taken <;> cases taken <;> exact ok.setProducer ⟨rfl, rfl⟩ fun _ gone => gone
      · cases taken
  | drop | spin | spurious =>
      simp only [MpmcState.producerStep] at taken
      split at taken <;> cases taken
      exact ok.setProducer ⟨rfl, rfl⟩ fun shard before => ok.gone p shard before

theorem mem_leavesNothing (leaves : s.leavesNothing size shard p = true) :
    (anyDropped size s.dropped = true → s.lateItems shard p = []) ∧
      placing (s.producers p).pc ≠ some shard ∧
        ∀ count, acknowledging (s.producers p).pc = some (shard, count) →
          s.history.acked shard p + count ≤ (s.rings shard p).lane.received.length := by
  simp only [leavesNothing, Bool.and_eq_true, Bool.or_eq_true, Bool.not_eq_true',
    List.isEmpty_iff, bne_iff_ne] at leaves
  obtain ⟨⟨late, placing⟩, acks⟩ := leaves
  refine ⟨fun any => ?_, placing, fun count there => ?_⟩
  · rcases late with none | empty
    · rw [any] at none
      cases none
    · exact empty
  · rw [there] at acks
    simpa using acks

/-- A consumer goes that leaves nothing behind, or is the last one. -/
theorem DeadShardOk.fetchSub (ok : DeadShardOk size s) {action : MpmcConsumerAction}
    (spares : s.spares size (.consumer shard action) = true)
    (taken : s.consumerStep size shard action = some after)
    (pcEq : s.consumers shard = .fetchSub) : DeadShardOk size after := by
  obtain ⟨rfl, rings, history, went, grown⟩ := dropped_of_fetchSub taken pcEq
  have producers := (consumerStep_frame taken).producers
  have acked : after.history.acked = s.history.acked := by rw [history]; rfl
  have earlier (alive : after.someAlive size = true) : s.someAlive size = true := by
    obtain ⟨here, bound, left⟩ := someAlive_iff.mp alive
    refine someAlive_iff.mpr ⟨here, bound, Bool.eq_false_iff.mpr fun gone => ?_⟩
    rw [grown here gone] at left
    cases left
  have leaves (alive : after.someAlive size = true) (q : Nat) (bound : q < size.m) :
      s.leavesNothing size shard q = true := by
    obtain ⟨other, inside, left⟩ := someAlive_iff.mp alive
    have itself : after.dropped shard = true := by
      simp only [MpmcState.consumerStep, consumerTick, pcEq] at taken
      split at taken <;> cases taken <;> rw [dropped, consumers_consumerAt]
    have ne : other ≠ shard := fun same => by rw [same, itself] at left; cases left
    have others : s.otherAlive size shard = true :=
      otherAlive_iff.mpr ⟨other, inside, ne, Bool.eq_false_iff.mpr fun gone => by
        rw [grown other gone] at left
        cases left⟩
    simp only [MpmcState.spares, pcEq, others, Bool.not_true, Bool.false_or, List.all_eq_true,
      List.mem_range] at spares
    exact spares q bound
  refine ⟨fun q here before => ?_, fun alive q bound here there => ?_,
    fun alive q bound here count there gone => ?_,
    fun alive => ⟨fun here q bound => ?_, fun here inside gone q bound => ?_⟩⟩
  · rw [producers] at before
    exact grown here (ok.gone q here before)
  · rw [producers] at there
    refine Bool.eq_false_iff.mpr fun gone => ?_
    rcases went here gone with rfl | before
    · exact (mem_leavesNothing (leaves alive q bound)).2.1 there
    · rw [ok.avoids (earlier alive) q bound here there] at before
      cases before
  · rw [producers] at there
    rw [acked, rings]
    rcases went here gone with rfl | before
    · exact (mem_leavesNothing (leaves alive q bound)).2.2 count there
    · exact ok.acks (earlier alive) q bound here count there before
  · rw [history]
    exact (ok.reachable (earlier alive)).placed here q bound
  · by_cases any : anyDropped size s.dropped = true
    · have noted : after.history.ackedAtDrop = s.history.ackedAtDrop := by
        rw [history]
        exact if_pos any
      rw [lateItems_congr (congrFun (congrFun rings here) q) (by rw [acked]) noted]
      rcases went here gone with rfl | before
      · exact (mem_leavesNothing (leaves alive q bound)).1 any
      · exact (ok.reachable (earlier alive)).unread here inside before q bound
    · have noted : after.history.ackedAtDrop = s.history.acked := by
        rw [history]
        exact if_neg any
      refine lateItems_eq_nil (le_max_of_le_left ?_)
      rw [acked, noted]

theorem DeadShardOk.consumerStep (ok : DeadShardOk size s) {action : MpmcConsumerAction}
    (spares : s.spares size (.consumer shard action) = true)
    (taken : s.consumerStep size shard action = some after) : DeadShardOk size after := by
  by_cases pcEq : s.consumers shard = .fetchSub
  · exact ok.fetchSub spares taken pcEq
  · have frame := consumerStep_frame taken
    obtain ⟨dropped, rings⟩ := dropped_of_consumerStep taken pcEq
    refine ok.carried dropped frame.producers (fun here gone => ?_) frame.acked
      (frame.ackedAtDrop pcEq) frame.deadOnArrival
    by_cases same : here = shard
    · subst same
      rw [rings gone]
    · exact frame.rings here same

theorem DeadShardOk.signallerStep (ok : DeadShardOk size s) {k : Nat} {action : MpmcSignalAction}
    (taken : s.signallerStep size k action = some after) : DeadShardOk size after := by
  have frame := signallerStep_frame taken
  exact ok.carried (dropped_congr frame.consumers) frame.producers (fun _ _ => by rw [frame.rings])
    frame.acked frame.ackedAtDrop frame.deadOnArrival

end MpmcState

end ArbitroKit
