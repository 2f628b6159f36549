import ArbitroKit.MpmcFacts

/-!
# Producers of the sharded channel

A step of a producer keeps the rings in order and its own facts, and shows the
consumers nothing but more published values.
-/

namespace ArbitroKit

open SlotLane Cyclic Transition

namespace MpmcState

variable {α : Type*} {size : MpmcSize} {s after : MpmcState α} {p : Nat}

@[simp]
theorem producers_producerAt (s : MpmcState α) (p : Nat) (pc : MpmcProducerPc α) :
    (s.producerAt p pc).producers p = { s.producers p with pc := pc } := by
  simp [producerAt, setProducer]

@[simp]
theorem rings_producerAt (s : MpmcState α) (p : Nat) (pc : MpmcProducerPc α) :
    (s.producerAt p pc).rings = s.rings := rfl

@[simp]
theorem producers_begin (s : MpmcState α) (p : Nat) (pc : MpmcProducerPc α) :
    (s.begin p pc).producers p =
      { s.producers p with pc := pc, goneAtStart := s.dropped } := by
  simp [begin, setProducer]

@[simp]
theorem rings_noteTerminal (s : MpmcState α) : s.noteTerminal.rings = s.rings := by
  unfold noteTerminal
  split <;> rfl

@[simp]
theorem producers_noteTerminal (s : MpmcState α) : s.noteTerminal.producers = s.producers := by
  unfold noteTerminal
  split <;> rfl

theorem mod_lt (size : MpmcSize) (index : Nat) : index % size.n < size.n :=
  Nat.mod_lt _ size.n_pos

/-- The producer goes on without touching a ring. -/
theorem ProducerOk.goto (ok : ProducerOk size s p) (rings : after.rings = s.rings)
    (accepted : (after.producers p).accepted = (s.producers p).accepted)
    (quiet : ∀ shard, ahead shard (after.producers p).pc = ahead shard (s.producers p).pc)
    (same : unreported (after.producers p).pc = unreported (s.producers p).pc)
    (acked : ∀ shard, after.history.acked shard p + unacked shard (after.producers p).pc =
      s.history.acked shard p + unacked shard (s.producers p).pc)
    (here : ProducerAt size (fun shard => (s.rings shard p).lane) (after.producers p).pc) :
    ProducerOk size after p where
  here := by
    rw [rings]
    exact here
  written shard := by
    rw [rings, quiet]
    exact ok.written shard
  reported := by
    rw [rings, accepted, same]
    exact ok.reported
  acked shard := by
    rw [rings, acked]
    exact ok.acked shard

/-- Publishing in one ring adds to what was sent over all shards. -/
theorem sum_sent_setRing {shard : Nat} (inside : shard < size.n) {ring : PRing α}
    {values : List α} (sent : ring.lane.sent = (s.rings shard p).lane.sent ++ values) :
    ∑ here ∈ Finset.range size.n, (((s.setRing shard p ring).rings here p).lane.sent : Multiset α) =
      ∑ here ∈ Finset.range size.n, ((s.rings here p).lane.sent : Multiset α) + values := by
  have member : shard ∈ Finset.range size.n := Finset.mem_range.mpr inside
  rw [← Finset.add_sum_erase _ _ member, ← Finset.add_sum_erase _ _ member, rings_setRing, sent,
    ← Multiset.coe_add, add_right_comm]
  congr 2
  refine Finset.sum_congr rfl fun here erased => ?_
  rw [rings_setRing_of_ne _ _ (.inl (Finset.ne_of_mem_erase erased))]

/-- What a producer's step shows: its own rings grow, everything else about rings and
handles stays. -/
structure ProducerFrame (p : Nat) (before after : MpmcState α) : Prop where
  grows : ∀ shard,
    (before.rings shard p).lane.published ≤ (before.rings shard p).lane.written.length →
      PRing.Grows (before.rings shard p) (after.rings shard p)
  rings : ∀ shard q, q ≠ p → after.rings shard q = before.rings shard q
  producers : ∀ q, q ≠ p → after.producers q = before.producers q
  consumers : after.consumers = before.consumers
  shutdown : after.shutdown = before.shutdown
  liveConsumers : after.liveConsumers = before.liveConsumers
  signallers : after.signallers = before.signallers
  looked : after.history.looked = before.history.looked
  acked : ∀ shard q, q ≠ p → after.history.acked shard q = before.history.acked shard q
  ackedAtTerminal : (∀ shard q,
    before.history.ackedAtTerminal shard q ≤ before.history.acked shard q) →
      ∀ shard q, after.history.ackedAtTerminal shard q ≤ after.history.acked shard q

theorem ProducerFrame.refl (p : Nat) (s : MpmcState α) : ProducerFrame p s s where
  grows _ _ := .refl _
  rings _ _ _ := rfl
  producers _ _ := rfl
  consumers := rfl
  shutdown := rfl
  liveConsumers := rfl
  signallers := rfl
  looked := rfl
  acked _ _ _ := rfl
  ackedAtTerminal le := le

theorem ProducerFrame.setProducer {before after : MpmcState α}
    (frame : ProducerFrame p before after) (producer : MpmcProducer α) :
    ProducerFrame p before (after.setProducer p producer) :=
  { frame with
    producers := fun q other => by
      simpa [MpmcState.setProducer, other] using frame.producers q other }

theorem ProducerFrame.producerAt {before after : MpmcState α} (frame : ProducerFrame p before after)
    (pc : MpmcProducerPc α) : ProducerFrame p before (after.producerAt p pc) :=
  frame.setProducer _

theorem ProducerFrame.setRing {before : MpmcState α} {shard : Nat} {ring : PRing α}
    (grows : (before.rings shard p).lane.published ≤ (before.rings shard p).lane.written.length →
      PRing.Grows (before.rings shard p) ring) :
    ProducerFrame p before (before.setRing shard p ring) :=
  { ProducerFrame.refl p before with
    grows := fun here le => by
      by_cases same : here = shard
      · subst same
        rw [rings_setRing]
        exact grows le
      · rw [rings_setRing_of_ne _ _ (.inl same)]
        exact .refl _
    rings := fun here q other => rings_setRing_of_ne _ _ (.inr other) }

theorem ProducerFrame.notePlaced {before after : MpmcState α}
    (frame : ProducerFrame p before after) (shard : Nat) :
    ProducerFrame p before (after.notePlaced shard p) :=
  { frame with }

theorem ProducerFrame.setConsumerWaiter {before after : MpmcState α}
    (frame : ProducerFrame p before after) (shard : Nat) (waiter : Waiter) :
    ProducerFrame p before (after.setConsumerWaiter shard waiter) :=
  { frame with }

theorem ProducerFrame.setProducerWaiter {before after : MpmcState α}
    (frame : ProducerFrame p before after) (waiter : Waiter) :
    ProducerFrame p before (after.setProducerWaiter p waiter) :=
  { frame with }

theorem ProducerFrame.acknowledge {before after : MpmcState α}
    (frame : ProducerFrame p before after) (shard : Nat) (values : List α) :
    ProducerFrame p before (after.acknowledge shard p values) :=
  { frame.setProducer _ with
    acked := fun here q other => by
      simpa [MpmcState.acknowledge, setEntry_of_ne (.inr other)] using frame.acked here q other
    ackedAtTerminal := fun le here q => by
      have acked := frame.ackedAtTerminal le here q
      by_cases same : here = shard ∧ q = p
      · obtain ⟨rfl, rfl⟩ := same
        simp only [MpmcState.acknowledge, setEntry_self]
        exact acked.trans (Nat.le_add_right _ _)
      · simp only [MpmcState.acknowledge]
        rw [setEntry_of_ne (Decidable.not_and_iff_or_not.mp same)]
        exact acked }

theorem ProducerFrame.noteTerminal {before after : MpmcState α}
    (frame : ProducerFrame p before after) : ProducerFrame p before after.noteTerminal := by
  unfold MpmcState.noteTerminal
  split
  · exact frame
  · exact { frame with ackedAtTerminal := fun _ _ _ => le_rfl }

theorem ProducerFrame.setLive {before after : MpmcState α} (frame : ProducerFrame p before after)
    (count : Nat) : ProducerFrame p before { after with liveProducers := count } :=
  { frame with }

theorem producerTick_frame (taken : s.producerTick size p = some after) :
    ProducerFrame p s after := by
  have here := ProducerFrame.refl p s
  unfold producerTick at taken
  cases pcEq : (s.producers p).pc with
  | idle | gone => simp [pcEq] at taken
  | sendShutdown value | sendLive value | loadShutdown call value | loadLive call value
  | waitShutdown phase value =>
      simp only [pcEq] at taken
      split at taken <;> cases taken <;> exact here.producerAt _
  | scan call value start k | batchScan items start k | waitIdle phase value shard =>
      simp only [pcEq] at taken
      split at taken
      · split at taken <;> cases taken <;> exact here.producerAt _
      · cases taken
        exact here.producerAt _
  | waitLive phase value | returned outcome =>
      simp only [pcEq, Option.some.injEq] at taken
      subst taken
      exact here.producerAt _
  | write call value shard head =>
      simp only [pcEq, Option.some.injEq] at taken
      subst taken
      exact (ProducerFrame.setRing fun _ => PRing.grows_writeSlot _ _ _).producerAt _
  | publish call value shard head =>
      simp only [pcEq, Option.some.injEq] at taken
      subst taken
      refine ProducerFrame.producerAt ?_ _
      exact (ProducerFrame.setRing fun le => PRing.grows_storeHead le _).notePlaced _
  | batchWrite items shard head left written =>
      simp only [pcEq] at taken
      split at taken
      · cases taken
      · split at taken <;> cases taken <;>
          exact (ProducerFrame.setRing fun _ => PRing.grows_writeSlot _ _ _).producerAt _
  | batchPublish items shard head written =>
      simp only [pcEq, Option.some.injEq] at taken
      subst taken
      refine ProducerFrame.producerAt ?_ _
      exact (ProducerFrame.setRing fun le => PRing.grows_storeHead le _).notePlaced _
  | wakeConsumer call value shard | batchWake items shard written =>
      simp only [pcEq, Option.some.injEq] at taken
      subst taken
      exact (((here.setConsumerWaiter _ _).setProducer _).acknowledge _ _).producerAt _
  | waitAnnounce value | waitLeave value =>
      simp only [pcEq, Option.some.injEq] at taken
      subst taken
      exact (here.setProducerWaiter _).producerAt _
  | waitPark value =>
      simp only [pcEq] at taken
      split at taken <;> cases taken
      exact (here.setProducerWaiter _).producerAt _
  | fetchSub =>
      simp only [pcEq] at taken
      split at taken <;> cases taken
      · exact (here.noteTerminal.setLive _).producerAt _
      · exact (here.setLive _).producerAt _
  | wakeLast shard =>
      simp only [pcEq] at taken
      split at taken <;> cases taken
      · exact (here.setConsumerWaiter _ _).producerAt _
      · exact here.producerAt _

theorem producerStep_frame {action : MpmcProducerAction α}
    (taken : s.producerStep size p action = some after) : ProducerFrame p s after := by
  have here := ProducerFrame.refl p s
  cases action with
  | tick => exact producerTick_frame taken
  | trySendBatch items =>
      simp only [producerStep] at taken
      split at taken
      · split at taken <;> cases taken <;> exact here.setProducer _
      · cases taken
  | trySend value | send value | drop | spin | spurious =>
      simp only [producerStep] at taken
      split at taken <;> cases taken
      exact here.setProducer _

/-- Outside its ring operations a call has nothing written or published that it has not
reported. -/
def Quiet (pc : MpmcProducerPc α) : Prop :=
  (∀ shard, ahead shard pc = []) ∧ unreported pc = [] ∧ ∀ shard, unacked shard pc = 0

theorem ProducerOk.quiet (ok : ProducerOk size s p) (rings : after.rings = s.rings)
    (accepted : (after.producers p).accepted = (s.producers p).accepted)
    (history : after.history.acked = s.history.acked)
    (before : Quiet (s.producers p).pc) (after_ : Quiet (after.producers p).pc)
    (here : ProducerAt size (fun shard => (s.rings shard p).lane) (after.producers p).pc) :
    ProducerOk size after p :=
  ok.goto rings accepted (fun shard => by rw [before.1, after_.1])
    (by rw [before.2.1, after_.2.1])
    (fun shard => by rw [history, before.2.2, after_.2.2]) here

theorem quiet_sendRejected (call : MpmcSendCall) (value : α) : Quiet (sendRejected call value) := by
  cases call <;> exact ⟨fun _ => rfl, rfl, fun _ => rfl⟩

theorem quiet_sendWaited (phase : WaitPhase) (ready : Bool) (value : α) :
    Quiet (sendWaited phase ready value) := by
  cases phase <;> cases ready <;> exact ⟨fun _ => rfl, rfl, fun _ => rfl⟩

theorem at_sendRejected (lanes : Nat → Lane α) (call : MpmcSendCall) (value : α) :
    ProducerAt size lanes (sendRejected call value) := by
  cases call <;> trivial

theorem at_sendWaited (lanes : Nat → Lane α) (phase : WaitPhase) (ready : Bool) (value : α) :
    ProducerAt size lanes (sendWaited phase ready value) := by
  cases phase <;> cases ready <;> trivial

/-- The ring a quiet producer finds not full has room for what it can publish next. -/
theorem room_of_not_full (rings : RingsOk size s) {shard : Nat}
    (room : s.full size shard p ≠ true) :
    (s.rings shard p).lane.published <
      (s.rings shard p).lane.released + size.ringCap.size :=
  (rings shard p).room_of_not_full (by simpa [full] using room)

theorem length_written (rings : RingsOk size s) (ok : ProducerOk size s p)
    (before : Quiet (s.producers p).pc) (shard : Nat) :
    (s.rings shard p).lane.written.length = (s.rings shard p).lane.published := by
  rw [ok.written, before.1, List.append_nil, (rings shard p).sound.length_sent]

/-- The producer writes to its ring in one shard, or publishes `values` there. -/
theorem ProducerOk.inRing (ok : ProducerOk size s p) (values : List α) {shard : Nat}
    (inside : shard < size.n) {ring : PRing α}
    (rings : after.rings = (s.setRing shard p ring).rings)
    (sent : ring.lane.sent = (s.rings shard p).lane.sent ++ values)
    (written : ring.lane.written = ring.lane.sent ++ ahead shard (after.producers p).pc)
    (others : ∀ here, here ≠ shard →
      ahead here (after.producers p).pc = ahead here (s.producers p).pc)
    (accepted : (after.producers p).accepted = (s.producers p).accepted)
    (reported : unreported (after.producers p).pc = unreported (s.producers p).pc ++ values)
    (acked : after.history.acked = s.history.acked)
    (unackedHere : unacked shard (after.producers p).pc =
      unacked shard (s.producers p).pc + values.length)
    (unackedOthers : ∀ here, here ≠ shard →
      unacked here (after.producers p).pc = unacked here (s.producers p).pc)
    (here : ProducerAt size (fun here => ((s.setRing shard p ring).rings here p).lane)
      (after.producers p).pc) : ProducerOk size after p where
  here := by
    rw [rings]
    exact here
  written here := by
    rw [rings]
    by_cases same : here = shard
    · rw [same, rings_setRing]
      exact written
    · rw [rings_setRing_of_ne _ _ (.inl same), others here same]
      exact ok.written here
  reported := by
    rw [rings, accepted, reported, sum_sent_setRing inside sent, ← ok.reported,
      ← Multiset.coe_add, add_assoc]
  acked here := by
    rw [rings, acked]
    by_cases same : here = shard
    · rw [same, rings_setRing, unackedHere, sent, List.length_append, ← ok.acked shard, add_assoc]
    · rw [rings_setRing_of_ne _ _ (.inl same), unackedOthers here same]
      exact ok.acked here

/-- A step between two places outside the ring operations. -/
theorem producer_goes (rings : RingsOk size s) (ok : ProducerOk size s p)
    (before : Quiet (s.producers p).pc) {moved : MpmcState α} (sameRings : moved.rings = s.rings)
    (producer : moved.producers p = s.producers p)
    (acked : moved.history.acked = s.history.acked) {pc : MpmcProducerPc α} (quiet : Quiet pc)
    (here : ProducerAt size (fun shard => (s.rings shard p).lane) pc) :
    RingsOk size (moved.producerAt p pc) ∧ ProducerOk size (moved.producerAt p pc) p := by
  refine ⟨fun shard q => ?_, ok.quiet sameRings ?_ acked before ?_ ?_⟩
  · rw [rings_producerAt, sameRings]
    exact rings shard q
  · rw [producers_producerAt, producer]
  · rw [producers_producerAt]
    exact quiet
  · rw [producers_producerAt]
    exact here

theorem acked_noteTerminal (s : MpmcState α) : s.noteTerminal.history.acked = s.history.acked := by
  unfold noteTerminal
  split <;> rfl

/-- Reporting the published values. -/
theorem producer_reports (rings : RingsOk size s) (ok : ProducerOk size s p) {shard : Nat}
    {values : List α} (behind : ∀ here, ahead here (s.producers p).pc = [])
    (reports : unreported (s.producers p).pc = values)
    (counts : ∀ here, unacked here (s.producers p).pc = if shard = here then values.length else 0)
    (outcome : MpmcSendOutcome α) :
    RingsOk size ((((s.wakeConsumer shard).advanceCursor size p shard).acknowledge shard p
      values).producerAt p (.returned outcome)) ∧
    ProducerOk size ((((s.wakeConsumer shard).advanceCursor size p shard).acknowledge shard p
      values).producerAt p (.returned outcome)) p := by
  refine ⟨rings, ?_⟩
  exact
    { here := by
        rw [producers_producerAt]
        trivial
      written := fun here => by
        rw [producers_producerAt]
        exact (ok.written here).trans (by rw [behind]; rfl)
      reported := by
        rw [producers_producerAt]
        have reported := ok.reported
        rw [reports] at reported
        simpa [acknowledge, advanceCursor, setProducer, wakeConsumer, setConsumerWaiter,
          unreported, ← Multiset.coe_add] using reported
      acked := fun here => by
        have acked := ok.acked here
        rw [counts] at acked
        rw [producers_producerAt]
        by_cases same : here = shard
        · subst same
          simpa [acknowledge, producerAt, setProducer, advanceCursor, wakeConsumer,
            setConsumerWaiter, unacked] using acked
        · simpa [acknowledge, producerAt, setProducer, advanceCursor, wakeConsumer,
            setConsumerWaiter, unacked, setEntry_of_ne (.inl same), Ne.symm same] using acked }

theorem producer_ownTick (rings : RingsOk size s) (ok : ProducerOk size s p)
    (taken : s.producerTick size p = some after) :
    RingsOk size after ∧ ProducerOk size after p := by
  have here := ok.here
  have calm {pc : MpmcProducerPc α} (pcEq : (s.producers p).pc = pc) (quiet : Quiet pc) :
      Quiet (s.producers p).pc := pcEq ▸ quiet
  unfold producerTick at taken
  cases pcEq : (s.producers p).pc with
  | idle | gone => simp [pcEq] at taken
  | sendShutdown value | sendLive value =>
      have before := calm pcEq ⟨fun _ => rfl, rfl, fun _ => rfl⟩
      simp only [pcEq] at taken
      split at taken <;> cases taken <;>
        exact producer_goes rings ok before rfl rfl rfl ⟨fun _ => rfl, rfl, fun _ => rfl⟩ trivial
  | loadShutdown call value | loadLive call value =>
      have before := calm pcEq ⟨fun _ => rfl, rfl, fun _ => rfl⟩
      simp only [pcEq] at taken
      split at taken <;> cases taken
      · exact producer_goes rings ok before rfl rfl rfl (quiet_sendRejected _ _)
          (at_sendRejected _ _ _)
      · exact producer_goes rings ok before rfl rfl rfl ⟨fun _ => rfl, rfl, fun _ => rfl⟩ trivial
  | scan call value start k =>
      have before := calm pcEq ⟨fun _ => rfl, rfl, fun _ => rfl⟩
      simp only [pcEq] at taken
      split at taken
      · split at taken <;> cases taken
        · exact producer_goes rings ok before rfl rfl rfl ⟨fun _ => rfl, rfl, fun _ => rfl⟩ trivial
        · exact producer_goes rings ok before rfl rfl rfl (quiet_sendRejected _ _)
            (at_sendRejected _ _ _)
      · rename_i room
        cases taken
        refine producer_goes rings ok before rfl rfl rfl ⟨fun _ => rfl, rfl, fun _ => rfl⟩ ?_
        exact ⟨mod_lt size _, (rings _ p).head, room_of_not_full rings room⟩
  | write call value shard head =>
      rw [pcEq] at here
      obtain ⟨inside, headEq, room⟩ := here
      have before := calm pcEq ⟨fun _ => rfl, rfl, fun _ => rfl⟩
      have length := length_written rings ok before shard
      simp only [pcEq, Option.some.injEq] at taken
      subst taken
      have sent := (rings shard p).sound.sent_write (size.ringCap.slot head) value
      refine ⟨rings.setRing ((rings shard p).writeSlot (by rw [length]; exact room) value
        (by rw [length]; exact headEq)), ?_⟩
      refine ok.inRing [] inside rfl (by rw [List.append_nil]; exact sent) ?_ ?_
        ?_ ?_ rfl ?_ ?_ ?_
      all_goals simp only [producers_producerAt, pcEq]
      · rw [ahead, if_pos rfl]
        have written := ok.written shard
        rw [before.1, List.append_nil] at written
        change (s.rings shard p).lane.written ++ [value] = _
        rw [written]
        exact congrArg (· ++ [value]) sent.symm
      · intro other ne
        rw [ahead, if_neg (Ne.symm ne)]
        rfl
      · rfl
      · rfl
      · rfl
      · intro other _
        rfl
      · refine ⟨inside, ?_⟩
        dsimp only
        rw [rings_setRing]
        exact headEq
  | publish call value shard head =>
      rw [pcEq] at here
      obtain ⟨inside, headEq⟩ := here
      have written := ok.written shard
      rw [pcEq, ahead, if_pos rfl] at written
      have headNext : head + 1 = BitVec.ofNat 64 (s.rings shard p).lane.written.length := by
        rw [headEq, ofNat_add_one, written, List.length_append, (rings shard p).sound.length_sent]
        rfl
      simp only [pcEq, Option.some.injEq] at taken
      subst taken
      refine ⟨rings.setRing ((rings shard p).storeHead headNext), ?_⟩
      refine ok.inRing [value] inside rfl ((Lane.sent_publish _).trans written) ?_ ?_
        ?_ ?_ rfl ?_ ?_ ?_
      all_goals simp only [producers_producerAt, pcEq]
      · exact ((Lane.sent_publish _).symm.trans (List.append_nil _).symm)
      · intro other ne
        simp [ahead, Ne.symm ne]
      · rfl
      · rfl
      · simp [unacked]
      · intro other ne
        simp [unacked, Ne.symm ne]
      · trivial
  | wakeConsumer call value shard =>
      simp only [pcEq, Option.some.injEq] at taken
      subst taken
      exact producer_reports rings ok (by rw [pcEq]; exact fun _ => rfl) (by rw [pcEq]; rfl)
        (by rw [pcEq]; exact fun _ => rfl) _
  | batchScan items start k =>
      have before := calm pcEq ⟨fun _ => rfl, rfl, fun _ => rfl⟩
      rw [pcEq] at here
      simp only [pcEq] at taken
      split at taken
      · split at taken <;> cases taken
        · exact producer_goes rings ok before rfl rfl rfl ⟨fun _ => rfl, rfl, fun _ => rfl⟩ here
        · exact producer_goes rings ok before rfl rfl rfl ⟨fun _ => rfl, rfl, fun _ => rfl⟩ trivial
      · rename_i room
        cases taken
        refine producer_goes rings ok before rfl rfl rfl
          ⟨fun _ => by rw [ahead, ite_self], rfl, fun _ => rfl⟩ ?_
        have room := room_of_not_full rings room
        have occupancy := (rings ((start + k) % size.n) p).occupancy
        have length := length_written rings ok before ((start + k) % size.n)
        have some : 0 < items.length := List.length_pos_iff.mpr here
        have ordered := (rings ((start + k) % size.n) p).near.1
        refine ⟨mod_lt size _, ?_, ?_, ?_, min_le_left _ _⟩
        · dsimp only
          rw [length]
          exact (rings _ p).head
        · dsimp only
          rw [length]
          omega
        · rw [occupancy]
          omega
  | batchWrite items shard head left written =>
      rw [pcEq] at here
      obtain ⟨inside, headEq, room, some, enough⟩ := here
      have behind := ok.written shard
      rw [pcEq, ahead, if_pos rfl] at behind
      dsimp only at headEq room
      simp only [pcEq] at taken
      split at taken
      · cases taken
      · rename_i value items
        have sent := (rings shard p).sound.sent_write (size.ringCap.slot head) value
        have ringOk := (rings shard p).writeSlot (by omega) value headEq
        have headNext : head + 1 = BitVec.ofNat 64
            ((s.rings shard p).writeSlot (size.ringCap.slot head) value).lane.written.length := by
          rw [headEq, ofNat_add_one]
          simp [PRing.writeSlot, Lane.write]
        have aheadNext : ((s.rings shard p).writeSlot (size.ringCap.slot head) value).lane.written =
            ((s.rings shard p).writeSlot (size.ringCap.slot head) value).lane.sent ++
              (written ++ [value]) := by
          rw [← List.append_assoc]
          change (s.rings shard p).lane.written ++ [value] = _
          rw [behind]
          exact congrArg (· ++ written ++ [value]) sent.symm
        split at taken <;> cases taken
        all_goals
          refine ⟨rings.setRing ringOk, ?_⟩
          refine ok.inRing [] inside rfl (by rw [List.append_nil]; exact sent) ?_ ?_
            ?_ ?_ rfl ?_ ?_ ?_
          all_goals simp only [producers_producerAt, pcEq]
          · rw [ahead, if_pos rfl]
            exact aheadNext
          · intro other ne
            simp [ahead, Ne.symm ne]
          · rfl
          · rfl
          · rfl
          · intro other _
            rfl
        · refine ⟨inside, ?_⟩
          dsimp only
          rw [rings_setRing]
          exact headNext
        · refine ⟨inside, ?_, ?_, by omega, ?_⟩
          · dsimp only
            rw [rings_setRing]
            exact headNext
          · dsimp only
            rw [rings_setRing]
            simp only [PRing.writeSlot, Lane.write, List.length_append, List.length_singleton]
            omega
          · simp only [List.length_cons] at enough
            omega
  | batchPublish items shard head written =>
      rw [pcEq] at here
      obtain ⟨inside, headEq⟩ := here
      have behind := ok.written shard
      rw [pcEq, ahead, if_pos rfl] at behind
      simp only [pcEq, Option.some.injEq] at taken
      subst taken
      refine ⟨rings.setRing ((rings shard p).storeHead headEq), ?_⟩
      refine ok.inRing written inside rfl ((Lane.sent_publish _).trans behind) ?_ ?_
        ?_ ?_ rfl ?_ ?_ ?_
      all_goals simp only [producers_producerAt, pcEq]
      · exact ((Lane.sent_publish _).symm.trans (List.append_nil _).symm)
      · intro other ne
        simp [ahead, Ne.symm ne]
      · rfl
      · rfl
      · simp [unacked]
      · intro other ne
        simp [unacked, Ne.symm ne]
      · trivial
  | batchWake items shard written =>
      simp only [pcEq, Option.some.injEq] at taken
      subst taken
      exact producer_reports rings ok (by rw [pcEq]; exact fun _ => rfl) (by rw [pcEq]; rfl)
        (by rw [pcEq]; exact fun _ => rfl) _
  | waitIdle phase value shard =>
      have before := calm pcEq ⟨fun _ => rfl, rfl, fun _ => rfl⟩
      simp only [pcEq] at taken
      split at taken
      · split at taken <;> cases taken <;>
          exact producer_goes rings ok before rfl rfl rfl ⟨fun _ => rfl, rfl, fun _ => rfl⟩ trivial
      · cases taken
        exact producer_goes rings ok before rfl rfl rfl (quiet_sendWaited _ _ _)
          (at_sendWaited _ _ _ _)
  | waitShutdown phase value =>
      have before := calm pcEq ⟨fun _ => rfl, rfl, fun _ => rfl⟩
      simp only [pcEq] at taken
      split at taken <;> cases taken
      · exact producer_goes rings ok before rfl rfl rfl (quiet_sendWaited _ _ _)
          (at_sendWaited _ _ _ _)
      · exact producer_goes rings ok before rfl rfl rfl ⟨fun _ => rfl, rfl, fun _ => rfl⟩ trivial
  | waitLive phase value =>
      have before := calm pcEq ⟨fun _ => rfl, rfl, fun _ => rfl⟩
      simp only [pcEq, Option.some.injEq] at taken
      subst taken
      exact producer_goes rings ok before rfl rfl rfl (quiet_sendWaited _ _ _)
        (at_sendWaited _ _ _ _)
  | returned outcome =>
      have before := calm pcEq ⟨fun _ => rfl, rfl, fun _ => rfl⟩
      simp only [pcEq, Option.some.injEq] at taken
      subst taken
      exact producer_goes rings ok before rfl rfl rfl ⟨fun _ => rfl, rfl, fun _ => rfl⟩ trivial
  | waitAnnounce value | waitLeave value =>
      have before := calm pcEq ⟨fun _ => rfl, rfl, fun _ => rfl⟩
      simp only [pcEq, Option.some.injEq] at taken
      subst taken
      refine producer_goes rings ok before ?_ ?_ ?_ ?_ ?_
      all_goals first | rfl | trivial | exact ⟨fun _ => rfl, rfl, fun _ => rfl⟩
  | waitPark value =>
      have before := calm pcEq ⟨fun _ => rfl, rfl, fun _ => rfl⟩
      simp only [pcEq] at taken
      split at taken <;> cases taken
      refine producer_goes rings ok before ?_ ?_ ?_ ?_ ?_
      all_goals first | rfl | trivial | exact ⟨fun _ => rfl, rfl, fun _ => rfl⟩
  | fetchSub =>
      have before := calm pcEq ⟨fun _ => rfl, rfl, fun _ => rfl⟩
      simp only [pcEq] at taken
      split at taken <;> cases taken
      · refine producer_goes rings ok before ?_ ?_ ?_ ?_ ?_
        · exact rings_noteTerminal s
        · exact congrFun (producers_noteTerminal s) p
        · exact acked_noteTerminal s
        · exact ⟨fun _ => rfl, rfl, fun _ => rfl⟩
        · trivial
      · refine producer_goes rings ok before ?_ ?_ ?_ ?_ ?_
        all_goals first | rfl | trivial | exact ⟨fun _ => rfl, rfl, fun _ => rfl⟩
  | wakeLast shard =>
      have before := calm pcEq ⟨fun _ => rfl, rfl, fun _ => rfl⟩
      simp only [pcEq] at taken
      split at taken <;> cases taken
      all_goals
        refine producer_goes rings ok before ?_ ?_ ?_ ?_ ?_
        all_goals first | rfl | trivial | exact ⟨fun _ => rfl, rfl, fun _ => rfl⟩

theorem producer_ownStep (rings : RingsOk size s) (ok : ProducerOk size s p)
    {action : MpmcProducerAction α} (taken : s.producerStep size p action = some after) :
    RingsOk size after ∧ ProducerOk size after p := by
  cases action with
  | tick => exact producer_ownTick rings ok taken
  | drop | spin | spurious =>
      simp only [producerStep] at taken
      split at taken
      · rename_i pcEq
        cases taken
        refine producer_goes rings ok ?_ rfl rfl rfl ⟨fun _ => rfl, rfl, fun _ => rfl⟩ trivial
        rw [pcEq]
        exact ⟨fun _ => rfl, rfl, fun _ => rfl⟩
      · cases taken
  | trySend value | send value =>
      simp only [producerStep] at taken
      split at taken
      · rename_i pcEq
        cases taken
        refine ⟨rings, ok.quiet rfl (by simp) rfl ?_ ?_ ?_⟩
        · rw [pcEq]
          exact ⟨fun _ => rfl, rfl, fun _ => rfl⟩
        · rw [producers_begin]
          exact ⟨fun _ => rfl, rfl, fun _ => rfl⟩
        · rw [producers_begin]
          trivial
      · cases taken
  | trySendBatch items =>
      simp only [producerStep] at taken
      split at taken
      · rename_i pcEq
        have before : Quiet (s.producers p).pc := by
          rw [pcEq]
          exact ⟨fun _ => rfl, rfl, fun _ => rfl⟩
        split at taken
        · cases taken
          refine ⟨rings, ok.quiet rfl (by simp) rfl before ?_ ?_⟩
          · rw [producers_begin]
            exact ⟨fun _ => rfl, rfl, fun _ => rfl⟩
          · rw [producers_begin]
            trivial
        · rename_i nonempty
          cases taken
          refine ⟨rings, ok.quiet rfl (by simp) rfl before ?_ ?_⟩
          · rw [producers_begin]
            exact ⟨fun _ => rfl, rfl, fun _ => rfl⟩
          · rw [producers_begin]
            simpa [ProducerAt] using nonempty
      · cases taken

end MpmcState

end ArbitroKit
