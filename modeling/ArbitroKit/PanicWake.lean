import ArbitroKit.MpmcPanicWake
import ArbitroKit.MpscPanicWake

/-!
# The wake a panicking callback takes with it

`drain` and the batch receives store the tail in a guard, which also runs while
unwinding, but wake the producer in ordinary code behind it.  A producer that rests on
the full ring when the guard runs, with no wake pending and nobody else on the way, is
left parked on a ring with room; no other step leaves a producer so.
-/

namespace ArbitroKit

open SlotLane Cyclic Transition

/-- As long as no guard stores a tail under a resting producer, no producer is left parked,
in any of the three channels.  Conversely, whatever the item at which a callback panics,
the guard leaves the ring's producer parked if it sleeps with no wake pending and nobody
on the way to it. -/
theorem sparing_not_leftParked {α : Type*} (cap : Cap) (size : MpscSize) (sharded : MpmcSize) :
    (∀ s : RingState α, (RingState.sparingSleepers cap).Reachable s →
      ¬ RingState.LeftParked cap s) ∧
    (∀ before after : RingState α, (RingState.withinCache cap).Reachable before →
      RingState.Unwinds cap before after →
        (RingState.LeftParked cap after ↔ RingState.ProducerAsleep after)) ∧
    (∀ s : MpscState α, (MpscState.sparingSleepers size).Reachable s →
      ∀ i < size.m, ¬ MpscState.LeftParked size s i) ∧
    (∀ (before after : MpscState α) (idx : Nat), (MpscState.withinCache size).Reachable before →
      MpscState.Unwinds size idx before after →
        (MpscState.LeftParked size after idx ↔ MpscState.ProducerAsleep after idx ∧
          ∀ k, MpscState.signallingProducer idx (after.signallers k) = false)) ∧
    (∀ s : MpmcState α, (MpmcState.sparingSleepers sharded).Reachable s →
      ∀ p < sharded.m, ¬ MpmcState.LeftParked sharded s p) ∧
    ∀ (before after : MpmcState α) (shard p : Nat) (tail : Usize) (rest : List (MpmcFrame α)),
      (MpmcState.apart sharded).Reachable before →
        before.consumers shard = .running (.drainUnwind p tail :: rest) →
          before.step sharded (.consumer shard .tick) = some after →
            (MpmcState.LeftParked sharded after p ↔
              MpmcState.ProducerAsleep after p ∧ ¬ MpmcState.OnWay sharded after p) := by
  refine ⟨fun _ => RingState.not_leftParked, fun _ _ reached unwinds => ?_,
    fun _ reached _ => MpscState.not_leftParked reached, fun _ _ _ reached unwinds => ?_,
    fun _ reached _ => MpmcState.not_leftParked reached,
    fun _ _ _ _ _ _ reached pcEq taken => ?_⟩
  · exact ⟨fun left => left.toProducerAsleep, RingState.leftParked_of_unwinds reached unwinds⟩
  · refine ⟨fun left => ⟨left.toProducerAsleep, fun k => ?_⟩, fun ⟨asleep, noSignal⟩ =>
      MpscState.leftParked_of_unwinds reached unwinds asleep noSignal⟩
    exact Bool.eq_false_iff.mpr fun signalling => left.nobody (.inr ⟨k, signalling⟩)
  · exact ⟨fun left => ⟨left.toProducerAsleep, left.nobody⟩, fun ⟨asleep, nobody⟩ =>
      MpmcState.leftParked_of_unwinds reached pcEq taken asleep nobody⟩

/-- A ring of one slot is full and its producer asleep in `send`; then `drain` calls back
with the one item. -/
def ringAsleep : List (RingAction Nat) :=
  [RingAction.producer (.trySend 5)] ++ List.replicate 4 (RingAction.producer (.tick 0)) ++
    [RingAction.producer (.send 6)] ++ List.replicate 9 (RingAction.producer (.tick 0)) ++
    [RingAction.consumer .drain, .consumer (.tick 1), .consumer (.tick 0)]

/-- The same with an idle producer; the callback panics and the call is left. -/
def ringSpared : List (RingAction Nat) :=
  [RingAction.producer (.trySend 5)] ++ List.replicate 4 (RingAction.producer (.tick 0)) ++
    [RingAction.consumer .drain, .consumer (.tick 1), .consumer (.tick 0), .consumer .panic,
      .consumer (.tick 0)]

/-- One producer with one slot. -/
def oneSlot : MpscSize where
  cap := oneSlotCap
  m := 1
  m_pos := Nat.one_pos
  m_le := MpscSize.one_le

/-- The same with the batch receive of a channel. -/
def mpscAsleep : List (MpscAction Nat) :=
  [MpscAction.producer 0 (.trySend 5)] ++ MpscState.producerTicks 8 ++
    [MpscAction.producer 0 (.send 6)] ++ MpscState.producerTicks 13 ++
    [MpscAction.consumer .tryRecvBatch] ++ MpscState.consumerTicks 3

def mpscSpared : List (MpscAction Nat) :=
  [MpscAction.producer 0 (.trySend 5)] ++ MpscState.producerTicks 8 ++
    [MpscAction.consumer .tryRecvBatch] ++ MpscState.consumerTicks 3 ++
    [MpscAction.consumer .panic] ++ MpscState.consumerTicks 2

/-- One producer and one shard with one slot. -/
def oneSlotSharded : MpmcSize where
  ringCap := oneSlotCap
  m := 1
  m_pos := Nat.one_pos
  m_le := MpmcSize.one_le
  n := 1
  n_pos := Nat.one_pos

/-- The same with the batch receive of a shard. -/
def mpmcAsleep : List (MpmcAction Nat) :=
  [MpmcAction.producer 0 (.trySend 5)] ++ MpmcState.producerTicks 7 ++
    [MpmcAction.producer 0 (.send 6)] ++ MpmcState.producerTicks 12 ++
    [MpmcAction.consumer 0 .tryRecvBatch] ++ MpmcState.consumerTicks 0 3

def mpmcSpared : List (MpmcAction Nat) :=
  [MpmcAction.producer 0 (.trySend 5)] ++ MpmcState.producerTicks 7 ++
    [MpmcAction.consumer 0 .tryRecvBatch] ++ MpmcState.consumerTicks 0 3 ++
    [MpmcAction.consumer 0 .panic] ++ MpmcState.consumerTicks 0 1

theorem reachable_ringSpared :
    ∃ s : RingState Nat, (RingState.sparingSleepers oneSlotCap).Reachable s ∧
      s.consumer.pc = .returned .panicked := by
  have ran : (Transition.execute (Transition.guardedStep
      (fun s (action : RingAction Nat) =>
        s.readsNewest action = true ∧ s.sparesSleeper action = true)
      fun s action => s.step oneSlotCap action) RingState.new ringSpared).map
        (fun s => s.consumer.pc) = some (.returned .panicked) := by
    rfl
  obtain ⟨s, ran, ended⟩ := Option.map_eq_some_iff.mp ran
  exact ⟨s, System.reachable_of_guarded_execute rfl ran, ended⟩

theorem unwinds_ringAsleep :
    ∃ before after : RingState Nat, (RingState.withinCache oneSlotCap).Reachable before ∧
      RingState.Unwinds oneSlotCap before after ∧ RingState.ProducerAsleep after := by
  have ran : ((Transition.execute (Transition.guardedStep
      (fun s (action : RingAction Nat) => s.panicsWithinCache action = true)
      fun s action => s.step oneSlotCap action) RingState.new ringAsleep).bind fun before =>
        (before.step oneSlotCap (.consumer .panic)).bind fun panicked =>
          (panicked.step oneSlotCap (.consumer (.tick 0))).map fun after =>
            (after.producer.pc, after.shared.notFull.token)) = some (.waitPark 6, false) := by
    rfl
  obtain ⟨before, ran, rest⟩ := Option.bind_eq_some_iff.mp ran
  obtain ⟨panicked, panics, rest⟩ := Option.bind_eq_some_iff.mp rest
  obtain ⟨after, unwound, seen⟩ := Option.map_eq_some_iff.mp rest
  obtain ⟨parked, noWake⟩ := Prod.mk.inj seen
  exact ⟨before, after, System.reachable_of_guarded_execute rfl ran,
    ⟨panicked, panicked, 0, panics, Relation.ReflTransGen.refl, unwound⟩, ⟨_, parked⟩, noWake⟩

/-- A condition under which every tail is stored while its producer does not rest. -/
def storesAwake (s : MpscState Nat) : MpscAction Nat → Bool
  | .consumer .tick =>
      match s.consumer with
      | .inDrain _ idx _ _ => !s.restsOnRing idx
      | _ => true
  | _ => true

theorem sparesSleeper_of_storesAwake {s : MpscState Nat} {action : MpscAction Nat}
    (awake : storesAwake s action = true) : s.SparesSleeper action := by
  cases action with
  | producer i action | signaller k action => trivial
  | consumer action =>
      cases action with
      | tick =>
          cases pcEq : s.consumer with
          | inDrain call idx total progress =>
              simp only [MpscState.SparesSleeper, pcEq]
              simp only [storesAwake, pcEq, Bool.not_eq_true'] at awake
              split
              · intro rests
                rw [awake] at rests
                cases rests
              · trivial
          | _ => simp only [MpscState.SparesSleeper, pcEq]
      | _ => trivial

theorem reachable_mpscSpared :
    ∃ s : MpscState Nat, (MpscState.sparingSleepers oneSlot).Reachable s ∧
      s.consumer = .returned .panicked := by
  have ran : (Transition.execute (Transition.guardedStep
      (fun s (action : MpscAction Nat) => storesAwake s action = true)
      fun s action => s.step oneSlot action) (MpscState.new oneSlot) mpscSpared).map
        (fun s => s.consumer) = some (.returned .panicked) := by
    rfl
  obtain ⟨s, ran, ended⟩ := Option.map_eq_some_iff.mp ran
  refine ⟨s, System.Reachable.guarded_mono (fun _ _ _ _ => sparesSleeper_of_storesAwake)
    (System.reachable_of_guarded_execute rfl ran), ended⟩

theorem unwinds_mpscAsleep :
    ∃ before after : MpscState Nat, (MpscState.withinCache oneSlot).Reachable before ∧
      MpscState.Unwinds oneSlot 0 before after ∧ MpscState.ProducerAsleep after 0 ∧
        ∀ k, MpscState.signallingProducer 0 (after.signallers k) = false := by
  have ran : ((Transition.execute (Transition.guardedStep
      (fun s (action : MpscAction Nat) => s.panicsWithinCache action = true)
      fun s action => s.step oneSlot action) (MpscState.new oneSlot) mpscAsleep).bind fun before =>
        (before.step oneSlot (.consumer .panic)).bind fun panicked =>
          (panicked.step oneSlot (.consumer .tick)).map fun after =>
            (before.panicsIn .panic, after.producers 0, (after.producerWaiters 0).token,
              after.signallers)) = some (some 0, .waitPark 6, false, fun _ => .idle) := by
    rfl
  obtain ⟨before, ran, rest⟩ := Option.bind_eq_some_iff.mp ran
  obtain ⟨panicked, panics, rest⟩ := Option.bind_eq_some_iff.mp rest
  obtain ⟨after, unwound, seen⟩ := Option.map_eq_some_iff.mp rest
  obtain ⟨inside, parked, noWake, idle⟩ := by simpa only [Prod.mk.injEq] using seen
  refine ⟨before, after, System.reachable_of_guarded_execute rfl ran,
    ⟨inside, panicked, panicked, panics, Relation.ReflTransGen.refl, unwound⟩,
    ⟨.inl ⟨_, parked⟩, noWake⟩, fun k => ?_⟩
  rw [idle]
  rfl

/-- The same for the rings of a shard. -/
def storesAwakeIn (s : MpmcState Nat) : MpmcAction Nat → Bool
  | .consumer shard .tick =>
      match s.consumers shard with
      | .running (.drainUnwind p _ :: _) => !MpmcState.restsOnFull shard (s.producers p).pc
      | _ => true
  | _ => true

theorem sparesSleeper_of_storesAwakeIn {s : MpmcState Nat} {action : MpmcAction Nat}
    (awake : storesAwakeIn s action = true) :
    MpmcState.SparesSleeper oneSlotSharded s action := by
  unfold MpmcState.SparesSleeper
  split
  · split
    · rename_i shard p tail rest pcEq
      intro rests
      simp only [storesAwakeIn, pcEq, rests] at awake
      cases awake
    · trivial
  · trivial

theorem reachable_mpmcSpared :
    ∃ s : MpmcState Nat, (MpmcState.sparingSleepers oneSlotSharded).Reachable s ∧
      s.consumers 0 = .running [.returned .panicked] := by
  have ran : (Transition.execute (Transition.guardedStep
      (fun s (action : MpmcAction Nat) => storesAwakeIn s action = true)
      fun s action => s.step oneSlotSharded action) (MpmcState.new oneSlotSharded)
        mpmcSpared).map (fun s => s.consumers 0) = some (.running [.returned .panicked]) := by
    rfl
  obtain ⟨s, ran, ended⟩ := Option.map_eq_some_iff.mp ran
  refine ⟨s, System.Reachable.guarded_mono (fun _ _ _ _ => sparesSleeper_of_storesAwakeIn)
    (System.reachable_of_guarded_execute rfl ran), ended⟩

theorem unwinds_mpmcAsleep :
    ∃ (before after : MpmcState Nat) (tail : Usize),
      (MpmcState.apart oneSlotSharded).Reachable before ∧
        before.consumers 0 = .running [.drainUnwind 0 tail] ∧
          before.step oneSlotSharded (.consumer 0 .tick) = some after ∧
            MpmcState.ProducerAsleep after 0 ∧ ¬ MpmcState.OnWay oneSlotSharded after 0 := by
  have ran : ((Transition.execute (Transition.guardedStep
      (fun s (action : MpmcAction Nat) => s.rereadsNothing action = true)
      fun s action => s.step oneSlotSharded action) (MpmcState.new oneSlotSharded)
        (mpmcAsleep ++ [.consumer 0 .panic])).bind fun before =>
          (before.step oneSlotSharded (.consumer 0 .tick)).map fun after =>
            (before.consumers 0, (after.producers 0).pc, (after.producerWaiters 0).token,
              after.consumers 0, after.signallers)) =
      some (.running [.drainUnwind 0 1], .waitPark 6, false, .running [.returned .panicked],
        fun _ => .idle) := by
    rfl
  obtain ⟨before, ran, rest⟩ := Option.bind_eq_some_iff.mp ran
  obtain ⟨after, unwound, seen⟩ := Option.map_eq_some_iff.mp rest
  obtain ⟨unwinding, parked, noWake, left, idle⟩ := by simpa only [Prod.mk.injEq] using seen
  refine ⟨before, after, 1, System.reachable_of_guarded_execute rfl ran, unwinding, unwound,
    ⟨⟨_, parked⟩, noWake⟩, ?_⟩
  rintro (⟨shard, inside, takes⟩ | ⟨shard, inside, leaves⟩ | ⟨k, signalling⟩)
  · obtain rfl : shard = 0 := Nat.lt_one_iff.mp inside
    rw [left] at takes
    cases takes
  · obtain rfl : shard = 0 := Nat.lt_one_iff.mp inside
    rw [left] at leaves
    cases leaves
  · rw [idle] at signalling
    cases signalling

theorem sparing_not_leftParked_panicked :
    (∃ s : RingState Nat, (RingState.sparingSleepers oneSlotCap).Reachable s ∧
      s.consumer.pc = .returned .panicked ∧ ¬ RingState.LeftParked oneSlotCap s) ∧
    (∃ before after : RingState Nat, RingState.Unwinds oneSlotCap before after ∧
      RingState.LeftParked oneSlotCap after) ∧
    (∃ s : MpscState Nat, (MpscState.sparingSleepers oneSlot).Reachable s ∧
      s.consumer = .returned .panicked ∧ ¬ MpscState.LeftParked oneSlot s 0) ∧
    (∃ before after : MpscState Nat, MpscState.Unwinds oneSlot 0 before after ∧
      MpscState.LeftParked oneSlot after 0) ∧
    (∃ s : MpmcState Nat, (MpmcState.sparingSleepers oneSlotSharded).Reachable s ∧
      s.consumers 0 = .running [.returned .panicked] ∧
        ¬ MpmcState.LeftParked oneSlotSharded s 0) ∧
    ∃ (before after : MpmcState Nat) (tail : Usize),
      before.consumers 0 = .running [.drainUnwind 0 tail] ∧
        before.step oneSlotSharded (.consumer 0 .tick) = some after ∧
          MpmcState.LeftParked oneSlotSharded after 0 := by
  obtain ⟨ring, ringLeft, mpsc, mpscLeft, mpmc, mpmcLeft⟩ :=
    @sparing_not_leftParked Nat oneSlotCap oneSlot oneSlotSharded
  refine ⟨?_, ?_, ?_, ?_, ?_, ?_⟩
  · obtain ⟨s, reached, ended⟩ := reachable_ringSpared
    exact ⟨s, reached, ended, ring s reached⟩
  · obtain ⟨before, after, reached, unwinds, asleep⟩ := unwinds_ringAsleep
    exact ⟨before, after, unwinds, (ringLeft before after reached unwinds).mpr asleep⟩
  · obtain ⟨s, reached, ended⟩ := reachable_mpscSpared
    exact ⟨s, reached, ended, mpsc s reached 0 Nat.one_pos⟩
  · obtain ⟨before, after, reached, unwinds, asleep⟩ := unwinds_mpscAsleep
    exact ⟨before, after, unwinds, (mpscLeft before after 0 reached unwinds).mpr asleep⟩
  · obtain ⟨s, reached, ended⟩ := reachable_mpmcSpared
    exact ⟨s, reached, ended, mpmc s reached 0 Nat.one_pos⟩
  · obtain ⟨before, after, tail, reached, pcEq, taken, asleep⟩ := unwinds_mpmcAsleep
    exact ⟨before, after, tail, pcEq, taken,
      (mpmcLeft before after 0 0 tail [] reached pcEq taken).mpr asleep⟩

/-- After the panic the consumer is idle and the producer sleeps on a ring that is not
full, with no wake pending and nothing in progress: the wake is lost. -/
theorem parkedProducer_not_woken :
    (∃ s : RingState Nat, (RingState.system oneSlotCap).Reachable s ∧
      s.producer.pc = .waitPark 6 ∧ s.shared.notFull.token = false ∧
        RingState.isFull oneSlotCap s.shared.head.current s.shared.tail.current = false ∧
          s.consumer.pc = .idle) ∧
    (∃ s : MpscState Nat, (MpscState.system oneSlot).Reachable s ∧
      s.producers 0 = .waitPark 6 ∧ (s.producerWaiters 0).token = false ∧
        s.full oneSlot 0 = false ∧ s.consumer = .idle) ∧
    ∃ s : MpmcState Nat, (MpmcState.system oneSlotSharded).Reachable s ∧
      (s.producers 0).pc = .waitPark 6 ∧ (s.producerWaiters 0).token = false ∧
        s.full oneSlotSharded 0 0 = false ∧ s.consumers 0 = .running [] := by
  refine ⟨?_, ?_, ?_⟩
  · have ran : (Transition.execute (fun s action => s.step oneSlotCap action)
        (RingState.new : RingState Nat)
          (ringAsleep ++ [.consumer .panic, .consumer (.tick 0), .consumer (.tick 0)])).map
            (fun s => (s.producer.pc, s.shared.notFull.token,
              RingState.isFull oneSlotCap s.shared.head.current s.shared.tail.current,
                s.consumer.pc)) = some (.waitPark 6, false, false, .idle) := by
      rfl
    obtain ⟨s, ran, seen⟩ := Option.map_eq_some_iff.mp ran
    exact ⟨s, System.reachable_of_execute rfl ran, by simpa only [Prod.mk.injEq] using seen⟩
  · have ran : (Transition.execute (fun s action => s.step oneSlot action)
        (MpscState.new oneSlot : MpscState Nat)
          (mpscAsleep ++ [.consumer .panic] ++ MpscState.consumerTicks 3)).map
            (fun s => (s.producers 0, (s.producerWaiters 0).token, s.full oneSlot 0,
              s.consumer)) = some (.waitPark 6, false, false, .idle) := by
      rfl
    obtain ⟨s, ran, seen⟩ := Option.map_eq_some_iff.mp ran
    exact ⟨s, System.reachable_of_execute rfl ran, by simpa only [Prod.mk.injEq] using seen⟩
  · have ran : (Transition.execute (fun s action => s.step oneSlotSharded action)
        (MpmcState.new oneSlotSharded : MpmcState Nat)
          (mpmcAsleep ++ [.consumer 0 .panic] ++ MpmcState.consumerTicks 0 2)).map
            (fun s => ((s.producers 0).pc, (s.producerWaiters 0).token,
              s.full oneSlotSharded 0 0, s.consumers 0)) =
                some (.waitPark 6, false, false, .running []) := by
      rfl
    obtain ⟨s, ran, seen⟩ := Option.map_eq_some_iff.mp ran
    exact ⟨s, System.reachable_of_execute rfl ran, by simpa only [Prod.mk.injEq] using seen⟩

end ArbitroKit
