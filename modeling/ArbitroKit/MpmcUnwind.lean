import ArbitroKit.BatchReceive

/-!
# A panic in a batch callback

`drain_all` moves its guard past an item before it hands it out, and the guard stores the
tail on every way out.  After an unwind the tail of each ring of the shard is therefore
past exactly what was handed out, the items behind it are still in their ring, and from
there on the run goes on like any other: they are handed out in order or destroyed by
`MpmcInner::drop`, once.
-/

namespace ArbitroKit

open SlotLane Cyclic Transition

namespace PRing

variable {α : Type*} {cap : Cap} {ring before after last : PRing α}

/-- What was sent through the ring and what was handed out stays so. -/
structure Extends (before after : PRing α) : Prop where
  sent : before.lane.sent <+: after.lane.sent
  delivered : before.delivered <+: after.delivered

theorem Extends.refl (ring : PRing α) : Extends ring ring :=
  ⟨List.prefix_rfl, List.prefix_rfl⟩

theorem Extends.trans (first : Extends before after) (second : Extends after last) :
    Extends before last :=
  ⟨first.sent.trans second.sent, first.delivered.trans second.delivered⟩

theorem Ok.extends_writeSlot (ok : ring.Ok cap) (index : Nat) (value : α) :
    Extends ring (ring.writeSlot index value) := by
  refine ⟨?_, List.prefix_rfl⟩
  rw [PRing.writeSlot, ok.sound.sent_write]

theorem extends_storeHead (ring : PRing α) (head : Usize) : Extends ring (ring.storeHead head) := by
  refine ⟨?_, List.prefix_rfl⟩
  rw [PRing.storeHead, Lane.sent_publish]
  exact List.take_prefix _ _

/-- A receive leaves alone what was sent. -/
theorem Drains.extends (drains : Drains before after)
    (delivered : before.delivered <+: after.delivered) : Extends before after :=
  ⟨drains.sent ▸ List.prefix_rfl, delivered⟩

end PRing

/-! ### A batch receive on its own -/

namespace SeqMpmc

variable {α : Type*} {cap : Cap} {c : SeqMpmc α} {queues : Nat → List α} {shard : Nat}

theorem passes_empty {indices : List Nat}
    (empty : ∀ p ∈ indices, (c.shards shard p).tail = (c.shards shard p).head) :
    c.Passes cap shard indices [] c := by
  induction indices with
  | nil => exact passes_nil c
  | cons p rest ih =>
      intro count progress
      rw [pass_empty (empty p List.mem_cons_self)]
      exact ih (fun q member => empty q (List.mem_cons_of_mem _ member)) count progress

/-- A pass hands out what the rings store, ring by ring. -/
theorem StoresAll.passes (stores : c.StoresAll cap shard queues) {indices : List Nat}
    (distinct : indices.Nodup) :
    ∃ after, c.Passes cap shard indices (indices.flatMap queues) after ∧ after.m = c.m ∧
      (∀ p ∈ indices, (after.shards shard p).tail = (after.shards shard p).head) ∧
        ∀ p ∉ indices, after.shards shard p = c.shards shard p := by
  induction indices generalizing c queues with
  | nil =>
      exact ⟨c, passes_nil c, rfl, fun p never => absurd never List.not_mem_nil, fun _ _ => rfl⟩
  | cons p rest ih =>
      obtain ⟨fresh, distinct⟩ := List.nodup_cons.mp distinct
      have here := stores p
      cases queueEq : queues p with
      | nil =>
          rw [queueEq] at here
          have empty : (c.shards shard p).tail = (c.shards shard p).head :=
            (here.eq_iff.mpr rfl).symm
          obtain ⟨after, passes, same, emptied, kept⟩ := ih stores distinct
          refine ⟨after, fun count progress => ?_, same, fun q member => ?_, fun q other => ?_⟩
          · rw [pass_empty empty, List.flatMap_cons, queueEq, List.nil_append]
            exact passes count progress
          · rcases List.mem_cons.mp member with rfl | member
            · rw [kept q fresh]
              exact empty
            · exact emptied q member
          · exact kept q fun member => other (List.mem_cons_of_mem _ member)
      | cons value later =>
          rw [queueEq] at here
          obtain ⟨left, drained⟩ := here.drainFrom
          have moved : (c.setRing shard p (SeqMpmc.drained (c.shards shard p) left)).StoresAll cap
              shard (Function.update queues p []) := stores.setRing (stores_nil _)
          obtain ⟨after, passes, same, emptied, kept⟩ := ih moved distinct
          have others : rest.flatMap (Function.update queues p []) = rest.flatMap queues := by
            refine List.flatMap_congr fun q member => Function.update_of_ne ?_ _ _
            rintro rfl
            exact fresh member
          rw [others] at passes
          refine ⟨after, ?_, same, fun q member => ?_, fun q other => ?_⟩
          · rw [List.flatMap_cons, queueEq]
            exact passes_cons here drained passes
          · rcases List.mem_cons.mp member with rfl | member
            · rw [kept q fresh]
              simp [SeqMpmc.setRing, SeqMpmc.drained]
            · exact emptied q member
          · rw [kept q fun member => other (List.mem_cons_of_mem _ member)]
            have ne : q ≠ p := fun same => other (same ▸ List.mem_cons_self)
            simp [SeqMpmc.setRing, ne]

/-- A batch receive on its own hands out everything its shard stores. -/
theorem StoresAll.drainAll_all (stores : c.StoresAll cap shard queues) {m fuel : Nat}
    (producers : c.m = m) (enough : 2 ≤ fuel) :
    ∃ after, SeqMpmc.drainAll cap shard fuel c 0 =
      some (((List.range m).flatMap queues).length, (List.range m).flatMap queues, after) := by
  obtain ⟨after, passes, same, emptied, -⟩ := stores.passes (List.nodup_range (n := m))
  exact ⟨after, drainAll_of_passes enough producers (same.trans producers) passes
    (passes_empty emptied)⟩

end SeqMpmc

namespace MpmcState

variable {α : Type*} {size : MpmcSize} {s after last : MpmcState α} {shard p : Nat}

/-! ### Items stay -/

/-- Nothing that was sent or handed out is taken back. -/
def RingsExtend (before after : MpmcState α) : Prop :=
  ∀ shard p, PRing.Extends (before.rings shard p) (after.rings shard p)

theorem RingsExtend.refl (s : MpmcState α) : RingsExtend s s := fun _ _ => .refl _

theorem RingsExtend.trans (first : RingsExtend s after) (second : RingsExtend after last) :
    RingsExtend s last :=
  fun shard p => (first shard p).trans (second shard p)

theorem extend_setRing {ring : PRing α} (here : PRing.Extends (s.rings shard p) ring) :
    RingsExtend s (s.setRing shard p ring) := by
  intro other q
  by_cases same : other = shard ∧ q = p
  · obtain ⟨rfl, rfl⟩ := same
    rw [rings_setRing]
    exact here
  · rw [rings_setRing_of_ne _ _ (Decidable.not_and_iff_or_not.mp same)]
    exact .refl _

theorem RingsExtend.of_rings (same : after.rings = s.rings) : RingsExtend s after := by
  intro shard p
  rw [same]
  exact .refl _

theorem producerTick_extends (rings : RingsOk size s)
    (taken : s.producerTick size p = some after) : RingsExtend s after := by
  unfold producerTick at taken
  cases pcEq : (s.producers p).pc with
  | idle | gone => simp [pcEq] at taken
  | write call value shard head =>
      simp only [pcEq, Option.some.injEq] at taken
      subst taken
      exact extend_setRing ((rings shard p).extends_writeSlot _ _)
  | publish call value shard head | batchPublish items shard head written =>
      simp only [pcEq, Option.some.injEq] at taken
      subst taken
      exact extend_setRing (PRing.extends_storeHead _ _)
  | batchWrite items shard head left written =>
      simp only [pcEq] at taken
      split at taken
      · cases taken
      · split at taken <;> cases taken <;>
          exact extend_setRing ((rings shard p).extends_writeSlot _ _)
  | wakeConsumer call value shard | batchWake items shard written | waitAnnounce value
  | waitLeave value | waitLive phase value | returned outcome =>
      simp only [pcEq, Option.some.injEq] at taken
      subst taken
      exact .refl _
  | scan call value start k | batchScan items start k | waitIdle phase value shard =>
      simp only [pcEq] at taken
      split at taken
      · split at taken <;> cases taken <;> exact .refl _
      · cases taken
        exact .refl _
  | fetchSub =>
      simp only [pcEq] at taken
      split at taken <;> cases taken
      · exact .of_rings (rings_noteTerminal s)
      · exact .refl _
  | _ =>
      simp only [pcEq] at taken
      split at taken <;> cases taken <;> exact .refl _

theorem producerStep_extends (rings : RingsOk size s) {action : MpmcProducerAction α}
    (taken : s.producerStep size p action = some after) : RingsExtend s after := by
  cases action with
  | tick => exact producerTick_extends rings taken
  | trySendBatch items =>
      simp only [producerStep] at taken
      split at taken
      · split at taken <;> cases taken <;> exact .refl _
      · cases taken
  | trySend value | send value | drop | spin | spurious =>
      simp only [producerStep] at taken
      split at taken <;> cases taken
      exact .refl _

/-- Handing out adds to what was handed out. -/
theorem delivered_setRing {ring : PRing α}
    (here : (s.rings shard p).delivered <+: ring.delivered) (other q : Nat) :
    (s.rings other q).delivered <+: ((s.setRing shard p ring).rings other q).delivered := by
  by_cases same : other = shard ∧ q = p
  · obtain ⟨rfl, rfl⟩ := same
    rw [rings_setRing]
    exact here
  · rw [rings_setRing_of_ne _ _ (Decidable.not_and_iff_or_not.mp same)]

theorem frameTick_delivered {rest : List (MpmcFrame α)} {frame : MpmcFrame α}
    (taken : s.frameTick size shard rest frame = some after) (other q : Nat) :
    (s.rings other q).delivered <+: (after.rings other q).delivered := by
  unfold frameTick at taken
  cases frame with
  | scanRead call p tail =>
      dsimp only at taken
      split at taken <;> cases taken
      all_goals
        refine delivered_setRing ?_ other q
        exact List.prefix_rfl
  | drainRead call p count head tail =>
      dsimp only at taken
      split at taken <;> cases taken
      · exact delivered_setRing (List.prefix_append _ _) other q
      · refine delivered_setRing ?_ other q
        exact List.prefix_rfl
  | scanWake call p value =>
      cases taken
      exact delivered_setRing (List.prefix_append _ _) other q
  | scanStore call p tail value | drainStore call p count tail | drainUnwind p tail =>
      cases taken
      refine delivered_setRing ?_ other q
      exact List.prefix_rfl
  | scanHead call p tail | drainHead call p count progress tail
  | drainCallback call p count head tail | terminalShutdown call asker
  | workTail call phase p head | waitPark call =>
      dsimp only at taken
      split at taken <;> cases taken <;> exact List.prefix_rfl
  | undefined => cases taken
  | _ =>
      cases taken
      exact List.prefix_rfl

theorem consumerStep_delivered {action : MpmcConsumerAction}
    (taken : s.consumerStep size shard action = some after) (other q : Nat) :
    (s.rings other q).delivered <+: (after.rings other q).delivered := by
  cases action with
  | tick =>
      simp only [consumerStep, consumerTick] at taken
      split at taken
      · cases taken
      · exact frameTick_delivered taken other q
      · split at taken <;> cases taken <;> exact List.prefix_rfl
      · split at taken <;> cases taken <;> exact List.prefix_rfl
      · cases taken
  | tryRecv | recv | tryRecvBatch | recvBatch =>
      simp only [consumerStep, call] at taken
      split at taken
      · split at taken <;> cases taken
        exact List.prefix_rfl
      · cases taken
  | drop | panic | spin | spurious =>
      simp only [consumerStep] at taken
      split at taken <;> cases taken
      exact List.prefix_rfl

theorem step_extends (rings : RingsOk size s) {action : MpmcAction α}
    (taken : s.step size action = some after) : RingsExtend s after := by
  cases action with
  | producer p action => exact producerStep_extends rings (producer_of_step taken).2
  | consumer shard action =>
      intro other p
      have own := (consumer_of_step taken).2
      have drains := ((consumerStep_frame own).rely_producer rings p).rings other
      exact drains.extends (consumerStep_delivered own other p)
  | signaller k action => exact .of_rings (signallerStep_frame taken).rings

theorem flat_extends (reached : (flat size).Reachable s) (leads : (flat size).Leads s last) :
    (flat size).Reachable last ∧ RingsExtend s last := by
  refine leads.invariant (fun last => (flat size).Reachable last ∧ RingsExtend s last)
    ⟨reached, .refl s⟩ ?_
  rintro before action after ⟨reached, extends_⟩ taken
  exact ⟨reached.next taken,
    extends_.trans (step_extends (invariant (apart_of_flat reached)).1 taken.2)⟩

/-! ### After the unwind -/

/-- What a later state of the run holds of the items that were in the shard's rings when
the call unwound: they are handed out first and in their order, a batch receive on its own
hands out all that is left, and what nobody received is destroyed. -/
structure DeliversRest (size : MpmcSize) (s : MpmcState α) (shard : Nat) (last : MpmcState α) :
    Prop where
  exactlyOnce : ExactlyOnce size last
  inOrder : ∀ p, ∃ more fresh,
    (last.rings shard p).delivered = (s.rings shard p).delivered ++ more ∧
      (last.rings shard p).lane.sent = (s.rings shard p).lane.sent ++ fresh ∧
        more ++ (framesOf (last.consumers shard)).flatMap (inFlight p) ++
          (last.rings shard p).inRing size.ringCap =
            (s.rings shard p).inRing size.ringCap ++ fresh
  batch : last.consumers shard = .running [] → ∀ fuel, 2 ≤ fuel → ∃ count items c,
    SeqMpmc.drainAll size.ringCap shard fuel (last.atRest size) 0 = some (count, items, c) ∧
      items = (List.range size.m).flatMap fun p => (last.rings shard p).inRing size.ringCap
  once : (∀ p < size.m, (last.producers p).pc = .gone) →
    (∀ here < size.n, last.consumers here = .gone) → ∀ p < size.m,
      ((last.producers p).accepted : Multiset α) = ∑ here ∈ Finset.range size.n,
        (((last.rings here p).delivered ++ (last.dropInner size here p).destroyed : List α) :
          Multiset α)

/-- What a panicking batch receive leaves of its shard. -/
structure UnwindsExactly (size : MpmcSize) (s : MpmcState α) (shard : Nat) : Prop where
  tail : ∀ p, (s.rings shard p).tail = BitVec.ofNat 64 (s.rings shard p).delivered.length
  rest : ∀ p, (s.rings shard p).delivered ++ (s.rings shard p).inRing size.ringCap =
    (s.rings shard p).lane.sent
  later : ∀ last, (flat size).Leads s last → DeliversRest size s shard last

/-- A callback may panic at any item of any ring, and its call unwinds at once; the item
stays handed out. -/
theorem panic_unwinds (inside : shard < size.n) {call : MpmcBatchCall} {count : Nat}
    {head tail : Usize} (inCallback : s.consumers shard =
      .running [.drainCallback call p count head tail]) :
    ∃ after, Transition.execute (fun s action => s.step size action) s
        [.consumer shard .panic, .consumer shard .tick] = some after ∧
      after.consumers shard = .running [.returned .panicked] ∧
        (after.rings shard p).tail = tail ∧
          ∀ other q, (after.rings other q).delivered = (s.rings other q).delivered := by
  let panicked := s.consumerAt shard (.running [.drainUnwind p tail])
  let stored := panicked.setRing shard p ((panicked.rings shard p).storeTail tail)
  have panics : s.step size (.consumer shard .panic) = some panicked := by
    simp only [step, if_pos inside, consumerStep, inCallback, panicked]
  have unwinds : panicked.step size (.consumer shard .tick) =
      some (stored.consumerAt shard (.running [.returned .panicked])) := by
    simp only [step, if_pos inside, consumerStep, consumerTick, panicked, consumers_consumerAt,
      frameTick]
    rfl
  refine ⟨stored.consumerAt shard (.running [.returned .panicked]), ?_,
    consumers_consumerAt _ _ _, ?_, fun other q => ?_⟩
  · rw [Transition.execute, panics, Option.bind_some, Transition.execute, unwinds]
    rfl
  · exact congrArg PRing.tail (rings_setRing panicked shard p _)
  · by_cases same : other = shard ∧ q = p
    · obtain ⟨rfl, rfl⟩ := same
      refine Eq.trans (congrArg PRing.delivered (rings_setRing panicked other q _)) ?_
      rfl
    · exact congrArg PRing.delivered
        (rings_setRing_of_ne panicked _ (Decidable.not_and_iff_or_not.mp same))

/-- Outside its rings a consumer has handed out what it has moved out, and its tails say so. -/
theorem tail_of_outside (reached : (apart size).Reachable s)
    (outside : (framesOf (s.consumers shard)).filterMap holds = [])
    (nothing : (framesOf (s.consumers shard)).flatMap (inFlight p) = []) :
    (s.rings shard p).tail = BitVec.ofNat 64 (s.rings shard p).delivered.length := by
  obtain ⟨rings, -, consumers⟩ := invariant reached
  have received := (consumers shard).delivered p
  have released := (consumers shard).idle p (by rw [outside]; exact List.not_mem_nil)
  rw [nothing, List.append_nil] at received
  rw [(rings shard p).tail, ← released, received]

theorem once_of_gone (exactly : ExactlyOnce size s)
    (producers : ∀ p < size.m, (s.producers p).pc = .gone)
    (consumers : ∀ here < size.n, s.consumers here = .gone) (inside : p < size.m) :
    ((s.producers p).accepted : Multiset α) = ∑ here ∈ Finset.range size.n,
      (((s.rings here p).delivered ++ (s.dropInner size here p).destroyed : List α) :
        Multiset α) := by
  have placed := exactly.placedOnce p
  have reported : unreported (s.producers p).pc = [] := by
    rw [producers p inside]
    rfl
  rw [reported, Multiset.coe_nil, add_zero] at placed
  rw [placed]
  refine Finset.sum_congr rfl fun here member => ?_
  have fifo := exactly.fifo here p
  have noFrames : framesOf (s.consumers here) = [] := by
    rw [consumers here (Finset.mem_range.mp member)]
    rfl
  rw [noFrames, List.flatMap_nil, List.append_nil] at fifo
  obtain ⟨destroyed, -⟩ := exactly.teardown producers consumers here (Finset.mem_range.mp member)
    p inside
  rw [destroyed, ← fifo]

theorem deliversRest (reached : (flat size).Reachable s)
    (rest : ∀ p, (s.rings shard p).delivered ++ (s.rings shard p).inRing size.ringCap =
      (s.rings shard p).lane.sent)
    (leads : (flat size).Leads s last) : DeliversRest size s shard last := by
  obtain ⟨reachedLast, extends_⟩ := flat_extends reached leads
  have exactly := exactlyOnce_of_apart (apart_of_flat reachedLast)
  refine ⟨exactly, fun p => ?_, fun idle fuel enough => ?_,
    fun producers consumers p inside => once_of_gone exactly producers consumers inside⟩
  · obtain ⟨more, delivered⟩ := (extends_ shard p).delivered
    obtain ⟨fresh, sent⟩ := (extends_ shard p).sent
    refine ⟨more, fresh, delivered.symm, sent.symm, ?_⟩
    have fifo := exactly.fifo shard p
    rw [← sent, ← rest p, ← delivered, List.append_assoc, List.append_assoc,
      List.append_assoc] at fifo
    rw [List.append_assoc]
    exact List.append_cancel_left fifo
  · have stores : (last.atRest size).StoresAll size.ringCap shard
        fun p => (last.rings shard p).inRing size.ringCap := fun p =>
      stores_atRest (apart_of_flat reachedLast) (by rw [idle]; rfl) p
    obtain ⟨c, drained⟩ := stores.drainAll_all (m := size.m) rfl enough
    exact ⟨_, _, c, drained, rfl⟩

/-- A batch receive whose callback panicked leaves every tail of its shard past exactly
what was handed out, and everything else is handed out or destroyed once. -/
theorem batch_unwindsExactly (reached : (flat size).Reachable s)
    (unwound : s.consumers shard = .running [.returned .panicked]) :
    UnwindsExactly size s shard := by
  have apart := apart_of_flat reached
  have nothing (p : Nat) : (framesOf (s.consumers shard)).flatMap (inFlight p) = [] := by
    rw [unwound]
    rfl
  have rest (p : Nat) : (s.rings shard p).delivered ++ (s.rings shard p).inRing size.ringCap =
      (s.rings shard p).lane.sent := by
    have fifo := (exactlyOnce_of_apart apart).fifo shard p
    rw [nothing, List.append_nil] at fifo
    exact fifo
  exact ⟨fun p => tail_of_outside apart (by rw [unwound]; rfl) (nothing p), rest,
    fun last leads => deliversRest reached rest leads⟩

/-- Two producers and one shard of two slots for each. -/
def twoRings : MpmcSize where
  ringCap := twoSlotCap
  m := 2
  m_pos := Nat.two_pos
  m_le := MpmcSize.two_le
  n := 1
  n_pos := Nat.one_pos

/-- Each producer sends two items; the callback gets both of ring 0 and panics at the
first of ring 1. -/
def panicInSecondRing : List (MpmcAction Nat) :=
  (MpmcAction.producer 0 (.trySend 1) :: producerTicks 7) ++
    (MpmcAction.producer 0 (.trySend 2) :: producerTicks 7) ++
    (MpmcAction.producer 1 (.trySend 3) :: List.replicate 7 (.producer 1 .tick)) ++
    (MpmcAction.producer 1 (.trySend 4) :: List.replicate 7 (.producer 1 .tick)) ++
    [MpmcAction.consumer 0 .tryRecvBatch] ++ consumerTicks 0 11 ++ [MpmcAction.consumer 0 .panic] ++
    consumerTicks 0 1

theorem batch_unwindsExactly_panicInSecondRing :
    ∃ s : MpmcState Nat, (flat twoRings).Reachable s ∧ (s.rings 0 0).delivered = [1, 2] ∧
      (s.rings 0 1).delivered = [3] ∧ (s.rings 0 1).inRing twoRings.ringCap = [4] ∧
        UnwindsExactly twoRings s 0 := by
  have ran : (Transition.execute (Transition.guardedStep
      (fun s (action : MpmcAction Nat) => s.flatAction action = true)
      fun s action => s.step twoRings action) (new twoRings) panicInSecondRing).map
        (fun s => ((s.rings 0 0).delivered, (s.rings 0 1).delivered,
          (s.rings 0 1).inRing twoRings.ringCap, s.consumers 0)) =
          some ([1, 2], [3], [4], .running [.returned .panicked]) := by
    rfl
  obtain ⟨s, ran, seen⟩ := Option.map_eq_some_iff.mp ran
  obtain ⟨first, second, left, unwound⟩ := by simpa only [Prod.mk.injEq] using seen
  have reached : (flat twoRings).Reachable s := System.reachable_of_guarded_execute rfl ran
  exact ⟨s, reached, first, second, left, batch_unwindsExactly reached unwound⟩

end MpmcState

end ArbitroKit
