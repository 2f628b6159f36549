import ArbitroKit.AtRest
import ArbitroKit.MpmcReentry
import Mathlib.Algebra.Order.BigOperators.Group.Finset

/-!
# Capacity queries of the sharded channel

Each query adds up wrapping differences of cursors, a producer over the shards and a
consumer over the producers.  As long as no tail moves back, every difference is the
number of items queued in its ring, and the sums of both sides count the items accepted
and not delivered.
-/

namespace ArbitroKit

open Cyclic Transition

namespace SeqMpmc

variable {α : Type*} {cap : Cap} {c : SeqMpmc α} {queued : Nat → Nat → Nat} {shard p : Nat}

/-- The cursors of each ring are as far apart as `queued` says. -/
def Spanned (cap : Cap) (c : SeqMpmc α) (queued : Nat → Nat → Nat) : Prop :=
  ∀ shard p, Spans cap (c.shards shard p).head (c.shards shard p).tail (queued shard p)

namespace Spanned

theorem toNat_pendingInShard (spanned : c.Spanned cap queued) (shard p : Nat) :
    (c.pendingInShard p shard).toNat = queued shard p :=
  (spanned shard p).occupancy

theorem toNat_availableInShard (spanned : c.Spanned cap queued) (shard p : Nat) :
    (c.availableInShard cap p shard).toNat = cap.size - queued shard p := by
  rw [availableInShard, (spanned shard p).occupancy, BitVec.toNat_ofNat]
  exact Nat.mod_eq_of_lt ((Nat.sub_le _ _).trans_lt cap.size_lt)

theorem sum_le {count : Nat} {part : Nat → Nat} (le : ∀ index, part index ≤ cap.size) :
    ∑ index ∈ Finset.range count, part index ≤ count * cap.size := by
  calc
    ∑ index ∈ Finset.range count, part index ≤ ∑ _index ∈ Finset.range count, cap.size :=
      Finset.sum_le_sum fun index _ => le index
    _ = count * cap.size := by simp

theorem toNat_producerPending (spanned : c.Spanned cap queued) (p : Nat)
    (fits : c.n * cap.size < 2 ^ 64) :
    (c.producerPending p).toNat = ∑ shard ∈ Finset.range c.n, queued shard p := by
  rw [producerPending, toNat_foldl_add]
  simp only [(spanned _ _).occupancy]
  exact Nat.mod_eq_of_lt ((sum_le fun shard => (spanned shard p).le).trans_lt fits)

/-- Without a bound on the sizes `available` is the free slots modulo the word size. -/
theorem toNat_producerAvailable_mod (spanned : c.Spanned cap queued) (p : Nat) :
    (c.producerAvailable cap p).toNat =
      (∑ shard ∈ Finset.range c.n, (cap.size - queued shard p)) % 2 ^ 64 := by
  rw [producerAvailable, toNat_foldl_add]
  congr 1
  apply Finset.sum_congr rfl
  intro shard _
  exact spanned.toNat_availableInShard shard p

theorem toNat_producerAvailable (spanned : c.Spanned cap queued) (p : Nat)
    (fits : c.n * cap.size < 2 ^ 64) :
    (c.producerAvailable cap p).toNat =
      ∑ shard ∈ Finset.range c.n, (cap.size - queued shard p) := by
  rw [spanned.toNat_producerAvailable_mod]
  exact Nat.mod_eq_of_lt ((sum_le fun shard => Nat.sub_le _ _).trans_lt fits)

theorem toNat_consumerPending (spanned : c.Spanned cap queued) (shard : Nat)
    (fits : c.m * cap.size < 2 ^ 64) :
    (c.consumerPending shard).toNat = ∑ p ∈ Finset.range c.m, queued shard p := by
  rw [consumerPending, toNat_foldl_add]
  simp only [(spanned _ _).occupancy]
  exact Nat.mod_eq_of_lt ((sum_le fun p => (spanned shard p).le).trans_lt fits)

theorem toNat_consumerAvailable (spanned : c.Spanned cap queued) (shard : Nat)
    (fits : c.m * cap.size < 2 ^ 64) :
    (c.consumerAvailable cap shard).toNat =
      ∑ p ∈ Finset.range c.m, (cap.size - queued shard p) := by
  rw [consumerAvailable, toNat_foldl_add]
  have each (p : Nat) : (BitVec.ofNat 64 (cap.size -
      ((c.shards shard p).head - (c.shards shard p).tail).toNat)).toNat =
        cap.size - queued shard p :=
    spanned.toNat_availableInShard shard p
  simp only [each]
  exact Nat.mod_eq_of_lt ((sum_le fun p => Nat.sub_le _ _).trans_lt fits)

/-- `has_pending` finds a ring exactly if the sum is positive. -/
theorem anyRingHasWork_iff (spanned : c.Spanned cap queued) (shard : Nat) :
    c.anyRingHasWork shard = true ↔ 0 < ∑ p ∈ Finset.range c.m, queued shard p := by
  rw [anyRingHasWork, List.any_eq_true, Finset.sum_pos_iff]
  apply exists_congr
  intro p
  rw [List.mem_range, Finset.mem_range, decide_eq_true_iff, Ne, (spanned shard p).eq_iff,
    Nat.pos_iff_ne_zero]

theorem sum_add_sum_sub {count : Nat} {part : Nat → Nat} (le : ∀ index, part index ≤ cap.size) :
    ∑ index ∈ Finset.range count, part index +
      ∑ index ∈ Finset.range count, (cap.size - part index) = count * cap.size := by
  rw [← Finset.sum_add_distrib]
  simp only [Nat.add_sub_cancel' (le _)]
  simp

end Spanned

end SeqMpmc

namespace MpmcState

variable {α : Type*} {size : MpmcSize} {s later : MpmcState α}

/-- What the queries of all handles say. -/
structure CapacityConserved (size : MpmcSize) (s : MpmcState α) : Prop where
  producer : ∀ p < size.m,
    ((s.atRest size).producerPending p).toNat +
        ((s.atRest size).producerAvailable size.ringCap p).toNat = size.n * size.ringCap.size ∧
      ((s.atRest size).producerPending p).toNat =
        ∑ shard ∈ Finset.range size.n, ((s.atRest size).pendingInShard p shard).toNat
  consumer : ∀ shard < size.n,
    ((s.atRest size).consumerPending shard).toNat +
        ((s.atRest size).consumerAvailable size.ringCap shard).toNat =
          size.m * size.ringCap.size ∧
      ((s.atRest size).consumerPending shard).toNat =
        ∑ p ∈ Finset.range size.m, ((s.atRest size).pendingFrom shard p).toNat ∧
      ((s.atRest size).anyRingHasWork shard = true ↔
        0 < ((s.atRest size).consumerPending shard).toNat)
  /-- Between two operations both sides count the items accepted and not delivered. -/
  balance : (∀ p < size.m, (s.producers p).pc = .idle) →
    (∀ shard < size.n, s.consumers shard = .running []) →
      ∑ p ∈ Finset.range size.m, ((s.atRest size).producerPending p).toNat =
          ∑ shard ∈ Finset.range size.n, ((s.atRest size).consumerPending shard).toNat ∧
        ∑ p ∈ Finset.range size.m, ((s.atRest size).producerPending p).toNat +
            ∑ p ∈ Finset.range size.m, ∑ shard ∈ Finset.range size.n,
              (s.rings shard p).delivered.length =
          ∑ p ∈ Finset.range size.m, (s.producers p).accepted.length

/-- A query loads a ring's `head` in this state and its `tail` after steps of the other
handles only; the difference is at most the capacity. -/
structure FiguresInRange (channel : System (MpmcState α) (MpmcAction α)) (size : MpmcSize)
    (s : MpmcState α) : Prop where
  producer : ∀ p shard later,
    (channel.guarded fun _ action => actor action ≠ .producer p).Leads s later →
      ((s.rings shard p).head - (later.rings shard p).tail).toNat ≤ size.ringCap.size
  consumer : ∀ p shard later,
    (channel.guarded fun _ action => actor action ≠ .consumer shard).Leads s later →
      ((s.rings shard p).head - (later.rings shard p).tail).toNat ≤ size.ringCap.size

theorem spanned_atRest (reached : (apart size).Reachable s) :
    (s.atRest size).Spanned size.ringCap fun shard p => (s.rings shard p).queued :=
  fun shard p => spans_atRest reached shard p

theorem producer_conserved (reached : (apart size).Reachable s)
    (fits : size.n * size.ringCap.size < 2 ^ 64) (p : Nat) :
    ((s.atRest size).producerPending p).toNat +
        ((s.atRest size).producerAvailable size.ringCap p).toNat = size.n * size.ringCap.size ∧
      ((s.atRest size).producerPending p).toNat =
        ∑ shard ∈ Finset.range size.n, ((s.atRest size).pendingInShard p shard).toNat := by
  have spanned := spanned_atRest reached
  rw [spanned.toNat_producerPending p fits, spanned.toNat_producerAvailable p fits]
  constructor
  · exact SeqMpmc.Spanned.sum_add_sum_sub fun shard => (spanned shard p).le
  · simp only [spanned.toNat_pendingInShard]
    rfl

theorem consumer_conserved (reached : (apart size).Reachable s)
    (fits : size.m * size.ringCap.size < 2 ^ 64) (shard : Nat) :
    ((s.atRest size).consumerPending shard).toNat +
        ((s.atRest size).consumerAvailable size.ringCap shard).toNat =
          size.m * size.ringCap.size ∧
      ((s.atRest size).consumerPending shard).toNat =
        ∑ p ∈ Finset.range size.m, ((s.atRest size).pendingFrom shard p).toNat ∧
      ((s.atRest size).anyRingHasWork shard = true ↔
        0 < ((s.atRest size).consumerPending shard).toNat) := by
  have spanned := spanned_atRest reached
  rw [spanned.toNat_consumerPending shard fits, spanned.toNat_consumerAvailable shard fits]
  refine ⟨?_, ?_, spanned.anyRingHasWork_iff shard⟩
  · exact SeqMpmc.Spanned.sum_add_sum_sub fun p => (spanned shard p).le
  · apply Finset.sum_congr rfl
    intro p _
    exact (spanned.toNat_pendingInShard shard p).symm

/-- What is queued and what is delivered from a producer is what it sent. -/
theorem queued_add_delivered (reached : (apart size).Reachable s) {shard : Nat}
    (idle : s.consumers shard = .running []) (p : Nat) :
    (s.rings shard p).queued + (s.rings shard p).delivered.length =
      (s.rings shard p).lane.sent.length := by
  obtain ⟨rings, -, consumers⟩ := invariant reached
  have frames := consumers shard
  rw [ConsumerOk, idle] at frames
  have released := frames.idle p List.not_mem_nil
  have delivered := frames.delivered p
  simp only [framesOf, List.flatMap_nil, List.append_nil] at delivered
  obtain ⟨ordered, -, -⟩ := (rings shard p).near
  rw [PRing.queued, (rings shard p).sound.length_sent, ← delivered, released]
  exact Nat.sub_add_cancel ordered

theorem length_accepted (reached : (apart size).Reachable s) {p : Nat}
    (idle : (s.producers p).pc = .idle) :
    (s.producers p).accepted.length =
      ∑ shard ∈ Finset.range size.n, (s.rings shard p).lane.sent.length := by
  obtain ⟨-, producers, -⟩ := invariant reached
  have count := congrArg Multiset.card (producers p).reported
  simpa [idle, unreported] using count

theorem balance (reached : (apart size).Reachable s)
    (producerFits : size.n * size.ringCap.size < 2 ^ 64)
    (consumerFits : size.m * size.ringCap.size < 2 ^ 64)
    (producersIdle : ∀ p < size.m, (s.producers p).pc = .idle)
    (consumersIdle : ∀ shard < size.n, s.consumers shard = .running []) :
    ∑ p ∈ Finset.range size.m, ((s.atRest size).producerPending p).toNat =
        ∑ shard ∈ Finset.range size.n, ((s.atRest size).consumerPending shard).toNat ∧
      ∑ p ∈ Finset.range size.m, ((s.atRest size).producerPending p).toNat +
          ∑ p ∈ Finset.range size.m, ∑ shard ∈ Finset.range size.n,
            (s.rings shard p).delivered.length =
        ∑ p ∈ Finset.range size.m, (s.producers p).accepted.length := by
  have spanned := spanned_atRest reached
  have byProducer (p : Nat) := spanned.toNat_producerPending p producerFits
  have byConsumer (shard : Nat) := spanned.toNat_consumerPending shard consumerFits
  simp only [byProducer, byConsumer]
  constructor
  · exact Finset.sum_comm
  · rw [← Finset.sum_add_distrib]
    apply Finset.sum_congr rfl
    intro p member
    rw [length_accepted reached (producersIdle p (Finset.mem_range.mp member))]
    refine Finset.sum_add_distrib.symm.trans (Finset.sum_congr rfl ?_)
    intro shard member
    exact queued_add_delivered reached (consumersIdle shard (Finset.mem_range.mp member)) p

/-! ### Loads with steps in between -/

/-- What steps of the others keep, a run of the others keeps. -/
theorem keeps_of_others {party : MpmcParty} {β : Type*} (seen : MpmcState α → β)
    (reached : (apart size).Reachable s)
    (leads : ((apart size).guarded fun _ action => actor action ≠ party).Leads s later)
    (step : ∀ before after : MpmcState α, PartyRely party before after →
      seen after = seen before) :
    (apart size).Reachable later ∧ seen later = seen s := by
  induction leads with
  | refl => exact ⟨reached, rfl⟩
  | tail _ edge ih =>
      obtain ⟨action, other, taken⟩ := edge
      obtain ⟨reachedBefore, same⟩ := ih
      have rely := rely_of_step (invariant reachedBefore).1 taken.2 (Ne.symm other)
      exact ⟨reachedBefore.next taken, (step _ _ rely).trans same⟩

theorem figuresInRange_of_apart (reached : (apart size).Reachable s) :
    FiguresInRange (apart size) size s where
  producer p shard later leads := by
    -- the head is the producer's own and is still current when the tail is loaded
    obtain ⟨reachedLater, same⟩ := keeps_of_others (fun state => (state.rings shard p).head)
      reached leads fun _ _ rely => (rely.rings shard).head
    rw [← same]
    exact (exactlyOnce_of_apart reachedLater).occupancy shard p
  consumer p shard later leads := by
    -- the tail is the consumer's own and has not moved since the head was loaded
    obtain ⟨-, same⟩ := keeps_of_others (fun state => (state.rings shard p).tail)
      reached leads fun _ _ rely => (rely.rings p).tail
    rw [same]
    exact (exactlyOnce_of_apart reached).occupancy shard p

/-- In every run whose nested receives keep off the rings being drained around them, the
queries add up, and each of their figures is in range even when others step between its
two loads. -/
theorem capacity_conserved (reached : (apart size).Reachable s)
    (producerFits : size.n * size.ringCap.size < 2 ^ 64)
    (consumerFits : size.m * size.ringCap.size < 2 ^ 64) :
    CapacityConserved size s ∧ FiguresInRange (apart size) size s := by
  refine ⟨?_, figuresInRange_of_apart reached⟩
  constructor
  · exact fun p _ => producer_conserved reached producerFits p
  · exact fun shard _ => consumer_conserved reached consumerFits shard
  · exact balance reached producerFits consumerFits

/-- One item of two taken out. -/
theorem capacity_conserved_oneReceived :
    ∃ s : MpmcState Nat, (apart twoShards).Reachable s ∧
      (s.atRest twoShards).producerPending 0 = 1 ∧
        CapacityConserved twoShards s ∧ FiguresInRange (apart twoShards) twoShards s := by
  have ran : (Transition.execute (Transition.guardedStep
      (fun s (action : MpmcAction Nat) => s.rereadsNothing action = true)
      fun s action => s.step twoShards action) (new twoShards) oneReceived).map
        (fun s => (s.atRest twoShards).producerPending 0) = some 1 := by
    rfl
  obtain ⟨s, ran, pending⟩ := Option.map_eq_some_iff.mp ran
  have reached : (apart twoShards).Reachable s := System.reachable_of_guarded_execute rfl ran
  exact ⟨s, reached, pending, capacity_conserved reached (by decide) (by decide)⟩

/-- The callback receives its own item again and one more; then a third is sent. -/
def sendAfterReentry : List (MpmcAction Nat) := receiveAgainInside ++ sendBy 0 7

/-- The producer has loaded `head`; the outer call's guard puts the tail back by one
before it loads `tail`.  When the call has returned, nothing is left in the ring, but
five items have been handed out of three. -/
theorem capacity_notConserved_sendAfterReentry :
    ∃ s after : MpmcState Nat, (system oneShard).Reachable s ∧
      (s.producers 0).pc = .idle ∧ ¬ FiguresInRange (system oneShard) oneShard s ∧
        (system oneShard).Leads s after ∧ ¬ CapacityConserved oneShard after := by
  have ran : (Transition.execute (fun s action => s.step oneShard action) (new oneShard)
      sendAfterReentry).map (fun s => ((s.producers 0).pc, (s.rings 0 0).head,
        (s.step oneShard (.consumer 0 .tick)).map (fun after => (after.rings 0 0).tail),
          (Transition.execute (fun s action => s.step oneShard action) s
            (consumerTicks 0 19)).map fun after =>
              (((after.producers 0).pc, (after.producers 1).pc, after.consumers 0),
                ((after.producers 0).accepted, (after.producers 1).accepted,
                  (after.rings 0 0).delivered),
                (after.atRest oneShard).producerPending 0))) =
          some (.idle, 3, some 1,
            some ((.idle, .idle, .running []), ([5, 6, 7], [], [5, 5, 6, 7, 7]), 0)) := by
    rfl
  obtain ⟨s, ran, seen⟩ := Option.map_eq_some_iff.mp ran
  obtain ⟨idle, head, next, last⟩ := by simpa only [Prod.mk.injEq] using seen
  obtain ⟨later, taken, tail⟩ := Option.map_eq_some_iff.mp next
  obtain ⟨after, finished, seenAfter⟩ := Option.map_eq_some_iff.mp last
  obtain ⟨⟨idle0, idle1, resting⟩, ⟨accepted0, accepted1, delivered⟩, pending⟩ := by
    simpa only [Prod.mk.injEq] using seenAfter
  refine ⟨s, after, System.reachable_of_execute rfl ran, idle, ?_,
    System.leads_of_execute finished, ?_⟩
  · intro inRange
    have others : ((system oneShard).guarded
        fun _ action => actor action ≠ .producer 0).Leads s later := by
      refine .single ⟨?_, taken⟩
      intro same
      cases same
    have figure := inRange.producer 0 0 later others
    rw [head, tail] at figure
    exact absurd figure (by decide)
  · intro conserved
    have producersIdle : ∀ p < oneShard.m, (after.producers p).pc = .idle := by
      intro p inside
      obtain rfl | rfl := Nat.le_one_iff_eq_zero_or_eq_one.mp (Nat.lt_succ_iff.mp inside)
      · exact idle0
      · exact idle1
    have consumersIdle : ∀ shard < oneShard.n, after.consumers shard = .running [] := by
      intro shard inside
      obtain rfl := Nat.lt_one_iff.mp inside
      exact resting
    have counted := (conserved.balance producersIdle consumersIdle).2
    simp [oneShard, Finset.sum_range_succ, accepted0, accepted1, delivered] at counted
    omega

end MpmcState

end ArbitroKit
