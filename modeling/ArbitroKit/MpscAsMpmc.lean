import ArbitroKit.Mpsc
import ArbitroKit.RingQueue
import ArbitroKit.SequentialMpmc

/-!
# The many-producer channel is the sharded channel with one shard

Both keep the queues of one abstract channel: `Mpsc` behind copies of the cursors that
may be old, `Mpmc` behind the cursors themselves.  Either answers every operation as
the abstract channel does, so each simulates the other.
-/

namespace ArbitroKit

open Cyclic

variable {α : Type*} {cap : Cap}

/-! ### `Mpsc` keeps the channel's queues -/

structure SeqMpsc.Refines (cap : Cap) (m : Nat) (s : SeqMpsc α) (channel : Channel α) : Prop where
  rings : ∀ p, (s.rings p).Holds cap (channel.queues p)
  live : s.liveProducers = (List.range m).countP channel.held
  shutdown : s.shutdown = channel.shutdown

namespace SeqMpsc.Refines

variable {m : Nat} {s : SeqMpsc α} {channel : Channel α} {p : Nat}

theorem new : (SeqMpsc.new m : SeqMpsc α).Refines cap m .new where
  rings _ := .new
  live := by simp [SeqMpsc.new, Channel.new]
  shutdown := rfl

theorem setRing (refines : s.Refines cap m channel) {ring : SeqRing α} {queue : List α}
    (holds : ring.Holds cap queue) :
    (s.setRing p ring).Refines cap m (channel.setQueue p queue) where
  rings q := by
    by_cases same : q = p
    · subst same
      simpa [SeqMpsc.setRing, Channel.setQueue] using holds
    · simpa [SeqMpsc.setRing, Channel.setQueue, same] using refines.rings q
  live := refines.live
  shutdown := refines.shutdown

/-- Only the copies change. -/
theorem refresh (refines : s.Refines cap m channel) {ring : SeqRing α}
    (holds : ring.Holds cap (channel.queues p)) : (s.setRing p ring).Refines cap m channel := by
  have refreshed := refines.setRing (p := p) holds
  rwa [Channel.setQueue_self] at refreshed

theorem trySend (refines : s.Refines cap m channel) (p : Nat) (value : α) :
    ∃ after, s.trySend cap p value = ((channel.trySend cap p value).1, after) ∧
      after.Refines cap m (channel.trySend cap p value).2 := by
  have holds := refines.rings p
  unfold SeqMpsc.trySend Channel.trySend
  rw [refines.shutdown]
  split
  · exact ⟨s, rfl, refines⟩
  · by_cases room : (channel.queues p).length < cap.size
    · obtain ⟨ring, sent, holds⟩ := holds.trySend_ok value room
      rw [sent, if_pos room]
      exact ⟨_, rfl, refines.setRing holds⟩
    · obtain ⟨error, ring, sent, error_eq, holds⟩ := holds.trySend_error value room
      rw [sent, if_neg room]
      rcases error_eq with rfl | rfl
      · exact ⟨_, rfl, refines.refresh holds⟩
      · exact ⟨_, rfl, refines.refresh holds⟩

theorem tryRecv (refines : s.Refines cap m channel) (indices : List Nat) :
    ∃ after, s.tryRecv cap indices = some ((channel.takeFirst indices).1, after) ∧
      after.Refines cap m (channel.takeFirst indices).2 := by
  induction indices generalizing s with
  | nil => exact ⟨s, rfl, refines⟩
  | cons idx rest ih =>
      have holds := refines.rings idx
      unfold SeqMpsc.tryRecv Channel.takeFirst
      cases queue : channel.queues idx with
      | cons value later =>
          rw [queue] at holds
          obtain ⟨copy, received, holds⟩ := holds.tryRecv_cons
          rw [received]
          exact ⟨_, rfl, refines.setRing holds⟩
      | nil =>
          rw [queue] at holds
          have received := holds.tryRecv_nil
          rw [received]
          rw [← queue] at holds
          exact ih (refines.refresh holds)

theorem pass (refines : s.Refines cap m channel) (total : Nat) (progress : Bool)
    (indices : List Nat) :
    ∃ after, s.pass cap total progress indices =
        some ((channel.takeAll indices).1, total + (channel.takeAll indices).1.length,
          progress || !(channel.takeAll indices).1.isEmpty, after) ∧
      after.Refines cap m (channel.takeAll indices).2 := by
  induction indices generalizing s channel total progress with
  | nil => exact ⟨s, by simp [SeqMpsc.pass, Channel.takeAll], refines⟩
  | cons idx rest ih =>
      obtain ⟨left, -, drained, holds⟩ := (refines.rings idx).drain
      unfold SeqMpsc.pass Channel.takeAll
      rw [drained]
      dsimp only
      cases queue : channel.queues idx with
      | nil =>
          obtain ⟨after, passed, refines⟩ := ih (refines.setRing holds) total progress
          refine ⟨after, ?_, refines⟩
          simp [passed]
      | cons value later =>
          obtain ⟨after, passed, refines⟩ :=
            ih (refines.setRing holds) (total + (value :: later).length) true
          refine ⟨after, ?_, refines⟩
          rw [if_pos (List.length_pos_of_ne_nil (List.cons_ne_nil value later)), passed,
            Option.map_some]
          rw [List.length_append, ← Nat.add_assoc]
          simp

theorem tryRecvBatch (refines : s.Refines cap m channel) {fuel : Nat} (enough : 2 ≤ fuel) :
    ∃ after, SeqMpsc.tryRecvBatch cap m fuel s 0 =
        some ((channel.takeAll (List.range m)).1.length, (channel.takeAll (List.range m)).1,
          after) ∧
      after.Refines cap m (channel.takeAll (List.range m)).2 := by
  obtain ⟨fuel, rfl⟩ := Nat.exists_eq_add_of_le enough
  rw [Nat.add_comm]
  obtain ⟨after, passed, refines⟩ := refines.pass 0 false (List.range m)
  unfold SeqMpsc.tryRecvBatch
  rw [passed]
  dsimp only
  cases items : (channel.takeAll (List.range m)).1 with
  | nil => exact ⟨after, by simp, refines⟩
  | cons value later =>
      -- the pass that ends the loop
      obtain ⟨last, again, refines⟩ :=
        refines.pass (0 + (value :: later).length) false (List.range m)
      rw [Channel.takeAll_again] at again refines
      have ended : SeqMpsc.tryRecvBatch cap m (fuel + 1) after (0 + (value :: later).length) =
          some ((value :: later).length, [], last) := by
        rw [SeqMpsc.tryRecvBatch, again]
        simp
      refine ⟨last, ?_, refines⟩
      change Option.map _ (SeqMpsc.tryRecvBatch cap m (fuel + 1) after _) = _
      rw [ended, Option.map_some, List.append_nil]

theorem anyRingHasWork (refines : s.Refines cap m channel)
    (empty : ∀ p ∈ List.range m, channel.queues p = []) : s.anyRingHasWork m = false := by
  rw [SeqMpsc.anyRingHasWork, List.any_eq_false]
  intro p member
  rw [(refines.rings p).isEmpty, empty p member]
  simp

/-- With nothing in the rings, either finish condition is that of the channel. -/
theorem emptyHanded (refines : s.Refines cap m channel) {β : Type*}
    (empty : ∀ p ∈ List.range m, channel.queues p = []) :
    (s.emptyHanded m : Decision β) = channel.emptyHanded m := by
  have finished : s.isFinished m = channel.closed m := by
    rw [SeqMpsc.isFinished, refines.anyRingHasWork empty, refines.shutdown, refines.live,
      Channel.closed_iff, Bool.not_false, Bool.and_true]
  rw [SeqMpsc.emptyHanded, Channel.emptyHanded, finished, refines.anyRingHasWork empty]
  cases channel.closed m
  · rfl
  · rfl

theorem recv (refines : s.Refines cap m channel) :
    ∃ after, (s.recv cap m).map (fun (decision, s) => (ChannelResult.recv decision, s)) =
        some ((channel.step cap m .recv).1, after) ∧
      after.Refines cap m (channel.step cap m .recv).2 := by
  obtain ⟨after, received, refines⟩ := refines.tryRecv (List.range m)
  rw [SeqMpsc.recv, received]
  unfold Channel.step
  cases taken : channel.takeFirst (List.range m) with
  | mk result left =>
      rw [taken] at refines
      cases result with
      | some value => exact ⟨after, rfl, refines⟩
      | none =>
          have quiet := Channel.takeFirst_eq_none (congrArg Prod.fst taken)
          rw [taken] at quiet
          have empty := refines.emptyHanded (β := α) (by rw [quiet.1]; exact quiet.2)
          exact ⟨after, by simp [empty], refines⟩

theorem recvBatch (refines : s.Refines cap m channel) {fuel : Nat} (enough : 2 ≤ fuel) :
    ∃ after, (s.recvBatch cap m fuel).map
        (fun (decision, s) => (ChannelResult.recvBatch decision, s)) =
          some ((channel.step cap m .recvBatch).1, after) ∧
      after.Refines cap m (channel.step cap m .recvBatch).2 := by
  obtain ⟨after, received, refines⟩ := refines.tryRecvBatch enough
  rw [SeqMpsc.recvBatch, received]
  unfold Channel.step
  cases taken : channel.takeAll (List.range m) with
  | mk items left =>
      rw [taken] at refines
      cases items with
      | cons value later => exact ⟨after, by simp, refines⟩
      | nil =>
          have quiet := Channel.takeAll_eq_nil (congrArg Prod.fst taken)
          rw [taken] at quiet
          have empty := refines.emptyHanded (β := Nat × List α) (by rw [quiet.1]; exact quiet.2)
          exact ⟨after, by simp [empty], refines⟩

theorem dropProducer (refines : s.Refines cap m channel) (inside : p < m)
    (here : channel.held p = true) :
    (s.dropProducer p).Refines cap m
      { channel with held := Function.update channel.held p false } where
  rings q := ((refines.refresh (refines.rings p).close).rings q)
  live := by
    have count := Channel.countP_drop inside here
    have live := refines.live
    simp only [SeqMpsc.dropProducer]
    omega
  shutdown := refines.shutdown

theorem consumerPending (refines : s.Refines cap m channel) :
    s.consumerPending m = channel.pending m := by
  rw [SeqMpsc.consumerPending, Channel.pending]
  congr 2
  funext p
  exact (refines.rings p).len

theorem producerAvailable (refines : s.Refines cap m channel) (p : Nat) :
    s.producerAvailable cap p = BitVec.ofNat 64 (cap.size - (channel.queues p).length) := by
  rw [SeqMpsc.producerAvailable, SeqMpsc.producerPending, SeqRing.len,
    (refines.rings p).stores.occupancy]

/-- Every operation is answered as the channel answers it. -/
theorem step (refines : s.Refines cap m channel) {fuel : Nat} (enough : 2 ≤ fuel)
    {op : ChannelOp α} (permitted : Channel.permits m channel.held op = true) :
    ∃ after, s.step cap m fuel op = some ((channel.step cap m op).1, after) ∧
      after.Refines cap m (channel.step cap m op).2 := by
  cases op with
  | trySend p value =>
      obtain ⟨after, sent, refines⟩ := refines.trySend p value
      refine ⟨after, ?_, refines⟩
      rw [SeqMpsc.step, sent]
      rfl
  | tryRecv =>
      obtain ⟨after, received, refines⟩ := refines.tryRecv (List.range m)
      refine ⟨after, ?_, refines⟩
      rw [SeqMpsc.step, received]
      rfl
  | tryRecvBatch =>
      obtain ⟨after, received, refines⟩ := refines.tryRecvBatch enough
      refine ⟨after, ?_, refines⟩
      rw [SeqMpsc.step, received]
      rfl
  | recv => exact refines.recv
  | recvBatch => exact refines.recvBatch enough
  | dropProducer p =>
      rw [Channel.permits, Bool.and_eq_true, Nat.blt_eq] at permitted
      exact ⟨_, rfl, refines.dropProducer permitted.1 permitted.2⟩
  | signal => exact ⟨_, rfl, refines.rings, refines.live, rfl⟩
  | producerPending p =>
      refine ⟨s, ?_, refines⟩
      rw [SeqMpsc.step, SeqMpsc.producerPending, (refines.rings p).len]
      rfl
  | producerAvailable p =>
      refine ⟨s, ?_, refines⟩
      rw [SeqMpsc.step, refines.producerAvailable]
      rfl
  | consumerPending =>
      refine ⟨s, ?_, refines⟩
      rw [SeqMpsc.step, refines.consumerPending]
      rfl

end SeqMpsc.Refines

/-! ### `Mpmc` with one shard keeps them too -/

structure SeqMpmc.Refines (cap : Cap) (m : Nat) (c : SeqMpmc α) (channel : Channel α) : Prop where
  rings : ∀ p, Stores cap (c.shards 0 p).slots (c.shards 0 p).head (c.shards 0 p).tail
    (channel.queues p)
  live : c.liveProducers = (List.range m).countP channel.held
  shutdown : c.shutdown = channel.shutdown
  liveConsumers : c.liveConsumers = 1
  producers : c.m = m
  shards : c.n = 1

namespace SeqMpmc.Refines

variable {m : Nat} {c : SeqMpmc α} {channel : Channel α} {p : Nat}

theorem new : (SeqMpmc.new m 1 : SeqMpmc α).Refines cap m .new where
  rings _ := stores_nil 0
  live := by simp [SeqMpmc.new, Channel.new]
  shutdown := rfl
  liveConsumers := rfl
  producers := rfl
  shards := rfl

theorem setRing (refines : c.Refines cap m channel) {ring : SeqPRing α} {queue : List α}
    (stores : Stores cap ring.slots ring.head ring.tail queue) :
    (c.setRing 0 p ring).Refines cap m (channel.setQueue p queue) where
  rings q := by
    by_cases same : q = p
    · subst same
      simpa [SeqMpmc.setRing, Channel.setQueue] using stores
    · simpa [SeqMpmc.setRing, Channel.setQueue, same] using refines.rings q
  live := refines.live
  shutdown := refines.shutdown
  liveConsumers := refines.liveConsumers
  producers := refines.producers
  shards := refines.shards

theorem trySend (refines : c.Refines cap m channel) (p : Nat) (value : α) :
    ∃ after, c.trySend cap p value = ((channel.trySend cap p value).1, after) ∧
      after.Refines cap m (channel.trySend cap p value).2 := by
  have stores := refines.rings p
  have terminal : c.isTerminalForProducer = channel.shutdown := by
    rw [SeqMpmc.isTerminalForProducer, refines.liveConsumers, refines.shutdown]
    exact Bool.or_false _
  unfold SeqMpmc.trySend Channel.trySend
  rw [terminal]
  split
  · exact ⟨c, rfl, refines⟩
  · -- the one shard
    have shard (k : Nat) : (c.cursors p % c.n + k) % c.n = 0 := by
      rw [refines.shards]
      exact Nat.mod_one _
    rw [refines.shards, List.range_one]
    unfold trySendFrom
    simp only [← refines.shards, shard]
    have full : SeqPRing.isFull cap (c.shards 0 p).head (c.shards 0 p).tail =
        !decide ((channel.queues p).length < cap.size) := by
      rw [SeqPRing.isFull, stores.occupancy, ← decide_not, decide_eq_decide]
      exact Nat.not_lt.symm
    rw [full]
    by_cases room : (channel.queues p).length < cap.size
    · rw [if_pos room, decide_eq_true room, if_neg (by simp)]
      have moved : (c.setRing 0 p ((c.shards 0 p).put cap value)).Refines cap m
          (channel.setQueue p (channel.queues p ++ [value])) :=
        refines.setRing (stores.push room value)
      exact ⟨_, rfl, moved.rings, moved.live, moved.shutdown, moved.liveConsumers,
        moved.producers, moved.shards⟩
    · rw [if_neg room, decide_eq_false room, if_pos (by simp)]
      exact ⟨c, rfl, refines⟩

theorem tryRecv (refines : c.Refines cap m channel) (indices : List Nat) :
    ∃ after, c.tryRecv cap 0 indices = some ((channel.takeFirst indices).1, after) ∧
      after.Refines cap m (channel.takeFirst indices).2 := by
  induction indices with
  | nil => exact ⟨c, rfl, refines⟩
  | cons p rest ih =>
      have stores := refines.rings p
      unfold SeqMpmc.tryRecv Channel.takeFirst
      dsimp only
      cases queue : channel.queues p with
      | nil =>
          rw [queue] at stores
          rw [if_pos (stores.eq_iff.mpr rfl).symm]
          exact ih
      | cons value later =>
          rw [queue] at stores
          have other : (c.shards 0 p).tail ≠ (c.shards 0 p).head := fun same =>
            List.cons_ne_nil value later (stores.eq_iff.mp same.symm)
          rw [if_neg other, SeqPRing.take, stores.front]
          exact ⟨_, rfl, refines.setRing stores.pop⟩

theorem pass (refines : c.Refines cap m channel) (count : Nat) (progress : Bool)
    (indices : List Nat) :
    ∃ after, c.pass cap 0 count progress indices =
        some ((channel.takeAll indices).1, count + (channel.takeAll indices).1.length,
          progress || !(channel.takeAll indices).1.isEmpty, after) ∧
      after.Refines cap m (channel.takeAll indices).2 := by
  induction indices generalizing c channel count progress with
  | nil => exact ⟨c, by simp [SeqMpmc.pass, Channel.takeAll], refines⟩
  | cons p rest ih =>
      have stores := refines.rings p
      unfold SeqMpmc.pass Channel.takeAll
      dsimp only
      cases queue : channel.queues p with
      | nil =>
          rw [queue] at stores
          rw [if_pos (stores.eq_iff.mpr rfl).symm]
          have same : channel.setQueue p [] = channel := by
            rw [← queue, Channel.setQueue_self]
          rw [same, List.nil_append]
          exact ih refines count progress
      | cons value later =>
          rw [queue] at stores
          have other : (c.shards 0 p).tail ≠ (c.shards 0 p).head := fun same =>
            List.cons_ne_nil value later (stores.eq_iff.mp same.symm)
          obtain ⟨left, drained⟩ := stores.drainFrom
          have moved : (c.setRing 0 p ⟨(c.shards 0 p).head, (c.shards 0 p).head, left⟩).Refines
              cap m (channel.setQueue p []) := refines.setRing (stores_nil _)
          obtain ⟨after, passed, refines⟩ := ih moved (count + (value :: later).length) true
          refine ⟨after, ?_, refines⟩
          rw [if_neg other, SeqPRing.drain, drained, Option.map_some]
          dsimp only
          rw [passed, Option.map_some]
          rw [List.length_append, ← Nat.add_assoc]
          simp

theorem drainAll (refines : c.Refines cap m channel) {fuel : Nat} (enough : 2 ≤ fuel) :
    ∃ after, SeqMpmc.drainAll cap 0 fuel c 0 =
        some ((channel.takeAll (List.range m)).1.length, (channel.takeAll (List.range m)).1,
          after) ∧
      after.Refines cap m (channel.takeAll (List.range m)).2 := by
  obtain ⟨fuel, rfl⟩ := Nat.exists_eq_add_of_le enough
  rw [Nat.add_comm]
  obtain ⟨after, passed, refined⟩ := refines.pass 0 false (List.range m)
  unfold SeqMpmc.drainAll
  rw [refines.producers, passed]
  dsimp only
  cases items : (channel.takeAll (List.range m)).1 with
  | nil => exact ⟨after, by simp, refined⟩
  | cons value later =>
      -- the pass that ends the loop
      obtain ⟨last, again, refines⟩ :=
        refined.pass (0 + (value :: later).length) false (List.range m)
      rw [Channel.takeAll_again] at again refines
      have ended : SeqMpmc.drainAll cap 0 (fuel + 1) after (0 + (value :: later).length) =
          some ((value :: later).length, [], last) := by
        rw [SeqMpmc.drainAll, refined.producers, again]
        simp
      refine ⟨last, ?_, refines⟩
      change Option.map _ (SeqMpmc.drainAll cap 0 (fuel + 1) after _) = _
      rw [ended, Option.map_some, List.append_nil]

theorem anyRingHasWork (refines : c.Refines cap m channel)
    (empty : ∀ p ∈ List.range m, channel.queues p = []) : c.anyRingHasWork 0 = false := by
  rw [SeqMpmc.anyRingHasWork, List.any_eq_false, refines.producers]
  intro p member
  have same := (refines.rings p).eq_iff.mpr (empty p member)
  simp [same]

theorem emptyHanded (refines : c.Refines cap m channel) {β : Type*}
    (empty : ∀ p ∈ List.range m, channel.queues p = []) :
    (c.emptyHanded 0 : Decision β) = channel.emptyHanded m := by
  have terminal : c.isTerminalForConsumer = channel.closed m := by
    rw [SeqMpmc.isTerminalForConsumer, refines.shutdown, refines.live, Channel.closed_iff]
  rw [SeqMpmc.emptyHanded, Channel.emptyHanded, terminal, refines.anyRingHasWork empty]
  cases channel.closed m
  · rfl
  · rfl

theorem recv (refines : c.Refines cap m channel) :
    ∃ after, (c.recv cap 0).map (fun (decision, c) => (ChannelResult.recv decision, c)) =
        some ((channel.step cap m .recv).1, after) ∧
      after.Refines cap m (channel.step cap m .recv).2 := by
  obtain ⟨after, received, refined⟩ := refines.tryRecv (List.range m)
  rw [SeqMpmc.recv, refines.producers, received]
  unfold Channel.step
  cases taken : channel.takeFirst (List.range m) with
  | mk result left =>
      rw [taken] at refined
      cases result with
      | some value => exact ⟨after, rfl, refined⟩
      | none =>
          have quiet := Channel.takeFirst_eq_none (congrArg Prod.fst taken)
          rw [taken] at quiet
          have empty := refined.emptyHanded (β := α) (by rw [quiet.1]; exact quiet.2)
          exact ⟨after, by simp [empty], refined⟩

theorem recvBatch (refines : c.Refines cap m channel) {fuel : Nat} (enough : 2 ≤ fuel) :
    ∃ after, (c.recvBatch cap fuel 0).map
        (fun (decision, c) => (ChannelResult.recvBatch decision, c)) =
          some ((channel.step cap m .recvBatch).1, after) ∧
      after.Refines cap m (channel.step cap m .recvBatch).2 := by
  obtain ⟨after, received, refines⟩ := refines.drainAll enough
  rw [SeqMpmc.recvBatch, received]
  unfold Channel.step
  cases taken : channel.takeAll (List.range m) with
  | mk items left =>
      rw [taken] at refines
      cases items with
      | cons value later => exact ⟨after, by simp, refines⟩
      | nil =>
          have quiet := Channel.takeAll_eq_nil (congrArg Prod.fst taken)
          rw [taken] at quiet
          have empty := refines.emptyHanded (β := Nat × List α) (by rw [quiet.1]; exact quiet.2)
          exact ⟨after, by simp [empty], refines⟩

theorem dropProducer (refines : c.Refines cap m channel) (inside : p < m)
    (here : channel.held p = true) :
    c.dropProducer.Refines cap m
      { channel with held := Function.update channel.held p false } where
  rings := refines.rings
  live := by
    have count := Channel.countP_drop inside here
    have live := refines.live
    simp only [SeqMpmc.dropProducer]
    omega
  shutdown := refines.shutdown
  liveConsumers := refines.liveConsumers
  producers := refines.producers
  shards := refines.shards

/-- The cursors of a ring count its queue. -/
theorem len (refines : c.Refines cap m channel) (p : Nat) :
    (c.shards 0 p).head - (c.shards 0 p).tail = BitVec.ofNat 64 (channel.queues p).length := by
  rw [← (refines.rings p).occupancy, BitVec.ofNat_toNat, BitVec.setWidth_eq]

theorem producerPending (refines : c.Refines cap m channel) (p : Nat) :
    c.producerPending p = BitVec.ofNat 64 (channel.queues p).length := by
  rw [SeqMpmc.producerPending, refines.shards, List.range_one, List.foldl_cons, List.foldl_nil,
    refines.len, zero_add]

theorem producerAvailable (refines : c.Refines cap m channel) (p : Nat) :
    c.producerAvailable cap p = BitVec.ofNat 64 (cap.size - (channel.queues p).length) := by
  rw [SeqMpmc.producerAvailable, refines.shards, List.range_one, List.foldl_cons,
    List.foldl_nil, (refines.rings p).occupancy, zero_add]

theorem consumerPending (refines : c.Refines cap m channel) :
    c.consumerPending 0 = channel.pending m := by
  rw [SeqMpmc.consumerPending, Channel.pending, refines.producers, List.sum_eq_foldl,
    List.foldl_map]
  congr 1
  funext total p
  rw [refines.len]

/-- Every operation is answered as the channel answers it. -/
theorem step (refines : c.Refines cap m channel) {fuel : Nat} (enough : 2 ≤ fuel)
    {op : ChannelOp α} (permitted : Channel.permits m channel.held op = true) :
    ∃ after, c.step cap fuel op = some ((channel.step cap m op).1, after) ∧
      after.Refines cap m (channel.step cap m op).2 := by
  cases op with
  | trySend p value =>
      obtain ⟨after, sent, refines⟩ := refines.trySend p value
      refine ⟨after, ?_, refines⟩
      rw [SeqMpmc.step, sent]
      rfl
  | tryRecv =>
      obtain ⟨after, received, refined⟩ := refines.tryRecv (List.range m)
      refine ⟨after, ?_, refined⟩
      rw [SeqMpmc.step, refines.producers, received]
      rfl
  | tryRecvBatch =>
      obtain ⟨after, received, refines⟩ := refines.drainAll enough
      refine ⟨after, ?_, refines⟩
      rw [SeqMpmc.step, received]
      rfl
  | recv => exact refines.recv
  | recvBatch => exact refines.recvBatch enough
  | dropProducer p =>
      rw [Channel.permits, Bool.and_eq_true, Nat.blt_eq] at permitted
      exact ⟨_, rfl, refines.dropProducer permitted.1 permitted.2⟩
  | signal =>
      exact ⟨_, rfl, refines.rings, refines.live, rfl, refines.liveConsumers,
        refines.producers, refines.shards⟩
  | producerPending p =>
      refine ⟨c, ?_, refines⟩
      rw [SeqMpmc.step, refines.producerPending]
      rfl
  | producerAvailable p =>
      refine ⟨c, ?_, refines⟩
      rw [SeqMpmc.step, refines.producerAvailable]
      rfl
  | consumerPending =>
      refine ⟨c, ?_, refines⟩
      rw [SeqMpmc.step, refines.consumerPending]
      rfl

end SeqMpmc.Refines

/-! ### Every history -/

/-- The two keep the queues of one channel. -/
def Simulates (cap : Cap) (m : Nat) (mpsc : SeqMpsc α) (mpmc : SeqMpmc α) : Prop :=
  ∃ channel : Channel α, mpsc.Refines cap m channel ∧ mpmc.Refines cap m channel

/-- In every history `Mpsc` with `m` producers and `Mpmc` with `m` producers and one
consumer answer alike, and as the channel they stand for. -/
theorem mpsc_behavesAs_mpmc (size : MpscSize) {fuel : Nat} (enough : 2 ≤ fuel)
    (history : List (ChannelOp α))
    (permitted : Channel.legal size.m (fun _ => true) history = true) :
    ∃ results mpsc mpmc, results = (Channel.new.run size.cap size.m history).1 ∧
      Channel.answers (SeqMpsc.step size.cap size.m fuel) (.new size.m) history =
        some (results, mpsc) ∧
      Channel.answers (SeqMpmc.step size.cap fuel) (.new size.m 1) history =
        some (results, mpmc) ∧
      Simulates size.cap size.m mpsc mpmc := by
  obtain ⟨mpsc, mpscAnswers, mpscRefines⟩ := Channel.answers_refine
    (fun _ _ _ refines => SeqMpsc.Refines.step refines enough) SeqMpsc.Refines.new permitted
  obtain ⟨mpmc, mpmcAnswers, mpmcRefines⟩ := Channel.answers_refine
    (fun _ _ _ refines => SeqMpmc.Refines.step refines enough) SeqMpmc.Refines.new permitted
  exact ⟨_, mpsc, mpmc, rfl, mpscAnswers, mpmcAnswers, _, mpscRefines, mpmcRefines⟩

/-- Two producers with one slot each: a full ring, a batch, a drop and a shutdown. -/
def sampleHistory : List (ChannelOp Nat) :=
  [.trySend 1 5, .trySend 1 6, .trySend 0 7, .producerAvailable 1, .recv, .tryRecvBatch, .recv,
    .dropProducer 1, .trySend 0 8, .signal, .trySend 0 9, .consumerPending, .recvBatch, .recv]

theorem mpsc_behavesAs_mpmc_sampleHistory :
    ∃ results mpsc mpmc, results = (Channel.new.run oneSlotCap 2 sampleHistory).1 ∧
      Channel.answers (SeqMpsc.step oneSlotCap 2 2) (.new 2) sampleHistory = some (results, mpsc) ∧
      Channel.answers (SeqMpmc.step oneSlotCap 2) (.new 2 1) sampleHistory =
        some (results, mpmc) ∧
      Simulates oneSlotCap 2 mpsc mpmc :=
  mpsc_behavesAs_mpmc ⟨oneSlotCap, 2, Nat.two_pos, by decide⟩ le_rfl sampleHistory rfl

end ArbitroKit
