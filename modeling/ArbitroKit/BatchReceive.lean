import ArbitroKit.AtRest
import ArbitroKit.Emptying
import Mathlib.Algebra.Order.BigOperators.Group.List

/-!
# A batch receive is receives repeated

The batch paths are code of their own: `Ring::drain` takes one snapshot of `head` and
stores `tail` once, and both channels pass over their rings until a pass makes no
progress.  From every state at rest they hand out what single receives hand out until
one comes back empty-handed, and leave the same state.
-/

namespace ArbitroKit

open Cyclic Transition Emptying

variable {α : Type*} {cap : Cap}

/-- `Consumer::try_recv`, its two errors taken for one. -/
def SeqRing.receive (cap : Cap) (ring : SeqRing α) : Option (Option α × SeqRing α) :=
  (ring.tryRecv cap).map fun (result, ring) => (result.toOption, ring)

namespace SeqRing.Holds

variable {ring : SeqRing α} {queue : List α} {left : Nat → Option α}

/-- Single receives leave what a drain leaves. -/
theorem untilEmpty (holds : ring.Holds cap queue)
    (emptied : drainFrom cap ring.head ring.tail ring.slots = some (queue, left)) :
    UntilEmpty (SeqRing.receive cap) ring queue (ring.drained left) := by
  induction queue generalizing ring with
  | nil =>
      have failed := holds.tryRecv_nil
      rw [Cyclic.drainFrom, if_pos holds.headCopy_nil.2.symm] at emptied
      obtain ⟨-, rfl⟩ := Prod.mk.inj (Option.some.inj emptied)
      rw [holds.drained_nil]
      apply UntilEmpty.failed
      rw [SeqRing.receive, failed]
      rfl
  | cons value rest ih =>
      obtain ⟨copy, received, holdsRest⟩ := holds.tryRecv_cons
      obtain ⟨left', emptiedRest, -⟩ := holdsRest.drain
      have same : left' = left := by
        rw [holds.drainFrom_cons emptiedRest] at emptied
        exact (Prod.mk.inj (Option.some.inj emptied)).2
      subst same
      have some : SeqRing.receive cap ring = some (some value, ring.popped cap copy) := by
        rw [SeqRing.receive, received]
        rfl
      exact .received some (ih holdsRest emptiedRest)

end SeqRing.Holds

/-! ### `MpscConsumer::try_recv_batch` -/

namespace SeqMpsc

variable {s after last : SeqMpsc α} {queues : Nat → List α} {idx : Nat} {indices rest : List Nat}
  {items others queue : List α} {left : Nat → Option α}

/-- A pass over the rings hands out the items, whatever was handed out before. -/
def Passes (cap : Cap) (indices : List Nat) (s : SeqMpsc α) (items : List α)
    (after : SeqMpsc α) : Prop :=
  ∀ total progress, s.pass cap total progress indices =
    some (items, total + items.length, progress || !items.isEmpty, after)

/-- Every ring holds its queue. -/
def HoldsAll (cap : Cap) (s : SeqMpsc α) (queues : Nat → List α) : Prop :=
  ∀ p, (s.rings p).Holds cap (queues p)

/-- How many items the rings hold. -/
def Holding (cap : Cap) (indices : List Nat) (s : SeqMpsc α) (count : Nat) : Prop :=
  ∃ queues, s.HoldsAll cap queues ∧ count = (indices.map fun p => (queues p).length).sum

theorem Passes.unique (first : s.Passes cap indices items after)
    (second : s.Passes cap indices others last) : items = others ∧ after = last := by
  have same := (first 0 false).symm.trans (second 0 false)
  simp only [Option.some.injEq, Prod.mk.injEq] at same
  exact ⟨same.1, same.2.2.2⟩

theorem setRing_self (s : SeqMpsc α) (p : Nat) : s.setRing p (s.rings p) = s := by
  rw [setRing, Function.update_eq_self]

theorem HoldsAll.setRing (holds : s.HoldsAll cap queues) (idx : Nat) {ring : SeqRing α}
    (here : ring.Holds cap queue) :
    (s.setRing idx ring).HoldsAll cap (Function.update queues idx queue) := by
  intro p
  by_cases same : p = idx
  · subst same
    simpa [SeqMpsc.setRing] using here
  · simpa [SeqMpsc.setRing, same] using holds p

theorem passes_nil (s : SeqMpsc α) : s.Passes cap [] [] s := by
  intro total progress
  simp [pass]

/-- An empty ring is passed over. -/
theorem pass_empty (here : (s.rings idx).Holds cap []) (total : Nat) (progress : Bool) :
    s.pass cap total progress (idx :: rest) = s.pass cap total progress rest := by
  rw [pass, here.drain_nil]
  dsimp only
  rw [setRing_self]
  simp

theorem passes_cons (here : (s.rings idx).Holds cap queue)
    (emptied : drainFrom cap (s.rings idx).head (s.rings idx).tail (s.rings idx).slots =
      some (queue, left))
    (others : (s.setRing idx ((s.rings idx).drained left)).Passes cap rest items after) :
    s.Passes cap (idx :: rest) (queue ++ items) after := by
  intro total progress
  rw [pass, here.drain_eq emptied]
  dsimp only
  cases queue with
  | nil =>
      rw [List.length_nil, if_neg (Nat.lt_irrefl 0), others]
      simp
  | cons value later =>
      rw [if_pos (List.length_pos_of_ne_nil (List.cons_ne_nil value later)), others]
      simp [Nat.add_assoc, Nat.add_comm 1]

theorem HoldsAll.exists_passes (holds : s.HoldsAll cap queues) (indices : List Nat) :
    ∃ items after, s.Passes cap indices items after := by
  induction indices generalizing s queues with
  | nil => exact ⟨[], s, passes_nil s⟩
  | cons idx rest ih =>
      obtain ⟨left, emptied, -, drained⟩ := (holds idx).drain
      obtain ⟨items, after, others⟩ := ih (holds.setRing idx drained)
      exact ⟨_, after, passes_cons (holds idx) emptied others⟩

/-- A receive takes the oldest item of the first ring that has one, which is where a
pass begins. -/
theorem HoldsAll.tryRecv (holds : s.HoldsAll cap queues) (indices : List Nat) :
    ((∀ idx ∈ indices, queues idx = []) ∧ s.tryRecv cap indices = some (none, s) ∧
        s.Passes cap indices [] s) ∨
      ∃ idx ∈ indices, ∃ value later middle, queues idx = value :: later ∧
        s.tryRecv cap indices = some (some value, middle) ∧
          middle.HoldsAll cap (Function.update queues idx later) ∧
            ∀ items after, middle.Passes cap indices items after →
              s.Passes cap indices (value :: items) after := by
  induction indices with
  | nil => exact .inl ⟨fun idx member => absurd member List.not_mem_nil, rfl, passes_nil s⟩
  | cons idx rest ih =>
      have here := holds idx
      cases queueEq : queues idx with
      | nil =>
          rw [queueEq] at here
          have failed := here.tryRecv_nil
          have skipped : s.tryRecv cap (idx :: rest) = s.tryRecv cap rest := by
            rw [SeqMpsc.tryRecv, failed]
            dsimp only
            rw [setRing_self]
          rw [skipped]
          rcases ih with ⟨empty, none, passes⟩ | ⟨q, member, value, later, middle, some, received,
            holdsAfter, prepend⟩
          · exact .inl ⟨List.forall_mem_cons.mpr ⟨queueEq, empty⟩, none, fun total progress =>
              (pass_empty here total progress).trans (passes total progress)⟩
          · have emptyStill : (middle.rings idx).Holds cap [] := by
              have other : idx ≠ q := by
                rintro rfl
                rw [queueEq] at some
                cases some
              have held := holdsAfter idx
              rwa [Function.update_of_ne other, queueEq] at held
            refine .inr ⟨q, List.mem_cons_of_mem _ member, value, later, middle, some, received,
              holdsAfter, fun items after passes total progress => ?_⟩
            rw [pass_empty here]
            apply prepend
            intro total progress
            rw [← pass_empty emptyStill]
            exact passes total progress
      | cons value later =>
          rw [queueEq] at here
          obtain ⟨copy, received, holdsLater⟩ := here.tryRecv_cons
          obtain ⟨left, emptied, -, drained⟩ := holdsLater.drain
          have holdsAfter := holds.setRing idx holdsLater
          refine .inr ⟨idx, List.mem_cons_self, value, later, _, queueEq, ?_, holdsAfter, ?_⟩
          · rw [SeqMpsc.tryRecv, received]
          · intro items after passes
            -- both passes go on from the same rings
            obtain ⟨others, last, passesRest⟩ :=
              (holds.setRing idx drained).exists_passes rest
            have again : ((s.setRing idx ((s.rings idx).popped cap copy)).setRing idx
                (((s.rings idx).popped cap copy).drained left)) =
                  s.setRing idx ((s.rings idx).drained left) := by
              simp [SeqMpsc.setRing, SeqRing.popped, SeqRing.drained]
            have popped : (s.setRing idx ((s.rings idx).popped cap copy)).rings idx =
                (s.rings idx).popped cap copy := by
              simp [SeqMpsc.setRing]
            have fromMiddle : (s.setRing idx ((s.rings idx).popped cap copy)).Passes cap
                (idx :: rest) (later ++ others) last := by
              rw [← popped] at emptied holdsLater
              apply passes_cons holdsLater emptied
              rw [popped, again]
              exact passesRest
            obtain ⟨rfl, rfl⟩ := passes.unique fromMiddle
            exact passes_cons here (here.drainFrom_cons emptied) passesRest

theorem step_tryRecv (cap : Cap) (indices : List Nat) (s : SeqMpsc α) (count : Nat)
    (holding : s.Holding cap indices count) :
    Emptying.Step (fun s => SeqMpsc.tryRecv cap s indices) (Passes cap indices)
      (Holding cap indices) s count := by
  obtain ⟨queues, holds, rfl⟩ := holding
  constructor
  rcases holds.tryRecv indices with nothing | ⟨idx, member, value, later, middle, some,
    received, holdsAfter, prepend⟩
  · exact .inl nothing.2
  · refine .inr ⟨value, middle, _, received, ?_, ⟨_, holdsAfter, rfl⟩, prepend⟩
    apply List.sum_lt_sum
    · intro p _
      by_cases same : p = idx
      · subst same
        simp [some]
      · simp [same]
    · exact ⟨idx, member, by simp [some]⟩

/-- A pass that hands something out is followed by one that does not. -/
theorem tryRecvBatch_of_passes {m fuel : Nat} (enough : 2 ≤ fuel)
    (passes : s.Passes cap (List.range m) items after)
    (again : after.Passes cap (List.range m) [] after) :
    SeqMpsc.tryRecvBatch cap m fuel s 0 = some (items.length, items, after) := by
  obtain ⟨fuel, rfl⟩ := Nat.exists_eq_add_of_le enough
  rw [Nat.add_comm, SeqMpsc.tryRecvBatch, passes 0 false]
  cases items with
  | nil => simp
  | cons value later =>
      dsimp only
      rw [SeqMpsc.tryRecvBatch, again]
      simp

theorem HoldsAll.tryRecvBatch (holds : s.HoldsAll cap queues) (m : Nat) :
    ∃ items after, UntilEmpty (fun s => SeqMpsc.tryRecv cap s (List.range m)) s items after ∧
      (∃ left, after.HoldsAll cap left) ∧ ∀ fuel, 2 ≤ fuel →
        SeqMpsc.tryRecvBatch cap m fuel s 0 = some (items.length, items, after) := by
  obtain ⟨items, after, passes, repeated, -, again, left, queuesLeft, holdsLeft, -⟩ :=
    exists_untilEmpty (step_tryRecv cap (List.range m)) ⟨queues, holds, rfl⟩
  exact ⟨items, after, repeated, ⟨queuesLeft, holdsLeft⟩,
    fun fuel enough => tryRecvBatch_of_passes enough passes again⟩

end SeqMpsc

/-! ### `MpmcConsumer::try_recv_batch` -/

namespace SeqMpmc

variable {c after last : SeqMpmc α} {queues : Nat → List α} {shard p : Nat}
  {indices rest : List Nat} {items others queue : List α} {left : Nat → Option α}

/-- A pass over the shard's rings hands out the items, whatever was handed out before. -/
def Passes (cap : Cap) (shard : Nat) (indices : List Nat) (c : SeqMpmc α) (items : List α)
    (after : SeqMpmc α) : Prop :=
  ∀ count progress, c.pass cap shard count progress indices =
    some (items, count + items.length, progress || !items.isEmpty, after)

/-- Every ring of the shard stores its queue. -/
def StoresAll (cap : Cap) (shard : Nat) (c : SeqMpmc α) (queues : Nat → List α) : Prop :=
  ∀ p, Stores cap (c.shards shard p).slots (c.shards shard p).head (c.shards shard p).tail
    (queues p)

/-- How many items the `m` rings of the shard store. -/
def Storing (cap : Cap) (shard m : Nat) (c : SeqMpmc α) (count : Nat) : Prop :=
  c.m = m ∧ ∃ queues, c.StoresAll cap shard queues ∧
    count = ((List.range m).map fun p => (queues p).length).sum

/-- The ring without its oldest item. -/
def popped (cap : Cap) (ring : SeqPRing α) : SeqPRing α :=
  { ring with
    slots := Function.update ring.slots (cap.slot ring.tail) none
    tail := ring.tail + 1 }

/-- The ring after the guard's store, with what the slots are left with. -/
def drained (ring : SeqPRing α) (left : Nat → Option α) : SeqPRing α :=
  { ring with slots := left, tail := ring.head }

theorem Passes.unique (first : c.Passes cap shard indices items after)
    (second : c.Passes cap shard indices others last) : items = others ∧ after = last := by
  have same := (first 0 false).symm.trans (second 0 false)
  simp only [Option.some.injEq, Prod.mk.injEq] at same
  exact ⟨same.1, same.2.2.2⟩

theorem StoresAll.setRing (stores : c.StoresAll cap shard queues) {ring : SeqPRing α}
    (here : Stores cap ring.slots ring.head ring.tail queue) :
    (c.setRing shard p ring).StoresAll cap shard (Function.update queues p queue) := by
  intro q
  by_cases same : q = p
  · subst same
    simpa [SeqMpmc.setRing] using here
  · simpa [SeqMpmc.setRing, same] using stores q

theorem passes_nil (c : SeqMpmc α) : c.Passes cap shard [] [] c := by
  intro count progress
  simp [pass]

/-- An empty ring is passed over. -/
theorem pass_empty (same : (c.shards shard p).tail = (c.shards shard p).head) (count : Nat)
    (progress : Bool) :
    c.pass cap shard count progress (p :: rest) = c.pass cap shard count progress rest := by
  rw [pass]
  dsimp only
  rw [if_pos same]

theorem passes_cons {value : α} {later : List α}
    (here : Stores cap (c.shards shard p).slots (c.shards shard p).head (c.shards shard p).tail
      (value :: later))
    (emptied : drainFrom cap (c.shards shard p).head (c.shards shard p).tail
      (c.shards shard p).slots = some (value :: later, left))
    (others : (c.setRing shard p (drained (c.shards shard p) left)).Passes cap shard rest items
      after) :
    c.Passes cap shard (p :: rest) (value :: later ++ items) after := by
  intro count progress
  have other : (c.shards shard p).tail ≠ (c.shards shard p).head := fun same =>
    List.cons_ne_nil value later (here.eq_iff.mp same.symm)
  rw [pass]
  dsimp only
  rw [if_neg other, SeqPRing.drain, emptied, Option.map_some]
  dsimp only
  rw [← drained, others]
  simp [Nat.add_assoc, Nat.add_comm 1]

theorem StoresAll.exists_passes (stores : c.StoresAll cap shard queues) (indices : List Nat) :
    ∃ items after, c.Passes cap shard indices items after := by
  induction indices generalizing c queues with
  | nil => exact ⟨[], c, passes_nil c⟩
  | cons p rest ih =>
      have here := stores p
      cases queueEq : queues p with
      | nil =>
          rw [queueEq] at here
          obtain ⟨items, after, passes⟩ := ih stores
          exact ⟨items, after, fun count progress =>
            (pass_empty (here.eq_iff.mpr rfl).symm count progress).trans (passes count progress)⟩
      | cons value later =>
          rw [queueEq] at here
          obtain ⟨left, emptied⟩ := here.drainFrom
          have moved : (c.setRing shard p (drained (c.shards shard p) left)).StoresAll cap shard
              (Function.update queues p []) := stores.setRing (stores_nil _)
          obtain ⟨items, after, passes⟩ := ih moved
          exact ⟨_, after, passes_cons here emptied passes⟩

/-- A receive takes the oldest item of the first ring that has one, which is where a
pass begins. -/
theorem StoresAll.tryRecv (stores : c.StoresAll cap shard queues) (indices : List Nat) :
    ((∀ p ∈ indices, queues p = []) ∧ c.tryRecv cap shard indices = some (none, c) ∧
        c.Passes cap shard indices [] c) ∨
      ∃ p ∈ indices, ∃ value later middle, queues p = value :: later ∧
        c.tryRecv cap shard indices = some (some value, middle) ∧ middle.m = c.m ∧
          middle.StoresAll cap shard (Function.update queues p later) ∧
            ∀ items after, middle.Passes cap shard indices items after →
              c.Passes cap shard indices (value :: items) after := by
  induction indices with
  | nil => exact .inl ⟨fun p member => absurd member List.not_mem_nil, rfl, passes_nil c⟩
  | cons p rest ih =>
      have here := stores p
      cases queueEq : queues p with
      | nil =>
          rw [queueEq] at here
          have same : (c.shards shard p).tail = (c.shards shard p).head :=
            (here.eq_iff.mpr rfl).symm
          have skipped : c.tryRecv cap shard (p :: rest) = c.tryRecv cap shard rest := by
            rw [SeqMpmc.tryRecv]
            dsimp only
            rw [if_pos same]
          rw [skipped]
          rcases ih with ⟨empty, none, passes⟩ | ⟨q, member, value, later, middle, some, received,
            producers, storesAfter, prepend⟩
          · exact .inl ⟨List.forall_mem_cons.mpr ⟨queueEq, empty⟩, none, fun count progress =>
              (pass_empty same count progress).trans (passes count progress)⟩
          · have emptyStill : (middle.shards shard p).tail = (middle.shards shard p).head := by
              have other : p ≠ q := by
                rintro rfl
                rw [queueEq] at some
                cases some
              have stored := storesAfter p
              rw [Function.update_of_ne other, queueEq] at stored
              exact (stored.eq_iff.mpr rfl).symm
            refine .inr ⟨q, List.mem_cons_of_mem _ member, value, later, middle, some, received,
              producers, storesAfter, fun items after passes count progress => ?_⟩
            rw [pass_empty same]
            apply prepend
            intro count progress
            rw [← pass_empty emptyStill]
            exact passes count progress
      | cons value later =>
          rw [queueEq] at here
          have other : (c.shards shard p).tail ≠ (c.shards shard p).head := fun same =>
            List.cons_ne_nil value later (here.eq_iff.mp same.symm)
          have storesAfter : (c.setRing shard p (popped cap (c.shards shard p))).StoresAll cap
              shard (Function.update queues p later) := stores.setRing here.pop
          refine .inr ⟨p, List.mem_cons_self, value, later,
            c.setRing shard p (popped cap (c.shards shard p)), queueEq, ?_, rfl, storesAfter, ?_⟩
          · rw [SeqMpmc.tryRecv]
            dsimp only
            rw [if_neg other, SeqPRing.take, here.front]
            rfl
          · intro items after passes
            -- both passes go on from the same rings
            obtain ⟨left, emptied⟩ := here.pop.drainFrom
            have moved : (c.setRing shard p (drained (c.shards shard p) left)).StoresAll cap shard
                (Function.update queues p []) := stores.setRing (stores_nil _)
            obtain ⟨others, last, passesRest⟩ := moved.exists_passes rest
            have again : ((c.setRing shard p (popped cap (c.shards shard p))).setRing shard p
                (drained (popped cap (c.shards shard p)) left)) =
                  c.setRing shard p (drained (c.shards shard p) left) := by
              simp [SeqMpmc.setRing, popped, drained]
            have ringEq : (c.setRing shard p (popped cap (c.shards shard p))).shards shard p =
                popped cap (c.shards shard p) := by
              simp [SeqMpmc.setRing]
            have fromMiddle : (c.setRing shard p (popped cap (c.shards shard p))).Passes cap shard
                (p :: rest) (later ++ others) last := by
              cases later with
              | nil =>
                  have nothing := here.pop.eq_iff.mpr rfl
                  have unmoved : left = (popped cap (c.shards shard p)).slots := by
                    rw [drainFrom, if_pos nothing.symm] at emptied
                    exact (Prod.mk.inj (Option.some.inj emptied)).2.symm
                  have same : drained (c.shards shard p) left = popped cap (c.shards shard p) := by
                    rw [drained, unmoved, popped, nothing]
                  intro count progress
                  rw [pass_empty (by rw [ringEq]; exact nothing.symm), ← same]
                  exact passesRest count progress
              | cons next later =>
                  have herePopped := here.pop
                  change Stores cap (popped cap (c.shards shard p)).slots
                    (popped cap (c.shards shard p)).head
                    (popped cap (c.shards shard p)).tail _ at herePopped
                  change drainFrom cap (popped cap (c.shards shard p)).head
                    (popped cap (c.shards shard p)).tail
                    (popped cap (c.shards shard p)).slots = _ at emptied
                  rw [← ringEq] at herePopped emptied
                  apply passes_cons herePopped emptied
                  rw [ringEq, again]
                  exact passesRest
            obtain ⟨rfl, rfl⟩ := passes.unique fromMiddle
            refine passes_cons here ?_ passesRest
            rw [drainFrom, if_neg other, here.front, Option.bind_some, emptied]
            rfl

theorem step_tryRecv (cap : Cap) (shard m : Nat) (c : SeqMpmc α) (count : Nat)
    (storing : c.Storing cap shard m count) :
    Emptying.Step (fun c => SeqMpmc.tryRecv cap c shard (List.range m))
      (Passes cap shard (List.range m)) (Storing cap shard m) c count := by
  obtain ⟨producers, queues, stores, rfl⟩ := storing
  constructor
  rcases stores.tryRecv (List.range m) with nothing | ⟨p, member, value, later, middle, some,
    received, same, storesAfter, prepend⟩
  · exact .inl nothing.2
  · refine .inr ⟨value, middle, _, received, ?_, ⟨same.trans producers, _, storesAfter, rfl⟩,
      prepend⟩
    apply List.sum_lt_sum
    · intro q _
      by_cases here : q = p
      · subst here
        simp [some]
      · simp [here]
    · exact ⟨p, member, by simp [some]⟩

/-- A pass that hands something out is followed by one that does not. -/
theorem drainAll_of_passes {m fuel : Nat} (enough : 2 ≤ fuel) (producers : c.m = m)
    (same : after.m = m) (passes : c.Passes cap shard (List.range m) items after)
    (again : after.Passes cap shard (List.range m) [] after) :
    SeqMpmc.drainAll cap shard fuel c 0 = some (items.length, items, after) := by
  obtain ⟨fuel, rfl⟩ := Nat.exists_eq_add_of_le enough
  rw [Nat.add_comm, SeqMpmc.drainAll, producers, passes 0 false]
  cases items with
  | nil => simp
  | cons value later =>
      dsimp only
      rw [SeqMpmc.drainAll, same, again]
      simp

theorem StoresAll.drainAll (stores : c.StoresAll cap shard queues) {m : Nat}
    (producers : c.m = m) :
    ∃ items after, UntilEmpty (fun c => SeqMpmc.tryRecv cap c shard (List.range m)) c items after ∧
      ∀ fuel, 2 ≤ fuel →
        SeqMpmc.drainAll cap shard fuel c 0 = some (items.length, items, after) := by
  obtain ⟨items, after, passes, repeated, -, again, left, same, -⟩ :=
    exists_untilEmpty (step_tryRecv cap shard m) ⟨producers, queues, stores, rfl⟩
  exact ⟨items, after, repeated,
    fun fuel enough => drainAll_of_passes enough producers same passes again⟩

end SeqMpmc

/-! ### From every reachable state -/

/-- A batch hands out and counts what repeated receives hand out, and leaves the same
state, in which the copies of `head` are again of use. -/
def BatchIsRepeated {σ : Type*} (receive : σ → Option (Option α × σ))
    (batch : σ → Option (Nat × List α × σ)) (cached : σ → Prop) (before : σ) : Prop :=
  ∃ items after, UntilEmpty receive before items after ∧
    batch before = some (items.length, items, after) ∧ cached after

/-- The copy of `head` lies between the cursors. -/
def SeqRing.cachedBetween (ring : SeqRing α) : Prop :=
  Between ring.tail ring.cachedHead ring.head

theorem SeqRing.Holds.cachedBetween {ring : SeqRing α} {queue : List α}
    (holds : ring.Holds cap queue) : ring.cachedBetween := by
  have small := holds.stores.spans.lt
  obtain ⟨ahead, copyEq, le⟩ := holds.headCopy
  have distance : (ring.cachedHead - ring.tail).toNat = ahead := by
    rw [copyEq, BitVec.add_comm, BitVec.add_sub_cancel, BitVec.toNat_ofNat,
      Nat.mod_eq_of_lt (by omega)]
  rw [SeqRing.cachedBetween, Between, distance, holds.stores.occupancy]
  exact le

theorem batch_isRepeated_ring {s : RingState α}
    (reached : (RingState.withinCache cap).Reachable s) (idle : s.consumer.pc = .idle) :
    BatchIsRepeated (SeqRing.receive cap) (SeqRing.drain cap) SeqRing.cachedBetween s.atRest := by
  have holds := RingState.holds_atRest reached (by rw [idle]; rfl)
  obtain ⟨left, emptied, drained, holdsAfter⟩ := holds.drain
  exact ⟨_, _, holds.untilEmpty emptied, drained, holdsAfter.cachedBetween⟩

theorem batch_isRepeated_mpsc {size : MpscSize} {s : MpscState α} {fuel : Nat}
    (reached : (MpscState.withinCache size).Reachable s) (idle : s.consumer = .idle)
    (enough : 2 ≤ fuel) :
    BatchIsRepeated (fun s => SeqMpsc.tryRecv size.cap s (List.range size.m))
      (fun s => SeqMpsc.tryRecvBatch size.cap size.m fuel s 0)
      (fun s => ∀ p, (s.rings p).cachedBetween) s.atRest := by
  have holds : s.atRest.HoldsAll size.cap fun p => RingState.inRing size.cap (s.rings p).shared :=
    fun p => MpscState.holds_atRest reached (by rw [idle]; rfl) p
  obtain ⟨items, after, repeated, ⟨left, holdsAfter⟩, batch⟩ := holds.tryRecvBatch size.m
  exact ⟨items, after, repeated, batch fuel enough, fun p => (holdsAfter p).cachedBetween⟩

theorem batch_isRepeated_mpmc {size : MpmcSize} {s : MpmcState α} {shard fuel : Nat}
    (reached : (MpmcState.apart size).Reachable s) (idle : s.consumers shard = .running [])
    (enough : 2 ≤ fuel) :
    BatchIsRepeated (fun c => SeqMpmc.tryRecv size.ringCap c shard (List.range size.m))
      (fun c => SeqMpmc.drainAll size.ringCap shard fuel c 0) (fun _ => True)
      (s.atRest size) := by
  have stores : (s.atRest size).StoresAll size.ringCap shard
      fun p => (s.rings shard p).inRing size.ringCap :=
    fun p => MpmcState.stores_atRest reached (by rw [idle]; rfl) p
  obtain ⟨items, after, repeated, batch⟩ := stores.drainAll (m := size.m) rfl
  exact ⟨items, after, repeated, batch fuel enough, trivial⟩

/-- In every reachable state in which the consumer is in no call, nobody else steps, and
no callback has panicked beyond the cached head or received from the ring it is called
for, a batch receive is single receives repeated until one comes back empty-handed. -/
theorem batch_isRepeated :
    (∀ (cap : Cap) (s : RingState α), (RingState.withinCache cap).Reachable s →
      s.consumer.pc = .idle →
        BatchIsRepeated (SeqRing.receive cap) (SeqRing.drain cap) SeqRing.cachedBetween
          s.atRest) ∧
    (∀ (size : MpscSize) (s : MpscState α) (fuel : Nat), 2 ≤ fuel →
      (MpscState.withinCache size).Reachable s → s.consumer = .idle →
        BatchIsRepeated (fun s => SeqMpsc.tryRecv size.cap s (List.range size.m))
          (fun s => SeqMpsc.tryRecvBatch size.cap size.m fuel s 0)
          (fun s => ∀ p, (s.rings p).cachedBetween) s.atRest) ∧
    ∀ (size : MpmcSize) (s : MpmcState α) (shard fuel : Nat), 2 ≤ fuel →
      (MpmcState.apart size).Reachable s → s.consumers shard = .running [] →
        BatchIsRepeated (fun c => SeqMpmc.tryRecv size.ringCap c shard (List.range size.m))
          (fun c => SeqMpmc.drainAll size.ringCap shard fuel c 0) (fun _ => True)
          (s.atRest size) :=
  ⟨fun _ _ reached idle => batch_isRepeated_ring reached idle,
    fun _ _ _ enough reached idle => batch_isRepeated_mpsc reached idle enough,
    fun _ _ _ _ enough reached idle => batch_isRepeated_mpmc reached idle enough⟩

/-- Two slots: two items are sent, one is received, and a third goes to the first slot. -/
def wrapAround : List (RingAction Nat) :=
  [RingAction.producer (.trySend 1)] ++ List.replicate 4 (RingAction.producer (.tick 0)) ++
    [RingAction.producer (.trySend 2)] ++ List.replicate 4 (RingAction.producer (.tick 0)) ++
    [RingAction.consumer .tryRecv, .consumer (.tick 2)] ++
    List.replicate 4 (RingAction.consumer (.tick 0)) ++
    [RingAction.producer (.trySend 3), .producer (.tick 1)] ++
    List.replicate 4 (RingAction.producer (.tick 0))

theorem batch_isRepeated_wrapAround :
    ∃ s, (RingState.withinCache twoSlotCap).Reachable s ∧ s.consumer.pc = .idle ∧
      RingState.inRing twoSlotCap s.shared = [2, 3] ∧
        BatchIsRepeated (SeqRing.receive twoSlotCap) (SeqRing.drain twoSlotCap)
          SeqRing.cachedBetween s.atRest := by
  have ran : (Transition.execute (Transition.guardedStep
      (fun (s : RingState Nat) action => s.panicsWithinCache action = true)
      (fun s action => s.step twoSlotCap action)) RingState.new wrapAround).map
        (fun s => (s.consumer.pc, RingState.inRing twoSlotCap s.shared)) =
          some (.idle, [2, 3]) := by
    rfl
  obtain ⟨s, ran, seen⟩ := Option.map_eq_some_iff.mp ran
  obtain ⟨idle, queue⟩ := Prod.mk.inj seen
  have reached : (RingState.withinCache twoSlotCap).Reachable s :=
    System.reachable_of_guarded_execute rfl ran
  exact ⟨s, reached, idle, queue, batch_isRepeated.1 twoSlotCap s reached idle⟩

end ArbitroKit
