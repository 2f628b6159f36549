import ArbitroKit.SequentialMpsc

/-!
# The queue a ring holds

What a sequential ring stands for: its slots hold the queue, and the copies that its
handles keep are of use.  Sending appends to the queue, and receiving takes from its
front, one by one or all at once.
-/

namespace ArbitroKit

open Cyclic

variable {α : Type*} {cap : Cap}

/-- The ring holds the queue, and the copies its handles keep are of use. -/
structure SeqRing.Holds (cap : Cap) (ring : SeqRing α) (queue : List α) : Prop where
  stores : Stores cap ring.slots ring.head ring.tail queue
  tailCopy : TailCopy cap ring.cachedTail ring.tail queue.length
  headCopy : HeadCopy ring.cachedHead ring.tail queue.length

namespace SeqRing.Holds

variable {ring : SeqRing α} {queue rest : List α} {value : α}

theorem new : (SeqRing.new : SeqRing α).Holds cap [] where
  stores := stores_nil 0
  tailCopy := ⟨0, by simp [SeqRing.new], Nat.zero_le _⟩
  headCopy := ⟨0, by simp [SeqRing.new], le_rfl⟩

theorem len (holds : ring.Holds cap queue) : ring.len = BitVec.ofNat 64 queue.length := by
  rw [← holds.stores.occupancy, BitVec.ofNat_toNat, BitVec.setWidth_eq]
  rfl

theorem isEmpty (holds : ring.Holds cap queue) : ring.isEmpty = queue.isEmpty := by
  have same : ring.len = 0 ↔ queue = [] := by
    rw [← holds.stores.eq_iff]
    exact sub_eq_zero
  cases queue with
  | nil => exact decide_eq_true (same.mpr rfl)
  | cons value rest =>
      exact decide_eq_false fun zero => List.cons_ne_nil value rest (same.mp zero)

theorem close (holds : ring.Holds cap queue) : ring.close.Holds cap queue :=
  ⟨holds.stores, holds.tailCopy, holds.headCopy⟩

theorem put (holds : ring.Holds cap queue) (room : queue.length < cap.size)
    (known : TailCopy cap ring.cachedTail ring.tail (queue.length + 1)) :
    (ring.put cap value).Holds cap (queue ++ [value]) where
  stores := holds.stores.push room value
  tailCopy := by
    rw [List.length_append]
    exact known
  headCopy := by
    rw [List.length_append]
    exact holds.headCopy.push

/-- The refreshed copy of `tail` is the true one. -/
theorem refreshTail (holds : ring.Holds cap queue) :
    ({ ring with cachedTail := ring.tail } : SeqRing α).Holds cap queue :=
  ⟨holds.stores, holds.stores.tailCopy, holds.headCopy⟩

/-- `try_send` into a queue with room. -/
theorem trySend_ok (holds : ring.Holds cap queue) (value : α) (room : queue.length < cap.size) :
    ∃ after, ring.trySend cap value = (.ok (), after) ∧ after.Holds cap (queue ++ [value]) := by
  unfold SeqRing.trySend
  split
  · have refreshed := holds.refreshTail
    dsimp only
    rw [holds.stores.occupancy, if_neg (Nat.not_le.mpr room)]
    refine ⟨_, rfl, refreshed.put room ?_⟩
    exact (refreshed.stores.room_of_copy refreshed.tailCopy
      (by rw [refreshed.stores.occupancy]; exact Nat.not_le.mpr room)).2
  · rename_i fits
    exact ⟨_, rfl, holds.put room (holds.stores.room_of_copy holds.tailCopy fits).2⟩

/-- `try_send` into a full queue. -/
theorem trySend_error (holds : ring.Holds cap queue) (value : α)
    (full : ¬ queue.length < cap.size) :
    ∃ error after, ring.trySend cap value = (.error error, after) ∧
      (error = .full value ∨ error = .closed value) ∧ after.Holds cap queue := by
  unfold SeqRing.trySend
  split
  · dsimp only
    rw [holds.stores.occupancy, if_pos (Nat.not_lt.mp full)]
    refine ⟨_, _, rfl, ?_, holds.refreshTail⟩
    cases ring.closed
    · exact .inl rfl
    · exact .inr rfl
  · rename_i fits
    exact absurd (holds.stores.room_of_copy holds.tailCopy fits).1 full

/-- An empty ring's copy of `head` is the true one. -/
theorem headCopy_nil (holds : ring.Holds cap []) :
    ring.cachedHead = ring.tail ∧ ring.head = ring.tail := by
  constructor
  · obtain ⟨ahead, copyEq, le⟩ := holds.headCopy
    obtain rfl : ahead = 0 := Nat.le_zero.mp le
    simpa using copyEq
  · exact holds.stores.eq_iff.mpr rfl

/-- A receive that finds nothing changes nothing. -/
theorem tryRecv_nil (holds : ring.Holds cap []) :
    ring.tryRecv cap = some (.error (if ring.closed then .closed else .empty), ring) := by
  obtain ⟨copy, same⟩ := holds.headCopy_nil
  have refreshed : ({ ring with cachedHead := ring.head } : SeqRing α) = ring :=
    congrArg (fun copy => ({ ring with cachedHead := copy } : SeqRing α))
      (same.trans copy.symm)
  unfold SeqRing.tryRecv
  dsimp only
  rw [if_pos copy, if_pos same]
  split
  · rw [refreshed]
  · rw [refreshed]

end SeqRing.Holds

/-! ### One by one, and all at once -/

/-- The ring without its oldest item, with this copy of `head`. -/
def SeqRing.popped (cap : Cap) (ring : SeqRing α) (copy : Usize) : SeqRing α :=
  { ring with
    slots := Function.update ring.slots (cap.slot ring.tail) none
    tail := ring.tail + 1
    cachedHead := copy }

/-- The ring after a drain, with what the slots are left with. -/
def SeqRing.drained (ring : SeqRing α) (left : Nat → Option α) : SeqRing α :=
  { ring with slots := left, tail := ring.head, cachedHead := ring.head }

namespace SeqRing.Holds

variable {ring : SeqRing α} {queue rest : List α} {value : α} {left : Nat → Option α}

theorem tryRecv_cons (holds : ring.Holds cap (value :: rest)) :
    ∃ copy, ring.tryRecv cap = some (.ok value, ring.popped cap copy) ∧
      (ring.popped cap copy).Holds cap rest := by
  have takes {copy : Usize} (known : HeadCopy copy ring.tail (value :: rest).length)
      (other : copy ≠ ring.tail) :
      ({ ring with cachedHead := copy } : SeqRing α).take cap =
          some (.ok value, ring.popped cap copy) ∧
        (ring.popped cap copy).Holds cap rest := by
    obtain ⟨first, later, same, ahead⟩ := holds.stores.some_of_copy known other
    cases same
    constructor
    · rw [SeqRing.take, holds.stores.front]
      rfl
    · exact ⟨holds.stores.pop, holds.tailCopy.pop, ahead⟩
  have other : ring.head ≠ ring.tail := fun same =>
    List.cons_ne_nil value rest (holds.stores.eq_iff.mp same)
  unfold SeqRing.tryRecv
  split
  · dsimp only
    rw [if_neg other]
    exact ⟨ring.head, takes holds.stores.headCopy other⟩
  · exact ⟨ring.cachedHead, takes holds.headCopy (by assumption)⟩

theorem drainFrom_cons (holds : ring.Holds cap (value :: rest))
    (emptied : drainFrom cap ring.head (ring.tail + 1)
      (Function.update ring.slots (cap.slot ring.tail) none) = some (rest, left)) :
    drainFrom cap ring.head ring.tail ring.slots = some (value :: rest, left) := by
  have other : ring.tail ≠ ring.head := fun same =>
    List.cons_ne_nil value rest (holds.stores.eq_iff.mp same.symm)
  rw [Cyclic.drainFrom, if_neg other, holds.stores.front, Option.bind_some, emptied]
  rfl

/-- Draining an empty ring changes nothing. -/
theorem drained_nil (holds : ring.Holds cap []) : ring.drained ring.slots = ring := by
  obtain ⟨copy, same⟩ := holds.headCopy_nil
  exact congr (congrArg
    (fun tail copy => ({ ring with tail := tail, cachedHead := copy } : SeqRing α)) same)
      (same.trans copy.symm)

theorem drain_nil (holds : ring.Holds cap []) : ring.drain cap = some (0, [], ring) := by
  unfold SeqRing.drain
  dsimp only
  rw [if_pos holds.headCopy_nil.2.symm]

theorem drain_eq (holds : ring.Holds cap queue)
    (emptied : drainFrom cap ring.head ring.tail ring.slots = some (queue, left)) :
    ring.drain cap = some (queue.length, queue, ring.drained left) := by
  cases queue with
  | nil =>
      rw [Cyclic.drainFrom, if_pos holds.headCopy_nil.2.symm] at emptied
      obtain ⟨-, rfl⟩ := Prod.mk.inj (Option.some.inj emptied)
      rw [holds.drained_nil]
      exact holds.drain_nil
  | cons value rest =>
      have other : ring.tail ≠ ring.head := fun same =>
        List.cons_ne_nil value rest (holds.stores.eq_iff.mp same.symm)
      unfold SeqRing.drain
      dsimp only
      rw [if_neg other, emptied, Option.map_some, holds.stores.occupancy]
      rfl

theorem drain (holds : ring.Holds cap queue) :
    ∃ left, drainFrom cap ring.head ring.tail ring.slots = some (queue, left) ∧
      ring.drain cap = some (queue.length, queue, ring.drained left) ∧
        (ring.drained left).Holds cap [] := by
  obtain ⟨left, emptied⟩ := holds.stores.drainFrom
  refine ⟨left, emptied, holds.drain_eq emptied, stores_nil _, ?_, 0, by simp [drained], le_rfl⟩
  obtain ⟨behind, tailEq, le⟩ := holds.tailCopy
  refine ⟨behind + queue.length, ?_, le⟩
  change ring.head = ring.cachedTail + _
  rw [holds.stores.head_eq, tailEq, BitVec.ofNat_add, BitVec.add_assoc]

end SeqRing.Holds

end ArbitroKit
