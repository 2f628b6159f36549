import ArbitroKit.BatchReceive
import ArbitroKit.OneShotOwner
import ArbitroKit.ShardScan

/-!
# The predicates of the blocking operations

A blocking operation is a loop: one turn that does not block, and then `wait_until` with
a predicate that looks at the shared cursors, counters and flags directly.  While nobody
else steps, the predicate is true exactly if the next turn returns, so that no wait is
entered by an operation that could complete, or left for a turn that comes back to it.
-/

namespace ArbitroKit

open Coherent Cyclic SlotLane Transition

/-- One turn of a blocking operation's loop. -/
inductive Turn (β : Type*) where
  | returned (result : β)
  | waits

/-- The predicate is true exactly if the turn returns; an undefined turn does neither. -/
structure Agrees {β σ : Type*} (predicate : Bool) (turn : Option (Turn β × σ)) : Prop where
  returns : predicate = true → ∃ result after, turn = some (.returned result, after)
  waits : predicate = false → ∃ after, turn = some (.waits, after)

theorem Agrees.of_returned {β σ : Type*} (result : β) (after : σ) :
    Agrees true (some (.returned result, after)) := by
  constructor
  · intro _
    exact ⟨result, after, rfl⟩
  · intro notReady
    cases notReady

theorem Agrees.of_waits {β σ : Type*} (after : σ) :
    Agrees false (some ((.waits : Turn β), after)) := by
  constructor
  · intro ready
    cases ready
  · intro _
    exact ⟨after, rfl⟩

variable {α : Type*} {cap : Cap}

/-! ### `Producer::send` and `Consumer::recv` of the ring -/

namespace SeqRing

variable {ring : SeqRing α} {queue : List α} {length : Nat}

/-- `Ring::is_full`. -/
def isFull (cap : Cap) (ring : SeqRing α) : Bool := decide (cap.size ≤ ring.len.toNat)

/-- The predicate of `send`. -/
def sendReady (cap : Cap) (ring : SeqRing α) : Bool := !ring.isFull cap || ring.closed

/-- One turn of `send`. -/
def sendTurn (cap : Cap) (ring : SeqRing α) (value : α) : Turn (Except α Unit) × SeqRing α :=
  match ring.trySend cap value with
  | (.ok (), ring) => (.returned (.ok ()), ring)
  | (.error (.closed value), ring) => (.returned (.error value), ring)
  | (.error (.full _), ring) => (.waits, ring)

/-- The predicate of `recv`. -/
def recvReady (ring : SeqRing α) : Bool := !ring.isEmpty || ring.closed

/-- One turn of `recv`. -/
def recvTurn (cap : Cap) (ring : SeqRing α) :
    Option (Turn (Option α) × SeqRing α) :=
  (ring.tryRecv cap).map fun (result, ring) =>
    match result with
    | .ok value => (.returned (some value), ring)
    | .error .closed => (.returned none, ring)
    | .error .empty => (.waits, ring)

theorem trySend_of_room (room : ring.isFull cap = false) (value : α) :
    ∃ after, ring.trySend cap value = (.ok (), after) := by
  rw [isFull, decide_eq_false_iff_not] at room
  unfold trySend
  split
  · dsimp only
    rw [if_neg (show ¬ cap.size ≤ (ring.head - ring.tail).toNat from room)]
    exact ⟨_, rfl⟩
  · exact ⟨_, rfl⟩

/-- A full ring refuses: an old copy of `tail` makes it look fuller than it is, never
emptier. -/
theorem trySend_of_full (spans : Spans cap ring.head ring.tail length)
    (known : TailCopy cap ring.cachedTail ring.tail length) (full : ring.isFull cap = true)
    (value : α) : ring.trySend cap value =
      (.error (if ring.closed then .closed value else .full value),
        { ring with cachedTail := ring.tail }) := by
  have isFull : cap.size ≤ (ring.head - ring.tail).toNat := of_decide_eq_true full
  have looksFull : cap.size ≤ (ring.head - ring.cachedTail).toNat := by
    by_contra fits
    have room := (spans.room_of_copy known fits).1
    rw [spans.occupancy] at isFull
    omega
  rw [trySend, if_pos looksFull]
  dsimp only
  rw [if_pos isFull]

theorem send_agrees (spans : Spans cap ring.head ring.tail length)
    (known : TailCopy cap ring.cachedTail ring.tail length) (value : α) :
    Agrees (ring.sendReady cap) (some (ring.sendTurn cap value)) := by
  cases full : ring.isFull cap with
  | false =>
      obtain ⟨after, sent⟩ := trySend_of_room full value
      rw [sendReady, full, sendTurn, sent]
      exact .of_returned _ _
  | true =>
      rw [sendReady, full, sendTurn, trySend_of_full spans known full]
      cases ring.closed with
      | true => exact .of_returned _ _
      | false => exact .of_waits _

theorem Holds.recv_agrees (holds : ring.Holds cap queue) :
    Agrees ring.recvReady (ring.recvTurn cap) := by
  cases queue with
  | nil =>
      rw [recvReady, holds.isEmpty, recvTurn, holds.tryRecv_nil]
      cases ring.closed with
      | true => exact .of_returned _ _
      | false => exact .of_waits _
  | cons value rest =>
      obtain ⟨copy, received, -⟩ := holds.tryRecv_cons
      rw [recvReady, holds.isEmpty, recvTurn, received]
      exact .of_returned _ _

end SeqRing

/-! ### `MpscProducer::send`, `MpscConsumer::recv` and `recv_batch` -/

namespace SeqMpsc

variable {s : SeqMpsc α} {queues : Nat → List α} {m p length : Nat}

/-- The predicate of `send`. -/
def sendReady (cap : Cap) (s : SeqMpsc α) (p : Nat) : Bool :=
  s.shutdown || !(s.rings p).isFull cap

/-- One turn of `send`. -/
def sendTurn (cap : Cap) (s : SeqMpsc α) (p : Nat) (value : α) : Turn Unit × SeqMpsc α :=
  if s.shutdown then
    (.returned (), s)
  else
    match s.trySend cap p value with
    | (.ok (), s) => (.returned (), s)
    | (.error _, s) => (.waits, s)

/-- The predicate of `recv` and of `recv_batch`. -/
def recvReady (m : Nat) (s : SeqMpsc α) : Bool := s.anyRingHasWork m || s.isFinished m

/-- One turn of `recv`; `none` is `Err(Shutdown)`. -/
def recvTurn (cap : Cap) (m : Nat) (s : SeqMpsc α) : Option (Turn (Option α) × SeqMpsc α) :=
  (s.tryRecv cap (List.range m)).map fun (received, s) =>
    match received with
    | some value => (.returned (some value), s)
    | none => if s.isFinished m then (.returned none, s) else (.waits, s)

/-- One turn of `recv_batch`. -/
def recvBatchTurn (cap : Cap) (m fuel : Nat) (s : SeqMpsc α) :
    Option (Turn (Option Nat) × SeqMpsc α) :=
  (tryRecvBatch cap m fuel s 0).map fun (n, _, s) =>
    if 0 < n then (.returned (some n), s)
    else if s.isFinished m then (.returned none, s)
    else (.waits, s)

theorem send_agrees (spans : Spans cap (s.rings p).head (s.rings p).tail length)
    (known : TailCopy cap (s.rings p).cachedTail (s.rings p).tail length) (value : α) :
    Agrees (s.sendReady cap p) (some (s.sendTurn cap p value)) := by
  rw [sendReady, sendTurn]
  cases shut : s.shutdown with
  | true => exact .of_returned _ _
  | false =>
      rw [if_neg Bool.false_ne_true, trySend, shut, if_neg Bool.false_ne_true]
      cases full : (s.rings p).isFull cap with
      | false =>
          obtain ⟨after, sent⟩ := SeqRing.trySend_of_room full value
          rw [sent]
          exact .of_returned _ _
      | true =>
          rw [SeqRing.trySend_of_full spans known full]
          cases (s.rings p).closed with
          | true => exact .of_waits _
          | false => exact .of_waits _

theorem HoldsAll.anyRingHasWork_iff (holds : s.HoldsAll cap queues) :
    s.anyRingHasWork m = true ↔ ∃ p ∈ List.range m, queues p ≠ [] := by
  rw [anyRingHasWork, List.any_eq_true]
  apply exists_congr
  intro p
  rw [(holds p).isEmpty, Bool.not_eq_true', List.isEmpty_eq_false_iff]

/-- An empty-handed turn comes to the check and then to the predicate. -/
theorem emptyHanded_agrees {β : Type*} (idle : s.anyRingHasWork m = false) :
    Agrees (s.recvReady m)
      (some (if s.isFinished m then (Turn.returned (none : Option β), s) else (.waits, s))) := by
  rw [recvReady, idle, Bool.false_or]
  cases s.isFinished m with
  | true => exact .of_returned _ _
  | false => exact .of_waits _

theorem ready_of_work (work : s.anyRingHasWork m = true) : s.recvReady m = true := by
  rw [recvReady, work, Bool.true_or]

theorem HoldsAll.idle (holds : s.HoldsAll cap queues)
    (empty : ∀ p ∈ List.range m, queues p = []) : s.anyRingHasWork m = false := by
  rw [← Bool.not_eq_true, holds.anyRingHasWork_iff]
  rintro ⟨p, member, some⟩
  exact some (empty p member)

theorem HoldsAll.recv_agrees (holds : s.HoldsAll cap queues) (m : Nat) :
    Agrees (s.recvReady m) (s.recvTurn cap m) := by
  rcases holds.tryRecv (List.range m) with ⟨empty, none, -⟩ |
    ⟨p, member, value, later, middle, some, received, -⟩
  · rw [recvTurn, none]
    exact emptyHanded_agrees (holds.idle empty)
  · have work := holds.anyRingHasWork_iff.mpr ⟨p, member, by rw [some]; simp⟩
    rw [ready_of_work work, recvTurn, received]
    exact .of_returned _ _

theorem HoldsAll.recvBatch_agrees (holds : s.HoldsAll cap queues) (m : Nat) {fuel : Nat}
    (enough : 2 ≤ fuel) : Agrees (s.recvReady m) (s.recvBatchTurn cap m fuel) := by
  rcases holds.tryRecv (List.range m) with ⟨empty, -, passes⟩ |
    ⟨p, member, value, later, middle, some, received, -⟩
  · rw [recvBatchTurn, tryRecvBatch_of_passes enough passes passes]
    exact emptyHanded_agrees (holds.idle empty)
  · have work := holds.anyRingHasWork_iff.mpr ⟨p, member, by rw [some]; simp⟩
    obtain ⟨items, after, repeated, -, batch⟩ := holds.tryRecvBatch m
    have nonempty : 0 < items.length := by
      cases repeated with
      | failed none =>
          rw [received] at none
          cases none
      | received some rest => exact Nat.succ_pos _
    rw [ready_of_work work, recvBatchTurn, batch fuel enough, Option.map_some]
    dsimp only
    rw [if_pos nonempty]
    exact .of_returned _ _

end SeqMpsc

/-! ### `MpmcProducer::send` and `send_async`, `MpmcConsumer::recv` and `recv_batch` -/

namespace SeqMpmc

variable {c after : SeqMpmc α} {queues : Nat → List α} {shard p : Nat} {indices : List Nat}

/-- The predicate of `send`. -/
def sendReady (cap : Cap) (c : SeqMpmc α) (p : Nat) : Bool :=
  c.hasIdleShard cap p || c.isTerminalForProducer

/-- The predicate of `send_async`. -/
def sendAsyncReady (cap : Cap) (c : SeqMpmc α) (p : Nat) : Bool :=
  if c.isTerminalForProducer then
    true
  else
    (List.range c.n).any fun s => !SeqPRing.isFull cap (c.shards s p).head (c.shards s p).tail

/-- One turn of `send` and of `send_async`. -/
def sendTurn (cap : Cap) (c : SeqMpmc α) (p : Nat) (value : α) : Turn Unit × SeqMpmc α :=
  if c.isTerminalForProducer then
    (.returned (), c)
  else
    match c.trySend cap p value with
    | (.ok (), c) => (.returned (), c)
    | (.error _, c) => (.waits, c)

/-- The predicate of `recv` and of `recv_batch`. -/
def recvReady (c : SeqMpmc α) (shard : Nat) : Bool :=
  c.anyRingHasWork shard || c.isTerminalForConsumer

/-- One turn of `recv`; `none` is `Err(Shutdown)`. -/
def recvTurn (cap : Cap) (c : SeqMpmc α) (shard : Nat) :
    Option (Turn (Option α) × SeqMpmc α) :=
  (c.tryRecv cap shard (List.range c.m)).map fun (received, c) =>
    match received with
    | some value => (.returned (some value), c)
    | none => if c.isTerminalForConsumer then (.returned none, c) else (.waits, c)

/-- One turn of `recv_batch`. -/
def recvBatchTurn (cap : Cap) (fuel : Nat) (c : SeqMpmc α) (shard : Nat) :
    Option (Turn (Option Nat) × SeqMpmc α) :=
  (drainAll cap shard fuel c 0).map fun (count, _, c) =>
    if 0 < count then (.returned (some count), c)
    else if c.isTerminalForConsumer then (.returned none, c)
    else (.waits, c)

theorem sendAsyncReady_eq (cap : Cap) (c : SeqMpmc α) (p : Nat) :
    c.sendAsyncReady cap p = c.sendReady cap p := by
  rw [sendAsyncReady, sendReady]
  cases c.isTerminalForProducer with
  | true => exact (Bool.or_true _).symm
  | false => exact (Bool.or_false _).symm

theorem send_agrees (shards : 0 < c.n) (p : Nat) (value : α) :
    Agrees (c.sendReady cap p) (some (c.sendTurn cap p value)) := by
  rw [sendReady, sendTurn]
  cases live : c.isTerminalForProducer with
  | true =>
      rw [Bool.or_true]
      exact .of_returned _ _
  | false =>
      rw [Bool.or_false, if_neg Bool.false_ne_true]
      cases idle : c.hasIdleShard cap p with
      | true =>
          obtain ⟨k, inside, room, first⟩ :=
            exists_room shards (freeSlots_pos_iff.mpr (hasIdleShard_iff.mp idle))
          rw [trySend_first live inside room first]
          exact .of_returned _ _
      | false =>
          have none : c.freeSlots cap p = 0 := by
            by_contra some
            have busy := hasIdleShard_iff.mpr (freeSlots_pos_iff.mp (Nat.pos_of_ne_zero some))
            rw [idle] at busy
            cases busy
          rw [trySend_none shards none]
          exact .of_waits _

theorem anyRingHasWork_iff : c.anyRingHasWork shard = true ↔
    ∃ p ∈ List.range c.m, (c.shards shard p).tail ≠ (c.shards shard p).head := by
  simp only [anyRingHasWork, List.any_eq_true, decide_eq_true_eq, ne_comm]

theorem ready_of_work (work : c.anyRingHasWork shard = true) : c.recvReady shard = true := by
  rw [recvReady, work, Bool.true_or]

theorem emptyHanded_agrees {β : Type*} (idle : c.anyRingHasWork shard = false) :
    Agrees (c.recvReady shard)
      (some (if c.isTerminalForConsumer then (Turn.returned (none : Option β), c)
        else (.waits, c))) := by
  rw [recvReady, idle, Bool.false_or]
  cases c.isTerminalForConsumer with
  | true => exact .of_returned _ _
  | false => exact .of_waits _

theorem StoresAll.anyRingHasWork_iff (stores : c.StoresAll cap shard queues) :
    c.anyRingHasWork shard = true ↔ ∃ p ∈ List.range c.m, queues p ≠ [] := by
  rw [SeqMpmc.anyRingHasWork_iff]
  apply exists_congr
  intro p
  rw [ne_comm, Ne, (stores p).eq_iff]

theorem StoresAll.idle (stores : c.StoresAll cap shard queues)
    (empty : ∀ p ∈ List.range c.m, queues p = []) : c.anyRingHasWork shard = false := by
  rw [← Bool.not_eq_true, stores.anyRingHasWork_iff]
  rintro ⟨p, member, some⟩
  exact some (empty p member)

theorem StoresAll.recv_agrees (stores : c.StoresAll cap shard queues) :
    Agrees (c.recvReady shard) (c.recvTurn cap shard) := by
  rcases stores.tryRecv (List.range c.m) with ⟨empty, none, -⟩ |
    ⟨p, member, value, later, middle, some, received, -⟩
  · rw [recvTurn, none]
    exact emptyHanded_agrees (stores.idle empty)
  · have work := stores.anyRingHasWork_iff.mpr ⟨p, member, by rw [some]; simp⟩
    rw [ready_of_work work, recvTurn, received]
    exact .of_returned _ _

theorem StoresAll.recvBatch_agrees (stores : c.StoresAll cap shard queues) {fuel : Nat}
    (enough : 2 ≤ fuel) : Agrees (c.recvReady shard) (c.recvBatchTurn cap fuel shard) := by
  rcases stores.tryRecv (List.range c.m) with ⟨empty, -, passes⟩ |
    ⟨p, member, value, later, middle, some, received, -⟩
  · rw [recvBatchTurn, drainAll_of_passes enough rfl rfl passes passes]
    exact emptyHanded_agrees (stores.idle empty)
  · have work := stores.anyRingHasWork_iff.mpr ⟨p, member, by rw [some]; simp⟩
    obtain ⟨items, after, repeated, batch⟩ := stores.drainAll rfl
    have nonempty : 0 < items.length := by
      cases repeated with
      | failed none =>
          rw [received] at none
          cases none
      | received some rest => exact Nat.succ_pos _
    rw [ready_of_work work, recvBatchTurn, batch fuel enough, Option.map_some]
    dsimp only
    rw [if_pos nonempty]
    exact .of_returned _ _

/-! Where a receive inside a callback has put a tail back, a turn may read a slot whose item
has been moved out; but it still waits exactly if the predicate is false. -/

theorem tryRecv_idle (idle : ∀ p ∈ indices, (c.shards shard p).tail = (c.shards shard p).head) :
    c.tryRecv cap shard indices = some (none, c) := by
  induction indices with
  | nil => rfl
  | cons p rest ih =>
      rw [SeqMpmc.tryRecv]
      dsimp only
      rw [if_pos (idle p List.mem_cons_self)]
      exact ih fun q member => idle q (List.mem_cons_of_mem p member)

theorem idle_of_tryRecv (nothing : c.tryRecv cap shard indices = some (none, after)) :
    ∀ p ∈ indices, (c.shards shard p).tail = (c.shards shard p).head := by
  induction indices with
  | nil => exact fun p member => absurd member List.not_mem_nil
  | cons p rest ih =>
      rw [SeqMpmc.tryRecv] at nothing
      dsimp only at nothing
      split at nothing
      · exact List.forall_mem_cons.mpr ⟨by assumption, ih nothing⟩
      · obtain ⟨taken, -, same⟩ := Option.map_eq_some_iff.mp nothing
        cases same

theorem pass_idle (idle : ∀ p ∈ indices, (c.shards shard p).tail = (c.shards shard p).head)
    (count : Nat) (progress : Bool) :
    c.pass cap shard count progress indices = some ([], count, progress, c) := by
  induction indices with
  | nil => rfl
  | cons p rest ih =>
      rw [pass]
      dsimp only
      rw [if_pos (idle p List.mem_cons_self)]
      exact ih fun q member => idle q (List.mem_cons_of_mem p member)

theorem length_drain_pos {ring left : SeqPRing α} {items : List α} (other : ring.tail ≠ ring.head)
    (drained : ring.drain cap = some (items, left)) : 0 < items.length := by
  obtain ⟨⟨moved, slots⟩, emptied, same⟩ := Option.map_eq_some_iff.mp drained
  obtain ⟨rfl, -⟩ := Prod.mk.inj same
  rw [drainFrom, if_neg other] at emptied
  obtain ⟨value, -, rest⟩ := Option.bind_eq_some_iff.mp emptied
  obtain ⟨⟨later, slots⟩, -, same⟩ := Option.map_eq_some_iff.mp rest
  obtain ⟨rfl, -⟩ := Prod.mk.inj same
  exact Nat.succ_pos _

/-- A pass counts what it hands out, and hands something out if a ring has work. -/
theorem pass_counts {count total : Nat} {progress progressed : Bool} {items : List α}
    (passed : c.pass cap shard count progress indices = some (items, total, progressed, after)) :
    count ≤ total ∧ ((∃ p ∈ indices, (c.shards shard p).tail ≠ (c.shards shard p).head) →
      count < total) := by
  induction indices generalizing c count progress items with
  | nil =>
      cases passed
      refine ⟨le_rfl, ?_⟩
      rintro ⟨p, member, -⟩
      cases member
  | cons p rest ih =>
      rw [pass] at passed
      dsimp only at passed
      split at passed
      · rename_i same
        obtain ⟨le, busy⟩ := ih passed
        refine ⟨le, ?_⟩
        rintro ⟨q, member, other⟩
        rcases List.mem_cons.mp member with rfl | member
        · exact absurd same other
        · exact busy ⟨q, member, other⟩
      · rename_i other
        split at passed
        · cases passed
        · rename_i moved ring drained
          obtain ⟨⟨later, passedRest⟩, passedOn, same⟩ := Option.map_eq_some_iff.mp passed
          obtain ⟨-, rfl⟩ := Prod.mk.inj same
          have some := length_drain_pos other drained
          obtain ⟨le, -⟩ := ih passedOn
          exact ⟨by omega, fun _ => by omega⟩

theorem drainAll_counts {fuel count total : Nat} {items : List α}
    (drained : drainAll cap shard fuel c count = some (total, items, after)) :
    count ≤ total ∧ (c.anyRingHasWork shard = true → count < total) := by
  induction fuel generalizing c count items with
  | zero => cases drained
  | succ fuel ih =>
      rw [drainAll] at drained
      split at drained
      · cases drained
      · rename_i passed
        obtain ⟨le, busy⟩ := pass_counts passed
        rw [← anyRingHasWork_iff] at busy
        split at drained
        · obtain ⟨⟨later, moved, last⟩, again, same⟩ := Option.map_eq_some_iff.mp drained
          cases same
          obtain ⟨leLater, -⟩ := ih again
          exact ⟨le.trans leLater, fun work => (busy work).trans_le leLater⟩
        · cases drained
          exact ⟨le, busy⟩

theorem recvReady_eq_false_iff : c.recvReady shard = false ↔
    c.anyRingHasWork shard = false ∧ c.isTerminalForConsumer = false :=
  Bool.or_eq_false_iff

theorem idle_of_anyRingHasWork (idle : c.anyRingHasWork shard = false) :
    ∀ p ∈ List.range c.m, (c.shards shard p).tail = (c.shards shard p).head := by
  intro p member
  by_contra other
  have work := anyRingHasWork_iff.mpr ⟨p, member, other⟩
  rw [idle] at work
  cases work

theorem recv_waits_iff :
    (∃ after, c.recvTurn cap shard = some (.waits, after)) ↔ c.recvReady shard = false := by
  rw [recvReady_eq_false_iff]
  constructor
  · rintro ⟨after, waits⟩
    obtain ⟨⟨received, next⟩, taken, same⟩ := Option.map_eq_some_iff.mp waits
    cases received with
    | some value => cases same
    | none =>
        have idle := idle_of_tryRecv taken
        have unmoved := taken.symm.trans (tryRecv_idle idle)
        obtain ⟨-, rfl⟩ := Prod.mk.inj (Option.some.inj unmoved)
        constructor
        · rw [← Bool.not_eq_true, anyRingHasWork_iff]
          rintro ⟨p, member, other⟩
          exact other (idle p member)
        · by_contra terminal
          rw [Bool.not_eq_false] at terminal
          simp [terminal] at same
  · rintro ⟨idle, live⟩
    rw [recvTurn, tryRecv_idle (idle_of_anyRingHasWork idle), Option.map_some]
    simp only [live]
    exact ⟨c, rfl⟩

theorem recvBatch_waits_iff {fuel : Nat} (enough : 2 ≤ fuel) :
    (∃ after, c.recvBatchTurn cap fuel shard = some (.waits, after)) ↔
      c.recvReady shard = false := by
  have drained_idle (idle : c.anyRingHasWork shard = false) :
      drainAll cap shard fuel c 0 = some (0, [], c) := by
    obtain ⟨fuel, rfl⟩ := Nat.exists_eq_add_of_le enough
    rw [Nat.add_comm, drainAll, pass_idle (idle_of_anyRingHasWork idle)]
    rfl
  rw [recvReady_eq_false_iff]
  constructor
  · rintro ⟨after, waits⟩
    obtain ⟨⟨count, items, next⟩, drained, same⟩ := Option.map_eq_some_iff.mp waits
    dsimp only at same
    split at same
    · cases same
    · rename_i none
      have idle : c.anyRingHasWork shard = false := by
        by_contra work
        exact none ((drainAll_counts drained).2 (Bool.eq_true_of_not_eq_false work))
      have unmoved := drained.symm.trans (drained_idle idle)
      obtain ⟨-, -, rfl⟩ := by simpa using unmoved
      refine ⟨idle, ?_⟩
      split at same
      · cases same
      · rename_i live
        exact Bool.eq_false_of_not_eq_true live
  · rintro ⟨idle, live⟩
    rw [recvBatchTurn, drained_idle idle, Option.map_some]
    simp only [live]
    exact ⟨c, rfl⟩

end SeqMpmc

/-! ### `Receiver::recv` of the one-shot -/

namespace OneShot

variable {s : OneShot α}

/-- `try_take_inner`; reading a slot that owns no value is undefined. -/
def tryTakeInner (s : OneShot α) : Option (Option (Except Closed α) × OneShot α) :=
  if s.state.current = .full then
    s.slot.owned.map fun value =>
      (some (.ok value), { s with state := s.state.store .taken, slot := .moved value })
  else
    some ((takeFailed s.state.current).map .error, s)

/-- The predicate of `recv`. -/
def recvReady (s : OneShot α) : Bool := decide (s.state.current ≠ .empty)

/-- One turn of `recv`: `try_take_inner`, and then the wait if it took nothing. -/
def recvTurn (s : OneShot α) : Option (Turn (Except Closed α) × OneShot α) :=
  s.tryTakeInner.map fun (taken, s) =>
    match taken with
    | some result => (.returned result, s)
    | none => (.waits, s)

/-- `recv` is running and has not taken anything. -/
def receiving : ReceiverPc α → Bool
  | .recvExchange => true
  | .waitLoad _ => true
  | .waitAnnounce => true
  | .waitPark => true
  | .waitLeave => true
  | .lastExchange => true
  | _ => false

theorem recv_agrees (reached : system.Reachable s) (receives : receiving s.receiver = true) :
    Agrees s.recvReady s.recvTurn := by
  have ok := ownerOk reached
  have notGone : s.receiver ≠ .gone := by
    intro gone
    rw [gone] at receives
    cases receives
  cases ok.stage with
  | unsent path =>
      have current : s.state.current = .empty := by
        rcases path with path | ⟨-, gone⟩
        · exact current_of_history path rfl
        · exact absurd gone notGone
      rw [recvReady, recvTurn, tryTakeInner, current]
      exact .of_waits _
  | closed path =>
      have current : s.state.current = .closed := current_of_history path rfl
      rw [recvReady, recvTurn, tryTakeInner, current]
      exact .of_returned _ _
  | full value path unclaimed sent sender kept =>
      have current : s.state.current = .full := by
        rcases path with path | ⟨-, gone⟩
        · exact current_of_history path rfl
        · exact absurd gone notGone
      have live : s.slot = .live value := by
        rcases kept with ⟨-, live, -⟩ | ⟨torn, -⟩
        · exact live
        · have done := (ok.torn torn).1
          cases receiver : s.receiver with
          | returned | expectFailed | gone =>
              rw [receiver] at receives
              cases receives
          | _ =>
              rw [receiver] at done
              cases done
      rw [recvReady, recvTurn, tryTakeInner, current, live]
      exact .of_returned _ _
  | taken value path =>
      have current : s.state.current = .taken := current_of_history path rfl
      rw [recvReady, recvTurn, tryTakeInner, current]
      exact .of_returned _ _

end OneShot

/-! ### From every reachable state -/

/-- Each predicate agrees with the next turn in every reachable state in which the party
that waits is between two turns. -/
structure WaitsAgree (α : Type*) : Prop where
  ringSend : ∀ (cap : Cap) (s : RingState α) (value : α),
    (RingState.withinCache cap).Reachable s →
      Agrees (s.atRest.sendReady cap) (some (s.atRest.sendTurn cap value))
  ringRecv : ∀ (cap : Cap) (s : RingState α), (RingState.withinCache cap).Reachable s →
    RingState.resting s.consumer.pc = true → Agrees s.atRest.recvReady (s.atRest.recvTurn cap)
  mpscSend : ∀ (size : MpscSize) (s : MpscState α) (p : Nat) (value : α),
    (MpscState.withinCache size).Reachable s →
      Agrees (s.atRest.sendReady size.cap p) (some (s.atRest.sendTurn size.cap p value))
  mpscRecv : ∀ (size : MpscSize) (s : MpscState α), (MpscState.withinCache size).Reachable s →
    MpscState.resting s.consumer = true →
      Agrees (s.atRest.recvReady size.m) (s.atRest.recvTurn size.cap size.m)
  mpscRecvBatch : ∀ (size : MpscSize) (s : MpscState α) (fuel : Nat), 2 ≤ fuel →
    (MpscState.withinCache size).Reachable s → MpscState.resting s.consumer = true →
      Agrees (s.atRest.recvReady size.m) (s.atRest.recvBatchTurn size.cap size.m fuel)
  mpmcSend : ∀ (size : MpmcSize) (s : MpmcState α) (p : Nat) (value : α),
    Agrees ((s.atRest size).sendReady size.ringCap p)
      (some ((s.atRest size).sendTurn size.ringCap p value))
  mpmcSendAsync : ∀ (size : MpmcSize) (s : MpmcState α) (p : Nat) (value : α),
    Agrees ((s.atRest size).sendAsyncReady size.ringCap p)
      (some ((s.atRest size).sendTurn size.ringCap p value))
  mpmcRecv : ∀ (size : MpmcSize) (s : MpmcState α) (shard : Nat),
    (MpmcState.apart size).Reachable s →
      (MpmcState.framesOf (s.consumers shard)).filterMap MpmcState.holds = [] →
        Agrees ((s.atRest size).recvReady shard) ((s.atRest size).recvTurn size.ringCap shard)
  mpmcRecvBatch : ∀ (size : MpmcSize) (s : MpmcState α) (shard fuel : Nat), 2 ≤ fuel →
    (MpmcState.apart size).Reachable s →
      (MpmcState.framesOf (s.consumers shard)).filterMap MpmcState.holds = [] →
        Agrees ((s.atRest size).recvReady shard)
          ((s.atRest size).recvBatchTurn size.ringCap fuel shard)
  /-- Also where a receive inside a callback has put a tail back. -/
  mpmcRecvWaits : ∀ (size : MpmcSize) (s : MpmcState α) (shard : Nat),
    (∃ after, (s.atRest size).recvTurn size.ringCap shard = some (.waits, after)) ↔
      (s.atRest size).recvReady shard = false
  mpmcRecvBatchWaits : ∀ (size : MpmcSize) (s : MpmcState α) (shard fuel : Nat), 2 ≤ fuel →
    ((∃ after, (s.atRest size).recvBatchTurn size.ringCap fuel shard = some (.waits, after)) ↔
      (s.atRest size).recvReady shard = false)
  oneShotRecv : ∀ s : OneShot α, OneShot.system.Reachable s →
    OneShot.receiving s.receiver = true → Agrees s.recvReady s.recvTurn

/-- No wait is entered by an operation whose next turn would return, and none is left for a
turn that comes back to it. -/
theorem waits_agree (α : Type*) : WaitsAgree α where
  ringSend _ _ value reached := by
    obtain ⟨shared, producer, -⟩ := RingState.invariant reached
    exact SeqRing.send_agrees shared.spans (RingState.tailCopy_atRest shared producer) value
  ringRecv _ _ reached rests := (RingState.holds_atRest reached rests).recv_agrees
  mpscSend _ _ p value reached := by
    obtain ⟨shared, producer, -⟩ := RingState.invariant (MpscState.ring_reachable reached p)
    exact SeqMpsc.send_agrees shared.spans (RingState.tailCopy_atRest shared producer) value
  mpscRecv size _ reached rests :=
    SeqMpsc.HoldsAll.recv_agrees (MpscState.holds_atRest reached rests) size.m
  mpscRecvBatch size _ _ enough reached rests :=
    SeqMpsc.HoldsAll.recvBatch_agrees (MpscState.holds_atRest reached rests) size.m enough
  mpmcSend size _ p value := SeqMpmc.send_agrees size.n_pos p value
  mpmcSendAsync size _ p value := by
    rw [SeqMpmc.sendAsyncReady_eq]
    exact SeqMpmc.send_agrees size.n_pos p value
  mpmcRecv _ _ _ reached outside :=
    SeqMpmc.StoresAll.recv_agrees (MpmcState.stores_atRest reached outside)
  mpmcRecvBatch _ _ _ _ enough reached outside :=
    SeqMpmc.StoresAll.recvBatch_agrees (MpmcState.stores_atRest reached outside) enough
  mpmcRecvWaits _ _ _ := SeqMpmc.recv_waits_iff
  mpmcRecvBatchWaits _ _ _ _ enough := SeqMpmc.recvBatch_waits_iff enough
  oneShotRecv _ reached receives := OneShot.recv_agrees reached receives

end ArbitroKit
