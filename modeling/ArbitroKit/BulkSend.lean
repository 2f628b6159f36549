import ArbitroKit.BatchReceive
import ArbitroKit.CallSequences
import ArbitroKit.PanickedDrain

/-!
# A bulk send is a block of single sends

`try_send_bulk` looks at its copy of `tail` once, refreshes it only when the ring looks
full, and stores `head` once behind all its slot writes.  It does what popping the items
one by one and sending each with `try_send` does, and it takes what there is room for.
-/

namespace ArbitroKit

open Cyclic CallSequences

variable {α : Type*} {cap : Cap}

namespace SeqRing

/-- The slot writes of `try_send_bulk` from cursor `h` on, each of a popped item: what is
left of the vector, the cursor and the slots. -/
def writePopped (cap : Cap) :
    Nat → List α → Usize → (Nat → Option α) → Option (List α × Usize × (Nat → Option α))
  | 0, items, h, slots => some (items, h, slots)
  | count + 1, items, h, slots =>
      items.getLast?.bind fun value =>
        writePopped cap count items.dropLast (h + 1)
          (Function.update slots (cap.slot h) (some value))

/-- The look at the copy of `tail`, which is refreshed when the ring looks full. -/
def lookAtTail (cap : Cap) (ring : SeqRing α) : SeqRing α :=
  if cap.size ≤ (ring.head - ring.cachedTail).toNat then
    { ring with cachedTail := ring.tail }
  else
    ring

/-- `try_send_bulk` behind the look: the count, what is left of the vector, and the ring. -/
def fill (cap : Cap) (ring : SeqRing α) (items : List α) : Option (Nat × List α × SeqRing α) :=
  let avail := cap.size - (ring.head - ring.cachedTail).toNat
  if avail = 0 then
    some (0, items, ring)
  else
    let take := min items.length avail
    (writePopped cap take items ring.head ring.slots).map fun (left, h, slots) =>
      (take, left, { ring with head := h, slots := slots })

/-- `try_send_bulk`. -/
def trySendBulk (cap : Cap) (ring : SeqRing α) (items : List α) :
    Option (Nat × List α × SeqRing α) :=
  if items.isEmpty then some (0, items, ring) else (ring.lookAtTail cap).fill cap items

/-- A `try_send` that comes out `Ok`. -/
def sendOk (cap : Cap) (ring : SeqRing α) (value : α) : Option (SeqRing α) :=
  match ring.trySend cap value with
  | (.ok (), ring) => some ring
  | (.error _, _) => none

end SeqRing

/-- The bulk send took `count` items from the end of the vector, no more than there is room
for and none only if there is no room; what is seen of the state and everything the later
calls return are those of `count` single sends, each of which came out `Ok`. -/
structure BlockOfSends {σ call result : Type*} (room : Nat) (items : List α)
    (bulk : Option (Nat × List α × σ)) (send : σ → α → Option σ) (seen : σ → σ)
    (run : σ → call → Option (result × σ)) (before : σ) (count : Nat) (after single : σ) :
    Prop where
  ran : bulk = some (count, items.take (items.length - count), after)
  taken : count ≤ min items.length room
  nothing : count = 0 → items = [] ∨ room = 0
  singles : sendPopped send count before items =
    some (items.take (items.length - count), single)
  same : seen after = seen single
  received : ∀ calls, outcomes run after calls = outcomes run single calls

/-- The receives of a ring. -/
inductive RingReceive where
  | tryRecv
  | drain
  deriving DecidableEq, Repr

/-- What a receive of a ring hands out. -/
inductive RingReceived (α : Type*) where
  | tryRecv (result : Except TryRecvError α)
  | drain (count : Nat) (items : List α)

namespace SeqRing

def runReceive (cap : Cap) (ring : SeqRing α) : RingReceive → Option (RingReceived α × SeqRing α)
  | .tryRecv => (ring.tryRecv cap).map fun (result, ring) => (.tryRecv result, ring)
  | .drain => (ring.drain cap).map fun (count, items, ring) => (.drain count items, ring)

/-- What the consumer can tell of a ring: everything but the producer's copy of `tail`. -/
def forConsumer (ring : SeqRing α) : SeqRing α := { ring with cachedTail := 0 }

theorem take_forConsumer (ring : SeqRing α) :
    ring.forConsumer.take cap = (ring.take cap).map (Prod.map id forConsumer) := by
  unfold SeqRing.take
  rw [Option.map_map]
  rfl

theorem tryRecv_forConsumer (ring : SeqRing α) :
    ring.forConsumer.tryRecv cap = (ring.tryRecv cap).map (Prod.map id forConsumer) := by
  have takes (copy : Usize) :
      ({ ring.forConsumer with cachedHead := copy } : SeqRing α).take cap =
        (({ ring with cachedHead := copy } : SeqRing α).take cap).map (Prod.map id forConsumer) :=
    take_forConsumer { ring with cachedHead := copy }
  unfold SeqRing.tryRecv
  by_cases known : ring.cachedHead = ring.tail
  · by_cases empty : ring.head = ring.tail
    · cases closed : ring.closed with
      | true => simp [forConsumer, known, empty, closed, Prod.map]
      | false => simp [forConsumer, known, empty, closed, Prod.map]
    · simp only [forConsumer, known, empty, if_true, if_false]
      exact takes ring.head
  · simp only [forConsumer, known, if_false]
    exact takes ring.cachedHead

theorem drain_forConsumer (ring : SeqRing α) :
    ring.forConsumer.drain cap =
      (ring.drain cap).map fun (count, items, ring) => (count, items, ring.forConsumer) := by
  unfold SeqRing.drain
  by_cases empty : ring.tail = ring.head
  · simp [forConsumer, empty]
  · simp only [forConsumer, empty, if_false, Option.map_map]
    rfl

theorem runReceive_forConsumer (ring : SeqRing α) (receive : RingReceive) :
    ring.forConsumer.runReceive cap receive =
      (ring.runReceive cap receive).map (Prod.map id forConsumer) := by
  cases receive with
  | tryRecv =>
      simp only [runReceive, tryRecv_forConsumer, Option.map_map]
      rfl
  | drain =>
      simp only [runReceive, drain_forConsumer, Option.map_map]
      rfl

/-! ### The loop and the single sends -/

variable {ring : SeqRing α} {items : List α} {count : Nat}

/-- The loop pops as many items as it is told to, from the end. -/
theorem exists_writePopped (enough : count ≤ items.length) (h : Usize) (slots : Nat → Option α) :
    ∃ last left, writePopped cap count items h slots =
      some (items.take (items.length - count), last, left) := by
  induction count generalizing items h slots with
  | zero => exact ⟨h, slots, by rw [writePopped, Nat.sub_zero, List.take_length]⟩
  | succ count ih =>
      have nonempty : items ≠ [] := List.ne_nil_of_length_pos (by omega)
      have fewer : count ≤ items.dropLast.length := by
        rw [List.length_dropLast]
        omega
      obtain ⟨last, left, wrote⟩ := ih fewer (h + 1)
        (Function.update slots (cap.slot h) (some (items.getLast nonempty)))
      refine ⟨last, left, ?_⟩
      rw [writePopped, List.getLast?_eq_some_getLast nonempty, Option.bind_some, wrote,
        List.length_dropLast, List.dropLast_eq_take, List.take_take]
      congr 3
      omega

/-- A copy that shows room is not refreshed. -/
theorem sendOk_of_room (room : (ring.head - ring.cachedTail).toNat < cap.size) (value : α) :
    ring.sendOk cap value = some (ring.put cap value) := by
  unfold sendOk trySend
  rw [if_neg (Nat.not_le.mpr room)]

theorem toNat_head_put (room : (ring.head - ring.cachedTail).toNat < cap.size) (value : α) :
    ((ring.put cap value).head - (ring.put cap value).cachedTail).toNat =
      (ring.head - ring.cachedTail).toNat + 1 := by
  have small := cap.size_lt
  change (ring.head + 1 - ring.cachedTail).toNat = _
  bv_omega

/-- As long as the copy shows room for all of them, single sends do what the loop does. -/
theorem sendPopped_eq (room : (ring.head - ring.cachedTail).toNat + count ≤ cap.size) :
    sendPopped (sendOk cap) count ring items =
      (writePopped cap count items ring.head ring.slots).map fun (left, h, slots) =>
        (left, { ring with head := h, slots := slots }) := by
  induction count generalizing ring items with
  | zero => rfl
  | succ count ih =>
      have here : (ring.head - ring.cachedTail).toNat < cap.size := by omega
      rw [sendPopped, writePopped]
      cases items.getLast? with
      | none => rfl
      | some value =>
          rw [Option.bind_some, Option.bind_some, sendOk_of_room here, Option.bind_some]
          exact ih (by rw [toNat_head_put here]; omega)

/-- The first single send looks at the copy as the bulk send does. -/
theorem sendOk_lookAtTail
    (room : ((ring.lookAtTail cap).head - (ring.lookAtTail cap).cachedTail).toNat < cap.size)
    (value : α) : ring.sendOk cap value = (ring.lookAtTail cap).sendOk cap value := by
  rw [sendOk_of_room room]
  unfold lookAtTail at room ⊢
  split at room
  · rename_i looksFull
    rw [if_pos looksFull]
    unfold sendOk trySend
    rw [if_pos looksFull]
    dsimp only
    rw [if_neg (Nat.not_le.mpr room)]
  · rename_i hasRoom
    rw [if_neg hasRoom]
    exact sendOk_of_room room value

theorem sendPopped_lookAtTail (some : 0 < count)
    (room : ((ring.lookAtTail cap).head - (ring.lookAtTail cap).cachedTail).toNat < cap.size) :
    sendPopped (sendOk cap) count ring items =
      sendPopped (sendOk cap) count (ring.lookAtTail cap) items := by
  obtain ⟨count, rfl⟩ := Nat.exists_eq_succ_of_ne_zero (Nat.pos_iff_ne_zero.mp some)
  rw [sendPopped, sendPopped]
  cases items.getLast? with
  | none => rfl
  | some value => rw [Option.bind_some, Option.bind_some, sendOk_lookAtTail room]

/-! ### The whole call -/

theorem forConsumer_lookAtTail (ring : SeqRing α) :
    (ring.lookAtTail cap).forConsumer = ring.forConsumer := by
  unfold lookAtTail
  split <;> rfl

/-- After the look a ring that seems full is full, and no room is seen that is not there. -/
theorem used_lookAtTail {queued : Nat} (spans : Spans cap ring.head ring.tail queued)
    (known : TailCopy cap ring.cachedTail ring.tail queued) :
    queued ≤ ((ring.lookAtTail cap).head - (ring.lookAtTail cap).cachedTail).toNat ∧
      (cap.size ≤ ((ring.lookAtTail cap).head - (ring.lookAtTail cap).cachedTail).toNat →
        cap.size ≤ queued) := by
  obtain ⟨behind, tailEq, le⟩ := known
  have distance := spans.distance tailEq le
  unfold lookAtTail
  split
  · dsimp only
    rw [spans.occupancy]
    exact ⟨le_rfl, id⟩
  · rename_i hasRoom
    exact ⟨by omega, fun full => absurd full hasRoom⟩

theorem bulk_blockOfSends {queued : Nat} (spans : Spans cap ring.head ring.tail queued)
    (known : TailCopy cap ring.cachedTail ring.tail queued) (items : List α) :
    ∃ count after single, BlockOfSends (cap.size - queued) items (ring.trySendBulk cap items)
      (sendOk cap) forConsumer (runReceive cap) ring count after single := by
  obtain ⟨queued_le, full⟩ := used_lookAtTail spans known
  have whole : items.take (items.length - 0) = items := by rw [Nat.sub_zero, List.take_length]
  unfold trySendBulk
  split
  · rename_i empty
    refine ⟨0, ring, ring, ?_, Nat.zero_le _, fun _ => .inl (List.isEmpty_iff.mp empty), ?_, rfl,
      fun _ => rfl⟩
    · rw [whole]
    · rw [whole]
      rfl
  · rename_i nonempty
    unfold fill
    dsimp only
    split
    · rename_i noRoom
      refine ⟨0, ring.lookAtTail cap, ring, ?_, Nat.zero_le _, fun _ => .inr ?_, ?_,
        forConsumer_lookAtTail ring,
        outcomes_congr runReceive_forConsumer (forConsumer_lookAtTail ring)⟩
      · rw [whole]
      · have := full (by omega)
        omega
      · rw [whole]
        rfl
    · rename_i room
      have some : 0 < items.length :=
        List.length_pos_iff.mpr fun none => nonempty (List.isEmpty_iff.mpr none)
      obtain ⟨count, countEq⟩ : ∃ count, min items.length
          (cap.size - ((ring.lookAtTail cap).head - (ring.lookAtTail cap).cachedTail).toNat) =
            count := ⟨_, rfl⟩
      have enough : count ≤ items.length := by omega
      obtain ⟨last, left, wrote⟩ := exists_writePopped enough (ring.lookAtTail cap).head
        (ring.lookAtTail cap).slots
      rw [countEq]
      refine ⟨count, { ring.lookAtTail cap with head := last, slots := left },
        { ring.lookAtTail cap with head := last, slots := left }, ?_, ?_, fun none => ?_, ?_, rfl,
        fun _ => rfl⟩
      · rw [wrote]
        rfl
      · omega
      · omega
      · rw [sendPopped_lookAtTail (by omega) (by omega), sendPopped_eq (by omega), wrote]
        rfl

end SeqRing

/-! ### Through the many-producer channel -/

/-- The receives of a many-producer channel. -/
inductive MpscReceive where
  | tryRecv
  | tryRecvBatch
  | recv
  | recvBatch
  deriving DecidableEq, Repr

def MpscReceive.op : MpscReceive → ChannelOp α
  | .tryRecv => .tryRecv
  | .tryRecvBatch => .tryRecvBatch
  | .recv => .recv
  | .recvBatch => .recvBatch

namespace SeqMpsc

variable {s : SeqMpsc α} {p m fuel : Nat}

/-- `MpscProducer::try_send_bulk`. -/
def trySendBulk (cap : Cap) (s : SeqMpsc α) (p : Nat) (items : List α) :
    Option (Nat × List α × SeqMpsc α) :=
  if items.isEmpty || s.shutdown then
    some (0, items, s)
  else
    ((s.rings p).trySendBulk cap items).map fun (count, left, ring) =>
      (count, left, s.setRing p ring)

/-- A `try_send` of producer `p` that comes out `Ok`. -/
def sendOk (cap : Cap) (p : Nat) (s : SeqMpsc α) (value : α) : Option (SeqMpsc α) :=
  match s.trySend cap p value with
  | (.ok (), s) => some s
  | (.error _, _) => none

def runReceive (cap : Cap) (m fuel : Nat) (s : SeqMpsc α) (receive : MpscReceive) :
    Option (ChannelResult α × SeqMpsc α) :=
  s.step cap m fuel receive.op

/-- What the consumer can tell of the channel: everything but the producers' copies. -/
def forConsumer (s : SeqMpsc α) : SeqMpsc α := { s with rings := fun p => (s.rings p).forConsumer }

theorem forConsumer_setRing (s : SeqMpsc α) (p : Nat) (ring : SeqRing α) :
    (s.setRing p ring).forConsumer = s.forConsumer.setRing p ring.forConsumer := by
  unfold forConsumer setRing
  congr 1
  funext q
  by_cases same : q = p
  · subst same
    simp
  · simp [same]

theorem tryRecv_forConsumer (s : SeqMpsc α) (indices : List Nat) :
    s.forConsumer.tryRecv cap indices = (s.tryRecv cap indices).map (Prod.map id forConsumer) := by
  induction indices generalizing s with
  | nil => rfl
  | cons idx rest ih =>
      have here : (s.forConsumer.rings idx).tryRecv cap =
          ((s.rings idx).tryRecv cap).map (Prod.map id SeqRing.forConsumer) :=
        SeqRing.tryRecv_forConsumer (s.rings idx)
      rw [tryRecv, tryRecv, here]
      cases (s.rings idx).tryRecv cap with
      | none => rfl
      | some received =>
          obtain ⟨result, ring⟩ := received
          cases result with
          | ok value =>
              simp [Prod.map, forConsumer_setRing]
          | error error =>
              simp only [Option.map_some, Prod.map, id]
              rw [← forConsumer_setRing]
              exact ih (s.setRing idx ring)

theorem pass_forConsumer (s : SeqMpsc α) (total : Nat) (progress : Bool) (indices : List Nat) :
    s.forConsumer.pass cap total progress indices =
      (s.pass cap total progress indices).map fun (items, total, progress, s) =>
        (items, total, progress, s.forConsumer) := by
  induction indices generalizing s total progress with
  | nil => rfl
  | cons idx rest ih =>
      have here : (s.forConsumer.rings idx).drain cap =
          ((s.rings idx).drain cap).map fun (count, items, ring) =>
            (count, items, ring.forConsumer) :=
        SeqRing.drain_forConsumer (s.rings idx)
      rw [pass, pass, here]
      cases (s.rings idx).drain cap with
      | none => rfl
      | some drained =>
          obtain ⟨n, items, ring⟩ := drained
          simp only [Option.map_some]
          rw [← forConsumer_setRing]
          split
          · rw [ih, Option.map_map, Option.map_map]
            rfl
          · rw [ih, Option.map_map, Option.map_map]
            rfl

theorem tryRecvBatch_forConsumer (s : SeqMpsc α) (total : Nat) :
    tryRecvBatch cap m fuel s.forConsumer total =
      (tryRecvBatch cap m fuel s total).map fun (total, items, s) =>
        (total, items, s.forConsumer) := by
  induction fuel generalizing s total with
  | zero => rfl
  | succ fuel ih =>
      rw [tryRecvBatch, tryRecvBatch, pass_forConsumer]
      cases s.pass cap total false (List.range m) with
      | none => rfl
      | some passed =>
          obtain ⟨items, total, progress, s⟩ := passed
          cases progress with
          | false => rfl
          | true =>
              simp only [Option.map_some, if_true]
              rw [ih, Option.map_map, Option.map_map]
              rfl

theorem runReceive_forConsumer (s : SeqMpsc α) (receive : MpscReceive) :
    s.forConsumer.runReceive cap m fuel receive =
      (s.runReceive cap m fuel receive).map (Prod.map id forConsumer) := by
  cases receive with
  | tryRecv =>
      simp only [runReceive, MpscReceive.op, step, tryRecv_forConsumer, Option.map_map]
      rfl
  | tryRecvBatch =>
      simp only [runReceive, MpscReceive.op, step, tryRecvBatch_forConsumer, Option.map_map]
      rfl
  | recv =>
      simp only [runReceive, MpscReceive.op, step, recv, tryRecv_forConsumer, Option.map_map]
      refine congrArg (Option.map · _) (funext fun (received, after) => ?_)
      cases received <;> rfl
  | recvBatch =>
      simp only [runReceive, MpscReceive.op, step, recvBatch, tryRecvBatch_forConsumer,
        Option.map_map]
      refine congrArg (Option.map · _) (funext fun (count, items, after) => ?_)
      simp only [Function.comp]
      split <;> rfl

theorem setRing_setRing (s : SeqMpsc α) (p : Nat) (first second : SeqRing α) :
    (s.setRing p first).setRing p second = s.setRing p second := by
  simp [setRing]

theorem sendOk_setRing (cap : Cap) (running : s.shutdown = false) (p : Nat) (ring : SeqRing α)
    (value : α) :
    (s.setRing p ring).sendOk cap p value = (ring.sendOk cap value).map (s.setRing p) := by
  have here : (s.setRing p ring).rings p = ring := by simp [setRing]
  unfold sendOk trySend SeqRing.sendOk
  rw [if_neg (by simp [setRing, running]), here]
  obtain ⟨result, after⟩ := ring.trySend cap value
  cases result with
  | ok => simp [setRing_setRing]
  | error error => cases error <;> rfl

theorem trySendBulk_eq (running : s.shutdown = false) (p : Nat) (items : List α) :
    s.trySendBulk cap p items =
      ((s.rings p).trySendBulk cap items).map fun (count, left, ring) =>
        (count, left, s.setRing p ring) := by
  unfold trySendBulk
  cases items with
  | nil =>
      simp only [List.isEmpty_nil, Bool.true_or, if_true, SeqRing.trySendBulk, Option.map_some,
        setRing_self]
  | cons value rest =>
      rw [if_neg (by simp [running])]

theorem bulk_blockOfSends (running : s.shutdown = false) {queued : Nat}
    (spans : Spans cap (s.rings p).head (s.rings p).tail queued)
    (known : TailCopy cap (s.rings p).cachedTail (s.rings p).tail queued) (items : List α)
    (m fuel : Nat) :
    ∃ count after single, BlockOfSends (cap.size - queued) items (s.trySendBulk cap p items)
      (sendOk cap p) forConsumer (runReceive cap m fuel) s count after single := by
  obtain ⟨count, after, single, block⟩ := SeqRing.bulk_blockOfSends spans known items
  have same : (s.setRing p after).forConsumer = (s.setRing p single).forConsumer := by
    rw [forConsumer_setRing, forConsumer_setRing, block.same]
  refine ⟨count, s.setRing p after, s.setRing p single, ?_, block.taken, block.nothing, ?_, same,
    outcomes_congr runReceive_forConsumer same⟩
  · rw [trySendBulk_eq running, block.ran]
    rfl
  · have sent := sendPopped_map (sendOk_setRing cap running p) count (s.rings p) items
    rw [setRing_self, block.singles] at sent
    exact sent

end SeqMpsc

/-! ### Among the steps of the interleaved ring -/

namespace RingState

variable {s : RingState α} {items left : List α} {count : Nat} {h : Usize}

theorem producerOnly_step {after : RingState α} (move : ProducerAction α)
    (taken : s.producerStep cap move = some after) : (producerOnly cap).Leads s after :=
  .single ⟨⟨move, rfl⟩, taken⟩

/-- The slot as the sequential model has it. -/
theorem owned_write (lane : SlotLane.Lane α) (index : Nat) (value : α) :
    (fun slot => ((lane.write index value).cells slot).owned) =
      Function.update (fun slot => (lane.cells slot).owned) index (some value) := by
  funext slot
  by_cases same : slot = index
  · subst same
    simp [SlotLane.Lane.write]
  · simp [SlotLane.Lane.write, same]

/-- Behind the loop: the store of `head` and the wake. -/
theorem bulkPublish_alone (cap : Cap) {written : List α}
    (here : s.producer.pc = .bulkPublish left h written) :
    ∃ last, (producerOnly cap).Leads s last ∧ last.atRest = { s.atRest with head := h } ∧
      last.producer.pc = .returned (.trySendBulk written.length left) written := by
  have publishes : s.producerStep cap (.tick 0) =
      some ((s.storeHead h).producerAt (.bulkWake left written)) := by
    simp only [producerStep, producerTick, here]
  have wakes : ((s.storeHead h).producerAt (.bulkWake left written)).producerStep cap (.tick 0) =
      some (((s.storeHead h).producerAt (.bulkWake left written)).wakeNotEmpty.producerAt
        (.returned (.trySendBulk written.length left) written)) := rfl
  exact ⟨_, (producerOnly_step _ publishes).trans (producerOnly_step _ wakes), rfl, rfl⟩

/-- The loop and what is behind it, without another handle's step. -/
theorem bulkWrite_alone {slots : Nat → Option α} {last : Usize} {written : List α}
    (here : s.producer.pc = .bulkWrite items h (count + 1) written)
    (wrote : SeqRing.writePopped cap (count + 1) items h s.atRest.slots =
      some (left, last, slots)) :
    ∃ after values, (producerOnly cap).Leads s after ∧
      after.atRest = { s.atRest with head := last, slots := slots } ∧
        after.producer.pc =
          .returned (.trySendBulk (written.length + (count + 1)) left) values := by
  induction count generalizing s items h written with
  | zero =>
      rw [SeqRing.writePopped] at wrote
      obtain ⟨value, popped, wrote⟩ := Option.bind_eq_some_iff.mp wrote
      obtain ⟨rfl, rfl, rfl⟩ := by simpa [SeqRing.writePopped] using wrote
      let wroteOne := (s.writeSlot (cap.slot h) value).producerAt
        (.bulkPublish items.dropLast (h + 1) (written ++ [value]))
      have writes : s.producerStep cap (.tick 0) = some wroteOne := by
        simp only [producerStep, producerTick, here, popped, Nat.zero_add, Nat.le_refl, if_true,
          wroteOne]
      have atPublish : wroteOne.producer.pc =
          .bulkPublish items.dropLast (h + 1) (written ++ [value]) := rfl
      obtain ⟨after, leads, atRest, returned⟩ := bulkPublish_alone cap atPublish
      refine ⟨after, written ++ [value], (producerOnly_step _ writes).trans leads, ?_, ?_⟩
      · have cells : wroteOne.atRest.slots =
            Function.update s.atRest.slots (cap.slot h) (some value) :=
          owned_write s.shared.lane (cap.slot h) value
        rw [atRest]
        exact congrArg
          (fun slots => ({ s.atRest with head := h + 1, slots := slots } : SeqRing α)) cells
      · rw [returned, List.length_append]
        rfl
  | succ count ih =>
      rw [SeqRing.writePopped] at wrote
      obtain ⟨value, popped, wrote⟩ := Option.bind_eq_some_iff.mp wrote
      let wroteOne := (s.writeSlot (cap.slot h) value).producerAt
        (.bulkWrite items.dropLast (h + 1) (count + 1) (written ++ [value]))
      have writes : s.producerStep cap (.tick 0) = some wroteOne := by
        simp only [producerStep, producerTick, here, popped, wroteOne]
        rw [if_neg (by omega)]
        rfl
      have atWrite : wroteOne.producer.pc =
          .bulkWrite items.dropLast (h + 1) (count + 1) (written ++ [value]) := rfl
      have cells : wroteOne.atRest.slots =
          Function.update s.atRest.slots (cap.slot h) (some value) :=
        owned_write s.shared.lane (cap.slot h) value
      rw [← cells] at wrote
      obtain ⟨after, values, leads, atRest, returned⟩ := ih atWrite wrote
      refine ⟨after, values, (producerOnly_step _ writes).trans leads, atRest, ?_⟩
      rw [returned, List.length_append, List.length_singleton]
      congr 2
      omega

/-- Behind the look at the copy of `tail`. -/
theorem fill_alone {after : SeqRing α}
    (here : s.producer.pc = bulkStart cap items s.atRest.head s.atRest.cachedTail)
    (nonempty : items ≠ []) (sent : s.atRest.fill cap items = some (count, left, after)) :
    ∃ last values, (producerOnly cap).Leads s last ∧ last.atRest = after ∧
      last.producer.pc = .returned (.trySendBulk count left) values := by
  unfold bulkStart at here
  unfold SeqRing.fill at sent
  dsimp only at here sent
  split at sent
  · rename_i noRoom
    rw [if_pos noRoom] at here
    simp only [Option.some.injEq, Prod.mk.injEq] at sent
    obtain ⟨rfl, rfl, rfl⟩ := sent
    exact ⟨s, [], .refl, rfl, here⟩
  · rename_i room
    rw [if_neg room] at here
    obtain ⟨⟨rest, h, slots⟩, wrote, same⟩ := Option.map_eq_some_iff.mp sent
    simp only [Prod.mk.injEq] at same
    obtain ⟨rfl, rfl, rfl⟩ := same
    have some := List.length_pos_iff.mpr nonempty
    obtain ⟨more, moreEq⟩ : ∃ more, min items.length
        (cap.size - (s.atRest.head - s.atRest.cachedTail).toNat) = more + 1 :=
      Nat.exists_eq_add_of_le' (by omega)
    rw [moreEq] at here wrote ⊢
    obtain ⟨last, values, leads, atRest, returned⟩ := bulkWrite_alone here wrote
    refine ⟨last, values, leads, atRest, ?_⟩
    rw [returned, List.length_nil, Nat.zero_add]

/-- On its own the interleaved bulk send does what the sequential one does. -/
theorem trySendBulk_alone {after : SeqRing α} (idle : s.producer.pc = .idle)
    (seen : s.producer.tailView ≤ s.shared.tail.latest)
    (sent : s.atRest.trySendBulk cap items = some (count, left, after)) :
    ∃ last values, (producerOnly cap).Leads s last ∧ last.atRest = after ∧
      last.producer.pc = .returned (.trySendBulk count left) values := by
  unfold SeqRing.trySendBulk at sent
  split at sent
  · rename_i empty
    simp only [Option.some.injEq, Prod.mk.injEq] at sent
    obtain ⟨rfl, rfl, rfl⟩ := sent
    have returns : s.producerStep cap (.trySendBulk items) =
        some (s.producerAt (.returned (.trySendBulk 0 items) [])) := by
      simp only [producerStep, idle, empty, if_true]
    exact ⟨_, [], producerOnly_step _ returns, rfl, rfl⟩
  · rename_i more
    have nonempty : items ≠ [] := fun none => more (List.isEmpty_iff.mpr none)
    unfold SeqRing.lookAtTail at sent
    split at sent
    · rename_i looksFull
      let looking := s.producerAt (.bulkRefresh items s.shared.head.current)
      let looked : RingState α := { s with producer :=
        { s.producer with
          cachedTail := s.shared.tail.current
          pc := bulkStart cap items s.shared.head.current s.shared.tail.current
          tailView := s.shared.tail.latest } }
      have looks : s.producerStep cap (.trySendBulk items) = some looking := by
        simp only [producerStep, idle]
        rw [if_neg more]
        exact if_pos (decide_eq_true looksFull)
      have refreshes : looking.producerStep cap (.tick s.shared.tail.latest) = some looked := by
        simp only [producerStep, producerTick, looking, producerAt, loadTail,
          Coherent.Location.load_latest _ seen, Option.map_some]
        rfl
      have here : looked.producer.pc =
          bulkStart cap items looked.atRest.head looked.atRest.cachedTail := rfl
      obtain ⟨last, values, leads, atRest, returned⟩ := fill_alone here nonempty sent
      exact ⟨last, values, ((producerOnly_step _ looks).trans
        (producerOnly_step _ refreshes)).trans leads, atRest, returned⟩
    · rename_i hasRoom
      let started := s.producerAt
        (bulkStart cap items s.shared.head.current s.producer.cachedTail)
      have starts : s.producerStep cap (.trySendBulk items) = some started := by
        simp only [producerStep, idle]
        rw [if_neg more]
        exact if_neg fun full => hasRoom (of_decide_eq_true full)
      have here : started.producer.pc =
          bulkStart cap items started.atRest.head started.atRest.cachedTail := rfl
      obtain ⟨last, values, leads, atRest, returned⟩ := fill_alone here nonempty sent
      exact ⟨last, values, (producerOnly_step _ starts).trans leads, atRest, returned⟩

end RingState

/-! ### From every reachable state -/

/-- A bulk send on the ring, whatever is sent and however old the copy of `tail` is. -/
def RingState.BulkIsSingles (cap : Cap) (s : RingState α) : Prop :=
  ∀ items, ∃ count after single, BlockOfSends (cap.size - s.queued) items
    (s.atRest.trySendBulk cap items) (SeqRing.sendOk cap) SeqRing.forConsumer
      (SeqRing.runReceive cap) s.atRest count after single

/-- A bulk send through producer `p` of the channel. -/
def MpscState.BulkIsSingles (size : MpscSize) (s : MpscState α) (p : Nat) : Prop :=
  ∀ items fuel, ∃ count after single, BlockOfSends (size.cap.size - (s.rings p).queued) items
    (s.atRest.trySendBulk size.cap p items) (SeqMpsc.sendOk size.cap p) SeqMpsc.forConsumer
      (SeqMpsc.runReceive size.cap size.m fuel) s.atRest count after single

theorem bulk_isSingles_ring {s : RingState α} (reached : (RingState.withinCache cap).Reachable s) :
    s.BulkIsSingles cap := by
  obtain ⟨shared, producer, -⟩ := RingState.invariant reached
  exact SeqRing.bulk_blockOfSends shared.spans (RingState.tailCopy_atRest shared producer)

/-- The sequential call is the interleaved one, run on its own. -/
theorem bulk_alone {s : RingState α} (reached : (RingState.withinCache cap).Reachable s)
    (idle : s.producer.pc = .idle) (items : List α) :
    ∃ count last values, (RingState.producerOnly cap).Leads s last ∧
      last.producer.pc =
        .returned (.trySendBulk count (items.take (items.length - count))) values ∧
        s.atRest.trySendBulk cap items =
          some (count, items.take (items.length - count), last.atRest) := by
  obtain ⟨count, after, single, block⟩ := bulk_isSingles_ring reached items
  obtain ⟨-, ⟨known, fresh, facts⟩, -⟩ := RingState.invariant reached
  obtain ⟨last, values, leads, rfl, returned⟩ :=
    RingState.trySendBulk_alone idle facts.follows.view_le block.ran
  exact ⟨count, last, values, leads, returned, block.ran⟩

theorem bulk_isSingles_mpsc {size : MpscSize} {s : MpscState α}
    (reached : (MpscState.withinCache size).Reachable s) (running : s.shutdown = false) (p : Nat) :
    s.BulkIsSingles size p := by
  intro items fuel
  obtain ⟨shared, producer, -⟩ := RingState.invariant (MpscState.ring_reachable reached p)
  exact SeqMpsc.bulk_blockOfSends running shared.spans
    (RingState.tailCopy_atRest shared producer) items size.m fuel

/-- In every reachable state in which no callback has panicked beyond the cached head, a
bulk send is a block of single sends, also through the channel while it is not shut down. -/
theorem bulk_isSingles :
    (∀ (cap : Cap) (s : RingState α), (RingState.withinCache cap).Reachable s →
      s.BulkIsSingles cap) ∧
    ∀ (size : MpscSize) (s : MpscState α) (p : Nat), (MpscState.withinCache size).Reachable s →
      s.shutdown = false → s.BulkIsSingles size p :=
  ⟨fun _ _ reached => bulk_isSingles_ring reached,
    fun _ _ p reached running => bulk_isSingles_mpsc reached running p⟩

/-- Two slots are filled and emptied; the producer has not looked at `tail` since. -/
def filledAndEmptied : List (RingAction Nat) :=
  [RingAction.producer (.trySendBulk [2, 1])] ++ List.replicate 5 (RingAction.producer (.tick 0)) ++
    [RingAction.consumer .drain, .consumer (.tick 1)] ++
    List.replicate 7 (RingAction.consumer (.tick 0))

theorem bulk_isSingles_filledAndEmptied :
    ∃ s, (RingState.withinCache twoSlotCap).Reachable s ∧ s.producer.pc = .idle ∧
      s.producer.cachedTail = 0 ∧ s.shared.head.current = 2 ∧ s.queued = 0 ∧
        (s.atRest.trySendBulk twoSlotCap [9, 8, 7]).map (fun sent => (sent.1, sent.2.1)) =
          some (2, [9]) ∧ s.BulkIsSingles twoSlotCap := by
  have ran : (Transition.execute (Transition.guardedStep
      (fun (s : RingState Nat) action => s.panicsWithinCache action = true)
      (fun s action => s.step twoSlotCap action)) RingState.new filledAndEmptied).map
        (fun s => (s.producer.pc, s.producer.cachedTail, s.shared.head.current, s.queued,
          (s.atRest.trySendBulk twoSlotCap [9, 8, 7]).map fun sent => (sent.1, sent.2.1))) =
            some (.idle, 0, 2, 0, some (2, [9])) := by
    rfl
  obtain ⟨s, ran, seen⟩ := Option.map_eq_some_iff.mp ran
  obtain ⟨idle, copy, head, queued, sent⟩ := by simpa only [Prod.mk.injEq] using seen
  have reached : (RingState.withinCache twoSlotCap).Reachable s :=
    Transition.System.reachable_of_guarded_execute rfl ran
  exact ⟨s, reached, idle, copy, head, queued, sent, bulk_isSingles.1 twoSlotCap s reached⟩

/-- The only slot is filled, the callback of the drain panics at the item, and the next
receive takes the old copy of `head` for an item and moves `tail` past `head`. -/
def panicAndReceive : List (RingAction Nat) :=
  [RingAction.producer (.trySend 7)] ++ List.replicate 4 (RingAction.producer (.tick 0)) ++
    [RingAction.consumer .drain, .consumer (.tick 1), .consumer (.tick 0), .consumer .panic,
      .consumer (.tick 0), .consumer (.tick 0)] ++
    [RingAction.consumer .tryRecv] ++ List.replicate 4 (RingAction.consumer (.tick 0))

/-- The ring is empty, and the bulk send finds it full. -/
theorem bulk_findsFull_panicAndReceive :
    ∃ s : RingState Nat, (RingState.system oneSlotCap).Reachable s ∧ s.producer.pc = .idle ∧
      s.consumer.pc = .idle ∧ s.queued = 0 ∧ ¬ s.BulkIsSingles oneSlotCap := by
  have ran : (Transition.execute (fun s action => s.step oneSlotCap action) RingState.new
      panicAndReceive).map (fun s => (s.producer.pc, s.consumer.pc, s.queued,
        (s.atRest.trySendBulk oneSlotCap [8]).map fun sent => sent.1)) =
          some (.idle, .idle, 0, some 0) := by
    rfl
  obtain ⟨s, ran, seen⟩ := Option.map_eq_some_iff.mp ran
  obtain ⟨producer, consumer, queued, sent⟩ := by simpa only [Prod.mk.injEq] using seen
  refine ⟨s, Transition.System.reachable_of_execute rfl ran, producer, consumer, queued, ?_⟩
  intro singles
  obtain ⟨count, after, single, block⟩ := singles [8]
  rw [block.ran, Option.map_some, Option.some.injEq] at sent
  rcases block.nothing sent with nothing | noRoom
  · cases nothing
  · rw [queued] at noRoom
    cases noRoom

end ArbitroKit
