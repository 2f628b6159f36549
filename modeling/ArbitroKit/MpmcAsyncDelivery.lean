import ArbitroKit.MpmcAsyncRuns
import ArbitroKit.MpmcDelivery

/-!
# Exactly-once delivery between tasks

Every item a task has accepted sits in one slot of the ring it was put into, or was handed
out of that ring once and in order, whatever was dropped on the way and however stale the
loads were.
-/

namespace ArbitroKit

open Coherent SlotLane Cyclic Transition

namespace TaskRing

variable {α : Type*} {cap : Cap} {ring : TaskRing α}

/-- The values owned by the slots from `tail` up to `head`, in order. -/
def inRing (cap : Cap) (ring : TaskRing α) : List α :=
  (List.range (ring.head.current - ring.tail.current).toNat).filterMap fun offset =>
    (ring.lane.cells (cap.slot (ring.tail.current + BitVec.ofNat 64 offset))).owned

/-- `head - tail`, of the newest cursors. -/
def occupancy (ring : TaskRing α) : Nat :=
  (ring.head.current - ring.tail.current).toNat

variable {shard p : Nat} {sender : MpmcSenderPc α} {receiver : MpmcReceiverPc α}
  {accepted delivered : List α}

theorem LinkOk.occupancy_eq
    (link : LinkOk cap shard p ring sender receiver accepted delivered) :
    ring.occupancy = ring.lane.published - ring.lane.released := by
  have near := link.near
  have small := cap.size_lt
  rw [occupancy, link.ok.head, link.ok.tail]
  exact toNat_sub_ofNat (by omega) (by omega)

theorem LinkOk.occupancy_le
    (link : LinkOk cap shard p ring sender receiver accepted delivered) :
    ring.occupancy ≤ cap.size := by
  have near := link.near
  have length := link.occupancy_eq
  omega

/-- The slots between the cursors own the values published and not yet read. -/
theorem LinkOk.inRing_eq
    (link : LinkOk cap shard p ring sender receiver accepted delivered) :
    ring.inRing cap = ring.lane.sent.drop ring.lane.received.length := by
  have occupancy : (ring.head.current - ring.tail.current).toNat =
      ring.lane.published - ring.lane.released := link.occupancy_eq
  rw [← link.ok.sound.ownedFrom_released, inRing, occupancy, link.ok.tail]
  simp only [← BitVec.ofNat_add, Capacity.slot_ofNat]
  rfl

/-- Published is what was handed out, what is in the consumer's hand, and what is in the ring. -/
theorem LinkOk.conserved
    (link : LinkOk cap shard p ring sender receiver accepted delivered) :
    accepted ++ sender.unreported shard =
      delivered ++ receiver.inHand p ++ ring.inRing cap := by
  rw [← link.sent, ← link.received, link.inRing_eq]
  exact link.ok.sound.received_append.symm

end TaskRing

namespace AsyncMpmc

open TaskRing

variable {α : Type*} {size : MpmcSize} {s : AsyncMpmc α}

/-- What has become of the items of producer `p` in the shard. -/
structure ExactlyOnce (size : MpmcSize) (s : AsyncMpmc α) (shard p : Nat) : Prop where
  conserved : s.accepted shard p ++ (s.senders p).pc.unreported shard =
    s.delivered shard p ++ (s.receivers shard).pc.inHand p ++
      (s.rings shard p).inRing size.ringCap
  bounded : (s.rings shard p).occupancy ≤ size.ringCap.size
  /-- No slot was read without a value in it or written over one. -/
  notMisread : (s.rings shard p).lane.misread = false
  notOverwrote : (s.rings shard p).lane.overwrote = false
  defined : (s.receivers shard).pc ≠ .undefined

/-- In every state of every run, whatever was dropped on the way. -/
theorem tasks_exactlyOnce (reached : (system size).Reachable s) {shard p : Nat}
    (insideShard : shard < size.n) (inside : p < size.m) : ExactlyOnce size s shard p := by
  have link := (ok_of_reachable reached).links shard insideShard p inside
  constructor
  · exact link.conserved
  · exact link.occupancy_le
  · exact link.ok.sound.not_misread
  · exact link.ok.sound.not_overwrote
  · intro undefined
    obtain ⟨known, -, -, place⟩ := link.reads
    rw [undefined] at place
    exact place

/-- A `send_async` is taken by the first shard and a `try_send_batch` by the second; the next
`send_async` is dropped in its sleep, and a drain has read the first item. -/
def sleepThenDrop : List (AsyncMpmcAction Nat) :=
  [AsyncMpmcAction.sender 0 (.sendAsync 7)] ++
    List.replicate 11 (AsyncMpmcAction.sender 0 (.tick 0 false)) ++
    [AsyncMpmcAction.sender 0 (.trySendBatch [8, 9])] ++
    List.replicate 6 (AsyncMpmcAction.sender 0 (.tick 0 false)) ++
    [AsyncMpmcAction.sender 0 (.sendAsync 10)] ++
    List.replicate 17 (AsyncMpmcAction.sender 0 (.tick 0 false)) ++
    [AsyncMpmcAction.sender 0 .cancel] ++
    List.replicate 2 (AsyncMpmcAction.sender 0 (.tick 0 false)) ++
    [AsyncMpmcAction.receiver 0 .tryRecvBatch] ++
    List.replicate 2 (AsyncMpmcAction.receiver 0 (.tick 1 false))

theorem tasks_exactlyOnce_sleepThenDrop :
    ∃ s, Transition.execute (fun s action => s.step MpmcState.twoShards action)
        (new MpmcState.twoShards : AsyncMpmc Nat) sleepThenDrop = some s ∧
      (s.accepted 0 0 = [7] ∧ (s.receivers 0).pc.inHand 0 = [7] ∧ s.accepted 1 0 = [8]) ∧
      ExactlyOnce MpmcState.twoShards s 0 0 ∧ ExactlyOnce MpmcState.twoShards s 1 0 := by
  have ran : (Transition.execute (fun s action => s.step MpmcState.twoShards action)
      (new MpmcState.twoShards : AsyncMpmc Nat) sleepThenDrop).map
        (fun s => (s.accepted 0 0, (s.receivers 0).pc.inHand 0, s.accepted 1 0)) =
      some ([7], [7], [8]) := by
    rfl
  obtain ⟨s, ran, outcome⟩ := Option.map_eq_some_iff.mp ran
  simp only [Prod.mk.injEq] at outcome
  have reached : (system MpmcState.twoShards).Reachable s := System.reachable_of_execute rfl ran
  refine ⟨s, ran, outcome, ?_, ?_⟩
  · exact tasks_exactlyOnce reached Nat.two_pos Nat.one_pos
  · exact tasks_exactlyOnce reached Nat.one_lt_two Nat.one_pos

end AsyncMpmc

end ArbitroKit
