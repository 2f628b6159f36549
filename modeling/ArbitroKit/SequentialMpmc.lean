import ArbitroKit.Channel
import ArbitroKit.CyclicQueue

/-!
# The sharded channel, one operation after the other

`route/mpmc.rs` when operations do not overlap: every load reads the current value, and
a `wake` wakes nobody.  Nothing is kept beside the cursors but the shard at which each
producer's next send starts.
-/

namespace ArbitroKit

open Cyclic

/-- `PRing`; a slot is empty before it is written and when its item has been moved out. -/
structure SeqPRing (α : Type*) where
  head : Usize
  tail : Usize
  slots : Nat → Option α

/-- `MpmcInner` and the producers' `cursor`s; the ring of producer `p` on shard `s` is
`shards s p`. -/
structure SeqMpmc (α : Type*) where
  shards : Nat → Nat → SeqPRing α
  shutdown : Bool
  liveProducers : Nat
  liveConsumers : Nat
  m : Nat
  n : Nat
  cursors : Nat → Nat

namespace SeqPRing

variable {α : Type*}

def new : SeqPRing α := ⟨0, 0, fun _ => none⟩

/-- `PRing::is_full`. -/
def isFull (cap : Cap) (h t : Usize) : Bool := decide (cap.size ≤ (h - t).toNat)

/-- The slot write and the store of `head`. -/
def put (cap : Cap) (ring : SeqPRing α) (value : α) : SeqPRing α :=
  { ring with
    slots := Function.update ring.slots (cap.slot ring.head) (some value)
    head := ring.head + 1 }

/-- The slot writes of `try_send_batch` from cursor `h` on: the cursor and the slots. -/
def writeFrom (cap : Cap) : List α → Usize → (Nat → Option α) → Usize × (Nat → Option α)
  | [], h, slots => (h, slots)
  | value :: rest, h, slots =>
      writeFrom cap rest (h + 1) (Function.update slots (cap.slot h) (some value))

/-- The slot writes, and the store of `head`. -/
def putAll (cap : Cap) (ring : SeqPRing α) (items : List α) : SeqPRing α :=
  let (h, slots) := writeFrom cap items ring.head ring.slots
  { ring with head := h, slots := slots }

/-- `assume_init_read` of the slot of `tail`, and the store of `tail`. -/
def take (cap : Cap) (ring : SeqPRing α) : Option (α × SeqPRing α) :=
  (ring.slots (cap.slot ring.tail)).map fun value =>
    (value,
      { ring with
        slots := Function.update ring.slots (cap.slot ring.tail) none
        tail := ring.tail + 1 })

/-- The loop of `drain_all` over one ring: the items in the order of the callback's calls;
the guard stores `tail`. -/
def drain (cap : Cap) (ring : SeqPRing α) : Option (List α × SeqPRing α) :=
  (drainFrom cap ring.head ring.tail ring.slots).map fun (items, slots) =>
    (items, { ring with slots := slots, tail := ring.head })

end SeqPRing

namespace SeqMpmc

variable {α : Type*}

/-- `Mpmc::new`. -/
def new (m n : Nat) : SeqMpmc α where
  shards _ _ := .new
  shutdown := false
  liveProducers := m
  liveConsumers := n
  m := m
  n := n
  cursors p := (p % n) % 2 ^ 32

def setRing (c : SeqMpmc α) (s p : Nat) (ring : SeqPRing α) : SeqMpmc α :=
  { c with shards := Function.update c.shards s (Function.update (c.shards s) p ring) }

def isTerminalForConsumer (c : SeqMpmc α) : Bool :=
  c.shutdown || decide (c.liveProducers = 0)

def isTerminalForProducer (c : SeqMpmc α) : Bool :=
  c.shutdown || decide (c.liveConsumers = 0)

/-- The scan of `MpmcProducer::try_send` from shard `start`, at these offsets. -/
def trySendFrom (cap : Cap) (c : SeqMpmc α) (p : Nat) (value : α) (start : Nat) :
    List Nat → Except α Unit × SeqMpmc α
  | [] => (.error value, c)
  | k :: rest =>
      let s := (start + k) % c.n
      let ring := c.shards s p
      if SeqPRing.isFull cap ring.head ring.tail then
        c.trySendFrom cap p value start rest
      else
        let c := c.setRing s p (ring.put cap value)
        (.ok (), { c with cursors := Function.update c.cursors p (((s + 1) % c.n) % 2 ^ 32) })

def trySend (cap : Cap) (c : SeqMpmc α) (p : Nat) (value : α) : Except α Unit × SeqMpmc α :=
  if c.isTerminalForProducer then
    (.error value, c)
  else
    c.trySendFrom cap p value (c.cursors p % c.n) (List.range c.n)

/-- `MpmcProducer::has_idle_shard`. -/
def hasIdleShard (cap : Cap) (c : SeqMpmc α) (p : Nat) : Bool :=
  (List.range c.n).any fun s => !SeqPRing.isFull cap (c.shards s p).head (c.shards s p).tail

/-- `MpmcProducer::available_in_shard`. -/
def availableInShard (cap : Cap) (c : SeqMpmc α) (p s : Nat) : Usize :=
  BitVec.ofNat 64 (cap.size - ((c.shards s p).head - (c.shards s p).tail).toNat)

/-- `MpmcProducer::pending_in_shard`. -/
def pendingInShard (c : SeqMpmc α) (p s : Nat) : Usize :=
  (c.shards s p).head - (c.shards s p).tail

/-- `MpmcProducer::pending`. -/
def producerPending (c : SeqMpmc α) (p : Nat) : Usize :=
  (List.range c.n).foldl (fun total s => total + ((c.shards s p).head - (c.shards s p).tail)) 0

/-- `MpmcProducer::available`. -/
def producerAvailable (cap : Cap) (c : SeqMpmc α) (p : Nat) : Usize :=
  (List.range c.n).foldl (fun total s =>
    total + BitVec.ofNat 64 (cap.size - ((c.shards s p).head - (c.shards s p).tail).toNat)) 0

/-- The scan of `MpmcProducer::try_send_batch` from shard `start`, at these offsets: how
many items it took, and what is left of the vector. -/
def trySendBatchFrom (cap : Cap) (c : SeqMpmc α) (p : Nat) (items : List α) (start : Nat) :
    List Nat → Nat × List α × SeqMpmc α
  | [] => (0, items, c)
  | k :: rest =>
      let s := (start + k) % c.n
      let ring := c.shards s p
      let used := (ring.head - ring.tail).toNat
      if cap.size ≤ used then
        c.trySendBatchFrom cap p items start rest
      else
        let take := min items.length (cap.size - used)
        let c := c.setRing s p (ring.putAll cap (items.take take))
        (take, items.drop take,
          { c with cursors := Function.update c.cursors p (((s + 1) % c.n) % 2 ^ 32) })

def trySendBatch (cap : Cap) (c : SeqMpmc α) (p : Nat) (items : List α) :
    Nat × List α × SeqMpmc α :=
  if items.isEmpty then
    (0, items, c)
  else
    c.trySendBatchFrom cap p items (c.cursors p % c.n) (List.range c.n)

/-- `Drop for MpmcProducer`. -/
def dropProducer (c : SeqMpmc α) : SeqMpmc α :=
  { c with liveProducers := c.liveProducers - 1 }

/-- `MpmcShutdown::signal`. -/
def signal (c : SeqMpmc α) : SeqMpmc α := { c with shutdown := true }

/-- `MpmcConsumer::pending`. -/
def consumerPending (c : SeqMpmc α) (s : Nat) : Usize :=
  (List.range c.m).foldl (fun total p => total + ((c.shards s p).head - (c.shards s p).tail)) 0

/-- `MpmcConsumer::available`. -/
def consumerAvailable (cap : Cap) (c : SeqMpmc α) (s : Nat) : Usize :=
  (List.range c.m).foldl (fun total p =>
    total + BitVec.ofNat 64 (cap.size - ((c.shards s p).head - (c.shards s p).tail).toNat)) 0

/-- `MpmcConsumer::pending_from`. -/
def pendingFrom (c : SeqMpmc α) (s p : Nat) : Usize :=
  (c.shards s p).head - (c.shards s p).tail

/-- `any_ring_has_work`, which is `MpmcConsumer::has_pending` too. -/
def anyRingHasWork (c : SeqMpmc α) (s : Nat) : Bool :=
  (List.range c.m).any fun p => decide ((c.shards s p).head ≠ (c.shards s p).tail)

/-- The scan of `MpmcConsumer::try_recv` over these rings. -/
def tryRecv (cap : Cap) (c : SeqMpmc α) (s : Nat) : List Nat → Option (Option α × SeqMpmc α)
  | [] => some (none, c)
  | p :: rest =>
      let ring := c.shards s p
      if ring.tail = ring.head then
        c.tryRecv cap s rest
      else
        (ring.take cap).map fun (value, ring) => (some value, c.setRing s p ring)

/-- One pass of `drain_all` over these rings: the items, `count`, `progress`. -/
def pass (cap : Cap) (c : SeqMpmc α) (s count : Nat) (progress : Bool) :
    List Nat → Option (List α × Nat × Bool × SeqMpmc α)
  | [] => some ([], count, progress, c)
  | p :: rest =>
      let ring := c.shards s p
      if ring.tail = ring.head then
        c.pass cap s count progress rest
      else
        match ring.drain cap with
        | none => none
        | some (items, ring) =>
            ((c.setRing s p ring).pass cap s (count + items.length) true rest).map
              fun (later, passed) => (items ++ later, passed)

/-- `drain_all`, at most `fuel` passes: the count and the items. -/
def drainAll (cap : Cap) (s : Nat) : Nat → SeqMpmc α → Nat → Option (Nat × List α × SeqMpmc α)
  | 0, _, _ => none
  | fuel + 1, c, count =>
      match c.pass cap s count false (List.range c.m) with
      | none => none
      | some (items, count, progress, c) =>
          if progress then
            (drainAll cap s fuel c count).map fun (count, later, c) => (count, items ++ later, c)
          else
            some (count, items, c)

/-- An empty-handed turn of `recv` or `recv_batch`: the check, then the predicate of
`wait_until`. -/
def emptyHanded (c : SeqMpmc α) (s : Nat) {β : Type*} : Decision β :=
  if c.isTerminalForConsumer then .shutdown
  else if c.anyRingHasWork s || c.isTerminalForConsumer then .again
  else .park

def recv (cap : Cap) (c : SeqMpmc α) (s : Nat) : Option (Decision α × SeqMpmc α) :=
  (c.tryRecv cap s (List.range c.m)).map fun (received, c) =>
    match received with
    | some value => (.deliver value, c)
    | none => (c.emptyHanded s, c)

def recvBatch (cap : Cap) (fuel : Nat) (c : SeqMpmc α) (s : Nat) :
    Option (Decision (Nat × List α) × SeqMpmc α) :=
  (drainAll cap s fuel c 0).map fun (count, items, c) =>
    if 0 < count then (.deliver (count, items), c) else (c.emptyHanded s, c)

/-- An operation; those of the consumer are the one of shard 0. -/
def step (cap : Cap) (fuel : Nat) (c : SeqMpmc α) :
    ChannelOp α → Option (ChannelResult α × SeqMpmc α)
  | .trySend p value =>
      let (result, c) := c.trySend cap p value
      some (.trySend result, c)
  | .tryRecv => (c.tryRecv cap 0 (List.range c.m)).map fun (received, c) => (.tryRecv received, c)
  | .tryRecvBatch =>
      (drainAll cap 0 fuel c 0).map fun (count, items, c) => (.tryRecvBatch count items, c)
  | .recv => (c.recv cap 0).map fun (decision, c) => (.recv decision, c)
  | .recvBatch => (c.recvBatch cap fuel 0).map fun (decision, c) => (.recvBatch decision, c)
  | .dropProducer _ => some (.done, c.dropProducer)
  | .signal => some (.done, c.signal)
  | .producerPending p => some (.count (c.producerPending p), c)
  | .producerAvailable p => some (.count (c.producerAvailable cap p), c)
  | .consumerPending => some (.count (c.consumerPending 0), c)

end SeqMpmc

end ArbitroKit
