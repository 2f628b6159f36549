import ArbitroKit.Channel
import ArbitroKit.CyclicQueue

/-!
# The many-producer channel, one operation after the other

`route/mpsc.rs` over `stream/ring.rs` when operations do not overlap: every load reads
the current value, and a `wake` wakes nobody.  What each handle keeps to itself stays:
the copies `cached_tail` and `cached_head` are refreshed only where the source does.
A read of a slot that holds no item is undefined, and so is an operation that makes it.
-/

namespace ArbitroKit

open Cyclic

/-- `Ring` with what its two handles keep; a slot is empty before it is written and when
its item has been moved out. -/
structure SeqRing (α : Type*) where
  head : Usize
  tail : Usize
  closed : Bool
  slots : Nat → Option α
  cachedTail : Usize
  cachedHead : Usize

namespace SeqRing

variable {α : Type*}

def new : SeqRing α := ⟨0, 0, false, fun _ => none, 0, 0⟩

def len (ring : SeqRing α) : Usize := ring.head - ring.tail

def isEmpty (ring : SeqRing α) : Bool := decide (ring.len = 0)

/-- The slot write and the store of `head`. -/
def put (cap : Cap) (ring : SeqRing α) (value : α) : SeqRing α :=
  { ring with
    slots := Function.update ring.slots (cap.slot ring.head) (some value)
    head := ring.head + 1 }

/-- `try_send`. -/
def trySend (cap : Cap) (ring : SeqRing α) (value : α) :
    Except (TrySendError α) Unit × SeqRing α :=
  if cap.size ≤ (ring.head - ring.cachedTail).toNat then
    let ring := { ring with cachedTail := ring.tail }
    if cap.size ≤ (ring.head - ring.cachedTail).toNat then
      (.error (if ring.closed then .closed value else .full value), ring)
    else
      (.ok (), ring.put cap value)
  else
    (.ok (), ring.put cap value)

/-- `assume_init_read` of the slot of `tail`, and the store of `tail`. -/
def take (cap : Cap) (ring : SeqRing α) : Option (Except TryRecvError α × SeqRing α) :=
  (ring.slots (cap.slot ring.tail)).map fun value =>
    (.ok value,
      { ring with
        slots := Function.update ring.slots (cap.slot ring.tail) none
        tail := ring.tail + 1 })

/-- `try_recv`. -/
def tryRecv (cap : Cap) (ring : SeqRing α) : Option (Except TryRecvError α × SeqRing α) :=
  if ring.cachedHead = ring.tail then
    let ring := { ring with cachedHead := ring.head }
    if ring.cachedHead = ring.tail then
      if ring.closed then
        let ring := { ring with cachedHead := ring.head }
        if ring.cachedHead = ring.tail then some (.error .closed, ring) else ring.take cap
      else
        some (.error .empty, ring)
    else
      ring.take cap
  else
    ring.take cap

/-- `drain`: the count, the items in the order of the callback's calls, and the ring. -/
def drain (cap : Cap) (ring : SeqRing α) : Option (Nat × List α × SeqRing α) :=
  let start := ring.tail
  let head := ring.head
  if start = head then
    some (0, [], ring)
  else
    (drainFrom cap head start ring.slots).map fun (items, slots) =>
      ((head - start).toNat, items, { ring with slots := slots, tail := head, cachedHead := head })

/-- `close`, from the drop of the producer's handle. -/
def close (ring : SeqRing α) : SeqRing α := { ring with closed := true }

end SeqRing

/-- `Inner` and the rings with their handles. -/
structure SeqMpsc (α : Type*) where
  rings : Nat → SeqRing α
  liveProducers : Nat
  shutdown : Bool

namespace SeqMpsc

variable {α : Type*}

/-- `Mpsc::new`. -/
def new (m : Nat) : SeqMpsc α := ⟨fun _ => .new, m, false⟩

def setRing (s : SeqMpsc α) (p : Nat) (ring : SeqRing α) : SeqMpsc α :=
  { s with rings := Function.update s.rings p ring }

/-- `MpscProducer::try_send`. -/
def trySend (cap : Cap) (s : SeqMpsc α) (p : Nat) (value : α) : Except α Unit × SeqMpsc α :=
  if s.shutdown then
    (.error value, s)
  else
    match (s.rings p).trySend cap value with
    | (.ok (), ring) => (.ok (), s.setRing p ring)
    | (.error (.full value), ring) => (.error value, s.setRing p ring)
    | (.error (.closed value), ring) => (.error value, s.setRing p ring)

/-- `MpscProducer::pending`. -/
def producerPending (s : SeqMpsc α) (p : Nat) : Usize := (s.rings p).len

/-- `MpscProducer::available`. -/
def producerAvailable (cap : Cap) (s : SeqMpsc α) (p : Nat) : Usize :=
  BitVec.ofNat 64 (cap.size - (s.producerPending p).toNat)

/-- `Drop for MpscProducer`: the ring handle first, then the count. -/
def dropProducer (s : SeqMpsc α) (p : Nat) : SeqMpsc α :=
  { s.setRing p (s.rings p).close with liveProducers := s.liveProducers - 1 }

/-- `MpscShutdown::signal`. -/
def signal (s : SeqMpsc α) : SeqMpsc α := { s with shutdown := true }

/-- `MpscConsumer::pending`. -/
def consumerPending (m : Nat) (s : SeqMpsc α) : Usize :=
  ((List.range m).map fun p => (s.rings p).len).sum

def anyRingHasWork (m : Nat) (s : SeqMpsc α) : Bool :=
  (List.range m).any fun p => !(s.rings p).isEmpty

def isFinished (m : Nat) (s : SeqMpsc α) : Bool :=
  s.shutdown || (decide (s.liveProducers = 0) && !s.anyRingHasWork m)

/-- The scan of `MpscConsumer::try_recv` over these rings. -/
def tryRecv (cap : Cap) (s : SeqMpsc α) : List Nat → Option (Option α × SeqMpsc α)
  | [] => some (none, s)
  | idx :: rest =>
      match (s.rings idx).tryRecv cap with
      | none => none
      | some (.ok value, ring) => some (some value, s.setRing idx ring)
      | some (.error _, ring) => (s.setRing idx ring).tryRecv cap rest

/-- One pass of `try_recv_batch` over these rings: the items, `total`, `progress`. -/
def pass (cap : Cap) (s : SeqMpsc α) (total : Nat) (progress : Bool) :
    List Nat → Option (List α × Nat × Bool × SeqMpsc α)
  | [] => some ([], total, progress, s)
  | idx :: rest =>
      match (s.rings idx).drain cap with
      | none => none
      | some (n, items, ring) =>
          let s := s.setRing idx ring
          let passed :=
            if 0 < n then s.pass cap (total + n) true rest else s.pass cap total progress rest
          passed.map fun (later, passed) => (items ++ later, passed)

/-- `try_recv_batch`, at most `fuel` passes: the count and the items. -/
def tryRecvBatch (cap : Cap) (m : Nat) :
    Nat → SeqMpsc α → Nat → Option (Nat × List α × SeqMpsc α)
  | 0, _, _ => none
  | fuel + 1, s, total =>
      match s.pass cap total false (List.range m) with
      | none => none
      | some (items, total, progress, s) =>
          if progress then
            (tryRecvBatch cap m fuel s total).map fun (total, later, s) =>
              (total, items ++ later, s)
          else
            some (total, items, s)

/-- An empty-handed turn of `recv` or `recv_batch`: the check, then the predicate of
`wait_until`. -/
def emptyHanded (m : Nat) (s : SeqMpsc α) {β : Type*} : Decision β :=
  if s.isFinished m then .shutdown
  else if s.anyRingHasWork m || s.isFinished m then .again
  else .park

def recv (cap : Cap) (m : Nat) (s : SeqMpsc α) : Option (Decision α × SeqMpsc α) :=
  (s.tryRecv cap (List.range m)).map fun (received, s) =>
    match received with
    | some value => (.deliver value, s)
    | none => (s.emptyHanded m, s)

def recvBatch (cap : Cap) (m fuel : Nat) (s : SeqMpsc α) :
    Option (Decision (Nat × List α) × SeqMpsc α) :=
  (tryRecvBatch cap m fuel s 0).map fun (n, items, s) =>
    if 0 < n then (.deliver (n, items), s) else (s.emptyHanded m, s)

def step (cap : Cap) (m fuel : Nat) (s : SeqMpsc α) :
    ChannelOp α → Option (ChannelResult α × SeqMpsc α)
  | .trySend p value =>
      let (result, s) := s.trySend cap p value
      some (.trySend result, s)
  | .tryRecv => (s.tryRecv cap (List.range m)).map fun (received, s) => (.tryRecv received, s)
  | .tryRecvBatch =>
      (tryRecvBatch cap m fuel s 0).map fun (n, items, s) => (.tryRecvBatch n items, s)
  | .recv => (s.recv cap m).map fun (decision, s) => (.recv decision, s)
  | .recvBatch => (s.recvBatch cap m fuel).map fun (decision, s) => (.recvBatch decision, s)
  | .dropProducer p => some (.done, s.dropProducer p)
  | .signal => some (.done, s.signal)
  | .producerPending p => some (.count (s.producerPending p), s)
  | .producerAvailable p => some (.count (s.producerAvailable cap p), s)
  | .consumerPending => some (.count (s.consumerPending m), s)

end SeqMpsc

end ArbitroKit
