import ArbitroKit.Mpsc
import ArbitroKit.WordBits

/-!
# The producer pool

`MpscProducerPool` of `route/mpsc.rs`: a bitmap of leased slots over four words, and a
cell for each slot that holds the producer while it is not leased.  A step of a thread is
one load, one `fetch_or` or `fetch_and`, or one access to a cell.
-/

namespace ArbitroKit

open WordBits Transition

/-- `BITMAP_WORDS`. -/
def bitmapWords : Nat := 4

/-- The shared part of the pool; `P` are the producer handles. -/
structure MpscProducerPool (P : Type*) where
  slots : Nat → Option P
  occupancy : Nat → BitVec 64

/-- `MpscProducerLease`. -/
structure MpscProducerLease (P : Type*) where
  slot : Nat
  producer : P

/-- Where a thread stands in `acquire` or in the drop of a lease. -/
inductive PoolPc (P : Type*) where
  | idle
  | load (word : Nat)
  | fetchOr (word bit : Nat)
  | take (slot : Nat)
  -- `take().unwrap()` on an empty cell
  | unwrapFailed
  | returned (result : Option (MpscProducerLease P))
  | restore (lease : MpscProducerLease P)
  | clear (slot : Nat)

/-- The pool, the live leases that no running call works on, and the threads. -/
structure PoolState (P ι : Type*) where
  pool : MpscProducerPool P
  leases : List (MpscProducerLease P)
  threads : ι → PoolPc P

inductive PoolAction (ι : Type*) where
  | acquire (thread : ι)
  /-- The thread drops the live lease at this place of the list. -/
  | dropLease (thread : ι) (lease : Nat)
  | tick (thread : ι)

namespace MpscProducerPool

variable {P : Type*}

/-- `live_bits` of a word. -/
def liveBits (m word : Nat) : Nat := min ((word + 1) * 64) m - word * 64

/-- The bits of a word that stand for slots. -/
def liveMask (m word : Nat) : BitVec 64 := lowMask 64 (liveBits m word)

/-- The loop of `available` over the words that are left. -/
def availableFrom (pool : MpscProducerPool P) (m : Nat) : Nat → Nat → Nat
  | 0, _ => 0
  | left + 1, word =>
      if m ≤ word * 64 then 0
      else
        countOnes (~~~(pool.occupancy word) &&& liveMask m word) +
          pool.availableFrom m left (word + 1)

/-- `available`. -/
def available (pool : MpscProducerPool P) (m : Nat) : Nat :=
  pool.availableFrom m bitmapWords 0

/-- The slot's bit in the bitmap. -/
def occupied (pool : MpscProducerPool P) (slot : Nat) : Bool :=
  (pool.occupancy (slot / 64)).getLsbD (slot % 64)

def setSlot (pool : MpscProducerPool P) (slot : Nat) (cell : Option P) :
    MpscProducerPool P :=
  { pool with slots := Function.update pool.slots slot cell }

def setWord (pool : MpscProducerPool P) (word : Nat) (bits : BitVec 64) :
    MpscProducerPool P :=
  { pool with occupancy := Function.update pool.occupancy word bits }

end MpscProducerPool

namespace PoolState

variable {P ι : Type*}

/-- `pool_from_producers`. -/
def new (size : MpscSize) (producer : Nat → P) : PoolState P ι where
  pool :=
    { slots := fun slot => if slot < size.m then some (producer slot) else none
      occupancy := fun _ => 0 }
  leases := []
  threads _ := .idle

/-- The head of `acquire`'s loop over the words. -/
def enterWord (size : MpscSize) (word : Nat) : PoolPc P :=
  if word < bitmapWords ∧ word * 64 < size.m then .load word else .returned none

variable [DecidableEq ι]

def threadAt (s : PoolState P ι) (thread : ι) (pc : PoolPc P) : PoolState P ι :=
  { s with threads := Function.update s.threads thread pc }

/-- The next step of a thread's call. -/
def tick (size : MpscSize) (s : PoolState P ι) (thread : ι) : Option (PoolState P ι) :=
  match s.threads thread with
  | .idle => none
  | .load word =>
      let free := ~~~(s.pool.occupancy word) &&& MpscProducerPool.liveMask size.m word
      if free = 0 then some (s.threadAt thread (enterWord size (word + 1)))
      else some (s.threadAt thread (.fetchOr word (trailingZeros free)))
  | .fetchOr word index =>
      let prev := s.pool.occupancy word
      let s := { s with pool := s.pool.setWord word (prev ||| bit 64 index) }
      if prev &&& bit 64 index = 0 then some (s.threadAt thread (.take (word * 64 + index)))
      else some (s.threadAt thread (.load word))
  | .take slot =>
      match s.pool.slots slot with
      | some producer =>
          some ({ s with pool := s.pool.setSlot slot none }.threadAt thread
            (.returned (some ⟨slot, producer⟩)))
      | none => some (s.threadAt thread .unwrapFailed)
  | .unwrapFailed => none
  | .returned result =>
      some ({ s with leases := s.leases ++ result.toList }.threadAt thread .idle)
  | .restore lease =>
      some ({ s with pool := s.pool.setSlot lease.slot (some lease.producer) }.threadAt thread
        (.clear lease.slot))
  | .clear slot =>
      let word := s.pool.occupancy (slot / 64) &&& ~~~(bit 64 (slot % 64))
      some ({ s with pool := s.pool.setWord (slot / 64) word }.threadAt thread .idle)

def step (size : MpscSize) (s : PoolState P ι) : PoolAction ι → Option (PoolState P ι)
  | .tick thread => s.tick size thread
  | .acquire thread =>
      match s.threads thread with
      | .idle => some (s.threadAt thread (enterWord size 0))
      | _ => none
  | .dropLease thread lease =>
      match s.threads thread with
      | .idle =>
          s.leases[lease]?.map fun dropped =>
            { s with leases := s.leases.eraseIdx lease }.threadAt thread (.restore dropped)
      | _ => none

/-- Every interleaving of the threads on a pool of the given producers. -/
def system (size : MpscSize) (producer : Nat → P) :
    System (PoolState P ι) (PoolAction ι) :=
  System.ofFunction (fun s => s = new size producer) (step size)

end PoolState

end ArbitroKit
