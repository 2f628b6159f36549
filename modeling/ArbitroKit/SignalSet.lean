import ArbitroKit.TransitionSystem
import ArbitroKit.Waiter
import ArbitroKit.WordBits
import Mathlib.Logic.Function.Basic

/-!
# The signal set

`gate/signal_set.rs`: a bitmap of gates in 64-bit chunks, opened and closed by any
number of threads, and one consumer that waits for a combination of gates.  A step
is one atomic operation on a chunk, or one `wake`.  A thread that indexes a chunk
that is not there panics before it has touched anything, so it has no such step.
-/

namespace ArbitroKit

open WordBits Transition

abbrev Word := BitVec 64

/-- `SignalId`: a `u8`. -/
abbrev SignalId := BitVec 8

def chunkOf (id : SignalId) : Nat := id.toNat / 64

/-- `1u64 << (id % 64)`. -/
def bitOf (id : SignalId) : Word := bit 64 (id.toNat % 64)

structure SignalSet where
  chunks : List Word
  waiter : Waiter

namespace SignalSet

/-- `SignalSet::with_capacity`. -/
def withCapacity (nBits : Nat) : SignalSet where
  chunks := List.replicate ((max nBits 1 + 63) / 64) 0
  waiter := Waiter.new

/-- The old word of the chunk, and the set with `bits` or-ed into it. -/
def fetchOr (set : SignalSet) (chunk : Nat) (bits : Word) : Option (Word × SignalSet) :=
  set.chunks[chunk]?.map fun prev =>
    (prev, { set with chunks := set.chunks.set chunk (prev ||| bits) })

def fetchAnd (set : SignalSet) (chunk : Nat) (bits : Word) : Option (Word × SignalSet) :=
  set.chunks[chunk]?.map fun prev =>
    (prev, { set with chunks := set.chunks.set chunk (prev &&& bits) })

/-- `lock`. -/
def lock (set : SignalSet) (id : SignalId) : Option SignalSet :=
  (set.fetchAnd (chunkOf id) (~~~(bitOf id))).map Prod.snd

/-- `lock_chunk_mask`. -/
def lockChunkMask (set : SignalSet) (chunk : Nat) (mask : Word) : Option SignalSet :=
  (set.fetchAnd chunk (~~~mask)).map Prod.snd

/-- `lock_mask`. -/
def lockMask (set : SignalSet) (mask : Word) : Option SignalSet :=
  set.lockChunkMask 0 mask

end SignalSet

/-- The `acquire` methods with their arguments. -/
inductive Acquire where
  | any (mask : Word)
  | all (mask : Word)
  | first
  | anyChunk
  deriving DecidableEq, Repr

namespace Acquire

/-- What the predicate of the call asks of a chunk it loads. -/
def sees : Acquire → Word → Bool
  | .any mask, word => word &&& mask != 0
  | .all mask, word => word &&& mask == mask
  | .first, word => word != 0
  | .anyChunk, word => word != 0

/-- How many chunks, from the first one on, the predicate of the call loads. -/
def scanned (chunks : Nat) : Acquire → Nat
  | .anyChunk => chunks
  | _ => 1

end Acquire

/-- Where a thread that opens and closes gates stands; `prev` is what the `fetch_or`
of its `release` returned. -/
inductive GateThread where
  | idle
  | releaseWake (id : SignalId) (prev : Word)
  deriving DecidableEq, Repr

/-- Where the consumer stands.  The predicate of its call is evaluated chunk by chunk,
and `true` as soon as one chunk says so. -/
inductive AcquirePc where
  | idle
  | test (phase : WaitPhase) (call : Acquire) (chunk : Nat)
  | announce (call : Acquire)
  | park (call : Acquire)
  | leave (call : Acquire)
  deriving DecidableEq, Repr

structure GateState (ι : Type*) where
  set : SignalSet
  threads : ι → GateThread
  consumer : AcquirePc

inductive ThreadAction where
  | release (id : SignalId)
  | lock (id : SignalId)
  | lockMask (mask : Word)
  | lockChunkMask (chunk : Nat) (mask : Word)
  | tick

/-- `spin` evaluates the predicate once more before the announcement, `spurious` is a
sleep that returns without a wake. -/
inductive AcquireAction where
  | call (call : Acquire)
  | tick
  | spin
  | spurious

inductive GateAction (ι : Type*) where
  | thread (thread : ι) (action : ThreadAction)
  | consumer (action : AcquireAction)

namespace GateState

variable {ι : Type*}

/-- A fresh set of the given capacity. -/
def new (nBits : Nat) : GateState ι where
  set := .withCapacity nBits
  threads _ := .idle
  consumer := .idle

def consumerAt (s : GateState ι) (pc : AcquirePc) : GateState ι := { s with consumer := pc }

/-- The predicate came out. -/
def waited (phase : WaitPhase) (call : Acquire) (ready : Bool) : AcquirePc :=
  match phase, ready with
  | .entry, true => .idle
  | .announced, true => .leave call
  | .entry, false => .announce call
  | .announced, false => .park call

/-- The next step of the running `acquire`. -/
def consumerTick (s : GateState ι) : Option (GateState ι) :=
  match s.consumer with
  | .idle => none
  | .test phase call chunk =>
      match s.set.chunks[chunk]? with
      | none => none
      | some word =>
          if call.sees word then
            some (s.consumerAt (waited phase call true))
          else if chunk + 1 < call.scanned s.set.chunks.length then
            some (s.consumerAt (.test phase call (chunk + 1)))
          else
            some (s.consumerAt (waited phase call false))
  | .announce call =>
      some ({ s with set := { s.set with waiter := s.set.waiter.announce } }.consumerAt
        (.test .announced call 0))
  | .park call =>
      if s.set.waiter.token then
        some ({ s with set := { s.set with waiter := s.set.waiter.consume } }.consumerAt
          (.test .announced call 0))
      else
        none
  | .leave _ =>
      some ({ s with set := { s.set with waiter := s.set.waiter.leave } }.consumerAt .idle)

def consumerStep (s : GateState ι) : AcquireAction → Option (GateState ι)
  | .tick => s.consumerTick
  | .call call =>
      match s.consumer with
      | .idle => some (s.consumerAt (.test .entry call 0))
      | _ => none
  | .spin =>
      match s.consumer with
      | .announce call => some (s.consumerAt (.test .entry call 0))
      | _ => none
  | .spurious =>
      match s.consumer with
      | .park call => some (s.consumerAt (.test .announced call 0))
      | _ => none

/-- The predicate of the call is true of this chunk of the current bitmap. -/
def TrueAt (s : GateState ι) (call : Acquire) (chunk : Nat) : Prop :=
  chunk < call.scanned s.set.chunks.length ∧
    ∃ word, s.set.chunks[chunk]? = some word ∧ call.sees word = true

/-- The predicate of the call is true of the current bitmap. -/
def Holds (s : GateState ι) (call : Acquire) : Prop :=
  ∃ chunk, s.TrueAt call chunk

/-- A thread has not finished the wake of a `release` whose `fetch_or` made the
predicate true of this chunk. -/
def Releasing (s : GateState ι) (call : Acquire) (chunk : Nat) : Prop :=
  ∃ thread id prev, s.threads thread = .releaseWake id prev ∧ chunkOf id = chunk ∧
    call.sees prev = false ∧ call.sees (prev ||| bitOf id) = true

variable [DecidableEq ι]

def threadAt (s : GateState ι) (thread : ι) (pc : GateThread) : GateState ι :=
  { s with threads := Function.update s.threads thread pc }

/-- `release` up to its decision: only a bit that flips from 0 to 1 wakes. -/
def release (s : GateState ι) (thread : ι) (id : SignalId) : Option (GateState ι) :=
  (s.set.fetchOr (chunkOf id) (bitOf id)).map fun (prev, set) =>
    if prev &&& bitOf id = 0 then
      { s with set := set }.threadAt thread (.releaseWake id prev)
    else
      { s with set := set }

def threadStep (s : GateState ι) (thread : ι) : ThreadAction → Option (GateState ι)
  | .tick =>
      match s.threads thread with
      | .idle => none
      | .releaseWake _ _ =>
          some ({ s with set := { s.set with waiter := s.set.waiter.wake } }.threadAt
            thread .idle)
  | .release id =>
      match s.threads thread with
      | .idle => s.release thread id
      | _ => none
  | .lock id =>
      match s.threads thread with
      | .idle => (s.set.lock id).map fun set => { s with set := set }
      | _ => none
  | .lockMask mask =>
      match s.threads thread with
      | .idle => (s.set.lockMask mask).map fun set => { s with set := set }
      | _ => none
  | .lockChunkMask chunk mask =>
      match s.threads thread with
      | .idle => (s.set.lockChunkMask chunk mask).map fun set => { s with set := set }
      | _ => none

def step (s : GateState ι) : GateAction ι → Option (GateState ι)
  | .thread thread action => s.threadStep thread action
  | .consumer action => s.consumerStep action

/-- Every interleaving of the threads and the consumer on a set of the given capacity.
What the consumer itself does to gates between two calls is another thread's doing. -/
def system (nBits : Nat) : System (GateState ι) (GateAction ι) :=
  System.ofFunction (fun s => s = new nBits) step

end GateState

end ArbitroKit
