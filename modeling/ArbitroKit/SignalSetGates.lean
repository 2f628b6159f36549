import ArbitroKit.ChunkedBits
import ArbitroKit.SignalSet

/-!
# A signal set is a set of gates

`gate/signal_set.rs`, one call after the other: the bitmap stands for the set of the
open gates, whichever way a call addresses them.  A gate is addressed by its id, by a
bit of a mask for chunk 0, or by a bit of a mask for a chunk; each call opens or closes
exactly the gates it addresses, and each query answers what it asks of the set.
-/

namespace ArbitroKit

open WordBits ChunkedBits

namespace SignalSet

/-- `n_chunks`. -/
def nChunks (set : SignalSet) : Nat := set.chunks.length

/-- `capacity_bits`. -/
def capacityBits (set : SignalSet) : Nat := set.chunks.length * 64

/-- `release`, and whether it wakes the consumer. -/
def release (set : SignalSet) (id : SignalId) : Option (Bool × SignalSet) :=
  (set.fetchOr (chunkOf id) (bitOf id)).map fun (prev, set) =>
    if prev &&& bitOf id = 0 then
      (true, { set with waiter := set.waiter.wake })
    else
      (false, set)

/-- `is_open`. -/
def isOpen (set : SignalSet) (id : SignalId) : Option Bool :=
  set.chunks[chunkOf id]?.map fun word => word &&& bitOf id != 0

/-- `any_open`. -/
def anyOpen (set : SignalSet) (mask : Word) : Option Bool :=
  set.chunks[0]?.map fun word => word &&& mask != 0

/-- `all_open`. -/
def allOpen (set : SignalSet) (mask : Word) : Option Bool :=
  set.chunks[0]?.map fun word => word &&& mask == mask

/-- `state_chunk`. -/
def stateChunk (set : SignalSet) (idx : Nat) : Option Word := set.chunks[idx]?

/-- `state`. -/
def state (set : SignalSet) : Option Word := set.stateChunk 0

/-- `any_chunk_open`. -/
def anyChunkOpen (set : SignalSet) : Bool := set.chunks.any fun word => word != 0

/-- The ids of the open gates. -/
def gates (set : SignalSet) : Set Nat := members set.chunks

end SignalSet

/-- The calls that open and close gates. -/
inductive GateCall where
  | release (id : SignalId)
  | lock (id : SignalId)
  | lockMask (mask : Word)
  | lockChunkMask (chunk : Nat) (mask : Word)
  deriving DecidableEq, Repr

namespace GateCall

/-- The id or the chunk of the call lies in a set of `nChunks` chunks. -/
def inRange (nChunks : Nat) : GateCall → Bool
  | .release id => decide (id.toNat < nChunks * 64)
  | .lock id => decide (id.toNat < nChunks * 64)
  | .lockMask _ => true
  | .lockChunkMask chunk _ => decide (chunk < nChunks)

/-- The call on a signal set, and whether it wakes; `none` is the panic of an index out
of range. -/
def run (set : SignalSet) : GateCall → Option (Bool × SignalSet)
  | .release id => set.release id
  | .lock id => (set.lock id).map fun set => (false, set)
  | .lockMask mask => (set.lockMask mask).map fun set => (false, set)
  | .lockChunkMask chunk mask => (set.lockChunkMask chunk mask).map fun set => (false, set)

/-- The gates that the call addresses. -/
def addressed : GateCall → Set Nat
  | .release id => {id.toNat}
  | .lock id => {id.toNat}
  | .lockMask mask => slice 0 mask
  | .lockChunkMask chunk mask => slice chunk mask

/-- What the call is to do to a set of gates. -/
def apply (gates : Set Nat) : GateCall → Set Nat
  | .release id => insert id.toNat gates
  | .lock id => gates \ {id.toNat}
  | .lockMask mask => gates \ slice 0 mask
  | .lockChunkMask chunk mask => gates \ slice chunk mask

/-- When the call is to wake: it opens a gate that was not open. -/
def Wakes (gates : Set Nat) : GateCall → Prop
  | .release id => id.toNat ∉ gates
  | _ => False

/-- The calls in their order. -/
def runAll (set : SignalSet) : List GateCall → Option SignalSet
  | [] => some set
  | call :: calls => (call.run set).bind fun (_, set) => runAll set calls

def applyAll (gates : Set Nat) (calls : List GateCall) : Set Nat := calls.foldl apply gates

end GateCall

namespace SignalSet

variable {set after : SignalSet}

/-- The set answers for these gates: it has `nChunks` chunks, no gate beyond them, and
every query says what the gates say. -/
structure Represents (nChunks : Nat) (set : SignalSet) (gates : Set Nat) : Prop where
  chunks : set.nChunks = nChunks
  capacity : set.capacityBits = nChunks * 64
  below : ∀ id ∈ gates, id < set.capacityBits
  isOpen : ∀ id : SignalId, id.toNat < set.capacityBits →
    ∃ answer, set.isOpen id = some answer ∧ (answer = true ↔ id.toNat ∈ gates)
  anyOpen : ∀ mask, ∃ answer, set.anyOpen mask = some answer ∧
    (answer = true ↔ (gates ∩ slice 0 mask).Nonempty)
  allOpen : ∀ mask, ∃ answer, set.allOpen mask = some answer ∧
    (answer = true ↔ slice 0 mask ⊆ gates)
  state : set.state = set.stateChunk 0
  stateChunk : ∀ chunk < nChunks, ∃ word, set.stateChunk chunk = some word ∧
    ∀ b < 64, word.getLsbD b = true ↔ 64 * chunk + b ∈ gates
  anyChunkOpen : set.anyChunkOpen = true ↔ gates.Nonempty

/-- One call against the set of gates: it wakes as it should, and changes none of the
gates it does not address. -/
structure CallRefines (before : Set Nat) (call : GateCall) (woke : Bool) (after : Set Nat) :
    Prop where
  gates : after = call.apply before
  wakes : woke = true ↔ call.Wakes before
  others : ∀ id ∉ call.addressed, id ∈ after ↔ id ∈ before

/-! ### Queries -/

theorem mod_chunk_lt (id : SignalId) : id.toNat % 64 < 64 := Nat.mod_lt _ (by decide)

/-- The id's bit in the id's chunk stands for the id alone. -/
theorem slice_id (id : SignalId) : slice (chunkOf id) (bitOf id) = {id.toNat} :=
  slice_bit (by decide) id.toNat

theorem exists_chunk {idx : Nat} (inside : idx < set.chunks.length) :
    ∃ word, set.chunks[idx]? = some word :=
  ⟨_, List.getElem?_eq_getElem inside⟩

theorem chunkOf_lt {id : SignalId} {nChunks : Nat} (inside : id.toNat < nChunks * 64) :
    chunkOf id < nChunks :=
  Nat.div_lt_of_lt_mul (by omega)

theorem represents {nChunks : Nat} (length : set.chunks.length = nChunks) (pos : 0 < nChunks) :
    set.Represents nChunks set.gates where
  chunks := length
  capacity := by rw [capacityBits, length]
  below id member := lt_of_mem (by decide) member
  isOpen id inside := by
    obtain ⟨word, present⟩ := exists_chunk (chunkOf_lt inside)
    refine ⟨word &&& bitOf id != 0, by rw [SignalSet.isOpen, present, Option.map_some], ?_⟩
    rw [bne_iff_ne]
    refine (and_ne_zero_iff (by decide) present).trans ?_
    rw [slice_id]
    exact Set.inter_singleton_nonempty
  anyOpen mask := by
    obtain ⟨word, present⟩ := exists_chunk (length ▸ pos)
    refine ⟨word &&& mask != 0, by rw [SignalSet.anyOpen, present, Option.map_some], ?_⟩
    rw [bne_iff_ne]
    exact and_ne_zero_iff (by decide) present
  allOpen mask := by
    obtain ⟨word, present⟩ := exists_chunk (length ▸ pos)
    refine ⟨word &&& mask == mask, by rw [SignalSet.allOpen, present, Option.map_some], ?_⟩
    rw [beq_iff_eq]
    exact and_eq_mask_iff (by decide) present
  state := rfl
  stateChunk chunk inside := by
    obtain ⟨word, present⟩ := exists_chunk (length ▸ inside)
    refine ⟨word, present, fun b small => ?_⟩
    obtain ⟨here, offset⟩ := div_mod_offset chunk small
    have member := mem_members present here
    rw [offset] at member
    exact member.symm
  anyChunkOpen := by
    refine Iff.trans ?_ (exists_ne_zero_iff (by decide))
    simp [SignalSet.anyChunkOpen]

/-! ### Calls -/

theorem release_eq {id : SignalId} (inside : id.toNat < set.capacityBits) :
    ∃ woke after, set.release id = some (woke, after) ∧
      after.chunks.length = set.chunks.length ∧
        after.gates = insert id.toNat set.gates ∧ (woke = true ↔ id.toNat ∉ set.gates) ∧
          after.waiter = if woke then set.waiter.wake else set.waiter := by
  obtain ⟨word, present⟩ := exists_chunk (chunkOf_lt inside)
  have closed : word &&& bitOf id = 0 ↔ id.toNat ∉ set.gates := by
    refine (and_bit_eq_zero (mod_chunk_lt id)).trans ?_
    rw [gates, mem_members present rfl, Bool.not_eq_true]
  have opens : members (set.chunks.set (chunkOf id) (word ||| bitOf id)) =
      insert id.toNat set.gates := by
    rw [members_set_or (by decide) present, slice_id, Set.union_singleton]
    rfl
  have length : (set.chunks.set (chunkOf id) (word ||| bitOf id)).length = set.chunks.length :=
    List.length_set
  rw [release, fetchOr, present, Option.map_some, Option.map_some]
  dsimp only
  split
  · rename_i flips
    exact ⟨_, _, rfl, length, opens, ⟨fun _ => closed.mp flips, fun _ => rfl⟩, rfl⟩
  · rename_i wasOpen
    refine ⟨_, _, rfl, length, opens,
      ⟨fun never => absurd never Bool.false_ne_true, fun clear => ?_⟩, rfl⟩
    exact absurd (closed.mpr clear) wasOpen

theorem fetchAnd_eq {chunk : Nat} (inside : chunk < set.chunks.length) (mask : Word) :
    ∃ after, (set.fetchAnd chunk (~~~mask)).map Prod.snd = some after ∧
      after.chunks.length = set.chunks.length ∧
        after.gates = set.gates \ slice chunk mask ∧ after.waiter = set.waiter := by
  obtain ⟨word, present⟩ := exists_chunk inside
  rw [fetchAnd, present]
  exact ⟨_, rfl, List.length_set, members_set_and_not (by decide) present, rfl⟩

/-- What a call does not address it does not change. -/
theorem mem_apply_iff (call : GateCall) {gates : Set Nat} {id : Nat}
    (other : id ∉ call.addressed) : id ∈ call.apply gates ↔ id ∈ gates := by
  cases call with
  | release opened =>
      refine Set.mem_insert_iff.trans (or_iff_right ?_)
      exact other
  | lock closed | lockMask mask | lockChunkMask chunk mask =>
      exact Set.mem_sdiff id |>.trans (and_iff_left other)

theorem call_refines {call : GateCall} (pos : 0 < set.nChunks)
    (inside : call.inRange set.nChunks = true) :
    ∃ woke after, call.run set = some (woke, after) ∧ after.nChunks = set.nChunks ∧
      CallRefines set.gates call woke after.gates ∧
        after.waiter = if woke then set.waiter.wake else set.waiter := by
  have locks {chunk : Nat} {mask : Word} (inside : chunk < set.nChunks)
      (applies : call.apply set.gates = set.gates \ slice chunk mask)
      (quiet : ¬ call.Wakes set.gates)
      (runs : call.run set = ((set.fetchAnd chunk (~~~mask)).map Prod.snd).map
        fun set => (false, set)) :
      ∃ woke after, call.run set = some (woke, after) ∧ after.nChunks = set.nChunks ∧
        CallRefines set.gates call woke after.gates ∧
          after.waiter = if woke then set.waiter.wake else set.waiter := by
    obtain ⟨after, locked, length, gates, waiter⟩ := fetchAnd_eq inside mask
    have refined : after.gates = call.apply set.gates := gates.trans applies.symm
    refine ⟨false, after, by rw [runs, locked, Option.map_some], length,
      ⟨refined, ?_, ?_⟩, waiter⟩
    · exact ⟨fun never => absurd never Bool.false_ne_true, fun wakes => absurd wakes quiet⟩
    · intro id other
      rw [refined]
      exact mem_apply_iff call other
  cases call with
  | release id =>
      obtain ⟨woke, after, ran, length, gates, wakes, waiter⟩ :=
        release_eq (of_decide_eq_true inside)
      refine ⟨woke, after, ran, length, ⟨gates, wakes, fun id other => ?_⟩, waiter⟩
      rw [gates]
      exact mem_apply_iff (.release _) other
  | lock id =>
      refine locks (chunkOf_lt (of_decide_eq_true inside)) ?_ not_false rfl
      rw [slice_id]
      rfl
  | lockMask mask => exact locks pos rfl not_false rfl
  | lockChunkMask chunk mask => exact locks (of_decide_eq_true inside) rfl not_false rfl

/-! ### Sequences of calls -/

theorem runAll_refines {calls : List GateCall} (pos : 0 < set.nChunks)
    (inRange : ∀ call ∈ calls, call.inRange set.nChunks = true) :
    ∃ after, GateCall.runAll set calls = some after ∧ after.nChunks = set.nChunks ∧
      after.gates = GateCall.applyAll set.gates calls := by
  induction calls generalizing set with
  | nil => exact ⟨set, rfl, rfl, rfl⟩
  | cons call calls ih =>
      obtain ⟨woke, next, ran, length, refined, -⟩ :=
        call_refines pos (inRange call List.mem_cons_self)
      rw [← length] at pos inRange
      obtain ⟨after, ranRest, lengthRest, gates⟩ :=
        ih pos fun call member => inRange call (List.mem_cons_of_mem _ member)
      refine ⟨after, ?_, lengthRest.trans length, ?_⟩
      · rw [GateCall.runAll, ran]
        exact ranRest
      · rw [gates, refined.gates]
        rfl

theorem gates_withCapacity (nBits : Nat) : (withCapacity nBits).gates = ∅ :=
  members_replicate_zero _

theorem nChunks_withCapacity (nBits : Nat) :
    (withCapacity nBits).nChunks = (max nBits 1 + 63) / 64 :=
  List.length_replicate

theorem nChunks_pos (nBits : Nat) : 0 < (withCapacity nBits).nChunks := by
  rw [nChunks_withCapacity]
  omega

/-- What a set of this capacity is after the calls: it represents the gates that the
calls leave open, and so it does after any further call. -/
structure RefinesGates (nBits : Nat) (calls : List GateCall) (set : SignalSet) : Prop where
  ran : GateCall.runAll (withCapacity nBits) calls = some set
  represents : set.Represents (withCapacity nBits).nChunks (GateCall.applyAll ∅ calls)
  next : ∀ call : GateCall, call.inRange (withCapacity nBits).nChunks = true →
    ∃ woke after, call.run set = some (woke, after) ∧
      CallRefines (GateCall.applyAll ∅ calls) call woke after.gates ∧
        after.Represents (withCapacity nBits).nChunks
          (call.apply (GateCall.applyAll ∅ calls)) ∧
          after.waiter = if woke then set.waiter.wake else set.waiter
  fits : nBits ≤ set.capacityBits
  tight : set.capacityBits < max nBits 1 + 64

/-- The signal set refines a set of gates, whatever is called on it within its range. -/
theorem refinesGates (nBits : Nat) (calls : List GateCall)
    (inRange : ∀ call ∈ calls, call.inRange (withCapacity nBits).nChunks = true) :
    ∃ set, RefinesGates nBits calls set := by
  obtain ⟨set, ran, length, gates⟩ := runAll_refines (nChunks_pos nBits) inRange
  rw [gates_withCapacity] at gates
  have pos : 0 < set.nChunks := length ▸ nChunks_pos nBits
  have capacity : set.capacityBits = (max nBits 1 + 63) / 64 * 64 := by
    rw [← nChunks_withCapacity, ← length]
    rfl
  refine ⟨set, ran, ?_, fun call inside => ?_, ?_, ?_⟩
  · rw [← gates]
    exact SignalSet.represents length (nChunks_pos nBits)
  · obtain ⟨woke, after, ran, lengthAfter, refined, waiter⟩ :=
      call_refines pos (length ▸ inside)
    refine ⟨woke, after, ran, ?_, ?_, waiter⟩
    · rw [← gates]
      exact refined
    · rw [← gates, ← refined.gates]
      exact SignalSet.represents (lengthAfter.trans length) (nChunks_pos nBits)
  · omega
  · omega

/-- Gates at the edges of two chunks, addressed by id, by mask and by chunk. -/
def chunkEdges : List GateCall :=
  [.release 63, .release 64, .release 127, .lockChunkMask 1 1, .lockMask 1, .lock 127]

theorem refinesGates_chunkEdges : ∃ set, RefinesGates 65 chunkEdges set :=
  refinesGates 65 chunkEdges (by decide)

/-! ### Among other threads -/

/-- A `release` of the interleaved set, with its wake, is the call on its own. -/
theorem release_of_threadStep {ι : Type*} [DecidableEq ι] {s : GateState ι} {thread : ι}
    {id : SignalId} {woke : Bool} (idle : s.threads thread = .idle)
    (released : s.set.release id = some (woke, after)) :
    ∃ next, s.threadStep thread (.release id) = some next ∧
      if woke then (next.threadStep thread .tick).map GateState.set = some after
      else next.set = after := by
  obtain ⟨⟨prev, opened⟩, fetched, decided⟩ := Option.map_eq_some_iff.mp released
  simp only [GateState.threadStep, idle, GateState.release, fetched, Option.map_some]
  dsimp only at decided
  split at decided
  · rename_i flips
    cases decided
    refine ⟨_, rfl, ?_⟩
    simp [flips, GateState.threadAt]
  · rename_i wasOpen
    cases decided
    refine ⟨_, rfl, ?_⟩
    rw [if_neg Bool.false_ne_true]
    split
    · rename_i flips
      exact absurd flips wasOpen
    · rfl

end SignalSet

end ArbitroKit
