import ArbitroKit.CapacityQueries

/-!
# The shard scan of a producer

`try_send` and `try_send_batch` look for a ring with room from the producer's cursor
on, once around all shards.  They find the first one if there is one, put their items
into it, and move the cursor just past it; so the free slots that the capacity queries
count are what a run of sends can fill.
-/

namespace Cyclic

/-- A scan of `n` indices that wraps meets each of them. -/
theorem exists_offset {start index n : Nat} (inside : start < n) (here : index < n) :
    ∃ k < n, (start + k) % n = index := by
  by_cases before : start ≤ index
  · refine ⟨index - start, by omega, ?_⟩
    rw [Nat.add_sub_cancel' before, Nat.mod_eq_of_lt here]
  · refine ⟨index + n - start, by omega, ?_⟩
    rw [show start + (index + n - start) = index + n by omega, Nat.add_mod_right,
      Nat.mod_eq_of_lt here]

/-- The first index of such a scan that has the property. -/
theorem exists_first_offset {start n : Nat} (inside : start < n) {holds : Nat → Prop}
    [DecidablePred holds] (found : ∃ index < n, holds index) :
    ∃ k < n, holds ((start + k) % n) ∧ ∀ j < k, ¬ holds ((start + j) % n) := by
  obtain ⟨index, here, meets⟩ := found
  obtain ⟨k, offset, at_index⟩ := exists_offset inside here
  have some : ∃ k, holds ((start + k) % n) := ⟨k, at_index.symm ▸ meets⟩
  have first_le : Nat.find some ≤ k := Nat.find_min' some (at_index.symm ▸ meets)
  exact ⟨Nat.find some, first_le.trans_lt offset, Nat.find_spec some,
    fun j before => Nat.find_min some before⟩

theorem range_eq_append_cons {k n : Nat} (inside : k < n) :
    ∃ later, List.range n = List.range k ++ k :: later := by
  obtain ⟨more, rfl⟩ := Nat.exists_eq_add_of_lt inside
  refine ⟨(List.range more).map (fun j => k + (j + 1)), ?_⟩
  rw [Nat.add_assoc, List.range_add, List.range_succ_eq_map, List.map_cons, List.map_map]
  rfl

end Cyclic

namespace ArbitroKit

open Cyclic Transition

namespace SeqPRing

variable {α : Type*} {cap : Cap} {ring : SeqPRing α}

/-- The items are in the slots from `head` on, in their order, and nothing else has
changed. -/
structure Appended (cap : Cap) (ring : SeqPRing α) (items : List α) (after : SeqPRing α) :
    Prop where
  head : after.head = ring.head + BitVec.ofNat 64 items.length
  tail : after.tail = ring.tail
  item : ∀ i, (inside : i < items.length) →
    after.slots (cap.slot (ring.head + BitVec.ofNat 64 i)) = some items[i]
  kept : ∀ slot, (∀ i < items.length, cap.slot (ring.head + BitVec.ofNat 64 i) ≠ slot) →
    after.slots slot = ring.slots slot

theorem writeFrom_fst (items : List α) (h : Usize) (slots : Nat → Option α) :
    (writeFrom cap items h slots).1 = h + BitVec.ofNat 64 items.length := by
  induction items generalizing h slots with
  | nil => simp [writeFrom]
  | cons value rest ih => rw [writeFrom, ih, add_one_add_ofNat, List.length_cons]

theorem writeFrom_kept (items : List α) (h : Usize) (slots : Nat → Option α) {slot : Nat}
    (elsewhere : ∀ i < items.length, cap.slot (h + BitVec.ofNat 64 i) ≠ slot) :
    (writeFrom cap items h slots).2 slot = slots slot := by
  induction items generalizing h slots with
  | nil => rfl
  | cons value rest ih =>
      have first := elsewhere 0 (by simp)
      rw [BitVec.add_zero] at first
      rw [writeFrom, ih, Function.update_of_ne first.symm]
      intro i inside
      rw [add_one_add_ofNat]
      exact elsewhere (i + 1) (by simpa using inside)

theorem writeFrom_item (items : List α) (h : Usize) (slots : Nat → Option α)
    (fits : items.length ≤ cap.size) {i : Nat} (inside : i < items.length) :
    (writeFrom cap items h slots).2 (cap.slot (h + BitVec.ofNat 64 i)) = some items[i] := by
  induction items generalizing h slots i with
  | nil => exact absurd inside (Nat.not_lt_zero i)
  | cons value rest ih =>
      rw [List.length_cons] at fits inside
      rw [writeFrom]
      cases i with
      | zero =>
          rw [writeFrom_kept, BitVec.add_zero, Function.update_self]
          · rfl
          · intro j within
            rw [add_one_add_ofNat]
            exact (cap.slot_ne h (Nat.succ_pos j) (by omega)).symm
      | succ i =>
          rw [← add_one_add_ofNat, ih _ _ (by omega) (Nat.lt_of_succ_lt_succ inside)]
          rfl

theorem appended_putAll (ring : SeqPRing α) {items : List α} (fits : items.length ≤ cap.size) :
    ring.Appended cap items (ring.putAll cap items) where
  head := writeFrom_fst items ring.head ring.slots
  tail := rfl
  item _ inside := writeFrom_item items ring.head ring.slots fits inside
  kept _ elsewhere := writeFrom_kept items ring.head ring.slots elsewhere

theorem appended_put (ring : SeqPRing α) (value : α) :
    ring.Appended cap [value] (ring.put cap value) := by
  have fits : [value].length ≤ cap.size := cap.size_pos
  exact ring.appended_putAll fits

end SeqPRing

namespace SeqMpmc

variable {α : Type*} {cap : Cap} {c after : SeqMpmc α} {p shard : Nat} {items : List α}

/-- The shard that the scan of producer `p` looks at in its `k`-th turn. -/
def scanned (c : SeqMpmc α) (p k : Nat) : Nat := (c.cursors p % c.n + k) % c.n

/-- The ring of producer `p` on the shard has no room. -/
def fullAt (cap : Cap) (c : SeqMpmc α) (p shard : Nat) : Bool :=
  SeqPRing.isFull cap (c.shards shard p).head (c.shards shard p).tail

/-- What `available` adds up, before the sum wraps. -/
def freeSlots (cap : Cap) (c : SeqMpmc α) (p : Nat) : Nat :=
  ∑ shard ∈ Finset.range c.n, (c.availableInShard cap p shard).toNat

/-- The channel with one ring of producer `p` and its cursor replaced. -/
def replaced (c : SeqMpmc α) (p shard : Nat) (ring : SeqPRing α) (cursor : Nat) : SeqMpmc α :=
  { c.setRing shard p ring with cursors := Function.update c.cursors p cursor }

/-- The items are appended to the ring on the first shard with room, counted from the
cursor on, and the cursor is just past that shard. -/
structure PlacedAt (cap : Cap) (c : SeqMpmc α) (p : Nat) (items : List α) (k : Nat)
    (ring : SeqPRing α) (after : SeqMpmc α) : Prop where
  offset_lt : k < c.n
  room : c.fullAt cap p (c.scanned p k) = false
  first : ∀ j < k, c.fullAt cap p (c.scanned p j) = true
  fits : items.length ≤ (c.availableInShard cap p (c.scanned p k)).toNat
  appended : (c.shards (c.scanned p k) p).Appended cap items ring
  after_eq : after = c.replaced p (c.scanned p k) ring ((c.scanned p k + 1) % c.n)

def Placed (cap : Cap) (c : SeqMpmc α) (p : Nat) (items : List α) (after : SeqMpmc α) : Prop :=
  ∃ k ring, c.PlacedAt cap p items k ring after

/-! ### Counting the free slots -/

theorem toNat_availableInShard (cap : Cap) (c : SeqMpmc α) (p shard : Nat) :
    (c.availableInShard cap p shard).toNat = cap.size -
      ((c.shards shard p).head - (c.shards shard p).tail).toNat := by
  rw [availableInShard, BitVec.toNat_ofNat]
  exact Nat.mod_eq_of_lt ((Nat.sub_le _ _).trans_lt cap.size_lt)

theorem fullAt_iff : c.fullAt cap p shard = true ↔
    (c.availableInShard cap p shard).toNat = 0 := by
  rw [fullAt, SeqPRing.isFull, decide_eq_true_iff, toNat_availableInShard, Nat.sub_eq_zero_iff_le]

/-- `available` is the number of free slots, as far as a word can count them. -/
theorem toNat_producerAvailable (cap : Cap) (c : SeqMpmc α) (p : Nat) :
    (c.producerAvailable cap p).toNat = c.freeSlots cap p % 2 ^ 64 :=
  toNat_foldl_add c.n fun shard => c.availableInShard cap p shard

theorem freeSlots_le (cap : Cap) (c : SeqMpmc α) (p : Nat) :
    c.freeSlots cap p ≤ c.n * cap.size := by
  apply Spanned.sum_le
  intro shard
  rw [toNat_availableInShard]
  exact Nat.sub_le _ _

theorem freeSlots_pos_iff : 0 < c.freeSlots cap p ↔
    ∃ shard < c.n, c.fullAt cap p shard = false := by
  rw [freeSlots, Finset.sum_pos_iff]
  apply exists_congr
  intro shard
  rw [Finset.mem_range, Nat.pos_iff_ne_zero, Ne, ← fullAt_iff, Bool.not_eq_true]

theorem hasIdleShard_iff : c.hasIdleShard cap p = true ↔
    ∃ shard < c.n, c.fullAt cap p shard = false := by
  simp [hasIdleShard, fullAt]

theorem scanned_lt (shards : 0 < c.n) (k : Nat) : c.scanned p k < c.n :=
  Nat.mod_lt _ shards

/-- The scan finds a ring with room if there is one. -/
theorem exists_room (shards : 0 < c.n) (some : 0 < c.freeSlots cap p) :
    ∃ k < c.n, c.fullAt cap p (c.scanned p k) = false ∧
      ∀ j < k, c.fullAt cap p (c.scanned p j) = true := by
  obtain ⟨k, inside, room, first⟩ :=
    exists_first_offset (Nat.mod_lt (c.cursors p) shards) (freeSlots_pos_iff.mp some)
  exact ⟨k, inside, room, fun j before => Bool.eq_true_of_not_eq_false (first j before)⟩

theorem full_of_freeSlots (none : c.freeSlots cap p = 0) (shards : 0 < c.n) (k : Nat) :
    c.fullAt cap p (c.scanned p k) = true := by
  by_contra room
  have some : 0 < c.freeSlots cap p :=
    freeSlots_pos_iff.mpr ⟨_, scanned_lt shards k, Bool.eq_false_of_not_eq_true room⟩
  omega

namespace PlacedAt

variable {k : Nat} {ring : SeqPRing α}

theorem shards_self (placed : c.PlacedAt cap p items k ring after) :
    after.shards (c.scanned p k) p = ring := by
  rw [placed.after_eq]
  simp [replaced, setRing]

theorem shards_of_ne (placed : c.PlacedAt cap p items k ring after) {shard q : Nat}
    (other : shard ≠ c.scanned p k ∨ q ≠ p) : after.shards shard q = c.shards shard q := by
  rw [placed.after_eq]
  exact setEntry_of_ne other

theorem n_eq (placed : c.PlacedAt cap p items k ring after) : after.n = c.n := by
  rw [placed.after_eq]
  rfl

theorem isTerminalForProducer_eq (placed : c.PlacedAt cap p items k ring after) :
    after.isTerminalForProducer = c.isTerminalForProducer := by
  rw [placed.after_eq]
  rfl

theorem availableInShard_self (placed : c.PlacedAt cap p items k ring after) :
    (after.availableInShard cap p (c.scanned p k)).toNat + items.length =
      (c.availableInShard cap p (c.scanned p k)).toNat := by
  have fits := placed.fits
  have small := cap.size_lt
  rw [toNat_availableInShard] at fits ⊢
  rw [toNat_availableInShard, placed.shards_self, placed.appended.head, placed.appended.tail]
  have further (head tail : Usize) : (head + BitVec.ofNat 64 items.length - tail).toNat =
      ((head - tail).toNat + items.length) % 2 ^ 64 := by
    rw [BitVec.add_comm head, add_sub_assoc, BitVec.add_comm, BitVec.toNat_add,
      BitVec.toNat_ofNat, Nat.add_mod_mod]
  rw [further, Nat.mod_eq_of_lt (by omega)]
  omega

/-- Each item takes one free slot. -/
theorem freeSlots (placed : c.PlacedAt cap p items k ring after) :
    after.freeSlots cap p + items.length = c.freeSlots cap p := by
  have shards : 0 < c.n := (Nat.zero_le k).trans_lt placed.offset_lt
  have member : c.scanned p k ∈ Finset.range c.n := Finset.mem_range.mpr (scanned_lt shards k)
  have here := placed.availableInShard_self
  have others : ∑ shard ∈ (Finset.range c.n).erase (c.scanned p k),
      (after.availableInShard cap p shard).toNat =
        ∑ shard ∈ (Finset.range c.n).erase (c.scanned p k),
          (c.availableInShard cap p shard).toNat := by
    apply Finset.sum_congr rfl
    intro shard inside
    rw [availableInShard, placed.shards_of_ne (.inl (Finset.ne_of_mem_erase inside)),
      availableInShard]
  rw [SeqMpmc.freeSlots, SeqMpmc.freeSlots, placed.n_eq, ← Finset.add_sum_erase _ _ member,
    ← Finset.add_sum_erase _ _ member, others]
  omega

end PlacedAt

/-! ### One send -/

theorem trySendFrom_full (value : α) (start : Nat) {first : List Nat}
    (full : ∀ k ∈ first, c.fullAt cap p ((start + k) % c.n) = true) (rest : List Nat) :
    c.trySendFrom cap p value start (first ++ rest) = c.trySendFrom cap p value start rest := by
  induction first with
  | nil => rfl
  | cons k first ih =>
      have here := full k List.mem_cons_self
      rw [fullAt] at here
      rw [List.cons_append, trySendFrom]
      dsimp only
      rw [if_pos here]
      exact ih fun j member => full j (List.mem_cons_of_mem k member)

theorem trySendFrom_room (value : α) (start : Nat) {k : Nat}
    (room : c.fullAt cap p ((start + k) % c.n) = false) (rest : List Nat) :
    c.trySendFrom cap p value start (k :: rest) =
      (.ok (), c.replaced p ((start + k) % c.n) ((c.shards ((start + k) % c.n) p).put cap value)
        (((start + k) % c.n + 1) % c.n % 2 ^ 32)) := by
  rw [fullAt] at room
  rw [trySendFrom]
  dsimp only
  rw [if_neg (by rw [room]; exact Bool.false_ne_true)]
  rfl

/-- `try_send` goes to the first shard with room; its cursor keeps 32 bits. -/
theorem trySend_first (live : c.isTerminalForProducer = false) {k : Nat} (inside : k < c.n)
    (room : c.fullAt cap p (c.scanned p k) = false)
    (first : ∀ j < k, c.fullAt cap p (c.scanned p j) = true) (value : α) :
    c.trySend cap p value = (.ok (), c.replaced p (c.scanned p k)
      ((c.shards (c.scanned p k) p).put cap value) ((c.scanned p k + 1) % c.n % 2 ^ 32)) := by
  obtain ⟨later, split⟩ := range_eq_append_cons inside
  have passed : c.trySendFrom cap p value (c.cursors p % c.n) (List.range c.n) =
      c.trySendFrom cap p value (c.cursors p % c.n) (k :: later) := by
    rw [split]
    exact trySendFrom_full value _ (fun j member => first j (List.mem_range.mp member)) _
  rw [trySend, live, if_neg Bool.false_ne_true, passed, trySendFrom_room value _ room]
  rfl

/-- `try_send` on a channel that is not terminated. -/
theorem trySend_some (live : c.isTerminalForProducer = false) (shards : 0 < c.n)
    (few : c.n < 2 ^ 32) (some : 0 < c.freeSlots cap p) (value : α) :
    ∃ after, c.trySend cap p value = (.ok (), after) ∧ c.Placed cap p [value] after := by
  obtain ⟨k, inside, room, first⟩ := exists_room shards some
  have next_lt : (c.scanned p k + 1) % c.n < 2 ^ 32 := (Nat.mod_lt _ shards).trans few
  refine ⟨_, trySend_first live inside room first value, k,
    (c.shards (c.scanned p k) p).put cap value, inside, room, first, ?_,
    SeqPRing.appended_put _ value, ?_⟩
  · rw [List.length_singleton, Nat.one_le_iff_ne_zero, Ne, ← fullAt_iff, room]
    exact Bool.false_ne_true
  · rw [Nat.mod_eq_of_lt next_lt]

theorem trySend_none (shards : 0 < c.n) (none : c.freeSlots cap p = 0) (value : α) :
    c.trySend cap p value = (.error value, c) := by
  have passed : c.trySendFrom cap p value (c.cursors p % c.n) (List.range c.n ++ []) =
      c.trySendFrom cap p value (c.cursors p % c.n) [] :=
    trySendFrom_full value _ (fun k _ => full_of_freeSlots none shards k) []
  rw [List.append_nil] at passed
  rw [trySend, passed, trySendFrom]
  exact ite_self _

/-- The channel after `i` calls of `try_send`, with these values. -/
def afterSends (cap : Cap) (c : SeqMpmc α) (p : Nat) (values : Nat → α) : Nat → SeqMpmc α
  | 0 => c
  | i + 1 => ((c.afterSends cap p values i).trySend cap p (values i)).2

/-- Up to the last free slot every send finds a channel like the first one's, with one
free slot less for each. -/
theorem afterSends_ok (live : c.isTerminalForProducer = false) (shards : 0 < c.n)
    (few : c.n < 2 ^ 32) (values : Nat → α) {i : Nat} (le : i ≤ c.freeSlots cap p) :
    (c.afterSends cap p values i).isTerminalForProducer = false ∧
      (c.afterSends cap p values i).n = c.n ∧
        (c.afterSends cap p values i).freeSlots cap p + i = c.freeSlots cap p := by
  induction i with
  | zero => exact ⟨live, rfl, rfl⟩
  | succ i ih =>
      obtain ⟨liveHere, same, free⟩ := ih (Nat.le_of_succ_le le)
      obtain ⟨after, sent, k, ring, placed⟩ := trySend_some liveHere (same ▸ shards)
        (same ▸ few) (show 0 < (c.afterSends cap p values i).freeSlots cap p by omega) (values i)
      have one := placed.freeSlots
      rw [List.length_singleton] at one
      rw [afterSends, sent]
      dsimp only
      exact ⟨placed.isTerminalForProducer_eq.trans liveHere, placed.n_eq.trans same, by omega⟩

/-! ### Batches -/

theorem trySendBatchFrom_full (start : Nat) {first : List Nat}
    (full : ∀ k ∈ first, c.fullAt cap p ((start + k) % c.n) = true) (rest : List Nat) :
    c.trySendBatchFrom cap p items start (first ++ rest) =
      c.trySendBatchFrom cap p items start rest := by
  induction first with
  | nil => rfl
  | cons k first ih =>
      have here := full k List.mem_cons_self
      rw [fullAt, SeqPRing.isFull, decide_eq_true_iff] at here
      rw [List.cons_append, trySendBatchFrom]
      dsimp only
      rw [if_pos here]
      exact ih fun j member => full j (List.mem_cons_of_mem k member)

theorem trySendBatchFrom_room (start : Nat) {k count : Nat} (shards : 0 < c.n)
    (few : c.n < 2 ^ 32) (room : c.fullAt cap p ((start + k) % c.n) = false) (rest : List Nat)
    (count_eq : count = min items.length
      (c.availableInShard cap p ((start + k) % c.n)).toNat) :
    c.trySendBatchFrom cap p items start (k :: rest) =
      (count, items.drop count,
        c.replaced p ((start + k) % c.n)
          ((c.shards ((start + k) % c.n) p).putAll cap (items.take count))
          (((start + k) % c.n + 1) % c.n)) := by
  have next_lt : ((start + k) % c.n + 1) % c.n < 2 ^ 32 := (Nat.mod_lt _ shards).trans few
  rw [fullAt, SeqPRing.isFull, decide_eq_false_iff_not] at room
  rw [toNat_availableInShard] at count_eq
  rw [trySendBatchFrom]
  dsimp only
  rw [if_neg room, ← count_eq]
  exact congrArg (fun cursor => (count, items.drop count, c.replaced p ((start + k) % c.n)
    ((c.shards ((start + k) % c.n) p).putAll cap (items.take count)) cursor))
      (Nat.mod_eq_of_lt next_lt)

/-- `try_send_batch` when there is something to send and room for it. -/
theorem trySendBatch_some (shards : 0 < c.n) (few : c.n < 2 ^ 32)
    (some : 0 < c.freeSlots cap p) (nonempty : items ≠ []) :
    ∃ count after, 0 < count ∧ count ≤ items.length ∧
      c.trySendBatch cap p items = (count, items.drop count, after) ∧
        c.Placed cap p (items.take count) after := by
  obtain ⟨k, inside, room, first⟩ := exists_room shards some
  obtain ⟨later, split⟩ := range_eq_append_cons inside
  have passed : c.trySendBatchFrom cap p items (c.cursors p % c.n) (List.range c.n) =
      c.trySendBatchFrom cap p items (c.cursors p % c.n) (k :: later) := by
    rw [split]
    exact trySendBatchFrom_full _ (fun j member => first j (List.mem_range.mp member)) _
  have free : 0 < (c.availableInShard cap p (c.scanned p k)).toNat := by
    rw [Nat.pos_iff_ne_zero, Ne, ← fullAt_iff, room]
    exact Bool.false_ne_true
  have length_pos := List.length_pos_iff.mpr nonempty
  have fits : (items.take (min items.length
      (c.availableInShard cap p (c.scanned p k)).toNat)).length ≤
        (c.availableInShard cap p (c.scanned p k)).toNat := by
    rw [List.length_take]
    omega
  have within : (c.availableInShard cap p (c.scanned p k)).toNat ≤ cap.size := by
    rw [toNat_availableInShard]
    exact Nat.sub_le _ _
  refine ⟨min items.length (c.availableInShard cap p (c.scanned p k)).toNat, _,
    lt_min length_pos free, min_le_left _ _, ?_, k, _, inside, room, first, fits,
      SeqPRing.appended_putAll _ (fits.trans within), rfl⟩
  rw [trySendBatch, if_neg (by simpa using nonempty), passed]
  exact trySendBatchFrom_room _ shards few room _ rfl

theorem trySendBatch_none (shards : 0 < c.n)
    (nothing : items = [] ∨ c.freeSlots cap p = 0) :
    c.trySendBatch cap p items = (0, items, c) := by
  rw [trySendBatch]
  split
  · rfl
  · rename_i nonempty
    have none := nothing.resolve_left fun empty => nonempty (by rw [empty]; rfl)
    have passed : c.trySendBatchFrom cap p items (c.cursors p % c.n) (List.range c.n ++ []) =
        c.trySendBatchFrom cap p items (c.cursors p % c.n) [] :=
      trySendBatchFrom_full _ (fun k _ => full_of_freeSlots none shards k) []
    rw [List.append_nil] at passed
    rw [passed, trySendBatchFrom]

/-- `try_send_batch` called again and again on what it has left of the vector, until it
returns zero: how many items it took in all, what is left, and the channel then.  Each call
moves a prefix into one ring. -/
inductive BatchesUntilZero (cap : Cap) (p : Nat) :
    SeqMpmc α → List α → Nat → List α → SeqMpmc α → Prop
  | zero {c : SeqMpmc α} {items : List α} (call : c.trySendBatch cap p items = (0, items, c)) :
      BatchesUntilZero cap p c items 0 items c
  | more {c middle last : SeqMpmc α} {items left : List α} {count total : Nat} (some : 0 < count)
      (call : c.trySendBatch cap p items = (count, items.drop count, middle))
      (placed : c.Placed cap p (items.take count) middle)
      (rest : BatchesUntilZero cap p middle (items.drop count) total left last) :
      BatchesUntilZero cap p c items (count + total) left last

theorem exists_batchesUntilZero (shards : 0 < c.n) (few : c.n < 2 ^ 32) (items : List α) :
    ∃ after, BatchesUntilZero cap p c items (min items.length (c.freeSlots cap p))
      (items.drop (min items.length (c.freeSlots cap p))) after := by
  induction hLength : items.length using Nat.strongRecOn generalizing c items with
  | ind length ih =>
      by_cases nothing : items = [] ∨ c.freeSlots cap p = 0
      · have zero : min length (c.freeSlots cap p) = 0 := by
          rcases nothing with rfl | none
          · rw [← hLength, List.length_nil, Nat.zero_min]
          · rw [none, Nat.min_zero]
        rw [zero, List.drop_zero]
        exact ⟨c, .zero (trySendBatch_none shards nothing)⟩
      · rw [not_or] at nothing
        obtain ⟨count, middle, some, le, call, k, ring, placed⟩ :=
          trySendBatch_some shards few (Nat.pos_of_ne_zero nothing.2) nothing.1
        have same := placed.n_eq
        have free := placed.freeSlots
        rw [List.length_take, Nat.min_eq_left le] at free
        have shorter : (items.drop count).length < length := by
          rw [List.length_drop]
          omega
        obtain ⟨last, rest⟩ := ih _ shorter (same ▸ shards) (same ▸ few) (items.drop count) rfl
        have total : count + min (items.drop count).length (middle.freeSlots cap p) =
            min length (c.freeSlots cap p) := by
          rw [List.length_drop]
          omega
        rw [List.drop_drop] at rest
        refine ⟨last, ?_⟩
        rw [← total]
        exact .more some call ⟨k, ring, placed⟩ rest

/-- The sends of producer `p` and its capacity queries agree. -/
structure ScanAgrees (cap : Cap) (c : SeqMpmc α) (p : Nat) : Prop where
  succeeds : ∀ value, (c.trySend cap p value).1 = .ok () ↔ c.hasIdleShard cap p = true
  idle : c.hasIdleShard cap p = true ↔ 0 < c.freeSlots cap p
  available : (c.producerAvailable cap p).toNat = c.freeSlots cap p % 2 ^ 64
  representable : c.n * cap.size < 2 ^ 64 →
    (c.producerAvailable cap p).toNat = c.freeSlots cap p
  sends : ∀ (values : Nat → α), ∀ i < c.freeSlots cap p,
    (c.afterSends cap p values i).trySend cap p (values i) =
        (.ok (), c.afterSends cap p values (i + 1)) ∧
      (c.afterSends cap p values i).Placed cap p [values i] (c.afterSends cap p values (i + 1))
  refused : ∀ (values : Nat → α) (value : α),
    (c.afterSends cap p values (c.freeSlots cap p)).trySend cap p value =
      (.error value, c.afterSends cap p values (c.freeSlots cap p))
  batches : ∀ items, ∃ after,
    BatchesUntilZero cap p c items (min items.length (c.freeSlots cap p))
      (items.drop (min items.length (c.freeSlots cap p))) after

theorem scanAgrees (live : c.isTerminalForProducer = false) (shards : 0 < c.n)
    (few : c.n < 2 ^ 32) (p : Nat) : c.ScanAgrees cap p where
  succeeds value := by
    rw [hasIdleShard_iff, ← freeSlots_pos_iff]
    constructor
    · intro ok
      by_contra none
      rw [trySend_none shards (Nat.eq_zero_of_not_pos none)] at ok
      cases ok
    · intro some
      obtain ⟨after, sent, -⟩ := trySend_some live shards few some value
      rw [sent]
  idle := hasIdleShard_iff.trans freeSlots_pos_iff.symm
  available := toNat_producerAvailable cap c p
  representable fits := by
    rw [toNat_producerAvailable]
    exact Nat.mod_eq_of_lt ((freeSlots_le cap c p).trans_lt fits)
  sends values i before := by
    obtain ⟨liveHere, same, free⟩ := afterSends_ok live shards few values before.le
    obtain ⟨after, sent, placed⟩ := trySend_some liveHere (same ▸ shards) (same ▸ few)
      (show 0 < (c.afterSends cap p values i).freeSlots cap p by omega) (values i)
    have next : c.afterSends cap p values (i + 1) = after := by
      rw [afterSends, sent]
    rw [next]
    exact ⟨sent, placed⟩
  refused values value := by
    obtain ⟨-, same, free⟩ := afterSends_ok live shards few values (le_refl (c.freeSlots cap p))
    exact trySend_none (same ▸ shards) (by omega) value
  batches := exists_batchesUntilZero shards few

end SeqMpmc

namespace MpmcState

variable {α : Type*} {size : MpmcSize} {s : MpmcState α}

/-- In every state of a channel that is not terminated, reachable or not, with fewer than
`2 ^ 32` shards. -/
theorem shardScan_agrees (few : size.n < 2 ^ 32)
    (live : (s.atRest size).isTerminalForProducer = false) (p : Nat) :
    (s.atRest size).ScanAgrees size.ringCap p :=
  SeqMpmc.scanAgrees live size.n_pos few p

/-- One of two rings is full, and the cursor points at the other. -/
theorem shardScan_agrees_oneReceived :
    ∃ s : MpmcState Nat, (system twoShards).Reachable s ∧
      (s.atRest twoShards).freeSlots twoShards.ringCap 0 = 1 ∧
        (s.atRest twoShards).ScanAgrees twoShards.ringCap 0 := by
  have ran : (Transition.execute (fun s action => s.step twoShards action) (new twoShards)
      oneReceived).map (fun s => ((s.atRest twoShards).isTerminalForProducer,
        (s.atRest twoShards).availableInShard twoShards.ringCap 0 0,
          (s.atRest twoShards).availableInShard twoShards.ringCap 0 1)) =
            some (false, 1, 0) := by
    rfl
  obtain ⟨s, ran, seen⟩ := Option.map_eq_some_iff.mp ran
  obtain ⟨live, first, second⟩ := by simpa only [Prod.mk.injEq] using seen
  refine ⟨s, System.reachable_of_execute rfl ran, ?_, shardScan_agrees (by decide) live 0⟩
  rw [SeqMpmc.freeSlots]
  exact (Finset.sum_range_succ _ 1).trans (by simp [first, second])

/-- Two shards whose free slots a word cannot count. -/
def twoHalves : MpmcSize where
  ringCap := ⟨63, by decide⟩
  m := 1
  m_pos := Nat.one_pos
  m_le := MpmcSize.one_le
  n := 2
  n_pos := Nat.two_pos

/-- The sum of `available` wraps to zero while every ring is empty. -/
theorem available_wraps_twoHalves :
    ∃ s : MpmcState Unit, (system twoHalves).Reachable s ∧
      (s.atRest twoHalves).isTerminalForProducer = false ∧
        (s.atRest twoHalves).producerAvailable twoHalves.ringCap 0 = 0 ∧
          (s.atRest twoHalves).hasIdleShard twoHalves.ringCap 0 = true ∧
            ((s.atRest twoHalves).trySend twoHalves.ringCap 0 ()).1 = .ok () := by
  refine ⟨new twoHalves, .initial rfl, rfl, ?_, ?_, ?_⟩
  · rfl
  · rfl
  · rfl

end MpmcState

end ArbitroKit
