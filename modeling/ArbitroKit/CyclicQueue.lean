import ArbitroKit.CyclicCursor

/-!
# Queues in a ring of slots

A queue keeps its items in the slots from a cursor `tail` up to a cursor `head`, both
of which wrap.  The two ends each keep a copy of the other's cursor; a copy may be old,
but it lies where the true cursor has been since it was last of use.
-/

namespace Cyclic

variable {width : Nat} {α : Type*} {capacity : Capacity width} {slots : Nat → Option α}
  {head tail copy : BitVec width} {items rest : List α} {value : α}

theorem Capacity.slot_add_ofNat (capacity : Capacity width) (cursor : BitVec width)
    (offset : Nat) :
    capacity.slot (cursor + BitVec.ofNat width offset) =
      (cursor.toNat + offset) % capacity.size := by
  rw [Capacity.slot_eq_mod, BitVec.toNat_add, BitVec.toNat_ofNat,
    Nat.mod_mod_of_dvd _ capacity.size_dvd, Nat.add_mod,
    Nat.mod_mod_of_dvd _ capacity.size_dvd, ← Nat.add_mod]

/-- Cursors less than the capacity apart select different slots. -/
theorem Capacity.slot_ne (capacity : Capacity width) (cursor : BitVec width)
    {first last : Nat} (lt : first < last) (near : last - first < capacity.size) :
    capacity.slot (cursor + BitVec.ofNat width first) ≠
      capacity.slot (cursor + BitVec.ofNat width last) := by
  rw [Capacity.slot_add_ofNat, Capacity.slot_add_ofNat]
  intro same
  have divides : capacity.size ∣ cursor.toNat + last - (cursor.toNat + first) :=
    (Nat.modEq_iff_dvd' (by omega)).mp same
  have far := Nat.le_of_dvd (by omega) divides
  omega

theorem add_one_add_ofNat (cursor : BitVec width) (offset : Nat) :
    cursor + 1 + BitVec.ofNat width offset = cursor + BitVec.ofNat width (offset + 1) := by
  rw [← ofNat_add_one, BitVec.add_assoc, BitVec.add_comm 1]

/-- `head` is `length` ahead of `tail`, and no more than fits. -/
structure Spans (capacity : Capacity width) (head tail : BitVec width) (length : Nat) :
    Prop where
  le : length ≤ capacity.size
  head_eq : head = tail + BitVec.ofNat width length

namespace Spans

variable {length : Nat}

theorem lt (spans : Spans capacity head tail length) : length < 2 ^ width :=
  spans.le.trans_lt capacity.size_lt

/-- The wrapping difference of the cursors is how far apart they are. -/
theorem occupancy (spans : Spans capacity head tail length) : (head - tail).toNat = length := by
  rw [spans.head_eq, BitVec.add_comm, BitVec.add_sub_cancel, BitVec.toNat_ofNat,
    Nat.mod_eq_of_lt spans.lt]

theorem eq_iff (spans : Spans capacity head tail length) : head = tail ↔ length = 0 := by
  constructor
  · intro same
    have count := spans.occupancy
    rw [same, BitVec.sub_self] at count
    exact count.symm
  · rintro rfl
    simpa using spans.head_eq

end Spans

/-- The slots from `tail` up to `head` hold the items, oldest first. -/
structure Stores (capacity : Capacity width) (slots : Nat → Option α)
    (head tail : BitVec width) (items : List α) : Prop where
  length_le : items.length ≤ capacity.size
  head_eq : head = tail + BitVec.ofNat width items.length
  item : ∀ i, (inside : i < items.length) →
    slots (capacity.slot (tail + BitVec.ofNat width i)) = some items[i]

theorem stores_nil (cursor : BitVec width) : Stores capacity slots cursor cursor [] where
  length_le := Nat.zero_le _
  head_eq := by simp
  item i inside := absurd inside (Nat.not_lt_zero i)

theorem Stores.spans (stores : Stores capacity slots head tail items) :
    Spans capacity head tail items.length :=
  ⟨stores.length_le, stores.head_eq⟩

/-- The wrapping difference of the cursors counts the items. -/
theorem Stores.occupancy (stores : Stores capacity slots head tail items) :
    (head - tail).toNat = items.length :=
  stores.spans.occupancy

theorem Stores.eq_iff (stores : Stores capacity slots head tail items) :
    head = tail ↔ items = [] := by
  rw [stores.spans.eq_iff, List.length_eq_zero_iff]

/-- The oldest item is in the slot of `tail`. -/
theorem Stores.front (stores : Stores capacity slots head tail (value :: rest)) :
    slots (capacity.slot tail) = some value := by
  have first := stores.item 0 (by simp)
  simpa using first

theorem Stores.pop (stores : Stores capacity slots head tail (value :: rest)) :
    Stores capacity (Function.update slots (capacity.slot tail) none) head (tail + 1) rest where
  length_le := by
    have bound := stores.length_le
    rw [List.length_cons] at bound
    omega
  head_eq := by
    rw [add_one_add_ofNat]
    exact stores.head_eq
  item i inside := by
    have bound := stores.length_le
    rw [List.length_cons] at bound
    have apart := capacity.slot_ne tail (Nat.succ_pos i) (by omega)
    rw [BitVec.add_zero] at apart
    rw [add_one_add_ofNat, Function.update_of_ne apart.symm]
    exact stores.item (i + 1) (by rw [List.length_cons]; omega)

theorem Stores.push (stores : Stores capacity slots head tail items)
    (room : items.length < capacity.size) (value : α) :
    Stores capacity (Function.update slots (capacity.slot head) (some value)) (head + 1) tail
      (items ++ [value]) where
  length_le := by
    rw [List.length_append]
    exact room
  head_eq := by
    rw [List.length_append, List.length_singleton, ← ofNat_add_one, ← BitVec.add_assoc,
      ← stores.head_eq]
  item i inside := by
    rw [List.length_append, List.length_singleton] at inside
    rcases Nat.lt_succ_iff_lt_or_eq.mp inside with earlier | last
    · have apart := capacity.slot_ne tail earlier (by omega)
      rw [← stores.head_eq] at apart
      rw [Function.update_of_ne apart, stores.item i earlier, List.getElem_append_left earlier]
    · subst last
      rw [← stores.head_eq, Function.update_self, List.getElem_concat_length rfl]

/-- Moves the items out one by one, from cursor `tail` up to `head`: the items in their
order, and the slots that are left. -/
def drainFrom (capacity : Capacity width) (head tail : BitVec width) (slots : Nat → Option α) :
    Option (List α × (Nat → Option α)) :=
  if tail = head then
    some ([], slots)
  else
    (slots (capacity.slot tail)).bind fun value =>
      (drainFrom capacity head (tail + 1)
        (Function.update slots (capacity.slot tail) none)).map
          fun (items, slots) => (value :: items, slots)
termination_by (head - tail).toNat
decreasing_by exact toNat_sub_add_one_lt (by assumption)

theorem Stores.drainFrom (stores : Stores capacity slots head tail items) :
    ∃ left, drainFrom capacity head tail slots = some (items, left) := by
  induction items generalizing tail slots with
  | nil =>
      refine ⟨slots, ?_⟩
      rw [Cyclic.drainFrom, if_pos (stores.eq_iff.mpr rfl).symm]
  | cons value rest ih =>
      have other : tail ≠ head := fun same =>
        List.cons_ne_nil value rest (stores.eq_iff.mp same.symm)
      obtain ⟨left, drained⟩ := ih stores.pop
      refine ⟨left, ?_⟩
      rw [Cyclic.drainFrom, if_neg other, stores.front, Option.bind_some, drained]
      rfl

/-! ### Copies of the other end's cursor -/

/-- A copy of `tail` behind which no more items have gone than fit. -/
def TailCopy (capacity : Capacity width) (copy tail : BitVec width) (length : Nat) : Prop :=
  ∃ behind, tail = copy + BitVec.ofNat width behind ∧ behind + length ≤ capacity.size

/-- A copy of `head` that `tail` has not passed. -/
def HeadCopy (copy tail : BitVec width) (length : Nat) : Prop :=
  ∃ ahead, copy = tail + BitVec.ofNat width ahead ∧ ahead ≤ length

theorem Stores.tailCopy (stores : Stores capacity slots head tail items) :
    TailCopy capacity tail tail items.length :=
  ⟨0, by simp, by simpa using stores.length_le⟩

theorem Stores.headCopy (stores : Stores capacity slots head tail items) :
    HeadCopy head tail items.length :=
  ⟨items.length, stores.head_eq, le_rfl⟩

/-- From an old copy `head` looks no nearer than from `tail`. -/
theorem Spans.distance {length behind : Nat} (spans : Spans capacity head tail length)
    (tailEq : tail = copy + BitVec.ofNat width behind) (le : behind + length ≤ capacity.size) :
    (head - copy).toNat = behind + length := by
  have small := capacity.size_lt
  rw [spans.head_eq, tailEq, BitVec.add_assoc, ← BitVec.ofNat_add, BitVec.add_comm,
    BitVec.add_sub_cancel, BitVec.toNat_ofNat, Nat.mod_eq_of_lt (by omega)]

/-- Room behind an old copy is room behind `tail`. -/
theorem Spans.room_of_copy {length : Nat} (spans : Spans capacity head tail length)
    (known : TailCopy capacity copy tail length) (room : ¬ capacity.size ≤ (head - copy).toNat) :
    length < capacity.size ∧ TailCopy capacity copy tail (length + 1) := by
  obtain ⟨behind, tailEq, le⟩ := known
  rw [spans.distance tailEq le] at room
  exact ⟨by omega, behind, tailEq, by omega⟩

theorem Stores.room_of_copy (stores : Stores capacity slots head tail items)
    (known : TailCopy capacity copy tail items.length)
    (room : ¬ capacity.size ≤ (head - copy).toNat) :
    items.length < capacity.size ∧ TailCopy capacity copy tail (items.length + 1) :=
  stores.spans.room_of_copy known room

theorem TailCopy.pop {length : Nat} (known : TailCopy capacity copy tail (length + 1)) :
    TailCopy capacity copy (tail + 1) length := by
  obtain ⟨behind, tailEq, le⟩ := known
  refine ⟨behind + 1, ?_, by omega⟩
  rw [tailEq, BitVec.add_assoc, ofNat_add_one]

theorem HeadCopy.push {length : Nat} (known : HeadCopy copy tail length) :
    HeadCopy copy tail (length + 1) := by
  obtain ⟨ahead, copyEq, le⟩ := known
  exact ⟨ahead, copyEq, by omega⟩

/-- A copy of `head` other than `tail` proves an item, and survives its removal. -/
theorem Stores.some_of_copy (stores : Stores capacity slots head tail items)
    (known : HeadCopy copy tail items.length) (other : copy ≠ tail) :
    ∃ value rest, items = value :: rest ∧ HeadCopy copy (tail + 1) rest.length := by
  obtain ⟨ahead, copyEq, le⟩ := known
  cases ahead with
  | zero => exact absurd (by simpa using copyEq) other
  | succ ahead =>
      cases items with
      | nil => exact absurd le (Nat.not_succ_le_zero ahead)
      | cons value rest =>
          refine ⟨value, rest, rfl, ahead, ?_, Nat.le_of_succ_le_succ le⟩
          rw [add_one_add_ofNat]
          exact copyEq

end Cyclic
