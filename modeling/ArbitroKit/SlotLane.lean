import Mathlib.Data.Int.ModEq
import Mathlib.Data.List.Basic
import Mathlib.Logic.Function.Basic

/-!
# Lanes of reusable slots

A lane is a bounded array of slots that one writer fills and one reader
empties.  The writer puts values into slots ahead of what it has published;
the reader moves values out of slots ahead of what it has released.  Next to
the slots the lane records the history of both sides, and whether a write ever
hit a live value or a read ever missed one.  `Sound` is the discipline under
which neither happens and the reader gets exactly what the writer put in.
-/

namespace SlotLane

/-- What a slot holds: nothing yet, a value, or the bits left behind by a value
that was moved out. -/
inductive Cell (α : Type*) where
  | uninit
  | live (value : α)
  | moved (value : α)

namespace Cell

variable {α : Type*}

/-- The value the slot still owns. -/
def owned : Cell α → Option α
  | .uninit => none
  | .live value => some value
  | .moved _ => none

@[simp] theorem owned_uninit : (uninit : Cell α).owned = none := rfl
@[simp] theorem owned_live (value : α) : (live value).owned = some value := rfl
@[simp] theorem owned_moved (value : α) : (moved value).owned = none := rfl

end Cell

/-- Slots together with the history of their writes and reads. -/
structure Lane (α : Type*) where
  cells : Nat → Cell α
  /-- Every value written to a slot, in order. -/
  written : List α
  /-- How many of the written values have been published to the reader. -/
  published : Nat
  /-- Every value read out of a slot, in order. -/
  received : List α
  /-- How many of the reads have been released to the writer. -/
  released : Nat
  /-- Every value destroyed in its slot, in order. -/
  destroyed : List α
  /-- A write hit a slot that still owned a value. -/
  overwrote : Bool
  /-- A read or a destruction hit a slot that owned no value. -/
  misread : Bool

namespace Lane

variable {α : Type*}

def empty : Lane α where
  cells _ := .uninit
  written := []
  published := 0
  received := []
  released := 0
  destroyed := []
  overwrote := false
  misread := false

/-- The values published so far. -/
def sent (lane : Lane α) : List α := lane.written.take lane.published

/-- Move a value into a slot. -/
def write (lane : Lane α) (index : Nat) (value : α) : Lane α :=
  { lane with
    cells := Function.update lane.cells index (.live value)
    written := lane.written ++ [value]
    overwrote := lane.overwrote || (lane.cells index).owned.isSome }

/-- Make every written value visible to the reader. -/
def publish (lane : Lane α) : Lane α :=
  { lane with published := lane.written.length }

/-- Move a value out of a slot.  The bits stay behind, so a second read finds
them again; a slot that was never written has none. -/
def read (lane : Lane α) (index : Nat) : Option α × Lane α :=
  match lane.cells index with
  | .live value =>
      (some value,
        { lane with
          cells := Function.update lane.cells index (.moved value)
          received := lane.received ++ [value] })
  | .moved value =>
      (some value,
        { lane with received := lane.received ++ [value], misread := true })
  | .uninit => (none, { lane with misread := true })

/-- Give the slots of every value read so far back to the writer. -/
def release (lane : Lane α) : Lane α :=
  { lane with released := lane.received.length }

/-- Destroy the value in a slot. -/
def destroy (lane : Lane α) (index : Nat) : Lane α :=
  match lane.cells index with
  | .live value =>
      { lane with
        cells := Function.update lane.cells index (.moved value)
        destroyed := lane.destroyed ++ [value] }
  | .moved value =>
      { lane with destroyed := lane.destroyed ++ [value], misread := true }
  | .uninit => { lane with misread := true }

/-- The discipline of a lane with `capacity` slots: a written value that is not
yet received sits in its slot, every other slot is free, and no slot was ever
written while live or read while free. -/
structure Sound (capacity : Nat) (lane : Lane α) : Prop where
  released_le : lane.released ≤ lane.received.length
  received_le : lane.received.length ≤ lane.published
  published_le : lane.published ≤ lane.written.length
  bounded : lane.written.length ≤ lane.released + capacity
  received_eq : lane.received = lane.written.take lane.received.length
  live : ∀ index (inside : index < lane.written.length),
    lane.received.length ≤ index →
      lane.cells (index % capacity) = .live lane.written[index]
  free : ∀ slot < capacity,
    (∀ index, lane.received.length ≤ index → index < lane.written.length →
      index % capacity ≠ slot) → (lane.cells slot).owned = none
  destroyed_eq : lane.destroyed = []
  not_overwrote : lane.overwrote = false
  not_misread : lane.misread = false

@[simp]
theorem sent_publish (lane : Lane α) : lane.publish.sent = lane.written :=
  List.take_length

variable {capacity : Nat} {lane : Lane α}

theorem sound_empty : Sound capacity (empty : Lane α) where
  released_le := le_rfl
  received_le := le_rfl
  published_le := le_rfl
  bounded := Nat.zero_le _
  received_eq := rfl
  live := by simp [empty]
  free _ _ _ := rfl
  destroyed_eq := rfl
  not_overwrote := rfl
  not_misread := rfl

/-- Two counts less than `capacity` apart never share a slot. -/
theorem mod_ne_mod_of_near (capacity : Nat) {first last : Nat} (lt : first < last)
    (near : last < first + capacity) : last % capacity ≠ first % capacity := by
  intro equal
  have divides : capacity ∣ last - first :=
    (Nat.modEq_iff_dvd' lt.le).mp equal.symm
  have := Nat.le_of_dvd (by omega) divides
  omega

namespace Sound

/-- The slot after the last written value is free while there is room. -/
theorem next_free (sound : Sound capacity lane)
    (room : lane.written.length < lane.released + capacity) :
    (lane.cells (lane.written.length % capacity)).owned = none := by
  have released_le := sound.released_le
  have received_le := sound.received_le.trans sound.published_le
  refine sound.free _ (Nat.mod_lt _ (by omega)) ?_
  intro index taken inside same
  exact mod_ne_mod_of_near capacity inside (by omega) same.symm

theorem write (sound : Sound capacity lane)
    (room : lane.written.length < lane.released + capacity) (value : α) :
    Sound capacity (lane.write (lane.written.length % capacity) value) where
  released_le := sound.released_le
  received_le := sound.received_le
  published_le := by
    have := sound.published_le
    simp only [Lane.write, List.length_append, List.length_singleton]
    omega
  bounded := by
    simp only [Lane.write, List.length_append, List.length_singleton]
    omega
  received_eq := by
    have within := sound.received_le.trans sound.published_le
    simp only [Lane.write]
    rw [List.take_append_of_le_length within]
    exact sound.received_eq
  live := by
    intro index inside taken
    have released_le := sound.released_le
    simp only [Lane.write, List.length_append, List.length_singleton] at inside taken ⊢
    by_cases last : index = lane.written.length
    · subst last
      simp
    · have earlier : index < lane.written.length := by omega
      have apart : index % capacity ≠ lane.written.length % capacity := fun same =>
        mod_ne_mod_of_near capacity earlier (by omega) same.symm
      rw [Function.update_of_ne apart, List.getElem_append_left earlier]
      exact sound.live index earlier taken
  free := by
    intro slot slotLt unused
    simp only [Lane.write, List.length_append, List.length_singleton] at unused ⊢
    have received_le := sound.received_le.trans sound.published_le
    have other : slot ≠ lane.written.length % capacity := fun same =>
      unused lane.written.length received_le (by omega) same.symm
    rw [Function.update_of_ne other]
    exact sound.free slot slotLt fun index taken inside =>
      unused index taken (by omega)
  destroyed_eq := sound.destroyed_eq
  not_overwrote := by
    simp [Lane.write, sound.not_overwrote, sound.next_free room]
  not_misread := sound.not_misread

theorem publish (sound : Sound capacity lane) : Sound capacity lane.publish where
  released_le := sound.released_le
  received_le := sound.received_le.trans sound.published_le
  published_le := le_rfl
  bounded := sound.bounded
  received_eq := sound.received_eq
  live := sound.live
  free := sound.free
  destroyed_eq := sound.destroyed_eq
  not_overwrote := sound.not_overwrote
  not_misread := sound.not_misread

theorem release (sound : Sound capacity lane) : Sound capacity lane.release where
  released_le := le_rfl
  received_le := sound.received_le
  published_le := sound.published_le
  bounded := by
    have bounded := sound.bounded
    have released_le := sound.released_le
    simp only [Lane.release]
    omega
  received_eq := sound.received_eq
  live := sound.live
  free := sound.free
  destroyed_eq := sound.destroyed_eq
  not_overwrote := sound.not_overwrote
  not_misread := sound.not_misread

/-- Reading below the published count gives the next written value. -/
theorem read_eq (sound : Sound capacity lane) {value : α}
    (next : lane.written[lane.received.length]? = some value) :
    lane.read (lane.received.length % capacity) =
      (some value,
        { lane with
          cells := Function.update lane.cells (lane.received.length % capacity) (.moved value)
          received := lane.received ++ [value] }) := by
  obtain ⟨inside, rfl⟩ := List.getElem?_eq_some_iff.mp next
  simp [Lane.read, sound.live _ inside le_rfl]

/-- There is a next value to read below the published count. -/
theorem exists_next (sound : Sound capacity lane)
    (available : lane.received.length < lane.published) :
    ∃ value, lane.written[lane.received.length]? = some value :=
  ⟨_, List.getElem?_eq_getElem (available.trans_le sound.published_le)⟩

theorem read (sound : Sound capacity lane)
    (available : lane.received.length < lane.published) :
    Sound capacity (lane.read (lane.received.length % capacity)).2 := by
  obtain ⟨value, next⟩ := sound.exists_next available
  have released_le := sound.released_le
  have bounded := sound.bounded
  have extended : lane.received ++ [value] =
      lane.written.take (lane.received.length + 1) := by
    rw [List.take_add_one, next, ← sound.received_eq]
    rfl
  rw [sound.read_eq next]
  exact
    { released_le := by
        simp only [List.length_append, List.length_singleton]
        omega
      received_le := by
        simp only [List.length_append, List.length_singleton]
        omega
      published_le := sound.published_le
      bounded := bounded
      received_eq := by
        simp only [List.length_append, List.length_singleton]
        exact extended
      live := by
        intro index inside taken
        simp only [List.length_append, List.length_singleton] at taken inside ⊢
        have apart : index % capacity ≠ lane.received.length % capacity :=
          mod_ne_mod_of_near capacity (by omega) (by omega)
        rw [Function.update_of_ne apart]
        exact sound.live index inside (by omega)
      free := by
        intro slot slotLt unused
        simp only [List.length_append, List.length_singleton] at unused ⊢
        by_cases same : slot = lane.received.length % capacity
        · subst same
          simp
        · rw [Function.update_of_ne same]
          refine sound.free slot slotLt fun index taken inside => ?_
          by_cases first : index = lane.received.length
          · subst first
            exact fun equal => same equal.symm
          · exact unused index (by omega) inside
      destroyed_eq := sound.destroyed_eq
      not_overwrote := sound.not_overwrote
      not_misread := sound.not_misread }

theorem sent_write (sound : Sound capacity lane) (index : Nat) (value : α) :
    (lane.write index value).sent = lane.sent := by
  simp only [sent, Lane.write]
  exact List.take_append_of_le_length sound.published_le

theorem length_sent (sound : Sound capacity lane) :
    lane.sent.length = lane.published := by
  rw [sent, List.length_take, Nat.min_eq_left sound.published_le]

/-- What has been received is what was sent first. -/
theorem received_append (sound : Sound capacity lane) :
    lane.received ++ lane.sent.drop lane.received.length = lane.sent := by
  have first : lane.sent.take lane.received.length = lane.received := by
    rw [sent, List.take_take, Nat.min_eq_left sound.received_le]
    exact sound.received_eq.symm
  conv_lhs => rw [← first]
  rw [first, ← List.take_append_drop lane.received.length lane.sent, first]
  simp

end Sound

/-- The values owned by `count` consecutive slots from position `start` on. -/
def ownedFrom (capacity : Nat) (lane : Lane α) (start count : Nat) : List α :=
  (List.range count).filterMap fun offset =>
    (lane.cells ((start + offset) % capacity)).owned

/-- The slots between the released and the published position own exactly the
values sent and not yet received. -/
theorem Sound.ownedFrom_released (sound : Sound capacity lane) :
    lane.ownedFrom capacity lane.released (lane.published - lane.released) =
      lane.sent.drop lane.received.length := by
  have released_le := sound.released_le
  have received_le := sound.received_le
  have published_le := sound.published_le
  have bounded := sound.bounded
  have split : lane.published - lane.released =
      (lane.received.length - lane.released) +
        (lane.published - lane.received.length) := by omega
  rw [ownedFrom, split, List.range_add, List.filterMap_append]
  have taken : (List.range (lane.received.length - lane.released)).filterMap
      (fun offset =>
        (lane.cells ((lane.released + offset) % capacity)).owned) = [] := by
    apply List.filterMap_eq_nil_iff.mpr
    intro offset member
    have offsetLt := List.mem_range.mp member
    refine sound.free _ (Nat.mod_lt _ (by omega)) ?_
    intro index later inside
    exact mod_ne_mod_of_near capacity (by omega) (by omega)
  rw [taken, List.nil_append, List.filterMap_map]
  apply List.ext_getElem?
  intro position
  have owned : ∀ offset ∈ List.range (lane.published - lane.received.length),
      ((fun offset => (lane.cells ((lane.released + offset) % capacity)).owned) ∘
        fun offset => lane.received.length - lane.released + offset) offset =
        lane.written[lane.received.length + offset]? := by
    intro offset member
    have offsetLt := List.mem_range.mp member
    have position : lane.released + (lane.received.length - lane.released + offset) =
        lane.received.length + offset := by omega
    have inside : lane.received.length + offset < lane.written.length := by omega
    simp only [Function.comp_apply, position,
      sound.live _ inside (by omega), Cell.owned_live,
      List.getElem?_eq_getElem inside]
  rw [List.filterMap_congr owned]
  have present : (List.range (lane.published - lane.received.length)).filterMap
      (fun offset => lane.written[lane.received.length + offset]?) =
        lane.sent.drop lane.received.length := by
    rw [sent, List.drop_take]
    generalize count : lane.published - lane.received.length = amount
    have amountLe : lane.received.length + amount ≤ lane.written.length := by omega
    clear count owned
    induction amount with
    | zero => simp
    | succ amount ih =>
        have inside : lane.received.length + amount < lane.written.length := by omega
        rw [List.range_succ, List.filterMap_append, ih (by omega), List.take_add_one,
          List.getElem?_drop]
        simp [List.getElem?_eq_getElem inside]
  rw [present]

/-! ### Teardown -/

/-- Destroy the values in `count` consecutive slots from position `start` on. -/
def destroyFrom (capacity start : Nat) : Nat → Lane α → Lane α
  | 0, lane => lane
  | count + 1, lane =>
      destroyFrom capacity (start + 1) count (lane.destroy (start % capacity))

/-- The slots own the values written at positions `first` up to `last`, and no
others. -/
structure Holds (capacity : Nat) (lane : Lane α) (first last : Nat) : Prop where
  last_le : last ≤ lane.written.length
  bounded : last ≤ first + capacity
  live : ∀ index value, first ≤ index → index < last → lane.written[index]? = some value →
    lane.cells (index % capacity) = .live value
  free : ∀ slot < capacity,
    (∀ index, first ≤ index → index < last → index % capacity ≠ slot) →
      (lane.cells slot).owned = none

theorem Sound.holds (sound : Sound capacity lane) :
    Holds capacity lane lane.received.length lane.written.length where
  last_le := le_rfl
  bounded := by
    have bounded := sound.bounded
    have released_le := sound.released_le
    omega
  live := by
    intro index value taken before present
    obtain ⟨inside, rfl⟩ := List.getElem?_eq_some_iff.mp present
    exact sound.live index inside taken
  free := sound.free

theorem Holds.destroy_eq {first last : Nat} (holds : Holds capacity lane first last)
    (before : first < last) {value : α} (next : lane.written[first]? = some value) :
    lane.destroy (first % capacity) =
      { lane with
        cells := Function.update lane.cells (first % capacity) (.moved value)
        destroyed := lane.destroyed ++ [value] } := by
  simp [Lane.destroy, holds.live first value le_rfl before next]

theorem Holds.destroy {first last : Nat} (holds : Holds capacity lane first last)
    (before : first < last) {value : α} (next : lane.written[first]? = some value) :
    Holds capacity (lane.destroy (first % capacity)) (first + 1) last := by
  have bounded := holds.bounded
  rw [holds.destroy_eq before next]
  exact
    { last_le := holds.last_le
      bounded := by omega
      live := by
        intro index value later beforeLast present
        have apart : index % capacity ≠ first % capacity :=
          mod_ne_mod_of_near capacity (by omega) (by omega)
        dsimp only
        rw [Function.update_of_ne apart]
        exact holds.live index value (by omega) beforeLast present
      free := by
        intro slot slotLt unused
        by_cases same : slot = first % capacity
        · subst same
          simp
        · dsimp only
          rw [Function.update_of_ne same]
          refine holds.free slot slotLt fun index taken beforeLast => ?_
          rcases Nat.eq_or_lt_of_le taken with rfl | later
          · exact fun equal => same equal.symm
          · exact unused index later beforeLast }

/-- Destroying everything the slots hold destroys each value once, in order,
misses none and leaves none. -/
theorem Holds.destroyFrom {first count : Nat} {lane : Lane α}
    (holds : Holds capacity lane first (first + count)) :
    let after := lane.destroyFrom capacity first count
    after.destroyed = lane.destroyed ++ (lane.written.drop first).take count ∧
      after.misread = lane.misread ∧ after.overwrote = lane.overwrote ∧
        ∀ slot < capacity, (after.cells slot).owned = none := by
  induction count generalizing first lane with
  | zero =>
      refine ⟨by simp [Lane.destroyFrom], rfl, rfl, fun slot slotLt => ?_⟩
      exact holds.free slot slotLt (by omega)
  | succ count ih =>
      have before : first < first + (count + 1) := by omega
      have inside : first < lane.written.length := before.trans_le holds.last_le
      have next := List.getElem?_eq_getElem inside
      have rest : Holds capacity (lane.destroy (first % capacity)) (first + 1)
          (first + 1 + count) := by
        have destroyed := holds.destroy before next
        rwa [show first + (count + 1) = first + 1 + count by omega] at destroyed
      obtain ⟨destroyed, misread, overwrote, free⟩ := ih rest
      rw [holds.destroy_eq before next] at destroyed misread overwrote free
      rw [Lane.destroyFrom, holds.destroy_eq before next]
      refine ⟨?_, misread, overwrote, free⟩
      rw [destroyed, List.drop_eq_getElem_cons inside, List.take_succ_cons]
      simp

end Lane

end SlotLane
