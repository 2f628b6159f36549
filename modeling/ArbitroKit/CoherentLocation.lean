import ArbitroKit.CyclicCursor
import Mathlib.Data.List.Basic

/-!
# Memory locations with stale reads

A location keeps every value ever stored to it, oldest first.  A party that
last saw the value at index `view` may next be given any value at that index
or later: it may miss stores, but it never goes back.  For a cursor that only
one party advances, `Follows` says which counts a reader can still be given.
-/

namespace Coherent

/-- A location with the values stored before the current one. -/
structure Location (β : Type*) where
  earlier : List β
  current : β

namespace Location

variable {β : Type*}

def new (value : β) : Location β := ⟨[], value⟩

/-- Every value of the location in the order of the stores. -/
def history (location : Location β) : List β :=
  location.earlier ++ [location.current]

def store (location : Location β) (value : β) : Location β :=
  ⟨location.history, value⟩

/-- The index of the current value. -/
def latest (location : Location β) : Nat := location.earlier.length

/-- Read the value at `index`, which must not be older than `view`. -/
def load (location : Location β) (view index : Nat) : Option β :=
  if view ≤ index then location.history[index]? else none

@[simp]
theorem current_store (location : Location β) (value : β) :
    (location.store value).current = value :=
  rfl

@[simp]
theorem history_store (location : Location β) (value : β) :
    (location.store value).history = location.history ++ [value] :=
  rfl

@[simp]
theorem load_latest (location : Location β) {view : Nat}
    (seen : view ≤ location.latest) :
    location.load view location.latest = some location.current := by
  rw [load, if_pos seen]
  simp [history, latest]

theorem load_eq_some {location : Location β} {view index : Nat} {value : β}
    (loaded : location.load view index = some value) :
    view ≤ index ∧ location.history[index]? = some value := by
  unfold load at loaded
  split at loaded
  · exact ⟨by assumption, loaded⟩
  · cases loaded

/-- What could be read can be read behind a store. -/
theorem load_store {location : Location β} {view index : Nat} {value : β}
    (loaded : location.load view index = some value) (stored : β) :
    (location.store stored).load view index = some value := by
  obtain ⟨seen, present⟩ := load_eq_some loaded
  rw [load, if_pos seen, history_store]
  exact List.getElem?_append_left (List.getElem?_eq_some_iff.mp present).1 ▸ present

/-- The value at the latest index is the current one. -/
theorem eq_current_of_load {location : Location β} {view : Nat} {value : β}
    (loaded : location.load view location.latest = some value) : value = location.current := by
  have present := (load_eq_some loaded).2
  simpa [history, latest] using present.symm

theorem index_of_load_latest {location : Location β} {index : Nat} {value : β}
    (loaded : location.load location.latest index = some value) :
    index = location.latest := by
  obtain ⟨le, present⟩ := load_eq_some loaded
  have inside : index < location.history.length := (List.getElem?_eq_some_iff.mp present).1
  simp only [history, List.length_append, List.length_singleton, latest] at inside le ⊢
  omega

theorem latest_le_store (location : Location β) (value : β) :
    location.latest ≤ (location.store value).latest := by
  simp [latest, store, history]

theorem le_latest_of_load {location : Location β} {view index : Nat} {value : β}
    (loaded : location.load view index = some value) : index ≤ location.latest := by
  have inside := (List.getElem?_eq_some_iff.mp (load_eq_some loaded).2).1
  simp only [history, List.length_append, List.length_singleton] at inside
  exact Nat.le_of_lt_succ inside

/-- Whoever has seen the current value can only read it again. -/
theorem load_from_latest {location : Location β} {index : Nat} {value : β}
    (loaded : location.load location.latest index = some value) :
    value = location.current := by
  obtain rfl := index_of_load_latest loaded
  exact eq_current_of_load loaded

/-- Whoever reads at the latest index or beyond reads the current value. -/
theorem current_of_load {location : Location β} {view index : Nat} {value : β}
    (loaded : location.load view index = some value) (newest : location.latest ≤ index) :
    value = location.current := by
  have inside := (List.getElem?_eq_some_iff.mp (load_eq_some loaded).2).1
  simp only [history, List.length_append, List.length_singleton] at inside
  obtain rfl : index = location.latest := by
    simp only [latest] at newest ⊢
    omega
  exact eq_current_of_load loaded

/-- Every store from the view up to the latest can be read. -/
theorem exists_load {location : Location β} {view index : Nat} (seen : view ≤ index)
    (le : index ≤ location.latest) : ∃ value, location.load view index = some value := by
  have inside : index < location.history.length := by
    simp only [history, List.length_append, List.length_singleton, latest] at le ⊢
    omega
  exact ⟨location.history[index], by rw [load, if_pos seen, List.getElem?_eq_getElem inside]⟩

/-- A compare-and-exchange by a party that last saw the value at `view`.  Only the
current value can be exchanged; a comparison that fails is a load like any other. -/
def compareExchange [DecidableEq β] (location : Location β) (view index : Nat)
    (expected replacement : β) : Option (Except β (Location β)) :=
  (location.load view index).bind fun value =>
    if value = expected then
      if index = location.latest then some (.ok (location.store replacement)) else none
    else
      some (.error value)

theorem compareExchange_ok [DecidableEq β] {location stored : Location β} {view index : Nat}
    {expected replacement : β}
    (exchanged : location.compareExchange view index expected replacement =
      some (.ok stored)) :
    location.current = expected ∧ stored = location.store replacement := by
  obtain ⟨value, loaded, decided⟩ := Option.bind_eq_some_iff.mp exchanged
  split at decided
  · rename_i same
    split at decided
    · rename_i newest
      cases decided
      have present := (load_eq_some loaded).2
      rw [newest] at present
      refine ⟨?_, rfl⟩
      rw [← same]
      simpa [history, latest] using present
    · cases decided
  · cases decided

theorem latest_le_compareExchange [DecidableEq β] {location stored : Location β}
    {view index : Nat} {expected replacement : β}
    (exchanged : location.compareExchange view index expected replacement =
      some (.ok stored)) : location.latest ≤ stored.latest := by
  obtain ⟨-, rfl⟩ := compareExchange_ok exchanged
  exact latest_le_store location replacement

theorem compareExchange_error [DecidableEq β] {location : Location β} {view index : Nat}
    {expected replacement value : β}
    (failed : location.compareExchange view index expected replacement =
      some (.error value)) :
    value ≠ expected ∧ location.load view index = some value := by
  obtain ⟨read, loaded, decided⟩ := Option.bind_eq_some_iff.mp failed
  split at decided
  · split at decided <;> cases decided
  · rename_i different
    cases decided
    exact ⟨different, loaded⟩

/-- An exchange at the newest value comes out, one way or the other. -/
theorem exists_compareExchange [DecidableEq β] (location : Location β) {view : Nat}
    (seen : view ≤ location.latest) (expected replacement : β) :
    ∃ result, location.compareExchange view location.latest expected replacement =
      some result := by
  rw [compareExchange, load_latest location seen, Option.bind_some]
  split
  · rw [if_pos rfl]
    exact ⟨_, rfl⟩
  · exact ⟨_, rfl⟩

theorem mem_history_of_load {location : Location β} {view index : Nat} {value : β}
    (loaded : location.load view index = some value) : value ∈ location.history :=
  List.mem_of_getElem? (load_eq_some loaded).2

end Location

section Cursor

open Location

variable {width : Nat}

/-- From index `view` on, the location holds the words of a nondecreasing
sequence of counts that starts at `first` and ends at `last`. -/
def Follows (location : Location (BitVec width)) (view first last : Nat) : Prop :=
  ∃ counts : List Nat,
    location.history.drop view = counts.map (BitVec.ofNat width) ∧
      counts.Pairwise (· ≤ ·) ∧ counts.head? = some first ∧
        counts.getLast? = some last

theorem follows_new (count : Nat) :
    Follows (Location.new (BitVec.ofNat width count)) 0 count count :=
  ⟨[count], rfl, List.pairwise_singleton _ _, rfl, rfl⟩

variable {location : Location (BitVec width)} {view first last : Nat}

theorem Follows.le (follows : Follows location view first last) : first ≤ last := by
  obtain ⟨counts, -, sorted, starts, ends⟩ := follows
  cases counts with
  | nil => simp at starts
  | cons head rest =>
      obtain rfl : head = first := by simpa using starts
      have member := List.mem_of_getLast? ends
      rcases List.mem_cons.mp member with rfl | later
      · exact le_rfl
      · exact List.rel_of_pairwise_cons sorted later

theorem Follows.view_le (follows : Follows location view first last) :
    view ≤ location.latest := by
  obtain ⟨counts, values, -, starts, -⟩ := follows
  by_contra beyond
  have empty : location.history.drop view = [] := by
    apply List.drop_eq_nil_of_le
    simp only [history, List.length_append, List.length_singleton, latest] at beyond ⊢
    omega
  rw [empty] at values
  obtain rfl : counts = [] := by simpa using values.symm
  simp at starts

/-- A store of a later count is followed by whoever followed the location. -/
theorem Follows.store (follows : Follows location view first last) {next : Nat}
    (later : last ≤ next) :
    Follows (location.store (BitVec.ofNat width next)) view first next := by
  have seen := follows.view_le
  obtain ⟨counts, values, sorted, starts, ends⟩ := follows
  refine ⟨counts ++ [next], ?_, ?_, ?_, by simp⟩
  · rw [history_store, List.drop_append_of_le_length, values, List.map_append]
    · rfl
    · simp only [history, List.length_append, List.length_singleton, latest] at seen ⊢
      omega
  · refine List.pairwise_append.mpr ⟨sorted, List.pairwise_singleton _ _, ?_⟩
    intro count member bound isNext
    obtain rfl : bound = next := by simpa using isNext
    obtain ⟨initial, rfl⟩ := List.getLast?_eq_some_iff.mp ends
    rcases List.mem_append.mp member with earlier | isLast
    · have := (List.pairwise_append.mp sorted).2.2 count earlier last (by simp)
      omega
    · obtain rfl : count = last := by simpa using isLast
      exact later
  · cases counts with
    | nil => simp at starts
    | cons head rest => simpa using starts

/-- A load gives some count between the last one seen and the current one,
which is then the last one seen. -/
theorem Follows.load (follows : Follows location view first last) {index : Nat}
    {value : BitVec width} (loaded : location.load view index = some value) :
    ∃ count, first ≤ count ∧ count ≤ last ∧ value = BitVec.ofNat width count ∧
      Follows location index count last := by
  obtain ⟨seen, present⟩ := load_eq_some loaded
  obtain ⟨counts, values, sorted, starts, ends⟩ := follows
  obtain ⟨offset, rfl⟩ := Nat.exists_eq_add_of_le seen
  have inCounts : (counts.map (BitVec.ofNat width))[offset]? = some value := by
    rw [← values, List.getElem?_drop, present]
  rw [List.getElem?_map, Option.map_eq_some_iff] at inCounts
  obtain ⟨count, countAt, rfl⟩ := inCounts
  have rest : Follows location (view + offset) count last := by
    refine ⟨counts.drop offset, ?_, sorted.drop, ?_, ?_⟩
    · rw [← List.drop_drop, values, List.map_drop]
    · rw [List.head?_drop, countAt]
    · rw [List.getLast?_drop, if_neg, ends]
      have inside := (List.getElem?_eq_some_iff.mp countAt).1
      omega
  refine ⟨count, ?_, rest.le, rfl, rest⟩
  cases counts with
  | nil => simp at starts
  | cons head tail =>
      obtain rfl : head = first := by simpa using starts
      rcases List.mem_cons.mp (List.mem_of_getElem? countAt) with rfl | later
      · exact le_rfl
      · exact List.rel_of_pairwise_cons sorted later

end Cursor

end Coherent
