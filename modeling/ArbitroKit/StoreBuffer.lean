import Mathlib.Logic.Function.Basic
import Mathlib.Logic.Relation

/-!
# Memory behind store buffers

Each thread has a first-in first-out buffer of stores that the others do not see
yet.  A load sees the thread's own latest pending store, or else the memory; a
pending store reaches the memory at any later time.  A fence and an atomic
read-modify-write wait for the thread's own buffer to drain.

A predicate over such a memory is not evaluated at once: it loads one location
after the other, and decides by what it has loaded what to load next.
-/

namespace ArbitroKit

namespace Buffered

section Memory

variable {τ L V : Type*}

/-- The memory and the pending stores of each thread, oldest first. -/
structure Memory (τ L V : Type*) where
  cells : L → V
  pending : τ → List (L × V)

namespace Memory

/-- All buffers are empty. -/
def initial (cells : L → V) : Memory τ L V where
  cells := cells
  pending _ := []

/-- What the thread loads: its own latest pending store, or the memory. -/
def load [DecidableEq L] (memory : Memory τ L V) (thread : τ) (location : L) : V :=
  match (memory.pending thread).reverse.find? fun entry => decide (entry.1 = location) with
  | some entry => entry.2
  | none => memory.cells location

variable [DecidableEq τ]

/-- A store goes into the buffer. -/
def store (memory : Memory τ L V) (thread : τ) (location : L) (value : V) : Memory τ L V :=
  { memory with
    pending := Function.update memory.pending thread
      (memory.pending thread ++ [(location, value)]) }

/-- The thread's buffer is empty. -/
def drained (memory : Memory τ L V) (thread : τ) : Bool := (memory.pending thread).isEmpty

variable [DecidableEq L]

/-- A value reaches the memory. -/
def write (memory : Memory τ L V) (location : L) (value : V) : Memory τ L V :=
  { memory with cells := Function.update memory.cells location value }

/-- The thread's oldest pending store reaches the memory. -/
def flush (memory : Memory τ L V) (thread : τ) : Option (Memory τ L V) :=
  match memory.pending thread with
  | [] => none
  | (location, value) :: rest =>
      some { (memory.write location value) with
        pending := Function.update memory.pending thread rest }

omit [DecidableEq τ] in
theorem load_of_drained {memory : Memory τ L V} {thread : τ} (empty : memory.pending thread = [])
    (location : L) : memory.load thread location = memory.cells location := by
  simp [load, empty]

omit [DecidableEq τ] in
@[simp]
theorem pending_write (memory : Memory τ L V) (location : L) (value : V) :
    (memory.write location value).pending = memory.pending := rfl

omit [DecidableEq L] in
theorem pending_store_of_ne (memory : Memory τ L V) {thread other : τ} (location : L) (value : V)
    (ne : other ≠ thread) :
    (memory.store thread location value).pending other = memory.pending other :=
  Function.update_of_ne ne ..

theorem flush_eq_some {memory after : Memory τ L V} {thread : τ}
    (flushed : memory.flush thread = some after) :
    ∃ location value rest, memory.pending thread = (location, value) :: rest ∧
      after.cells = Function.update memory.cells location value ∧
        after.pending = Function.update memory.pending thread rest := by
  unfold flush at flushed
  split at flushed
  · cases flushed
  · rename_i location value rest entries
    cases flushed
    exact ⟨location, value, rest, entries, rfl, rfl⟩

theorem pending_flush_of_ne {memory after : Memory τ L V} {thread other : τ}
    (flushed : memory.flush thread = some after) (ne : other ≠ thread) :
    after.pending other = memory.pending other := by
  obtain ⟨location, value, rest, -, -, pending⟩ := flush_eq_some flushed
  rw [pending, Function.update_of_ne ne]

/-- A buffer drains by flushes of its own. -/
theorem flushes_drain (memory : Memory τ L V) (thread : τ) :
    ∃ last : Memory τ L V, last.drained thread = true ∧
      Relation.ReflTransGen (fun before after => before.flush thread = some after) memory last := by
  generalize entries : memory.pending thread = pending
  induction pending generalizing memory with
  | nil =>
      refine ⟨memory, ?_, .refl⟩
      rw [drained, entries]
      rfl
  | cons entry rest ih =>
      let after : Memory τ L V :=
        { (memory.write entry.1 entry.2) with
          pending := Function.update memory.pending thread rest }
      have flushed : memory.flush thread = some after := by
        unfold flush
        rw [entries]
      obtain ⟨last, empty, flushes⟩ := ih after (Function.update_self ..)
      exact ⟨last, empty, .head flushed flushes⟩

end Memory

end Memory

/-! ### Predicates that load one location after the other -/

variable {L V : Type*}

/-- What is left of an evaluation. -/
inductive Probe (L V : Type*) where
  | answer (ready : Bool)
  | load (location : L) (next : V → Probe L V)

namespace Probe

/-- The answer over a memory that does not change any more. -/
def holds (cells : L → V) : Probe L V → Bool
  | .answer ready => ready
  | .load location next => (next (cells location)).holds cells

end Probe

end Buffered

end ArbitroKit
