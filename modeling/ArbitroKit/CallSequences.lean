import Mathlib.Data.Option.Basic

/-!
# Sequences of calls

Calls one after the other on a state: what they return, and what of the state they can
tell apart.  Items may be sent one by one from the end of a vector.
-/

namespace CallSequences

variable {σ τ call result α : Type*}

/-- What the calls return, as long as each of them does. -/
def outcomes (run : σ → call → Option (result × σ)) : σ → List call → Option (List result)
  | _, [] => some []
  | state, next :: calls =>
      (run state next).bind fun (returned, state) =>
        (outcomes run state calls).map fun later => returned :: later

/-- Pops `count` items and sends each on its own; `none` when one is not accepted. -/
def sendPopped (send : σ → α → Option σ) : Nat → σ → List α → Option (List α × σ)
  | 0, state, items => some (items, state)
  | count + 1, state, items =>
      items.getLast?.bind fun value =>
        (send state value).bind fun state => sendPopped send count state items.dropLast

section

variable {run : σ → call → Option (result × σ)} {view : σ → σ}

/-- Calls that answer from a view of the state, and keep to it, return the same. -/
theorem outcomes_view
    (commutes : ∀ state next, run (view state) next = (run state next).map (Prod.map id view))
    (state : σ) (calls : List call) :
    outcomes run (view state) calls = outcomes run state calls := by
  induction calls generalizing state with
  | nil => rfl
  | cons next calls ih =>
      rw [outcomes, outcomes, commutes]
      cases run state next with
      | none => rfl
      | some ran =>
          obtain ⟨returned, after⟩ := ran
          exact congrArg (Option.map fun later => returned :: later) (ih after)

theorem outcomes_congr
    (commutes : ∀ state next, run (view state) next = (run state next).map (Prod.map id view))
    {first second : σ} (same : view first = view second) (calls : List call) :
    outcomes run first calls = outcomes run second calls := by
  rw [← outcomes_view commutes first, same, outcomes_view commutes second]

end

/-- Sending to a part of the state is sending to the whole. -/
theorem sendPopped_map {send : σ → α → Option σ} {sendWhole : τ → α → Option τ} {whole : σ → τ}
    (lifts : ∀ state value, sendWhole (whole state) value = (send state value).map whole)
    (count : Nat) (state : σ) (items : List α) :
    sendPopped sendWhole count (whole state) items =
      (sendPopped send count state items).map (Prod.map id whole) := by
  induction count generalizing state items with
  | zero => rfl
  | succ count ih =>
      rw [sendPopped, sendPopped]
      cases items.getLast? with
      | none => rfl
      | some value =>
          rw [Option.bind_some, Option.bind_some, lifts]
          cases send state value with
          | none => rfl
          | some after => exact ih after items.dropLast

end CallSequences
