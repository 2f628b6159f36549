import Mathlib.Logic.Basic

/-!
# Receiving until nothing comes

A receive on a state `σ` gives an item or comes back empty-handed.  A batch that looks
at every source once gives what repeated receives give, as soon as each receive that
gives an item is the batch's first step and an empty-handed one leaves nothing to it.
-/

namespace Emptying

variable {σ α : Type*}

/-- Receives repeated until one comes back empty-handed: the items in their order, and the
state in the end.  A receive that does not come back ends the repetition nowhere. -/
inductive UntilEmpty (receive : σ → Option (Option α × σ)) : σ → List α → σ → Prop
  | failed {before after : σ} (none : receive before = some (none, after)) :
      UntilEmpty receive before [] after
  | received {before middle after : σ} {value : α} {items : List α}
      (some : receive before = some (some value, middle))
      (rest : UntilEmpty receive middle items after) :
      UntilEmpty receive before (value :: items) after

/-- What a state with at most `count` items to give has to satisfy. -/
structure Step (receive : σ → Option (Option α × σ)) (batch : σ → List α → σ → Prop)
    (holds : σ → Nat → Prop) (state : σ) (count : Nat) : Prop where
  cases : (receive state = some (none, state) ∧ batch state [] state) ∨
    ∃ value middle fewer, receive state = some (some value, middle) ∧ fewer < count ∧
      holds middle fewer ∧
        ∀ items after, batch middle items after → batch state (value :: items) after

/-- A batch gives what repeated receives give, and then there is nothing more. -/
theorem exists_untilEmpty {receive : σ → Option (Option α × σ)}
    {batch : σ → List α → σ → Prop} {holds : σ → Nat → Prop}
    (step : ∀ state count, holds state count → Step receive batch holds state count)
    {state : σ} {count : Nat} (ok : holds state count) :
    ∃ items after, batch state items after ∧ UntilEmpty receive state items after ∧
      receive after = some (none, after) ∧ batch after [] after ∧
        ∃ left, holds after left := by
  induction count using Nat.strongRecOn generalizing state with
  | ind count ih =>
      rcases (step state count ok).cases with ⟨none, nothing⟩ |
        ⟨value, middle, fewer, some, less, ok, prepend⟩
      · exact ⟨[], state, nothing, .failed none, none, nothing, count, ok⟩
      · obtain ⟨items, after, batched, repeated, rest⟩ := ih fewer less ok
        exact ⟨value :: items, after, prepend items after batched, .received some repeated, rest⟩

end Emptying
