import Mathlib.Logic.Relation

/-!
# Interleaved transition systems

A system of concurrent parties is a labelled transition relation: a label says
which party moves and what it chooses, and a run interleaves the parties'
steps in any order.  This file collects the rules by which properties of
single steps become properties of whole runs: invariants, restriction of the
runs to steps that meet a condition, projection onto a component, simulation
of the events that a run shows, and a rely-guarantee rule that checks every party against its own steps and against
what the others may do.
-/

namespace Transition

/-- Initial states and labelled steps over states `σ` and labels `α`. -/
structure System (σ α : Type*) where
  Initial : σ → Prop
  Step : σ → α → σ → Prop

namespace System

variable {σ α τ β ι ε : Type*}

/-- The system of an executable partial step function. -/
def ofFunction (initial : σ → Prop) (step : σ → α → Option σ) : System σ α where
  Initial := initial
  Step before action after := step before action = some after

/-- The runs all of whose steps meet `condition` in the state they are taken
from. -/
def guarded (system : System σ α) (condition : σ → α → Prop) : System σ α where
  Initial := system.Initial
  Step before action after :=
    condition before action ∧ system.Step before action after

/-- States that some run reaches from an initial state. -/
inductive Reachable (system : System σ α) : σ → Prop
  | initial {state : σ} (starts : system.Initial state) : Reachable system state
  | next {before after : σ} {action : α} (reached : Reachable system before)
      (taken : system.Step before action after) : Reachable system after

/-- One step with any label. -/
def Next (system : System σ α) (before after : σ) : Prop :=
  ∃ action, system.Step before action after

/-- Some run leads from the first state to the second. -/
def Leads (system : System σ α) : σ → σ → Prop :=
  Relation.ReflTransGen system.Next

variable {system : System σ α}

theorem Leads.single {before after : σ} {action : α}
    (taken : system.Step before action after) : system.Leads before after :=
  Relation.ReflTransGen.single ⟨action, taken⟩

theorem Reachable.leads {first last : σ} (reached : system.Reachable first)
    (leads : system.Leads first last) : system.Reachable last := by
  induction leads with
  | refl => exact reached
  | tail _ edge ih =>
      obtain ⟨action, taken⟩ := edge
      exact ih.next taken

/-- What holds initially and is preserved by every step from a reachable state
holds in every reachable state. -/
theorem Reachable.invariant {state : σ} (reached : system.Reachable state)
    (holds : σ → Prop)
    (base : ∀ state, system.Initial state → holds state)
    (preserved : ∀ before action after, system.Reachable before →
      holds before → system.Step before action after → holds after) :
    holds state := by
  induction reached with
  | initial starts => exact base _ starts
  | next reached taken ih => exact preserved _ _ _ reached ih taken

/-- What one step preserves, a run to a later state preserves. -/
theorem Leads.invariant {first last : σ} (leads : system.Leads first last)
    (holds : σ → Prop) (base : holds first)
    (preserved : ∀ before action after,
      holds before → system.Step before action after → holds after) :
    holds last := by
  induction leads with
  | refl => exact base
  | tail _ edge ih =>
      obtain ⟨action, taken⟩ := edge
      exact preserved _ _ _ ih taken

theorem Reachable.of_guarded {condition : σ → α → Prop} {state : σ}
    (reached : (system.guarded condition).Reachable state) :
    system.Reachable state := by
  induction reached with
  | initial starts => exact .initial starts
  | next _ taken ih => exact ih.next taken.2

/-- Runs under a stronger condition are runs under a weaker one. -/
theorem Reachable.guarded_mono {strong weak : σ → α → Prop} {state : σ}
    (implies : ∀ before action after, system.Step before action after →
      strong before action → weak before action)
    (reached : (system.guarded strong).Reachable state) :
    (system.guarded weak).Reachable state := by
  induction reached with
  | initial starts => exact .initial starts
  | next _ taken ih =>
      exact ih.next ⟨implies _ _ _ taken.2 taken.1, taken.2⟩

/-- The same when the stronger condition also shows in what its runs reach. -/
theorem Reachable.guarded_refine {strong weak : σ → α → Prop} {state : σ}
    (implies : ∀ before action after, (system.guarded strong).Reachable before →
      system.Step before action after → strong before action → weak before action)
    (reached : (system.guarded strong).Reachable state) :
    (system.guarded weak).Reachable state := by
  induction reached with
  | initial starts => exact .initial starts
  | next reached taken ih =>
      exact ih.next ⟨implies _ _ _ reached taken.2 taken.1, taken.2⟩

/-- A view of the state under which every step is a step of the component, or
leaves the component alone, sends runs to runs of the component. -/
theorem Reachable.project {component : System τ β} {state : σ}
    (reached : system.Reachable state) (view : σ → τ)
    (base : ∀ state, system.Initial state → component.Initial (view state))
    (moves : ∀ before action after, system.Reachable before →
      system.Step before action after →
        view after = view before ∨
          ∃ move, component.Step (view before) move (view after)) :
    component.Reachable (view state) := by
  induction reached with
  | initial starts => exact .initial (base _ starts)
  | next reached taken ih =>
      rcases moves _ _ _ reached taken with same | ⟨move, taken⟩
      · rw [same]
        exact ih
      · exact ih.next taken

/-- What an observer sees of a run: one event for each step. -/
inductive Shows (system : System σ α) (event : σ → α → ε) : σ → List ε → σ → Prop
  | nil (state : σ) : Shows system event state [] state
  | step {before after last : σ} {action : α} {events : List ε}
      (taken : system.Step before action after) (rest : Shows system event after events last) :
      Shows system event before (event before action :: events) last

theorem Shows.reachable {event : σ → α → ε} {first last : σ} {events : List ε}
    (ran : system.Shows event first events last) (reached : system.Reachable first) :
    system.Reachable last := by
  induction ran with
  | nil state => exact reached
  | step taken rest ih => exact ih (reached.next taken)

/-- A view under which every step is a step of the abstract system that is labelled with
the same event sends runs to runs that show the same. -/
theorem Shows.simulates {abstract : System τ ε} {event : σ → α → ε} {first last : σ}
    {events : List ε} (ran : system.Shows event first events last)
    (reached : system.Reachable first) (view : σ → τ)
    (moves : ∀ before action after, system.Reachable before →
      system.Step before action after →
        abstract.Step (view before) (event before action) (view after)) :
    abstract.Shows (fun _ label => label) (view first) events (view last) := by
  induction ran with
  | nil state => exact .nil _
  | step taken rest ih => exact .step (moves _ _ _ reached taken) (ih (reached.next taken))

/-- The rely-guarantee rule.  Each party `i` keeps an assertion `Local i`; a
step of its actor re-establishes the shared invariant and the actor's own
assertion, and shows to every other party only what that party relies on;
reliance keeps assertions. -/
theorem Reachable.relyGuarantee {state : σ} (reached : system.Reachable state)
    (Shared : σ → Prop) (Local : ι → σ → Prop) (Rely : ι → σ → σ → Prop) (actor : α → ι)
    (base : ∀ state, system.Initial state →
      Shared state ∧ ∀ party, Local party state)
    (own : ∀ before action after, system.Reachable before → Shared before →
      (∀ party, Local party before) → system.Step before action after →
        Shared after ∧ Local (actor action) after)
    (guarantee : ∀ before action after, system.Reachable before → Shared before →
      (∀ party, Local party before) → system.Step before action after →
        ∀ party, party ≠ actor action → Rely party before after)
    (stable : ∀ party before after, Rely party before after →
      Shared before → Shared after → Local party before → Local party after) :
    Shared state ∧ ∀ party, Local party state := by
  classical
  refine reached.invariant (fun state => Shared state ∧ ∀ party, Local party state) base ?_
  rintro before action after reached ⟨shared, locals⟩ taken
  obtain ⟨sharedAfter, ownAfter⟩ := own before action after reached shared locals taken
  refine ⟨sharedAfter, fun party => ?_⟩
  by_cases moved : party = actor action
  · rw [moved]
    exact ownAfter
  · exact stable party before after
      (guarantee before action after reached shared locals taken party moved)
      shared sharedAfter (locals party)

end System

/-- Run a list of labels through a partial step function. -/
def execute {σ α : Type*} (step : σ → α → Option σ) : σ → List α → Option σ
  | state, [] => some state
  | state, action :: actions => (step state action).bind fun next =>
      execute step next actions

/-- The same with the events that the run shows. -/
def executeShowing {σ α ε : Type*} (step : σ → α → Option σ) (event : σ → α → ε) :
    σ → List α → Option (List ε × σ)
  | state, [] => some ([], state)
  | state, action :: actions => (step state action).bind fun next =>
      (executeShowing step event next actions).map fun shown =>
        (event state action :: shown.1, shown.2)

/-- Take only the steps that meet a decidable condition. -/
def guardedStep {σ α : Type*} (condition : σ → α → Prop)
    [∀ state action, Decidable (condition state action)]
    (step : σ → α → Option σ) (state : σ) (action : α) : Option σ :=
  if condition state action then step state action else none

namespace System

variable {σ α : Type*}

theorem leads_of_execute {initial : σ → Prop} {step : σ → α → Option σ}
    {actions : List α} {first last : σ}
    (ran : execute step first actions = some last) :
    (ofFunction initial step).Leads first last := by
  induction actions generalizing first with
  | nil =>
      obtain rfl : first = last := by simpa [execute] using ran
      exact Relation.ReflTransGen.refl
  | cons action actions ih =>
      obtain ⟨next, taken, rest⟩ := Option.bind_eq_some_iff.mp ran
      exact Relation.ReflTransGen.head ⟨action, taken⟩ (ih rest)

theorem reachable_of_execute {initial : σ → Prop} {step : σ → α → Option σ}
    {actions : List α} {first last : σ} (starts : initial first)
    (ran : execute step first actions = some last) :
    (ofFunction initial step).Reachable last := by
  have start : (ofFunction initial step).Reachable first := .initial starts
  exact start.leads (leads_of_execute ran)

theorem shows_of_execute {ε : Type*} {initial : σ → Prop} {step : σ → α → Option σ}
    {event : σ → α → ε} {actions : List α} {first last : σ} {events : List ε}
    (ran : executeShowing step event first actions = some (events, last)) :
    (ofFunction initial step).Shows event first events last := by
  induction actions generalizing first events with
  | nil =>
      cases ran
      exact .nil _
  | cons action actions ih =>
      obtain ⟨next, taken, rest⟩ := Option.bind_eq_some_iff.mp ran
      obtain ⟨⟨shown, state⟩, shows, same⟩ := Option.map_eq_some_iff.mp rest
      cases same
      exact .step taken (ih shows)

theorem guarded_ofFunction (initial : σ → Prop) (step : σ → α → Option σ)
    (condition : σ → α → Prop) [∀ state action, Decidable (condition state action)] :
    (ofFunction initial step).guarded condition =
      ofFunction initial (guardedStep condition step) := by
  simp only [guarded, ofFunction, guardedStep, System.mk.injEq, true_and]
  funext before action after
  by_cases met : condition before action <;> simp [met]

theorem reachable_of_guarded_execute {initial : σ → Prop}
    {step : σ → α → Option σ} {condition : σ → α → Prop}
    [∀ state action, Decidable (condition state action)]
    {actions : List α} {first last : σ} (starts : initial first)
    (ran : execute (guardedStep condition step) first actions = some last) :
    ((ofFunction initial step).guarded condition).Reachable last := by
  rw [guarded_ofFunction]
  exact reachable_of_execute starts ran

end System

end Transition
