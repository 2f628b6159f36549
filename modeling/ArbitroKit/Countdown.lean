import ArbitroKit.TransitionSystem

/-!
# Countdowns over interleaved runs

A party that is a bounded number of its own steps away from a goal reaches it in every
run in which it takes that many steps, whatever the other parties do in between, as
long as their steps do not set it back.
-/

namespace Transition

variable {σ α : Type*}

/-- The run of the labels from the state passes through a state that meets the goal. -/
def PassesThrough (step : σ → α → Option σ) (goal : σ → Prop) (state : σ) (actions : List α) :
    Prop :=
  ∃ taken, taken <+: actions ∧ ∃ here, execute step state taken = some here ∧ goal here

/-- Every run in which the party takes `count` steps passes through the goal, and there
is a run to the goal in which it takes at most as many and nobody else takes any. -/
structure ReachedWithin (step : σ → α → Option σ) (own : α → Bool) (count : Nat)
    (goal : σ → Prop) (state : σ) : Prop where
  every : ∀ actions last, execute step state actions = some last →
    count ≤ actions.countP own → PassesThrough step goal state actions
  alone : ∃ actions last, execute step state actions = some last ∧
    (∀ action ∈ actions, own action = true) ∧ actions.length ≤ count ∧ goal last

/-- `pending left` holds while the party has at most `left` steps to take before the one
that brings the goal about. -/
structure Countdown (step : σ → α → Option σ) (own : α → Bool) (pending : Nat → σ → Prop)
    (goal : σ → Prop) : Prop where
  own_step : ∀ left state action after, pending left state → own action = true →
    step state action = some after → goal after ∨ ∃ fewer < left, pending fewer after
  other_step : ∀ left state action after, pending left state → own action = false →
    step state action = some after → goal after ∨ pending left after
  able : ∀ left state, pending left state →
    ∃ action after, own action = true ∧ step state action = some after

variable {step : σ → α → Option σ} {own : α → Bool} {pending : Nat → σ → Prop}
  {goal : σ → Prop} {state next : σ} {action : α} {actions : List α}

theorem PassesThrough.here (met : goal state) : PassesThrough step goal state actions :=
  ⟨[], List.nil_prefix, state, rfl, met⟩

theorem PassesThrough.cons (taken : step state action = some next)
    (passes : PassesThrough step goal next actions) :
    PassesThrough step goal state (action :: actions) := by
  obtain ⟨front, isPrefix, here, ran, met⟩ := passes
  refine ⟨action :: front, List.cons_prefix_cons.mpr ⟨rfl, isPrefix⟩, here, ?_, met⟩
  rw [execute, taken]
  exact ran

/-- The countdown runs out in every run in which the party takes enough steps. -/
theorem Countdown.every (countdown : Countdown step own pending goal) {left : Nat}
    (waits : pending left state) (actions : List α) :
    ∀ last, execute step state actions = some last → left + 1 ≤ actions.countP own →
      PassesThrough step goal state actions := by
  induction actions generalizing left state with
  | nil =>
      intro last ran enough
      rw [List.countP_nil] at enough
      omega
  | cons action actions ih =>
      intro last ran enough
      obtain ⟨next, taken, rest⟩ := Option.bind_eq_some_iff.mp ran
      refine .cons taken ?_
      cases isOwn : own action with
      | true =>
          rw [List.countP_cons_of_pos isOwn] at enough
          rcases countdown.own_step left _ _ _ waits isOwn taken with met | ⟨fewer, less, waits⟩
          · exact .here met
          · exact ih waits last rest (by omega)
      | false =>
          rw [List.countP_cons_of_neg (by simp [isOwn])] at enough
          rcases countdown.other_step left _ _ _ waits isOwn taken with met | waits
          · exact .here met
          · exact ih waits last rest enough

/-- The party alone brings the goal about. -/
theorem Countdown.alone (countdown : Countdown step own pending goal) {left : Nat}
    (waits : pending left state) :
    ∃ actions last, execute step state actions = some last ∧
      (∀ action ∈ actions, own action = true) ∧ actions.length ≤ left + 1 ∧ goal last := by
  induction left using Nat.strongRecOn generalizing state with
  | ind left ih =>
      obtain ⟨action, next, isOwn, taken⟩ := countdown.able left state waits
      have first (actions : List α) (owned : ∀ later ∈ actions, own later = true) :
          ∀ later ∈ action :: actions, own later = true :=
        List.forall_mem_cons.mpr ⟨isOwn, owned⟩
      rcases countdown.own_step left _ _ _ waits isOwn taken with met | ⟨fewer, less, waits⟩
      · refine ⟨[action], next, ?_, first [] (by simp), Nat.succ_le_succ (Nat.zero_le left), met⟩
        rw [execute, taken]
        rfl
      · obtain ⟨actions, last, ran, owned, short, met⟩ := ih fewer less waits
        refine ⟨action :: actions, last, ?_, first actions owned, ?_, met⟩
        · rw [execute, taken]
          exact ran
        · rw [List.length_cons]
          omega

theorem Countdown.reachedWithin (countdown : Countdown step own pending goal) {left : Nat}
    (waits : pending left state) : ReachedWithin step own (left + 1) goal state :=
  ⟨countdown.every waits, countdown.alone waits⟩

/-- What holds while a party waits, and how far the other is from ending it. -/
structure Waiting (known waiting : σ → Prop) (cause : σ → Prop) (rank : σ → Nat) (left : Nat)
    (state : σ) : Prop where
  known : known state
  waiting : waiting state
  cause : cause state
  near : rank state ≤ left

/-- A wait is counted down by a rank that the party's own steps lower and the others'
leave, as long as the wait lasts. -/
theorem Countdown.ofRank {known waiting cause : σ → Prop} {rank : σ → Nat}
    (invariant : ∀ state action after, known state → step state action = some after →
      known after)
    (lowers : ∀ state action after, known state → waiting state → cause state →
      own action = true → step state action = some after → waiting after →
        cause after ∧ rank after < rank state)
    (leaves : ∀ state action after, known state → waiting state → cause state →
      own action = false → step state action = some after → waiting after →
        cause after ∧ rank after = rank state)
    (able : ∀ state, known state → waiting state → cause state →
      ∃ action after, own action = true ∧ step state action = some after) :
    Countdown step own (Waiting known waiting cause rank) fun state => ¬ waiting state where
  own_step left state action after waits isOwn taken := by
    by_cases still : waiting after
    · have known := invariant _ _ _ waits.known taken
      obtain ⟨cause, less⟩ := lowers _ _ _ waits.known waits.waiting waits.cause isOwn taken still
      exact .inr ⟨_, Nat.lt_of_lt_of_le less waits.near, known, still, cause, Nat.le_refl _⟩
    · exact .inl still
  other_step left state action after waits isOther taken := by
    by_cases still : waiting after
    · have known := invariant _ _ _ waits.known taken
      obtain ⟨cause, same⟩ :=
        leaves _ _ _ waits.known waits.waiting waits.cause isOther taken still
      exact .inr ⟨known, still, cause, Nat.le_trans (Nat.le_of_eq same) waits.near⟩
    · exact .inl still
  able left state waits := able state waits.known waits.waiting waits.cause

/-- More steps than needed do no harm. -/
theorem ReachedWithin.mono {few many : Nat} (le : few ≤ many)
    (reached : ReachedWithin step own few goal state) :
    ReachedWithin step own many goal state where
  every actions last ran enough := reached.every actions last ran (Nat.le_trans le enough)
  alone := by
    obtain ⟨actions, last, ran, own, short, met⟩ := reached.alone
    exact ⟨actions, last, ran, own, Nat.le_trans short le, met⟩

end Transition
