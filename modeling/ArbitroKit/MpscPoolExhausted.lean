import ArbitroKit.MpscPoolLease

/-!
# When `acquire` returns `None`

`acquire` looks at up to four words one after the other.  That it finds each of them
full does not mean that all slots were leased at one instant: a slot behind the scan may
be given back before a slot ahead of it is taken.
-/

namespace ArbitroKit

open WordBits Transition

namespace MpscProducerPool

variable {P : Type*} {slot word : Nat}

/-- `fetch_or` clears no bit. -/
theorem occupied_setWord_or {pool : MpscProducerPool P} (bits : BitVec 64)
    (leased : pool.occupied slot = true) :
    (pool.setWord word (pool.occupancy word ||| bits)).occupied slot = true := by
  simp only [occupied, setWord] at leased ⊢
  by_cases same : slot / 64 = word
  · rw [same, Function.update_self, BitVec.getLsbD_or, ← same, leased, Bool.true_or]
  · rw [Function.update_of_ne same, leased]

/-- A word in which `acquire` finds no free bit. -/
theorem occupied_of_full {pool : MpscProducerPool P} {m : Nat}
    (full : ~~~(pool.occupancy (slot / 64)) &&& liveMask m (slot / 64) = 0)
    (inside : slot < m) : pool.occupied slot = true := by
  have small : slot % 64 < 64 := Nat.mod_lt _ (by omega)
  have whole : slot / 64 * 64 + slot % 64 = slot := by omega
  have notFree : (~~~(pool.occupancy (slot / 64)) &&& liveMask m (slot / 64)).getLsbD
      (slot % 64) = false := by
    rw [full]
    exact BitVec.getLsbD_zero
  rw [BitVec.getLsbD_and, BitVec.getLsbD_not, getLsbD_liveMask small, whole] at notFree
  simp only [small, inside, decide_true, Bool.true_and, Bool.and_true, Bool.not_eq_eq_eq_not,
    Bool.not_false] at notFree
  exact notFree

end MpscProducerPool

namespace PoolState

variable {P ι : Type*} {size : MpscSize} {s after : PoolState P ι}

/-- Every slot is leased. -/
def allLeased (size : MpscSize) (s : PoolState P ι) : Bool :=
  (List.range size.m).all s.pool.occupied

theorem allLeased_iff :
    s.allLeased size = true ↔ ∀ slot < size.m, s.pool.occupied slot = true := by
  simp [allLeased]

/-- The word a running `acquire` is at; it has found the words before it full. -/
def scanning : PoolPc P → Option Nat
  | .load word => some word
  | .fetchOr word _ => some word
  | _ => none

/-- The slot whose bit the action clears: the last step of the drop of a lease. -/
def clears (s : PoolState P ι) : PoolAction ι → Option Nat
  | .tick thread =>
      match s.threads thread with
      | .clear slot => some slot
      | _ => none
  | _ => none

/-- No slot is given back behind a running `acquire`, unless all slots are leased at
that instant. -/
def DropsAhead (size : MpscSize) (s : PoolState P ι) (action : PoolAction ι) : Prop :=
  ∀ slot ∈ s.clears action, s.allLeased size = true ∨
    ∀ thread, (scanning (s.threads thread)).all (fun word => decide (word ≤ slot / 64)) = true

instance [Fintype ι] (size : MpscSize) (s : PoolState P ι) (action : PoolAction ι) :
    Decidable (s.DropsAhead size action) :=
  inferInstanceAs (Decidable (∀ slot ∈ s.clears action, s.allLeased size = true ∨
    ∀ thread, (scanning (s.threads thread)).all (fun word => decide (word ≤ slot / 64)) = true))

/-- Every slot of the first `words` words is leased. -/
def LeasedBelow (size : MpscSize) (s : PoolState P ι) (words : Nat) : Prop :=
  ∀ slot < size.m, slot / 64 < words → s.pool.occupied slot = true

theorem LeasedBelow.zero : LeasedBelow size s 0 := by
  intro slot _ below
  omega

theorem LeasedBelow.succ {word : Nat} (below : LeasedBelow size s word)
    (full : ~~~(s.pool.occupancy word) &&& MpscProducerPool.liveMask size.m word = 0) :
    LeasedBelow size s (word + 1) := by
  intro slot inside le
  by_cases earlier : slot / 64 < word
  · exact below slot inside earlier
  · obtain rfl : slot / 64 = word := by omega
    exact MpscProducerPool.occupied_of_full full inside

/-- After the last word. -/
theorem LeasedBelow.all {words : Nat} (below : LeasedBelow size s words)
    (last : ¬ (words < bitmapWords ∧ words * 64 < size.m)) : s.allLeased size = true := by
  have le := size.m_le
  rw [allLeased_iff]
  intro slot inside
  apply below slot inside
  simp only [bitmapWords] at last
  omega

/-- What a call of `acquire` has established: all slots were leased at some instant
since it started, or the words behind it still are. -/
def Honest (size : MpscSize) (s : PoolState P ι) (sawAll : Bool) : PoolPc P → Prop
  | .load word => sawAll = true ∨ LeasedBelow size s word
  | .fetchOr word _ => sawAll = true ∨ LeasedBelow size s word
  | .returned none => sawAll = true
  | _ => True

theorem honest_enterWord {word : Nat} {sawAll : Bool}
    (sees : s.allLeased size = true → sawAll = true)
    (known : sawAll = true ∨ LeasedBelow size s word) :
    Honest size s sawAll (enterWord size word) := by
  unfold enterWord
  split
  · exact known
  · rename_i last
    rcases known with saw | below
    · exact saw
    · exact sees (below.all last)

/-- What a call has established lasts while nothing behind it is given back. -/
theorem Honest.mono {sawAll sawAfter : Bool} {pc : PoolPc P}
    (honest : Honest size s sawAll pc) (keepsSaw : sawAll = true → sawAfter = true)
    (keeps : ∀ word, scanning pc = some word → LeasedBelow size s word →
      sawAfter = true ∨ LeasedBelow size after word) : Honest size after sawAfter pc := by
  cases pc with
  | load word | fetchOr word index =>
      rcases honest with saw | below
      · exact .inl (keepsSaw saw)
      · exact keeps word rfl below
  | returned result =>
      cases result with
      | none => exact keepsSaw honest
      | some lease => trivial
  | idle | take slot | unwrapFailed | restore lease | clear slot => trivial

section Steps

variable [DecidableEq ι]

/-- Only the last step of a drop takes a mark away. -/
theorem occupied_of_step {action : PoolAction ι} (taken : s.step size action = some after)
    {slot : Nat} (leased : s.pool.occupied slot = true) :
    after.pool.occupied slot = true ∨ slot ∈ s.clears action := by
  cases action with
  | acquire thread =>
      simp only [step] at taken
      split at taken <;> cases taken
      exact .inl leased
  | dropLease thread place =>
      simp only [step] at taken
      split at taken
      · obtain ⟨lease, -, rfl⟩ := Option.map_eq_some_iff.mp taken
        exact .inl leased
      · cases taken
  | tick thread =>
      simp only [step, tick] at taken
      cases pcEq : s.threads thread with
      | idle | unwrapFailed => simp [pcEq] at taken
      | load word =>
          simp only [pcEq] at taken
          split at taken <;> cases taken <;> exact .inl leased
      | fetchOr word index =>
          simp only [pcEq] at taken
          split at taken <;> cases taken <;>
            exact .inl (MpscProducerPool.occupied_setWord_or _ leased)
      | take taking =>
          simp only [pcEq] at taken
          split at taken <;> cases taken <;> exact .inl leased
      | returned result | restore lease =>
          simp only [pcEq, Option.some.injEq] at taken
          subst taken
          exact .inl leased
      | clear clearing =>
          simp only [pcEq, Option.some.injEq] at taken
          subst taken
          by_cases same : slot = clearing
          · exact .inr (by simp [clears, pcEq, same])
          · refine .inl ?_
            change (s.pool.setWord _ _).occupied slot = true
            rw [MpscProducerPool.occupied_fetchAnd, leased]
            simpa using same

theorem LeasedBelow.step {action : PoolAction ι} (taken : s.step size action = some after)
    {words : Nat} (below : LeasedBelow size s words)
    (ahead : ∀ slot ∈ s.clears action, words ≤ slot / 64) : LeasedBelow size after words := by
  intro slot inside le
  rcases occupied_of_step taken (below slot inside le) with leased | cleared
  · exact leased
  · have := ahead slot cleared
    omega

/-- The thread that takes the step. -/
def mover : PoolAction ι → ι
  | .acquire thread => thread
  | .dropLease thread _ => thread
  | .tick thread => thread

theorem threads_of_step {action : PoolAction ι} (taken : s.step size action = some after)
    {thread : ι} (other : thread ≠ mover action) : after.threads thread = s.threads thread := by
  cases action with
  | acquire moving =>
      simp only [step] at taken
      split at taken <;> cases taken
      exact Function.update_of_ne other _ _
  | dropLease moving place =>
      simp only [step] at taken
      split at taken
      · obtain ⟨lease, -, rfl⟩ := Option.map_eq_some_iff.mp taken
        exact Function.update_of_ne other _ _
      · cases taken
  | tick moving =>
      simp only [step, tick] at taken
      cases pcEq : s.threads moving with
      | idle | unwrapFailed => simp [pcEq] at taken
      | load word | fetchOr word index | take slot =>
          simp only [pcEq] at taken
          split at taken <;> cases taken <;> exact Function.update_of_ne other _ _
      | returned result | restore lease | clear slot =>
          simp only [pcEq, Option.some.injEq] at taken
          subst taken
          exact Function.update_of_ne other _ _

end Steps

end PoolState

/-- The pool with a history: for each thread, whether all slots were leased at some
instant since its last call of `acquire` started. -/
structure WatchedPool (P ι : Type*) where
  state : PoolState P ι
  sawAll : ι → Bool

namespace WatchedPool

variable {P ι : Type*} [DecidableEq ι] {size : MpscSize} {producer : Nat → P}
  {s after : WatchedPool P ι}

def new (size : MpscSize) (producer : Nat → P) : WatchedPool P ι where
  state := PoolState.new size producer
  sawAll _ := false

/-- The action is the start of a call of `acquire` by the thread. -/
def starts (thread : ι) : PoolAction ι → Bool
  | .acquire starting => starting = thread
  | _ => false

/-- The history after a step to `state`. -/
def note (size : MpscSize) (s : WatchedPool P ι) (action : PoolAction ι)
    (state : PoolState P ι) : WatchedPool P ι where
  state := state
  sawAll thread := (s.sawAll thread && !starts thread action) || state.allLeased size

def step (size : MpscSize) (s : WatchedPool P ι) (action : PoolAction ι) :
    Option (WatchedPool P ι) :=
  (s.state.step size action).map (s.note size action)

/-- Every interleaving of the threads. -/
def system (size : MpscSize) (producer : Nat → P) :
    System (WatchedPool P ι) (PoolAction ι) :=
  System.ofFunction (fun s => s = new size producer) (step size)

/-- The runs in which a slot is given back behind a running `acquire` only while all
slots are leased. -/
def droppingAhead (size : MpscSize) (producer : Nat → P) :
    System (WatchedPool P ι) (PoolAction ι) :=
  (system size producer).guarded fun s action => s.state.DropsAhead size action

/-- An instant with all slots leased is noted for every thread. -/
structure ScanOk (size : MpscSize) (s : WatchedPool P ι) : Prop where
  now : s.state.allLeased size = true → ∀ thread, s.sawAll thread = true
  honest : ∀ thread, PoolState.Honest size s.state (s.sawAll thread) (s.state.threads thread)

theorem noted {action : PoolAction ι} {state : PoolState P ι}
    (all : state.allLeased size = true) (thread : ι) :
    (s.note size action state).sawAll thread = true := by
  simp [note, all]

/-- Another thread's step, or one that takes the scan no further, lets stand what a call
has established. -/
theorem ScanOk.keeps {action : PoolAction ι} {state : PoolState P ι} (ok : ScanOk size s)
    (ahead : s.state.DropsAhead size action) (moved : s.state.step size action = some state)
    {thread : ι} (notStarting : starts thread action = false) {pc : PoolPc P}
    (honest : PoolState.Honest size s.state (s.sawAll thread) pc)
    (words : ∀ word, PoolState.scanning pc = some word →
      PoolState.scanning (s.state.threads thread) = some word) :
    PoolState.Honest size state ((s.note size action state).sawAll thread) pc := by
  have keepsSaw : s.sawAll thread = true → (s.note size action state).sawAll thread = true := by
    intro saw
    simp [note, saw, notStarting]
  refine honest.mono keepsSaw fun word scans below => ?_
  by_cases all : s.state.allLeased size = true
  · exact .inl (keepsSaw (ok.now all thread))
  · refine .inr (below.step moved fun slot cleared => ?_)
    have behind := (ahead slot cleared).resolve_left all thread
    rw [words word scans] at behind
    simpa using behind

theorem ScanOk.ownTick {thread : ι} {state : PoolState P ι} (ok : ScanOk size s)
    (ahead : s.state.DropsAhead size (.tick thread))
    (moved : s.state.step size (.tick thread) = some state) :
    PoolState.Honest size state ((s.note size (.tick thread) state).sawAll thread)
      (state.threads thread) := by
  have honest := ok.honest thread
  have notStarting : starts thread (.tick thread) = false := rfl
  have ticked := moved
  simp only [PoolState.step, PoolState.tick] at ticked
  cases pcEq : s.state.threads thread with
  | idle | unwrapFailed => simp [pcEq] at ticked
  | load word =>
      simp only [pcEq] at ticked
      rw [pcEq] at honest
      split at ticked
      · rename_i full
        cases ticked
        simp only [PoolState.threadAt, Function.update_self]
        refine PoolState.honest_enterWord (fun all => noted all thread) ?_
        rcases honest with saw | below
        · exact .inl (by simp [note, starts, saw])
        · exact .inr (below.succ full)
      · cases ticked
        simp only [PoolState.threadAt, Function.update_self]
        exact ok.keeps ahead moved notStarting honest fun _ scans => by rw [pcEq]; exact scans
  | fetchOr word index =>
      simp only [pcEq] at ticked
      rw [pcEq] at honest
      split at ticked <;> cases ticked <;>
        simp only [PoolState.threadAt, Function.update_self]
      · trivial
      · exact ok.keeps ahead moved notStarting honest fun _ scans => by rw [pcEq]; exact scans
  | take slot =>
      simp only [pcEq] at ticked
      split at ticked <;> cases ticked <;>
        simp only [PoolState.threadAt, Function.update_self] <;> trivial
  | returned result | restore lease | clear slot =>
      simp only [pcEq, Option.some.injEq] at ticked
      subst ticked
      simp only [PoolState.threadAt, Function.update_self]
      trivial

theorem ScanOk.step {action : PoolAction ι} (ok : ScanOk size s)
    (ahead : s.state.DropsAhead size action) (taken : s.step size action = some after) :
    ScanOk size after := by
  obtain ⟨state, moved, rfl⟩ := Option.map_eq_some_iff.mp taken
  refine ⟨noted, fun thread => ?_⟩
  by_cases own : thread = PoolState.mover action
  · subst own
    cases action with
    | tick thread => exact ok.ownTick ahead moved
    | acquire thread =>
        simp only [PoolState.step] at moved
        split at moved <;> cases moved
        simp only [PoolState.mover, note, PoolState.threadAt, Function.update_self]
        refine PoolState.honest_enterWord (fun all => ?_) (.inr .zero)
        rw [all, Bool.or_true]
    | dropLease thread place =>
        simp only [PoolState.step] at moved
        split at moved
        · obtain ⟨lease, -, rfl⟩ := Option.map_eq_some_iff.mp moved
          simp only [PoolState.mover, note, PoolState.threadAt, Function.update_self]
          trivial
        · cases moved
  · have notStarting : starts thread action = false := by
      cases action with
      | acquire starting => simpa [starts] using fun same => own same.symm
      | dropLease | tick => rfl
    change PoolState.Honest size state _ (state.threads thread)
    rw [PoolState.threads_of_step moved own]
    exact ok.keeps ahead moved notStarting (ok.honest thread) fun _ scans => scans

theorem scanOk (reached : (droppingAhead size producer).Reachable s) : ScanOk size s := by
  refine reached.invariant (ScanOk size) ?base ?preserved
  case base =>
    rintro _ rfl
    refine ⟨fun all => ?_, fun _ => trivial⟩
    have first := PoolState.allLeased_iff.mp all 0 size.m_pos
    simp [new, PoolState.new, MpscProducerPool.occupied] at first
  case preserved =>
    rintro before action after - ok ⟨ahead, taken⟩
    exact ok.step ahead taken

omit [DecidableEq ι] in
theorem ScanOk.exhausted (ok : ScanOk size s) {thread : ι}
    (returned : s.state.threads thread = .returned none) : s.sawAll thread = true := by
  have honest := ok.honest thread
  rwa [returned] at honest

/-- In every run in which slots are given back ahead of the scans, `acquire` returns
`None` only if all slots were leased at some instant since its start. -/
theorem exhausted_truthfully (reached : (droppingAhead size producer).Reachable s) {thread : ι}
    (returned : s.state.threads thread = .returned none) : s.sawAll thread = true :=
  (scanOk reached).exhausted returned

/-- `acquire` has returned `None`. -/
def returnedNone : PoolPc P → Bool
  | .returned none => true
  | _ => false

theorem eq_of_returnedNone {pc : PoolPc P} (returned : returnedNone pc = true) :
    pc = .returned none := by
  unfold returnedNone at returned
  split at returned
  · rfl
  · cases returned

/-- A thread takes one slot. -/
def acquireBy (thread : ι) : List (PoolAction ι) :=
  .acquire thread :: List.replicate 4 (.tick thread)

/-- Two slots, one of them given back and leased again, then both are taken. -/
def fillTwice : List (PoolAction (Fin 2)) :=
  acquireBy 0 ++ acquireBy 0 ++ [PoolAction.dropLease 0 0, .tick 0, .tick 0] ++ acquireBy 1 ++
    [PoolAction.acquire 1, .tick 1]

theorem exhausted_truthfully_fillTwice :
    ∃ s : WatchedPool Nat (Fin 2), (droppingAhead PoolState.twoSlots id).Reachable s ∧
      s.state.threads 1 = .returned none ∧ s.sawAll 1 = true := by
  have ran : (Transition.execute (Transition.guardedStep
      (fun (s : WatchedPool Nat (Fin 2)) action => s.state.DropsAhead PoolState.twoSlots action)
      (step PoolState.twoSlots)) (new PoolState.twoSlots id) fillTwice).any
        (fun s => returnedNone (s.state.threads 1)) = true := by
    decide +kernel
  obtain ⟨s, ran, returned⟩ := Option.any_eq_true _ _ |>.mp ran
  have reached : (droppingAhead PoolState.twoSlots id).Reachable s :=
    System.reachable_of_guarded_execute rfl ran
  have exhausted := eq_of_returnedNone returned
  exact ⟨s, reached, exhausted, exhausted_truthfully reached exhausted⟩

/-- Two words, the second with one slot. -/
def twoWords : MpscSize := ⟨oneSlotCap, 65, by decide, by decide⟩

/-- Slot 64 is free.  Threads 1 and 2 find the first word full; slot 0 is given back and
thread 1 takes slot 64, so that thread 2 finds the second word full too. -/
def dropBehindScan : List (PoolAction (Fin 3)) :=
  (List.replicate 64 (acquireBy 0)).flatten ++
    [PoolAction.acquire 1, .tick 1, .acquire 2, .tick 2, .dropLease 0 0, .tick 0, .tick 0, .tick 1,
      .tick 1, .tick 2]

/-- At every instant of the call slot 0 or slot 64 is free, and it returns `None`. -/
theorem notExhausted_dropBehindScan :
    ∃ s : WatchedPool Nat (Fin 3), (system twoWords id).Reachable s ∧
      s.state.threads 2 = .returned none ∧ s.sawAll 2 = false := by
  have ran : (Transition.execute (step twoWords) (new twoWords id : WatchedPool Nat (Fin 3))
      dropBehindScan).any
        (fun s => returnedNone (s.state.threads 2) && !s.sawAll 2) = true := by
    decide +kernel
  obtain ⟨s, ran, seen⟩ := Option.any_eq_true _ _ |>.mp ran
  obtain ⟨returned, notAll⟩ := (Bool.and_eq_true _ _).mp seen
  exact ⟨s, System.reachable_of_execute rfl ran, eq_of_returnedNone returned,
    by simpa using notAll⟩

/-! ### Up to 64 slots -/

theorem state_reachable (reached : (system size producer).Reachable s) :
    (PoolState.system size producer).Reachable s.state := by
  refine reached.project (fun s => s.state) ?_ ?_
  · rintro _ rfl
    rfl
  · intro before action after _ taken
    obtain ⟨state, moved, rfl⟩ := Option.map_eq_some_iff.mp taken
    exact .inr ⟨action, moved⟩

/-- With one word there is nothing behind a scan. -/
theorem dropsAhead_of_oneWord (small : size.m ≤ 64)
    (reached : (system size producer).Reachable s) (action : PoolAction ι) :
    s.state.DropsAhead size action := by
  intro slot _
  refine .inr fun thread => ?_
  have inRange := (PoolState.poolOk (state_reachable reached)).inRange thread
  cases pcEq : s.state.threads thread with
  | load word | fetchOr word index =>
      rw [pcEq] at inRange
      simp only [PoolState.InRange] at inRange
      simp only [PoolState.scanning, Option.all_some, decide_eq_true_eq]
      omega
  | _ => rfl

theorem droppingAhead_of_oneWord (small : size.m ≤ 64)
    (reached : (system size producer).Reachable s) :
    (droppingAhead size producer).Reachable s := by
  induction reached with
  | initial starts => exact .initial starts
  | next reached taken ih => exact ih.next ⟨dropsAhead_of_oneWord small reached _, taken⟩

/-- The single look at the one word is the instant. -/
theorem exhausted_of_oneWord (small : size.m ≤ 64)
    (reached : (system size producer).Reachable s) {thread : ι}
    (returned : s.state.threads thread = .returned none) : s.sawAll thread = true :=
  (scanOk (droppingAhead_of_oneWord small reached)).exhausted returned

end WatchedPool

end ArbitroKit
