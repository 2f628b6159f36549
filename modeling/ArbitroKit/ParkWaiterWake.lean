import ArbitroKit.ParkWaiter

/-!
# A parked thread is never forgotten

From its announcement until it leaves, the waiting thread has no store pending, and
its evaluations read the memory.  What it relies on is that data it has not seen is
followed by a waker: a publication that reaches the memory later belongs to a waker
that has not passed its fence, and that one finds the flag set.  The claim is carried
by what is left of the running evaluation: if the predicate holds of the memory then
so does its rest, or a token is stored, or a waker is on its way.
-/

namespace ArbitroKit

open Buffered Transition

namespace ParkState

variable {ι L V : Type*} {spinIters : Nat} {cells : L → V} {s after : ParkState ι L V} {i : ι}

/-- The waiting thread has announced itself and not left the park path. -/
def between : ParkWaiterPc L V → Bool
  | .fence _ _ => true
  | .recheck _ _ _ => true
  | .clock _ => true
  | .park _ _ => true
  | .parkReturned _ _ _ => true
  | .leave _ => true
  | .leaveElapsed _ => true
  | _ => false

/-- The predicate of the announced evaluation, and what is left of it; in front of a
sleep nothing is left. -/
def looking : ParkWaiterPc L V → Option (Probe L V × Probe L V)
  | .fence _ ready => some (ready, ready)
  | .recheck _ ready rest => some (ready, rest)
  | .clock ready => some (ready, .answer false)
  | .park _ ready => some (ready, .answer false)
  | .parkReturned _ ready rest => some (ready, rest)
  | _ => none

/-- The thread has passed the assertion that it is registered. -/
def engaged : ParkWaiterPc L V → Bool
  | .spin _ _ _ _ => true
  | .spinClock _ _ => true
  | .announce _ _ => true
  | pc => between pc

/-- The thread is storing its handle. -/
def registering : ParkWaiterPc L V → Bool
  | .publishRegistered => true
  | _ => false

/-- Waker `i` is inside `wake`. -/
def insideWake (pc : ParkWakerPc) : Bool := decide (pc ≠ .idle)

/-- A waker that may have a publication pending. -/
def mayPublish : ParkWakerPc → Bool
  | .probe => true
  | .fence => true
  | .deliver => true
  | _ => false

/-- Data the evaluation may have missed is followed by a token or by a waker. -/
def Covered (s : ParkState ι L V) (ready : Probe L V) (rest : Probe L V) : Prop :=
  (ready.holds s.memory.cells = true → rest.holds s.memory.cells = true) ∨
    s.token = true ∨ ∃ i, insideWake (s.wakers i) = true

/-- What holds of the waiter and its threads in every run. -/
structure ParkOk (s : ParkState ι L V) : Prop where
  flag : s.parked = .parked ↔ between s.waiter = true
  drained : between s.waiter = true → s.memory.pending .waiter = []
  worker : s.registered = true → s.worker = true
  registering : registering s.waiter = true → s.worker = true
  engaged : engaged s.waiter = true → s.worker = true
  pending : ∀ i, s.memory.pending (.waker i) ≠ [] → mayPublish (s.wakers i) = true
  covered : ∀ ready rest, looking s.waiter = some (ready, rest) → s.Covered ready rest

theorem between_of_looking {pc : ParkWaiterPc L V} {found : Probe L V × Probe L V}
    (looks : looking pc = some found) : between pc = true := by
  cases pc <;> first | rfl | cases looks

theorem registering_of_looking {pc : ParkWaiterPc L V} {found : Probe L V × Probe L V}
    (looks : looking pc = some found) : registering pc = false := by
  cases pc <;> first | rfl | cases looks

theorem engaged_of_between {pc : ParkWaiterPc L V} (announced : between pc = true) :
    engaged pc = true := by
  cases pc <;> first | rfl | cases announced

theorem parkOk_new : ParkOk (new cells : ParkState ι L V) where
  flag := ⟨(fun same => by cases same), fun same => by cases same⟩
  drained same := by cases same
  worker same := by cases same
  registering same := by cases same
  engaged same := by cases same
  pending _ some := absurd rfl some
  covered _ _ same := by cases same

/-! ### Steps of the waiting thread -/

/-- The waiting thread goes on, on the same side of the announcement. -/
theorem ParkOk.goto (ok : ParkOk s) {pc : ParkWaiterPc L V}
    (same : between pc = between s.waiter) (elsewhere : ParkState.registering pc = false)
    (registered : ParkState.engaged pc = false ∨ s.worker = true)
    (covered : ∀ ready rest, looking pc = some (ready, rest) → s.Covered ready rest) :
    ParkOk (s.waiterAt pc) where
  flag := by
    rw [waiterAt, same]
    exact ok.flag
  drained announced := ok.drained (same.symm.trans announced)
  worker := ok.worker
  registering here := absurd (elsewhere.symm.trans here) Bool.false_ne_true
  engaged engaged := registered.resolve_left fun never =>
    Bool.false_ne_true (never.symm.trans engaged)
  pending := ok.pending
  covered := covered

/-- Outside the announced part nothing is relied on. -/
theorem ParkOk.away (ok : ParkOk s) {pc : ParkWaiterPc L V}
    (before : between s.waiter = false) (later : between pc = false)
    (elsewhere : ParkState.registering pc = false)
    (registered : ParkState.engaged pc = false ∨ s.worker = true) : ParkOk (s.waiterAt pc) := by
  refine ok.goto (later.trans before.symm) elsewhere registered fun ready rest looks => ?_
  rw [between_of_looking looks] at later
  cases later

/-- The spinning loops lead to no announced place. -/
theorem between_spinAt (spinIters : Nat) (call : ParkCall) (ready : Probe L V) (turn : Nat) :
    between (spinAt spinIters call ready turn) = false ∧
      registering (spinAt spinIters call ready turn) = false := by
  unfold spinAt
  split <;> exact ⟨rfl, rfl⟩

/-- A false answer leads to the sleep, or to the clock in front of it. -/
theorem looking_parkLoop (call : ParkCall) (ready : Probe L V) :
    between (parkLoop call ready) = true ∧ registering (parkLoop call ready) = false ∧
      looking (parkLoop call ready) = some (ready, .answer false) := by
  cases call <;> exact ⟨rfl, rfl, rfl⟩

/-- T2: the flag goes back together with the place. -/
theorem ParkOk.clear (ok : ParkOk s) {pc : ParkWaiterPc L V} (later : between pc = false)
    (elsewhere : ParkState.registering pc = false)
    (unengaged : ParkState.engaged pc = false) :
    ParkOk ({ s with parked := .unparked }.waiterAt pc) where
  flag := ⟨(fun same => by cases same), fun announced =>
    absurd (later.symm.trans announced) Bool.false_ne_true⟩
  drained announced := absurd (later.symm.trans announced) Bool.false_ne_true
  worker := ok.worker
  registering here := absurd (elsewhere.symm.trans here) Bool.false_ne_true
  engaged engaged := absurd (unengaged.symm.trans engaged) Bool.false_ne_true
  pending := ok.pending
  covered ready rest looks :=
    absurd (later.symm.trans (between_of_looking looks)) Bool.false_ne_true

theorem pending_of_drained {thread : ParkThread ι} (drained : s.memory.drained thread = true) :
    s.memory.pending thread = [] :=
  List.isEmpty_iff.mp drained

/-- A place off the announced part, with the worker registered where that matters. -/
def Off (s : ParkState ι L V) (pc : ParkWaiterPc L V) : Prop :=
  between pc = false ∧ registering pc = false ∧ (engaged pc = false ∨ s.worker = true)

theorem off_spinAt (spinIters : Nat) (registered : s.worker = true) (call : ParkCall)
    (ready : Probe L V) (turn : Nat) : s.Off (spinAt spinIters call ready turn) := by
  obtain ⟨later, elsewhere⟩ := between_spinAt spinIters call ready turn
  exact ⟨later, elsewhere, .inr registered⟩

/-- The waiting thread writes between two waits. -/
theorem ParkOk.writes (ok : ParkOk s) {memory : Memory (ParkThread ι) L V}
    (idle : s.waiter = .idle)
    (others : ∀ j, memory.pending (.waker j) = s.memory.pending (.waker j)) :
    ParkOk { s with memory := memory } where
  flag := ok.flag
  drained announced := by
    rw [idle] at announced
    cases announced
  worker := ok.worker
  registering := ok.registering
  engaged := ok.engaged
  pending j some := ok.pending j (others j ▸ some)
  covered ready rest looks := by
    rw [idle] at looks
    cases looks

section Evaluation

variable [DecidableEq L]

/-- The evaluation loads one location, or has its answer. -/
theorem covered_load (ok : ParkOk s) {ready : Probe L V} {location : L} {next : V → Probe L V}
    (looks : looking s.waiter = some (ready, .load location next)) :
    s.Covered ready (next (s.memory.load .waiter location)) := by
  have drained := ok.drained (between_of_looking looks)
  have here : s.Covered ready (.load location next) := ok.covered ready _ looks
  rw [Memory.load_of_drained drained]
  exact here

/-- An evaluation inside the announced part. -/
theorem ParkOk.evaluate (ok : ParkOk s) {call : ParkCall} {ready : Probe L V}
    {rest : Probe L V} {loaded : Probe L V → ParkWaiterPc L V}
    (looks : looking s.waiter = some (ready, rest))
    (goes : ∀ rest, looking (loaded rest) = some (ready, rest)) :
    ParkOk (s.evaluate rest loaded fun answer =>
      if answer then .leave call else parkLoop call ready) := by
  have announced := between_of_looking looks
  have registered := ok.engaged (engaged_of_between announced)
  unfold ParkState.evaluate
  cases rest with
  | load location next =>
      have here := goes (next (s.memory.load .waiter location))
      refine ok.goto ((between_of_looking here).trans announced.symm) (registering_of_looking here)
        (.inr registered) fun found rest looks' => ?_
      rw [here] at looks'
      cases looks'
      exact covered_load ok looks
  | answer answer =>
      cases answer with
      | true =>
          exact ok.goto announced.symm rfl (.inr registered) fun _ _ never => by cases never
      | false =>
          obtain ⟨stays, elsewhere, here⟩ := looking_parkLoop call ready
          refine ok.goto (stays.trans announced.symm) elsewhere (.inr registered)
            fun found rest looks' => ?_
          have looks' : looking (parkLoop call ready) = some (found, rest) := looks'
          rw [here] at looks'
          cases looks'
          exact ok.covered ready _ looks

/-- An evaluation outside the announced part. -/
theorem ParkOk.evaluateAway (ok : ParkOk s) {rest : Probe L V}
    {loaded : Probe L V → ParkWaiterPc L V} {answered : Bool → ParkWaiterPc L V}
    (before : between s.waiter = false) (goes : ∀ rest, s.Off (loaded rest))
    (comes : ∀ answer, s.Off (answered answer)) :
    ParkOk (s.evaluate rest loaded answered) := by
  unfold ParkState.evaluate
  cases rest with
  | load location next =>
      obtain ⟨later, elsewhere, registered⟩ := goes (next (s.memory.load .waiter location))
      exact ok.away before later elsewhere registered
  | answer answer =>
      obtain ⟨later, elsewhere, registered⟩ := comes answer
      exact ok.away before later elsewhere registered

theorem ParkOk.tick (ok : ParkOk s) (taken : s.tick spinIters = some after) : ParkOk after := by
  unfold ParkState.tick at taken
  cases pcEq : s.waiter with
  | idle | spinClock ready turn | clock ready | panicked => simp [pcEq] at taken
  | publishRegistered =>
      have stored := ok.registering (by rw [pcEq]; rfl)
      simp only [pcEq, Option.some.injEq] at taken
      subst taken
      have before : between s.waiter = false := by rw [pcEq]; rfl
      exact
        { flag := ok.flag.trans ⟨fun announced => absurd (before.symm.trans announced)
            Bool.false_ne_true, fun same => by cases same⟩
          drained := fun same => by cases same
          worker := fun _ => stored
          registering := fun same => by cases same
          engaged := fun same => by cases same
          pending := ok.pending
          covered := fun _ _ same => by cases same }
  | entry call ready rest =>
      simp only [pcEq, Option.some.injEq] at taken
      subst taken
      refine ok.evaluateAway (by rw [pcEq]; rfl) (fun rest => ⟨rfl, rfl, .inl rfl⟩) fun answer => ?_
      cases answer <;> exact ⟨rfl, rfl, .inl rfl⟩
  | hasWorker call ready =>
      have before : between s.waiter = false := by rw [pcEq]; rfl
      simp only [pcEq] at taken
      split at taken <;> cases taken
      · rename_i registered
        obtain ⟨later, elsewhere, registered⟩ :=
          off_spinAt spinIters (ok.worker registered) call ready 0
        exact ok.away before later elsewhere registered
      · exact ok.away before rfl rfl (.inl rfl)
  | spin call ready turn rest =>
      have registered : s.worker = true := ok.engaged (by rw [pcEq]; rfl)
      simp only [pcEq, Option.some.injEq] at taken
      subst taken
      refine ok.evaluateAway (by rw [pcEq]; rfl) (fun rest => ⟨rfl, rfl, .inr registered⟩)
        fun answer => ?_
      cases answer with
      | true => exact ⟨rfl, rfl, .inl rfl⟩
      | false =>
          cases call with
          | waitUntil => exact off_spinAt spinIters registered .waitUntil ready (turn + 1)
          | waitUntilDeadline => exact ⟨rfl, rfl, .inr registered⟩
  | announce call ready =>
      have registered : s.worker = true := ok.engaged (by rw [pcEq]; rfl)
      simp only [pcEq] at taken
      split at taken <;> cases taken
      rename_i drained
      exact
        { flag := ⟨fun _ => rfl, fun _ => rfl⟩
          drained := fun _ => pending_of_drained drained
          worker := ok.worker
          registering := fun same => by cases same
          engaged := fun _ => registered
          pending := ok.pending
          covered := fun found rest looks => by
            cases looks
            exact .inl fun holds => holds }
  | fence call ready =>
      have registered : s.worker = true := ok.engaged (by rw [pcEq]; rfl)
      simp only [pcEq] at taken
      split at taken <;> cases taken
      refine ok.goto (by rw [pcEq]; rfl) rfl (.inr registered) fun found rest looks => ?_
      cases looks
      exact .inl fun holds => holds
  | recheck call ready rest | parkReturned call ready rest =>
      simp only [pcEq, Option.some.injEq] at taken
      subst taken
      exact ok.evaluate (by rw [pcEq]; rfl) fun _ => rfl
  | park call ready =>
      have registered : s.worker = true := ok.engaged (by rw [pcEq]; rfl)
      simp only [pcEq] at taken
      split at taken <;> cases taken
      have announced : between s.waiter = true := by rw [pcEq]; rfl
      exact
        { flag := ⟨fun _ => rfl, fun _ => ok.flag.mpr announced⟩
          drained := fun _ => ok.drained announced
          worker := ok.worker
          registering := fun same => by cases same
          engaged := fun _ => registered
          pending := ok.pending
          covered := fun found rest looks => by
            cases looks
            exact .inl fun holds => holds }
  | leave call | leaveElapsed ready =>
      simp only [pcEq] at taken
      split at taken <;> cases taken
      exact ok.clear rfl rfl rfl
  | lastLook rest =>
      simp only [pcEq, Option.some.injEq] at taken
      subst taken
      exact ok.evaluateAway (by rw [pcEq]; rfl) (fun rest => ⟨rfl, rfl, .inl rfl⟩)
        fun answer => ⟨rfl, rfl, .inl rfl⟩
  | returned outcome =>
      simp only [pcEq, Option.some.injEq] at taken
      subst taken
      exact ok.away (by rw [pcEq]; rfl) rfl rfl (.inl rfl)

end Evaluation

/-! ### Steps of the wakers -/

variable [DecidableEq ι]

theorem wakers_wakerAt (s : ParkState ι L V) (i : ι) (pc : ParkWakerPc) :
    (s.wakerAt i pc).wakers i = pc :=
  Function.update_self ..

theorem wakers_wakerAt_of_ne (s : ParkState ι L V) {i j : ι} (pc : ParkWakerPc)
    (ne : j ≠ i) : (s.wakerAt i pc).wakers j = s.wakers j :=
  Function.update_of_ne ne ..

/-- A waker that is inside `wake` before and after a step, or has stored the token. -/
theorem Covered.wakerAt {moved : ParkState ι L V} {ready : Probe L V} {rest : Probe L V}
    (covered : s.Covered ready rest) (memory : moved.memory = s.memory)
    (token : moved.token = s.token) (wakers : moved.wakers = s.wakers) {pc : ParkWakerPc}
    (inside : insideWake pc = true) : (moved.wakerAt i pc).Covered ready rest := by
  rcases covered with quiet | pending | ⟨j, onWay⟩
  · refine .inl ?_
    rw [ParkState.wakerAt, memory]
    exact quiet
  · exact .inr (.inl (token.trans pending))
  · refine .inr (.inr ⟨j, ?_⟩)
    by_cases same : j = i
    · rw [same, wakers_wakerAt]
      exact inside
    · rw [wakers_wakerAt_of_ne _ _ same, wakers]
      exact onWay

/-- A step inside `wake` that keeps the waker inside. -/
theorem ParkOk.wakerGoes (ok : ParkOk s) {pc : ParkWakerPc} (inside : insideWake pc = true)
    (may : s.memory.pending (.waker i) ≠ [] → mayPublish pc = true) :
    ParkOk (s.wakerAt i pc) where
  flag := ok.flag
  drained := ok.drained
  worker := ok.worker
  registering := ok.registering
  engaged := ok.engaged
  pending j some := by
    by_cases same : j = i
    · subst same
      rw [wakers_wakerAt]
      exact may some
    · rw [wakers_wakerAt_of_ne _ _ same]
      exact ok.pending j some
  covered ready rest looks := (ok.covered ready rest looks).wakerAt rfl rfl rfl inside

/-- A waker leaves `wake`, with the token stored or nobody on the park path. -/
theorem ParkOk.wakerLeaves (ok : ParkOk s) {token : Bool}
    (empty : s.memory.pending (.waker i) = [])
    (released : token = true ∨ between s.waiter = false) :
    ParkOk ({ s with token := token }.wakerAt i .idle) where
  flag := ok.flag
  drained := ok.drained
  worker := ok.worker
  registering := ok.registering
  engaged := ok.engaged
  pending j some := by
    by_cases same : j = i
    · subst same
      exact absurd empty some
    · rw [wakers_wakerAt_of_ne _ _ same]
      exact ok.pending j some
  covered ready rest looks := by
    rcases released with stored | away
    · exact .inr (.inl stored)
    · exact absurd (away.symm.trans (between_of_looking looks)) Bool.false_ne_true

theorem ParkOk.wakerTick (ok : ParkOk s) (taken : s.wakerTick i = some after) :
    ParkOk after := by
  have away (unparked : ¬ s.parked = .parked) : between s.waiter = false :=
    Bool.eq_false_iff.mpr fun announced => unparked (ok.flag.mpr announced)
  have empty {pc : ParkWakerPc} (pcEq : s.wakers i = pc) (quiet : mayPublish pc = false) :
      s.memory.pending (.waker i) = [] := by
    by_contra some
    have may := ok.pending i some
    rw [pcEq, quiet] at may
    cases may
  unfold ParkState.wakerTick at taken
  cases pcEq : s.wakers i with
  | idle => simp [pcEq] at taken
  | probe =>
      simp only [pcEq] at taken
      split at taken <;> cases taken <;> exact ok.wakerGoes rfl fun _ => rfl
  | fence =>
      simp only [pcEq] at taken
      split at taken <;> cases taken
      rename_i drained
      exact ok.wakerGoes rfl fun some => absurd (pending_of_drained drained) some
  | recheck =>
      have quiet := empty pcEq rfl
      simp only [pcEq] at taken
      split at taken <;> cases taken
      · exact ok.wakerGoes rfl fun _ => rfl
      · rename_i unparked
        exact ok.wakerLeaves quiet (.inr (away unparked))
  | deliver =>
      simp only [pcEq] at taken
      split at taken
      · rename_i drained
        split at taken <;> cases taken
        · exact ok.wakerGoes rfl fun some => absurd (pending_of_drained drained) some
        · rename_i unregistered
          refine ok.wakerLeaves (pending_of_drained drained) (.inr ?_)
          exact Bool.eq_false_iff.mpr fun announced =>
            unregistered (ok.engaged (engaged_of_between announced))
      · cases taken
  | unpark =>
      simp only [pcEq] at taken
      split at taken <;> cases taken
      rename_i drained
      exact ok.wakerLeaves (pending_of_drained drained) (.inl rfl)


/-- A publication leaves idle and goes into `wake`. -/
theorem ParkOk.publishes (ok : ParkOk s) {memory : Memory (ParkThread ι) L V}
    (own : memory.pending .waiter = s.memory.pending .waiter)
    (others : ∀ j, j ≠ i → memory.pending (.waker j) = s.memory.pending (.waker j)) :
    ParkOk ({ s with memory := memory }.wakerAt i .probe) where
  flag := ok.flag
  drained announced := own.trans (ok.drained announced)
  worker := ok.worker
  registering := ok.registering
  engaged := ok.engaged
  pending j some := by
    by_cases same : j = i
    · subst same
      rw [wakers_wakerAt]
      rfl
    · rw [wakers_wakerAt_of_ne _ _ same]
      exact ok.pending j ((others j same).symm ▸ some)
  covered ready rest looks := by
    refine .inr (.inr ⟨i, ?_⟩)
    rw [wakers_wakerAt]
    rfl

variable [DecidableEq L]

/-- A pending store reaches the memory: the waiting thread's own only off the park path,
a waker's while it is inside `wake`. -/
theorem ParkOk.flush (ok : ParkOk s) {thread : ParkThread ι} {memory : Memory (ParkThread ι) L V}
    (flushed : s.memory.flush thread = some memory) :
    ParkOk { s with memory := memory } := by
  have shorter (other : ParkThread ι) (some : memory.pending other ≠ []) :
      s.memory.pending other ≠ [] := by
    obtain ⟨location, value, rest, entries, -, pending⟩ := Memory.flush_eq_some flushed
    by_cases same : other = thread
    · rw [same, entries]
      exact List.cons_ne_nil _ _
    · rwa [Memory.pending_flush_of_ne flushed same] at some
  refine ⟨ok.flag, fun announced => ?_, ok.worker, ok.registering, ok.engaged,
    fun j some => ok.pending j (shorter _ some), fun ready rest looks => ?_⟩
  · by_contra some
    exact shorter _ some (ok.drained announced)
  · obtain ⟨location, value, others, entries, -, -⟩ := Memory.flush_eq_some flushed
    have some : s.memory.pending thread ≠ [] := by
      rw [entries]
      exact List.cons_ne_nil _ _
    cases thread with
    | waiter => exact absurd (ok.drained (between_of_looking looks)) some
    | waker j =>
        refine .inr (.inr ⟨j, ?_⟩)
        have may := ok.pending j some
        cases pcEq : s.wakers j <;> rw [pcEq] at may <;> first | rfl | cases may

theorem ParkOk.step (ok : ParkOk s) {action : ParkAction ι L V}
    (taken : s.step spinIters action = some after) : ParkOk after := by
  have off (idle : s.waiter = .idle) : between s.waiter = false := by
    rw [idle]
    rfl
  cases action with
  | setWorker =>
      simp only [ParkState.step] at taken
      split at taken
      · rename_i idle
        split at taken <;> cases taken
        exact
          { flag := ok.flag.trans ⟨fun announced => absurd ((off idle).symm.trans announced)
              Bool.false_ne_true, fun same => by cases same⟩
            drained := fun same => by cases same
            worker := fun _ => rfl
            registering := fun _ => rfl
            engaged := fun same => by cases same
            pending := ok.pending
            covered := fun _ _ same => by cases same }
      · cases taken
  | wait call ready =>
      simp only [ParkState.step] at taken
      split at taken <;> cases taken
      rename_i idle
      exact ok.away (off idle) rfl rfl (.inl rfl)
  | store location value =>
      simp only [ParkState.step] at taken
      split at taken <;> cases taken
      rename_i idle
      exact ok.writes idle fun j =>
        Memory.pending_store_of_ne s.memory location value (fun same => by cases same)
  | exchange location value =>
      simp only [ParkState.step] at taken
      split at taken
      · rename_i idle
        split at taken <;> cases taken
        exact ok.writes idle fun _ => rfl
      · cases taken
  | tick => exact ok.tick taken
  | clock elapsed =>
      simp only [ParkState.step] at taken
      cases pcEq : s.waiter with
      | spinClock ready turn =>
          have registered : s.worker = true := ok.engaged (by rw [pcEq]; rfl)
          have before : between s.waiter = false := by rw [pcEq]; rfl
          simp only [pcEq] at taken
          split at taken <;> cases taken
          · exact ok.away before rfl rfl (.inl rfl)
          · obtain ⟨later, elsewhere, worker⟩ :=
              off_spinAt spinIters registered .waitUntilDeadline ready (turn + 1)
            exact ok.away before later elsewhere worker
      | clock ready =>
          have registered : s.worker = true := ok.engaged (by rw [pcEq]; rfl)
          simp only [pcEq] at taken
          split at taken <;> cases taken
          · exact ok.goto (by rw [pcEq]; rfl) rfl (.inr registered) fun _ _ never => by cases never
          · refine ok.goto (by rw [pcEq]; rfl) rfl (.inr registered) fun found rest looks => ?_
            have before : looking s.waiter = some (ready, .answer false) := by rw [pcEq]; rfl
            cases looks
            exact ok.covered ready _ before
      | _ => simp [pcEq] at taken
  | spurious =>
      simp only [ParkState.step] at taken
      split at taken <;> cases taken
      rename_i pcEq
      have registered : s.worker = true := ok.engaged (by rw [pcEq]; rfl)
      refine ok.goto (by rw [pcEq]; rfl) rfl (.inr registered) fun found rest looks => ?_
      cases looks
      exact .inl fun holds => holds
  | publish j location value =>
      simp only [ParkState.step] at taken
      split at taken <;> cases taken
      refine ok.publishes ?_ fun other ne => ?_
      · exact Memory.pending_store_of_ne s.memory location value (fun same => by cases same)
      · exact Memory.pending_store_of_ne s.memory location value
          (fun same => ne (by cases same; rfl))
  | publishExchange j location value =>
      simp only [ParkState.step] at taken
      split at taken
      · split at taken <;> cases taken
        exact ok.publishes rfl fun _ _ => rfl
      · cases taken
  | wakerTick j => exact ok.wakerTick taken
  | flush thread =>
      simp only [ParkState.step] at taken
      obtain ⟨memory, flushed, rfl⟩ := Option.map_eq_some_iff.mp taken
      exact ok.flush flushed

theorem parkOk (reached : (system spinIters cells).Reachable s) : ParkOk s := by
  refine reached.invariant ParkOk ?base ?preserved
  case base =>
    rintro _ rfl
    exact parkOk_new
  case preserved =>
    intro before action after _ ok taken
    exact ok.step taken

/-! ### A waker on its way arrives -/

/-- The steps that are not the waiting thread's. -/
def byOthers : ParkAction ι L V → Bool
  | .publish _ _ _ => true
  | .publishExchange _ _ _ => true
  | .wakerTick _ => true
  | .flush _ => true
  | _ => false

/-- The runs, from any state, while the waiting thread sleeps. -/
def asleep (spinIters : Nat) : System (ParkState ι L V) (ParkAction ι L V) :=
  (System.ofFunction (fun _ => True) fun s action => s.step spinIters action).guarded
    fun _ action => byOthers action = true

/-- The steps waker `i` takes by itself. -/
def own (i : ι) (action : ParkAction ι L V) : Prop :=
  action = .flush (.waker i) ∨ action = .wakerTick i

/-- The runs, from any state, in which only waker `i` takes steps. -/
def alone (spinIters : Nat) (i : ι) : System (ParkState ι L V) (ParkAction ι L V) :=
  (System.ofFunction (fun _ => True) fun s action => s.step spinIters action).guarded
    fun _ action => own i action

/-- Waker `i` is inside `wake` and will unpark: while the waiting thread sleeps it does
not get out without having stored the token, and its own steps lead there. -/
structure WillUnpark (spinIters : Nat) (s : ParkState ι L V) (i : ι) : Prop where
  inside : insideWake (s.wakers i) = true
  stays : ∀ later, (asleep spinIters).Leads s later →
    later.token = true ∨ insideWake (later.wakers i) = true
  unparks : ∃ later, (alone spinIters i).Leads s later ∧ later.token = true

omit [DecidableEq L] in
theorem wakerTick_inside (ok : ParkOk s) (announced : between s.waiter = true) {j : ι}
    (taken : s.wakerTick j = some after)
    (inside : s.token = true ∨ insideWake (s.wakers i) = true) :
    after.token = true ∨ insideWake (after.wakers i) = true := by
  have goes {pc : ParkWakerPc} (still : insideWake pc = true) :
      (s.wakerAt j pc).token = true ∨ insideWake ((s.wakerAt j pc).wakers i) = true := by
    rcases inside with stored | inside
    · exact .inl stored
    · refine .inr ?_
      by_cases same : i = j
      · rw [same, wakers_wakerAt]
        exact still
      · rw [wakers_wakerAt_of_ne _ _ same]
        exact inside
  unfold ParkState.wakerTick at taken
  cases pcEq : s.wakers j with
  | idle => simp [pcEq] at taken
  | probe =>
      simp only [pcEq] at taken
      split at taken <;> cases taken <;> exact goes rfl
  | fence =>
      simp only [pcEq] at taken
      split at taken <;> cases taken
      exact goes rfl
  | recheck =>
      simp only [pcEq, ok.flag.mpr announced, if_true, Option.some.injEq] at taken
      subst taken
      exact goes rfl
  | deliver =>
      simp only [pcEq, ok.engaged (engaged_of_between announced), if_true] at taken
      split at taken <;> cases taken
      exact goes rfl
  | unpark =>
      simp only [pcEq] at taken
      split at taken <;> cases taken
      exact .inl rfl

theorem step_inside (ok : ParkOk s) (announced : between s.waiter = true)
    {action : ParkAction ι L V} (others : byOthers action = true)
    (taken : s.step spinIters action = some after)
    (inside : s.token = true ∨ insideWake (s.wakers i) = true) :
    after.waiter = s.waiter ∧ (after.token = true ∨ insideWake (after.wakers i) = true) := by
  have publishes {memory : Memory (ParkThread ι) L V} {j : ι} :
      ({ s with memory := memory }.wakerAt j .probe).token = true ∨
        insideWake (({ s with memory := memory }.wakerAt j .probe).wakers i) = true := by
    rcases inside with stored | inside
    · exact .inl stored
    · refine .inr ?_
      by_cases same : i = j
      · rw [same, wakers_wakerAt]
        rfl
      · rw [wakers_wakerAt_of_ne _ _ same]
        exact inside
  cases action with
  | publish j location value =>
      simp only [ParkState.step] at taken
      split at taken <;> cases taken
      exact ⟨rfl, publishes⟩
  | publishExchange j location value =>
      simp only [ParkState.step] at taken
      split at taken
      · split at taken <;> cases taken
        exact ⟨rfl, publishes⟩
      · cases taken
  | wakerTick j =>
      refine ⟨?_, wakerTick_inside ok announced taken inside⟩
      simp only [ParkState.step, ParkState.wakerTick] at taken
      split at taken
      · cases taken
      · split at taken <;> cases taken <;> rfl
      · split at taken <;> cases taken
        rfl
      · split at taken <;> cases taken <;> rfl
      · split at taken
        · split at taken <;> cases taken <;> rfl
        · cases taken
      · split at taken <;> cases taken
        rfl
  | flush thread =>
      simp only [ParkState.step] at taken
      obtain ⟨memory, -, rfl⟩ := Option.map_eq_some_iff.mp taken
      exact ⟨rfl, inside⟩
  | _ => cases others

theorem stays_inside (ok : ParkOk s) (announced : between s.waiter = true)
    (inside : insideWake (s.wakers i) = true) {later : ParkState ι L V}
    (leads : (asleep spinIters).Leads s later) :
    later.token = true ∨ insideWake (later.wakers i) = true := by
  have all : ParkOk later ∧ between later.waiter = true ∧
      (later.token = true ∨ insideWake (later.wakers i) = true) := by
    refine leads.invariant (fun later => ParkOk later ∧ between later.waiter = true ∧
      (later.token = true ∨ insideWake (later.wakers i) = true))
        ⟨ok, announced, .inr inside⟩ ?_
    rintro before action after ⟨ok, announced, inside⟩ ⟨others, taken⟩
    obtain ⟨same, inside⟩ := step_inside ok announced others taken inside
    exact ⟨ok.step taken, same ▸ announced, inside⟩
  exact all.2.2

/-- Waker `i`'s buffer drains by itself. -/
theorem leads_drained (spinIters : Nat) (i : ι) (s : ParkState ι L V) :
    ∃ memory : Memory (ParkThread ι) L V, memory.drained (.waker i) = true ∧
      (alone spinIters i).Leads s { s with memory := memory } := by
  obtain ⟨memory, drained, flushes⟩ := s.memory.flushes_drain (.waker i)
  refine ⟨memory, drained, ?_⟩
  refine flushes.lift (p := (alone spinIters i).Next) (fun memory => { s with memory := memory }) ?_
  intro before after flushed
  have taken : { s with memory := before }.step spinIters (.flush (.waker i)) =
      some { s with memory := after } := by
    simp only [ParkState.step, flushed, Option.map_some]
  exact ⟨_, .inl rfl, taken⟩

/-- A step of waker `i` at the head of a run of its own. -/
theorem leads_tick {later : ParkState ι L V} (taken : s.wakerTick i = some after)
    (leads : (alone spinIters i).Leads after later) : (alone spinIters i).Leads s later :=
  Relation.ReflTransGen.head ⟨.wakerTick i, .inr rfl, taken⟩ leads

theorem leads_unpark (spinIters : Nat) (drained : s.memory.drained (.waker i) = true)
    (parked : s.parked = .parked) (worker : s.worker = true)
    (inside : insideWake (s.wakers i) = true) :
    ∃ later, (alone spinIters i).Leads s later ∧ later.token = true := by
  have unpark (s : ParkState ι L V) (drained : s.memory.drained (.waker i) = true)
      (pcEq : s.wakers i = .unpark) :
      ∃ later, (alone spinIters i).Leads s later ∧ later.token = true :=
    ⟨{ s with token := true }.wakerAt i .idle,
      leads_tick (by simp [ParkState.wakerTick, pcEq, drained]) Relation.ReflTransGen.refl, rfl⟩
  have deliver (s : ParkState ι L V) (drained : s.memory.drained (.waker i) = true)
      (worker : s.worker = true) (pcEq : s.wakers i = .deliver) :
      ∃ later, (alone spinIters i).Leads s later ∧ later.token = true := by
    obtain ⟨later, leads, stored⟩ :=
      unpark (s.wakerAt i .unpark) drained (wakers_wakerAt s i .unpark)
    exact ⟨later, leads_tick (by simp [ParkState.wakerTick, pcEq, drained, worker]) leads, stored⟩
  have recheck (s : ParkState ι L V) (drained : s.memory.drained (.waker i) = true)
      (parked : s.parked = .parked) (worker : s.worker = true) (pcEq : s.wakers i = .recheck) :
      ∃ later, (alone spinIters i).Leads s later ∧ later.token = true := by
    obtain ⟨later, leads, stored⟩ :=
      deliver (s.wakerAt i .deliver) drained worker (wakers_wakerAt s i .deliver)
    exact ⟨later, leads_tick (by simp [ParkState.wakerTick, pcEq, parked]) leads, stored⟩
  cases pcEq : s.wakers i with
  | idle =>
      rw [pcEq] at inside
      cases inside
  | probe =>
      obtain ⟨later, leads, stored⟩ :=
        deliver (s.wakerAt i .deliver) drained worker (wakers_wakerAt s i .deliver)
      exact ⟨later, leads_tick (by simp [ParkState.wakerTick, pcEq, parked]) leads, stored⟩
  | fence =>
      obtain ⟨later, leads, stored⟩ :=
        recheck (s.wakerAt i .recheck) drained parked worker (wakers_wakerAt s i .recheck)
      exact ⟨later, leads_tick (by simp [ParkState.wakerTick, pcEq, drained]) leads, stored⟩
  | recheck => exact recheck s drained parked worker pcEq
  | deliver => exact deliver s drained worker pcEq
  | unpark => exact unpark s drained pcEq

theorem willUnpark (ok : ParkOk s) (announced : between s.waiter = true)
    (inside : insideWake (s.wakers i) = true) : WillUnpark spinIters s i where
  inside := inside
  stays _ leads := stays_inside ok announced inside leads
  unparks := by
    obtain ⟨memory, drained, leads⟩ := leads_drained spinIters i s
    obtain ⟨later, onwards, stored⟩ :=
      leads_unpark spinIters (s := { s with memory := memory }) drained
        (ok.flag.mpr announced) (ok.engaged (engaged_of_between announced)) inside
    exact ⟨later, leads.trans onwards, stored⟩

/-! ### No wake is lost -/

/-- The waiting thread sleeps in `park` with no token stored, on a predicate that holds
of the data published so far or while a publication is still pending. -/
structure Missed (s : ParkState ι L V) (ready : Probe L V) : Prop where
  parked : ∃ call, s.waiter = .park call ready
  noToken : s.token = false
  published : ready.holds s.memory.cells = true ∨ ∃ i, s.memory.pending (.waker i) ≠ []

/-- A sleep that missed a publication is ended by a waker that is still inside `wake`,
and the flag says `PARKED` only between the announcement and the exit of a wait. -/
structure NoWakeLost (spinIters : Nat) (s : ParkState ι L V) : Prop where
  ended : ∀ ready, Missed s ready → ∃ i, WillUnpark spinIters s i
  flag : s.parked = .parked → between s.waiter = true

/-- However the waits and the wakers interleave, no wake is lost. -/
theorem park_noWakeLost (reached : (system spinIters cells).Reachable s) :
    NoWakeLost spinIters s where
  ended ready missed := by
    have ok := parkOk reached
    obtain ⟨call, pcEq⟩ := missed.parked
    have announced : between s.waiter = true := by
      rw [pcEq]
      rfl
    have someone : ∃ i, insideWake (s.wakers i) = true := by
      rcases missed.published with holds | ⟨i, some⟩
      · rcases ok.covered ready (.answer false) (by rw [pcEq]; rfl) with quiet | stored | onWay
        · exact absurd (quiet holds) Bool.false_ne_true
        · rw [missed.noToken] at stored
          cases stored
        · exact onWay
      · have may := ok.pending i some
        refine ⟨i, ?_⟩
        cases pcEq : s.wakers i <;> rw [pcEq] at may <;> first | rfl | cases may
    obtain ⟨i, inside⟩ := someone
    exact ⟨i, willUnpark ok announced inside⟩
  flag parked := (parkOk reached).flag.mp parked

/-- A predicate that is the value of the one location. -/
def flagSet : Probe Unit Bool := .load () .answer

/-- The waiting thread registers itself, spins and falls asleep; then its one waker
publishes and has not looked at the flag yet. -/
def publishedBeforeProbe : List (ParkAction Nat Unit Bool) :=
  [ParkAction.setWorker, .tick, .wait .waitUntil flagSet] ++ List.replicate 135 ParkAction.tick ++
    [ParkAction.publish 0 () true, .flush (.waker 0)]

theorem park_noWakeLost_publishedBeforeProbe :
    ∃ s : ParkState Nat Unit Bool, (system 0 fun _ => false).Reachable s ∧ Missed s flagSet ∧
      NoWakeLost 0 s := by
  have ran : (Transition.execute (fun s action => s.step 0 action) (new fun _ => false)
      publishedBeforeProbe).map (fun s => (s.waiter, s.token, s.memory.cells ())) =
        some (.park .waitUntil flagSet, false, true) := by
    rfl
  obtain ⟨s, ran, seen⟩ := Option.map_eq_some_iff.mp ran
  obtain ⟨parked, noToken, published⟩ := by simpa only [Prod.mk.injEq] using seen
  have reached : (system 0 fun _ => false).Reachable s := System.reachable_of_execute rfl ran
  exact ⟨s, reached, ⟨⟨_, parked⟩, noToken, .inl published⟩, park_noWakeLost reached⟩

end ParkState

end ArbitroKit
