import ArbitroKit.WakeGate

/-!
# A suspended task is never forgotten

The gate is armed exactly while a guarded future lives.  From the arming until the
future is dropped the task has no store pending and its check reads the memory, so a
publication that the check has missed reaches the memory from a waker that has not
made its read-modify-write probe yet, and that probe finds the gate armed.  A
cancelled future hands a notification it has received back to the `Notify`.
-/

namespace ArbitroKit

open Buffered Transition

namespace NotifyState

variable {ι L V : Type*} {cells : L → V} {s after : NotifyState ι L V} {i : ι}

/-- The number of live guarded futures. -/
def live : NotifyTaskPc L V → Nat
  | .check _ _ _ => 1
  | .poll _ _ => 1
  | .suspended _ _ => 1
  | .dropNotified _ => 1
  | .disarm _ => 1
  | _ => 0

/-- The predicate of the armed check, and what is left of it; in front of a suspension
nothing is left. -/
def looking : NotifyTaskPc L V → Option (Probe L V × Probe L V)
  | .check _ ready rest => some (ready, rest)
  | .poll _ ready => some (ready, .answer false)
  | .suspended _ ready => some (ready, .answer false)
  | _ => none

/-- How far the future of the task's await can have come. -/
def FutureAt (future : Option Notified) : NotifyTaskPc L V → Prop
  | .check _ _ _ => future = some .created
  | .poll _ _ => future = some .created
  | .suspended _ _ => future = some .waiting ∨ future = some .notified
  | .dropNotified _ => future.isSome = true
  | _ => future = none

/-- The waker is inside `wake`. -/
def insideWake (pc : NotifyWakerPc) : Bool := decide (pc ≠ .idle)

/-- Data the check may have missed is followed by a notification or by a waker. -/
def Covered (s : NotifyState ι L V) (ready rest : Probe L V) : Prop :=
  (ready.holds s.memory.cells = true → rest.holds s.memory.cells = true) ∨
    s.notify.released = true ∨ ∃ i, insideWake (s.wakers i) = true

/-- What holds of the gate and its threads in every run. -/
structure GateOk (s : NotifyState ι L V) : Prop where
  armed : s.armed = BitVec.ofNat 64 (live s.task)
  drained : live s.task = 1 → s.memory.pending .task = []
  future : FutureAt s.notify.future s.task
  pending : ∀ i, s.memory.pending (.waker i) ≠ [] → insideWake (s.wakers i) = true
  covered : ∀ ready rest, looking s.task = some (ready, rest) → s.Covered ready rest

theorem live_of_looking {pc : NotifyTaskPc L V} {found : Probe L V × Probe L V}
    (looks : looking pc = some found) : live pc = 1 := by
  cases pc <;> first | rfl | cases looks

theorem gateOk_new : GateOk (new cells : NotifyState ι L V) where
  armed := rfl
  drained same := by cases same
  future := rfl
  pending _ some := absurd rfl some
  covered _ _ same := by cases same

/-! ### The `Notify` -/

theorem futureAt_notifyOne {notify : Notify} {pc : NotifyTaskPc L V}
    (here : FutureAt notify.future pc) : FutureAt notify.notifyOne.future pc := by
  unfold Notify.notifyOne
  split
  · rename_i waiting
    rw [waiting] at here
    cases pc with
    | suspended call ready => exact .inr rfl
    | dropNotified next => rfl
    | _ => cases here
  · exact here

/-- A suspended future is ready at a poll only if it has been released. -/
theorem poll_eq {notify : Notify} (created : notify.future = some .created) :
    notify.poll = if notify.permit then (true, ⟨false, some .done⟩)
      else (false, { notify with future := some .waiting }) := by
  simp [Notify.poll, created]

/-! ### Steps of the task -/

/-- The task goes on with as many live futures. -/
theorem GateOk.goto (ok : GateOk s) {pc : NotifyTaskPc L V} {notify : Notify}
    (same : live pc = live s.task) (future : FutureAt notify.future pc)
    (covered : ∀ ready rest, looking pc = some (ready, rest) →
      Covered { s with notify := notify } ready rest) :
    GateOk ({ s with notify := notify }.taskAt pc) where
  armed := by
    rw [taskAt, same]
    exact ok.armed
  drained alive := ok.drained (same.symm.trans alive)
  future := future
  pending := ok.pending
  covered := covered

/-- A place without a live future. -/
theorem GateOk.away (ok : GateOk s) {pc : NotifyTaskPc L V} (before : live s.task = 0)
    (later : live pc = 0) (none : s.notify.future = none) : GateOk (s.taskAt pc) := by
  refine ok.goto (later.trans before.symm) ?_ fun ready rest looks => ?_
  · cases pc <;> first | exact none | cases later
  · rw [live_of_looking looks] at later
    cases later

theorem future_eq_none (ok : GateOk s) (before : live s.task = 0) : s.notify.future = none := by
  have here := ok.future
  cases pcEq : s.task <;> rw [pcEq] at before here <;> first | exact here | cases before

theorem pending_of_drained {thread : NotifyThread ι} (drained : s.memory.drained thread = true) :
    s.memory.pending thread = [] :=
  List.isEmpty_iff.mp drained

/-- One poll of the await. -/
theorem GateOk.polled (ok : GateOk s) {call : NotifyCall} {ready : Probe L V}
    (pcEq : s.task = .poll call ready) :
    GateOk (if s.notify.poll.1 then
      { s with notify := s.notify.poll.2 }.taskAt (.dropNotified (.awaited call ready))
      else { s with notify := s.notify.poll.2 }.taskAt (.suspended call ready)) := by
  have alive : live s.task = 1 := by rw [pcEq]; rfl
  have created : s.notify.future = some .created := by
    have here := ok.future
    rw [pcEq] at here
    exact here
  have looks : looking s.task = some (ready, .answer false) := by rw [pcEq]; rfl
  rw [poll_eq created]
  cases stored : s.notify.permit with
  | true => exact ok.goto alive.symm rfl fun _ _ never => by cases never
  | false =>
      refine ok.goto alive.symm (.inl rfl) fun found rest looks' => ?_
      cases looks'
      rcases ok.covered ready _ looks with quiet | released | onWay
      · exact .inl quiet
      · rw [Notify.released, stored, created] at released
        cases released
      · exact .inr (.inr onWay)

theorem armed_of_live (ok : GateOk s) (alive : live s.task = 1) : s.armed ≠ 0 := by
  rw [ok.armed, alive]
  decide

theorem live_eq_zero (ok : GateOk s) (disarmed : ¬ s.armed ≠ 0) : live s.task = 0 := by
  have armed := ok.armed
  rw [not_not.mp disarmed] at armed
  cases pcEq : s.task <;> rw [pcEq] at armed <;> first | rfl | cases armed

/-- The task writes between two calls. -/
theorem GateOk.writes (ok : GateOk s) {memory : Memory (NotifyThread ι) L V}
    (idle : s.task = .idle)
    (others : ∀ j, memory.pending (.waker j) = s.memory.pending (.waker j)) :
    GateOk { s with memory := memory } where
  armed := ok.armed
  drained alive := by
    rw [idle] at alive
    cases alive
  future := ok.future
  pending j some := ok.pending j (others j ▸ some)
  covered ready rest looks := by
    rw [idle] at looks
    cases looks

section Evaluation

variable [DecidableEq L]

/-- An evaluation outside the armed part. -/
theorem GateOk.evaluateAway (ok : GateOk s) {rest : Probe L V}
    {loaded : Probe L V → NotifyTaskPc L V} {answered : Bool → NotifyTaskPc L V}
    (before : live s.task = 0) (goes : ∀ rest, live (loaded rest) = 0)
    (comes : ∀ answer, live (answered answer) = 0) :
    GateOk (s.evaluate rest loaded answered) := by
  have none := future_eq_none ok before
  unfold NotifyState.evaluate
  cases rest with
  | load location next => exact ok.away before (goes _) none
  | answer answer => exact ok.away before (comes answer) none

/-- The check of the predicate behind the arming. -/
theorem GateOk.check (ok : GateOk s) {call : NotifyCall} {ready rest : Probe L V}
    (pcEq : s.task = .check call ready rest) :
    GateOk (s.evaluate rest (.check call ready) fun answer =>
      if answer then .dropNotified .finished else .poll call ready) := by
  have alive : live s.task = 1 := by rw [pcEq]; rfl
  have created : s.notify.future = some .created := by
    have here := ok.future
    rw [pcEq] at here
    exact here
  have looks : looking s.task = some (ready, rest) := by rw [pcEq]; rfl
  unfold NotifyState.evaluate
  cases rest with
  | load location next =>
      refine ok.goto alive.symm created fun found rest looks' => ?_
      cases looks'
      have here : s.Covered ready (.load location next) := ok.covered ready _ looks
      rw [Memory.load_of_drained (ok.drained alive)]
      exact here
  | answer answer =>
      cases answer with
      | true =>
          refine ok.goto alive.symm ?_ fun _ _ never => by cases never
          rw [created]
          rfl
      | false =>
          refine ok.goto alive.symm created fun found rest looks' => ?_
          cases looks'
          exact ok.covered ready _ looks

theorem GateOk.tick (ok : GateOk s) (taken : s.tick = some after) : GateOk after := by
  unfold NotifyState.tick at taken
  cases pcEq : s.task with
  | idle => simp [pcEq] at taken
  | entry ready rest | again ready rest =>
      simp only [pcEq, Option.some.injEq] at taken
      subst taken
      refine ok.evaluateAway (by rw [pcEq]; rfl) (fun _ => rfl) fun answer => ?_
      cases answer <;> rfl
  | notified call ready =>
      have before : live s.task = 0 := by rw [pcEq]; rfl
      simp only [pcEq] at taken
      split at taken <;> cases taken
      rename_i drained
      exact
        { armed := by
            rw [taskAt, ok.armed, before]
            rfl
          drained := fun _ => pending_of_drained drained
          future := rfl
          pending := ok.pending
          covered := fun found rest looks => by
            cases looks
            exact .inl fun holds => holds }
  | check call ready rest =>
      simp only [pcEq, Option.some.injEq] at taken
      subst taken
      exact ok.check pcEq
  | poll call ready =>
      have polled := ok.polled pcEq
      simp only [pcEq] at taken
      split at taken <;> rename_i finished <;> cases taken
      · rw [if_pos finished] at polled
        exact polled
      · rw [if_neg finished] at polled
        exact polled
  | suspended call ready =>
      have alive : live s.task = 1 := by rw [pcEq]; rfl
      have here := ok.future
      rw [pcEq] at here
      simp only [pcEq] at taken
      split at taken <;> cases taken
      rename_i finished
      refine ok.goto alive.symm ?_ fun _ _ never => by cases never
      rcases here with waiting | notified
      · rw [Notify.poll, waiting] at finished
        cases finished
      · rw [Notify.poll, notified]
        rfl
  | dropNotified next =>
      have alive : live s.task = 1 := by rw [pcEq]; rfl
      simp only [pcEq, Option.some.injEq] at taken
      subst taken
      refine ok.goto alive.symm ?_ fun _ _ never => by cases never
      change s.notify.dropFuture.future = none
      unfold Notify.dropFuture
      split <;> rfl
  | disarm next =>
      have alive : live s.task = 1 := by rw [pcEq]; rfl
      have gone : s.notify.future = none := by
        have here := ok.future
        rw [pcEq] at here
        exact here
      have later : live (behindDrop next) = 0 ∧ FutureAt none (behindDrop next) ∧
          looking (behindDrop next) = none := by
        rcases next with _ | ⟨call, ready⟩
        · exact ⟨rfl, rfl, rfl⟩
        · cases call <;> exact ⟨rfl, rfl, rfl⟩
      simp only [pcEq] at taken
      split at taken <;> cases taken
      exact
        { armed := by
            change s.armed - 1 = BitVec.ofNat 64 (live (behindDrop next))
            rw [ok.armed, alive, later.1]
            rfl
          drained := fun alive => absurd (later.1.symm.trans alive) Nat.zero_ne_one
          future := by
            rw [taskAt, gone]
            exact later.2.1
          pending := ok.pending
          covered := fun _ _ looks => by
            rw [taskAt, later.2.2] at looks
            cases looks }

end Evaluation

/-! ### Steps of the wakers -/

variable [DecidableEq ι]

theorem wakers_wakerAt (s : NotifyState ι L V) (i : ι) (pc : NotifyWakerPc) :
    (s.wakerAt i pc).wakers i = pc :=
  Function.update_self ..

theorem wakers_wakerAt_of_ne (s : NotifyState ι L V) {i j : ι} (pc : NotifyWakerPc)
    (ne : j ≠ i) : (s.wakerAt i pc).wakers j = s.wakers j :=
  Function.update_of_ne ne ..

/-- A step inside `wake` that keeps the waker inside. -/
theorem GateOk.wakerGoes (ok : GateOk s) {pc : NotifyWakerPc} (inside : insideWake pc = true) :
    GateOk (s.wakerAt i pc) where
  armed := ok.armed
  drained := ok.drained
  future := ok.future
  pending j some := by
    by_cases same : j = i
    · rw [same, wakers_wakerAt]
      exact inside
    · rw [wakers_wakerAt_of_ne _ _ same]
      exact ok.pending j some
  covered ready rest looks := by
    rcases ok.covered ready rest looks with quiet | released | ⟨j, onWay⟩
    · exact .inl quiet
    · exact .inr (.inl released)
    · refine .inr (.inr ⟨j, ?_⟩)
      by_cases same : j = i
      · rw [same, wakers_wakerAt]
        exact inside
      · rw [wakers_wakerAt_of_ne _ _ same]
        exact onWay

/-- A waker leaves `wake`, behind a `notify_one` or with no future alive. -/
theorem GateOk.wakerLeaves (ok : GateOk s) {notify : Notify}
    (empty : s.memory.pending (.waker i) = [])
    (future : FutureAt notify.future s.task)
    (released : notify.released = true ∨ live s.task = 0) :
    GateOk ({ s with notify := notify }.wakerAt i .idle) where
  armed := ok.armed
  drained := ok.drained
  future := future
  pending j some := by
    by_cases same : j = i
    · subst same
      exact absurd empty some
    · rw [wakers_wakerAt_of_ne _ _ same]
      exact ok.pending j some
  covered ready rest looks := by
    rcases released with released | gone
    · exact .inr (.inl released)
    · exact absurd ((live_of_looking looks).symm.trans gone) Nat.one_ne_zero

theorem GateOk.wakerTick (ok : GateOk s) (taken : s.wakerTick i = some after) :
    GateOk after := by
  unfold NotifyState.wakerTick at taken
  cases pcEq : s.wakers i with
  | idle | probe => simp [pcEq] at taken
  | fetchAdd =>
      simp only [pcEq] at taken
      split at taken
      · rename_i drained
        split at taken <;> cases taken
        · exact ok.wakerGoes rfl
        · rename_i disarmed
          exact ok.wakerLeaves (pending_of_drained drained) ok.future
            (.inr (live_eq_zero ok disarmed))
      · cases taken
  | notifyOne =>
      simp only [pcEq] at taken
      split at taken <;> cases taken
      rename_i drained
      exact ok.wakerLeaves (pending_of_drained drained) (futureAt_notifyOne ok.future)
        (.inl s.notify.released_notifyOne)

/-- A publication leaves idle and goes into `wake`. -/
theorem GateOk.publishes (ok : GateOk s) {memory : Memory (NotifyThread ι) L V}
    (own : memory.pending .task = s.memory.pending .task)
    (others : ∀ j, j ≠ i → memory.pending (.waker j) = s.memory.pending (.waker j)) :
    GateOk ({ s with memory := memory }.wakerAt i .probe) where
  armed := ok.armed
  drained alive := own.trans (ok.drained alive)
  future := ok.future
  pending j some := by
    by_cases same : j = i
    · rw [same, wakers_wakerAt]
      rfl
    · rw [wakers_wakerAt_of_ne _ _ same]
      exact ok.pending j ((others j same).symm ▸ some)
  covered ready rest looks := by
    refine .inr (.inr ⟨i, ?_⟩)
    rw [wakers_wakerAt]
    rfl

variable [DecidableEq L]

/-- A pending store reaches the memory: the task's own only while no future is alive, a
waker's while it is inside `wake`. -/
theorem GateOk.flush (ok : GateOk s) {thread : NotifyThread ι}
    {memory : Memory (NotifyThread ι) L V} (flushed : s.memory.flush thread = some memory) :
    GateOk { s with memory := memory } := by
  have shorter (other : NotifyThread ι) (some : memory.pending other ≠ []) :
      s.memory.pending other ≠ [] := by
    obtain ⟨location, value, rest, entries, -, pending⟩ := Memory.flush_eq_some flushed
    by_cases same : other = thread
    · rw [same, entries]
      exact List.cons_ne_nil _ _
    · rwa [Memory.pending_flush_of_ne flushed same] at some
  refine ⟨ok.armed, fun alive => ?_, ok.future, fun j some => ok.pending j (shorter _ some),
    fun ready rest looks => ?_⟩
  · by_contra some
    exact shorter _ some (ok.drained alive)
  · obtain ⟨location, value, others, entries, -, -⟩ := Memory.flush_eq_some flushed
    have some : s.memory.pending thread ≠ [] := by
      rw [entries]
      exact List.cons_ne_nil _ _
    cases thread with
    | task => exact absurd (ok.drained (live_of_looking looks)) some
    | waker j => exact .inr (.inr ⟨j, ok.pending j some⟩)

theorem GateOk.step (ok : GateOk s) {action : NotifyAction ι L V}
    (taken : s.step action = some after) : GateOk after := by
  cases action with
  | wait call ready =>
      simp only [NotifyState.step] at taken
      split at taken
      · rename_i idle
        have before : live s.task = 0 := by rw [idle]; rfl
        have gone := future_eq_none ok before
        cases call <;> cases taken
        · exact ok.away before rfl gone
        · exact ok.away before rfl gone
      · cases taken
  | store location value =>
      simp only [NotifyState.step] at taken
      split at taken <;> cases taken
      rename_i idle
      exact ok.writes idle fun j =>
        Memory.pending_store_of_ne s.memory location value (fun same => by cases same)
  | exchange location value =>
      simp only [NotifyState.step] at taken
      split at taken
      · rename_i idle
        split at taken <;> cases taken
        exact ok.writes idle fun _ => rfl
      · cases taken
  | tick => exact ok.tick taken
  | cancel =>
      simp only [NotifyState.step] at taken
      split at taken <;> cases taken
      rename_i pcEq
      have here := ok.future
      rw [pcEq] at here
      refine ok.goto (by rw [pcEq]; rfl) ?_ fun _ _ never => by cases never
      rcases here with waiting | notified
      · rw [waiting]
        rfl
      · rw [notified]
        rfl
  | publish j location value =>
      simp only [NotifyState.step] at taken
      split at taken <;> cases taken
      refine ok.publishes ?_ fun other ne => ?_
      · exact Memory.pending_store_of_ne s.memory location value (fun same => by cases same)
      · exact Memory.pending_store_of_ne s.memory location value
          (fun same => ne (by cases same; rfl))
  | publishExchange j location value =>
      simp only [NotifyState.step] at taken
      split at taken
      · split at taken <;> cases taken
        exact ok.publishes rfl fun _ _ => rfl
      · cases taken
  | probe j armed =>
      simp only [NotifyState.step, NotifyState.probe] at taken
      split at taken <;> cases taken
      exact ok.wakerGoes (by cases armed <;> rfl)
  | wakerTick j => exact ok.wakerTick taken
  | flush thread =>
      simp only [NotifyState.step] at taken
      obtain ⟨memory, flushed, rfl⟩ := Option.map_eq_some_iff.mp taken
      exact ok.flush flushed

theorem gateOk (reached : (system cells).Reachable s) : GateOk s := by
  refine reached.invariant GateOk ?base ?preserved
  case base =>
    rintro _ rfl
    exact gateOk_new
  case preserved =>
    intro before action after _ ok taken
    exact ok.step taken

/-! ### A waker on its way arrives -/

/-- The steps that are not the task's. -/
def byOthers : NotifyAction ι L V → Bool
  | .publish _ _ _ => true
  | .publishExchange _ _ _ => true
  | .probe _ _ => true
  | .wakerTick _ => true
  | .flush _ => true
  | _ => false

/-- The runs, from any state, while the task is suspended. -/
def asleep : System (NotifyState ι L V) (NotifyAction ι L V) :=
  (System.ofFunction (fun _ => True) step).guarded fun _ action => byOthers action = true

/-- The steps waker `i` takes by itself when its relaxed load sees `armed`. -/
def own (i : ι) (armed : Bool) (action : NotifyAction ι L V) : Prop :=
  action = .flush (.waker i) ∨ action = .probe i armed ∨ action = .wakerTick i

/-- The runs, from any state, in which only waker `i` takes steps. -/
def alone (i : ι) (armed : Bool) : System (NotifyState ι L V) (NotifyAction ι L V) :=
  (System.ofFunction (fun _ => True) step).guarded fun _ action => own i armed action

/-- Waker `i` is inside `wake` and will call `notify_one`: while the task is suspended
it does not get out without that, and its own steps lead there whatever its relaxed
load sees. -/
structure WillNotify (s : NotifyState ι L V) (i : ι) : Prop where
  inside : insideWake (s.wakers i) = true
  stays : ∀ later, asleep.Leads s later →
    later.notify.released = true ∨ insideWake (later.wakers i) = true
  notifies : ∀ armed, ∃ later, (alone i armed).Leads s later ∧ later.notify.released = true

/-- A step of another party keeps the waker inside or the task released. -/
theorem step_inside (ok : GateOk s) (alive : live s.task = 1) {action : NotifyAction ι L V}
    (others : byOthers action = true) (taken : s.step action = some after)
    (inside : s.notify.released = true ∨ insideWake (s.wakers i) = true) :
    after.task = s.task ∧
      (after.notify.released = true ∨ insideWake (after.wakers i) = true) := by
  have goes (memory : Memory (NotifyThread ι) L V) {j : ι} {pc : NotifyWakerPc}
      (still : insideWake pc = true) :
      ({ s with memory := memory }.wakerAt j pc).notify.released = true ∨
        insideWake (({ s with memory := memory }.wakerAt j pc).wakers i) = true := by
    rcases inside with released | inside
    · exact .inl released
    · refine .inr ?_
      by_cases same : i = j
      · rw [same, wakers_wakerAt]
        exact still
      · rw [wakers_wakerAt_of_ne _ _ same]
        exact inside
  cases action with
  | publish j location value =>
      simp only [NotifyState.step] at taken
      split at taken <;> cases taken
      exact ⟨rfl, goes _ rfl⟩
  | publishExchange j location value =>
      simp only [NotifyState.step] at taken
      split at taken
      · split at taken <;> cases taken
        exact ⟨rfl, goes _ rfl⟩
      · cases taken
  | probe j armed =>
      simp only [NotifyState.step, NotifyState.probe] at taken
      split at taken <;> cases taken
      exact ⟨rfl, goes s.memory (by cases armed <;> rfl)⟩
  | wakerTick j =>
      simp only [NotifyState.step, NotifyState.wakerTick] at taken
      split at taken
      · cases taken
      · cases taken
      · split at taken
        · split at taken
          · cases taken
            exact ⟨rfl, goes s.memory rfl⟩
          · rename_i disarmed
            exact absurd (alive.symm.trans (live_eq_zero ok disarmed)) Nat.one_ne_zero
        · cases taken
      · split at taken <;> cases taken
        exact ⟨rfl, .inl s.notify.released_notifyOne⟩
  | flush thread =>
      simp only [NotifyState.step] at taken
      obtain ⟨memory, -, rfl⟩ := Option.map_eq_some_iff.mp taken
      exact ⟨rfl, inside⟩
  | _ => cases others

theorem stays_inside (ok : GateOk s) (alive : live s.task = 1)
    (inside : insideWake (s.wakers i) = true) {later : NotifyState ι L V}
    (leads : asleep.Leads s later) :
    later.notify.released = true ∨ insideWake (later.wakers i) = true := by
  have all : GateOk later ∧ live later.task = 1 ∧
      (later.notify.released = true ∨ insideWake (later.wakers i) = true) := by
    refine leads.invariant (fun later => GateOk later ∧ live later.task = 1 ∧
      (later.notify.released = true ∨ insideWake (later.wakers i) = true))
        ⟨ok, alive, .inr inside⟩ ?_
    rintro before action after ⟨ok, alive, inside⟩ ⟨others, taken⟩
    obtain ⟨same, inside⟩ := step_inside ok alive others taken inside
    exact ⟨ok.step taken, same ▸ alive, inside⟩
  exact all.2.2

/-- Waker `i`'s buffer drains by itself. -/
theorem leads_drained (i : ι) (armed : Bool) (s : NotifyState ι L V) :
    ∃ memory : Memory (NotifyThread ι) L V, memory.drained (.waker i) = true ∧
      (alone i armed).Leads s { s with memory := memory } := by
  obtain ⟨memory, drained, flushes⟩ := s.memory.flushes_drain (.waker i)
  refine ⟨memory, drained, ?_⟩
  refine flushes.lift (p := (alone i armed).Next) (fun memory => { s with memory := memory }) ?_
  intro before after flushed
  have taken : { s with memory := before }.step (.flush (.waker i)) =
      some { s with memory := after } := by
    simp only [NotifyState.step, flushed, Option.map_some]
  exact ⟨_, .inl rfl, taken⟩

theorem leads_notify (saw : Bool) (drained : s.memory.drained (.waker i) = true)
    (armed : s.armed ≠ 0) (inside : insideWake (s.wakers i) = true) :
    ∃ later, (alone i saw).Leads s later ∧ later.notify.released = true := by
  have notifyOne (s : NotifyState ι L V) (drained : s.memory.drained (.waker i) = true)
      (pcEq : s.wakers i = .notifyOne) :
      ∃ later, (alone i saw).Leads s later ∧ later.notify.released = true := by
    have taken : s.step (.wakerTick i) =
        some ({ s with notify := s.notify.notifyOne }.wakerAt i .idle) := by
      simp [NotifyState.step, NotifyState.wakerTick, pcEq, drained]
    exact ⟨_, Relation.ReflTransGen.single ⟨_, .inr (.inr rfl), taken⟩,
      s.notify.released_notifyOne⟩
  have fetchAdd (s : NotifyState ι L V) (drained : s.memory.drained (.waker i) = true)
      (armed : s.armed ≠ 0) (pcEq : s.wakers i = .fetchAdd) :
      ∃ later, (alone i saw).Leads s later ∧ later.notify.released = true := by
    obtain ⟨later, leads, released⟩ :=
      notifyOne (s.wakerAt i .notifyOne) drained (wakers_wakerAt s i .notifyOne)
    have taken : s.step (.wakerTick i) = some (s.wakerAt i .notifyOne) := by
      simp only [NotifyState.step, NotifyState.wakerTick, pcEq, drained, if_true]
      rw [if_pos armed]
    exact ⟨later, Relation.ReflTransGen.head ⟨_, .inr (.inr rfl), taken⟩ leads, released⟩
  cases pcEq : s.wakers i with
  | idle =>
      rw [pcEq] at inside
      cases inside
  | probe =>
      have taken : s.step (.probe i saw) =
          some (s.wakerAt i (if saw then .notifyOne else .fetchAdd)) := by
        simp only [NotifyState.step, NotifyState.probe, pcEq]
      cases saw with
      | true =>
          obtain ⟨later, leads, released⟩ :=
            notifyOne (s.wakerAt i .notifyOne) drained (wakers_wakerAt s i .notifyOne)
          exact ⟨later, Relation.ReflTransGen.head ⟨_, .inr (.inl rfl), taken⟩ leads, released⟩
      | false =>
          obtain ⟨later, leads, released⟩ :=
            fetchAdd (s.wakerAt i .fetchAdd) drained armed (wakers_wakerAt s i .fetchAdd)
          exact ⟨later, Relation.ReflTransGen.head ⟨_, .inr (.inl rfl), taken⟩ leads, released⟩
  | fetchAdd => exact fetchAdd s drained armed pcEq
  | notifyOne => exact notifyOne s drained pcEq

theorem willNotify (ok : GateOk s) (alive : live s.task = 1)
    (inside : insideWake (s.wakers i) = true) : WillNotify s i where
  inside := inside
  stays _ leads := stays_inside ok alive inside leads
  notifies saw := by
    have armed := armed_of_live ok alive
    obtain ⟨memory, drained, leads⟩ := leads_drained i saw s
    obtain ⟨later, onwards, released⟩ :=
      leads_notify (s := { s with memory := memory }) saw drained armed inside
    exact ⟨later, leads.trans onwards, released⟩

/-! ### No wake is lost -/

/-- The task is suspended on a future that has not been released, with no permit stored,
on a predicate that holds of the data published so far or while a publication is still
pending. -/
structure Missed (s : NotifyState ι L V) (ready : Probe L V) : Prop where
  suspended : ∃ call, s.task = .suspended call ready
  unreleased : s.notify.future ≠ some .notified
  noPermit : s.notify.permit = false
  published : ready.holds s.memory.cells = true ∨ ∃ i, s.memory.pending (.waker i) ≠ []

/-- The gate counts the live guarded futures, its decrement never starts from zero, and
a suspension that missed a publication is ended by a waker that is still inside
`wake`. -/
structure NoWakeLost (s : NotifyState ι L V) : Prop where
  armed : s.armed = BitVec.ofNat 64 (live s.task)
  positive : ∀ next, s.task = .disarm next → s.armed ≠ 0
  ended : ∀ ready, Missed s ready → ∃ i, WillNotify s i

/-- However the waits, the cancellations and the wakers interleave, no wake is lost. -/
theorem notify_noWakeLost (reached : (system cells).Reachable s) : NoWakeLost s where
  armed := (gateOk reached).armed
  positive next pcEq := armed_of_live (gateOk reached) (by rw [pcEq]; rfl)
  ended ready missed := by
    have ok := gateOk reached
    obtain ⟨call, pcEq⟩ := missed.suspended
    have someone : ∃ i, insideWake (s.wakers i) = true := by
      rcases missed.published with holds | ⟨i, some⟩
      · rcases ok.covered ready (.answer false) (by rw [pcEq]; rfl) with quiet | released | onWay
        · exact absurd (quiet holds) Bool.false_ne_true
        · rw [Notify.released, missed.noPermit, decide_eq_false missed.unreleased] at released
          cases released
        · exact onWay
      · exact ⟨i, ok.pending i some⟩
    obtain ⟨i, inside⟩ := someone
    exact ⟨i, willNotify ok (by rw [pcEq]; rfl) inside⟩

/-- A predicate that is the value of the one location. -/
def flagSet : Probe Unit Bool := .load () .answer

/-- A wait is cancelled behind its notification; the next one consumes the permit it has
handed back and suspends again, and the waker publishes once more. -/
def cancelledThenPublished : List (NotifyAction Nat Unit Bool) :=
  [NotifyAction.wait .waitUntil flagSet] ++ List.replicate 6 NotifyAction.tick ++
    [NotifyAction.publish 0 () false, .probe 0 false, .flush (.waker 0), .wakerTick 0,
      .wakerTick 0] ++
    [NotifyAction.cancel, .tick, .tick, .wait .direct flagSet] ++
    List.replicate 10 NotifyAction.tick ++ [NotifyAction.publish 0 () true, .flush (.waker 0)]

theorem notify_noWakeLost_cancelledThenPublished :
    ∃ s : NotifyState Nat Unit Bool, (system fun _ => false).Reachable s ∧ Missed s flagSet ∧
      NoWakeLost s := by
  have ran : (Transition.execute (fun s action => s.step action) (new fun _ => false)
      cancelledThenPublished).map (fun s => (s.task, s.notify, s.memory.cells ())) =
        some (.suspended .direct flagSet, ⟨false, some .waiting⟩, true) := by
    rfl
  obtain ⟨s, ran, seen⟩ := Option.map_eq_some_iff.mp ran
  obtain ⟨suspended, notify, published⟩ := by simpa only [Prod.mk.injEq] using seen
  have reached : (system fun _ => false).Reachable s := System.reachable_of_execute rfl ran
  refine ⟨s, reached, ⟨⟨_, suspended⟩, ?_, ?_, .inl published⟩, notify_noWakeLost reached⟩
  · rw [notify]
    decide
  · rw [notify]

end NotifyState

end ArbitroKit
