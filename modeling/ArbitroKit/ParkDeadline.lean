import ArbitroKit.ParkWaiterWake

/-!
# A timed wait reports the truth

`ParkWaiter::wait_until_deadline`, seen from the waiting thread alone: the predicate may
answer anything at each evaluation, the clock may read anything, and `park_timeout` may
return at any time for any cause.  A call keeps a log of what it has seen and done, the
newest entry first.
-/

namespace ArbitroKit

open Buffered Transition

/-- Why `park_timeout` returned. -/
inductive ParkReturn where
  | genuine
  | spurious
  | timedOut
  deriving DecidableEq, Repr

inductive DeadlineEvent where
  | ready (answer : Bool)
  | now (reading : Nat)
  -- T1 and T2
  | announced
  | left
  | parked (timeout : Nat) (cause : ParkReturn)
  deriving DecidableEq, Repr

inductive DeadlinePc where
  | idle
  | entry
  | hasWorker
  -- the tight spin and the spin with pauses, one after the other
  | spin (turn : Nat)
  | spinClock (turn : Nat)
  | announce
  | recheck
  -- the park loop
  | clock
  | park (timeout : Nat)
  | parkReturned
  -- T2, with the predicate true or the deadline elapsed
  | leave
  | leaveElapsed
  | lastLook
  | returned (elapsed : Bool)
  -- the assertion, and the subtraction of two instants
  | panicked
  | underflowed
  deriving DecidableEq, Repr

/-- `deadline - now`. -/
def durationUntil (deadline now : Nat) : Option Nat :=
  if now ≤ deadline then some (deadline - now) else none

/-- The waiting thread, the flag it announces itself with, and the log of its call. -/
structure DeadlineWait where
  parked : ParkFlag
  registered : Bool
  deadline : Nat
  pc : DeadlinePc
  log : List DeadlineEvent
  deriving DecidableEq, Repr

inductive DeadlineAction where
  | setWorker
  | waitUntilDeadline (deadline : Nat)
  | tick
  | evaluate (answer : Bool)
  | clock (now : Nat)
  | parkReturn (cause : ParkReturn)
  deriving DecidableEq, Repr

namespace DeadlineWait

def new : DeadlineWait where
  parked := .unparked
  registered := false
  deadline := 0
  pc := .idle
  log := []

def goto (s : DeadlineWait) (pc : DeadlinePc) : DeadlineWait := { s with pc := pc }

def logged (s : DeadlineWait) (event : DeadlineEvent) : DeadlineWait :=
  { s with log := event :: s.log }

/-- The next turn of the spinning loops, or the announcement. -/
def spinAt (spinIters : Nat) (turn : Nat) : DeadlinePc :=
  if turn < tightSpin + spinIters then .spin turn else .announce

/-- The predicate has answered. -/
def evaluate (s : DeadlineWait) (answer : Bool) : Option DeadlineWait :=
  let s := s.logged (.ready answer)
  match s.pc with
  | .entry => some (s.goto (if answer then .returned false else .hasWorker))
  | .spin turn => some (s.goto (if answer then .returned false else .spinClock turn))
  | .recheck => some (s.goto (if answer then .leave else .clock))
  | .parkReturned => some (s.goto (if answer then .leave else .clock))
  | .lastLook => some (s.goto (.returned !answer))
  | _ => none

/-- `Instant::now()` has been read. -/
def clock (spinIters : Nat) (s : DeadlineWait) (now : Nat) : Option DeadlineWait :=
  let s := s.logged (.now now)
  match s.pc with
  | .spinClock turn =>
      some (s.goto (if s.deadline ≤ now then .returned true else spinAt spinIters (turn + 1)))
  | .clock =>
      if s.deadline ≤ now then
        some (s.goto .leaveElapsed)
      else
        match durationUntil s.deadline now with
        | some timeout => some (s.goto (.park timeout))
        | none => some (s.goto .underflowed)
  | _ => none

def tick (spinIters : Nat) (s : DeadlineWait) : Option DeadlineWait :=
  match s.pc with
  | .hasWorker => some (s.goto (if s.registered then spinAt spinIters 0 else .panicked))
  | .announce => some (({ s with parked := .parked }.logged .announced).goto .recheck)
  | .leave => some (({ s with parked := .unparked }.logged .left).goto (.returned false))
  | .leaveElapsed => some (({ s with parked := .unparked }.logged .left).goto .lastLook)
  | .returned _ => some (s.goto .idle)
  | _ => none

def step (spinIters : Nat) (s : DeadlineWait) : DeadlineAction → Option DeadlineWait
  | .setWorker =>
      match s.pc with
      | .idle => some { s with registered := true }
      | _ => none
  | .waitUntilDeadline deadline =>
      match s.pc with
      | .idle => some ({ s with deadline := deadline, log := [] }.goto .entry)
      | _ => none
  | .tick => s.tick spinIters
  | .evaluate answer => s.evaluate answer
  | .clock now => s.clock spinIters now
  | .parkReturn cause =>
      match s.pc with
      | .park timeout => some ((s.logged (.parked timeout cause)).goto .parkReturned)
      | _ => none

def system (spinIters : Nat) : System DeadlineWait DeadlineAction :=
  System.ofFunction (fun s => s = new) fun s action => s.step spinIters action

end DeadlineWait

/-! ### What a log tells -/

/-- The answer of the last evaluation. -/
def lastAnswer : List DeadlineEvent → Option Bool
  | [] => none
  | .ready answer :: _ => some answer
  | _ :: before => lastAnswer before

/-- The last reading of the clock. -/
def lastReading : List DeadlineEvent → Option Nat
  | [] => none
  | .now reading :: _ => some reading
  | _ :: before => lastReading before

/-- The clock read the deadline or later, with the predicate last found false. -/
def Elapsed (deadline : Nat) (log : List DeadlineEvent) : Prop :=
  ∃ since now before, log = since ++ .now now :: before ∧ deadline ≤ now ∧
    lastAnswer before = some false

/-- The call has announced itself, not left, and evaluated the predicate since. -/
def Rechecked (log : List DeadlineEvent) : Prop :=
  ∃ since before, log = since ++ .announced :: before ∧ .left ∉ since ∧
    ∃ answer, .ready answer ∈ since

theorem Elapsed.cons {deadline : Nat} {log : List DeadlineEvent} (elapsed : Elapsed deadline log)
    (event : DeadlineEvent) : Elapsed deadline (event :: log) := by
  obtain ⟨since, now, before, rfl, late, unready⟩ := elapsed
  exact ⟨event :: since, now, before, rfl, late, unready⟩

theorem Rechecked.cons {log : List DeadlineEvent} (rechecked : Rechecked log)
    {event : DeadlineEvent} (stays : event ≠ .left) : Rechecked (event :: log) := by
  obtain ⟨since, before, rfl, inside, answer, evaluated⟩ := rechecked
  refine ⟨event :: since, before, rfl, ?_, answer, List.mem_cons_of_mem _ evaluated⟩
  rw [List.mem_cons, not_or]
  exact ⟨stays.symm, inside⟩

namespace DeadlineWait

variable {spinIters : Nat} {s after : DeadlineWait}

/-! ### The invariant -/

/-- The thread has announced itself and not left. -/
def between : DeadlinePc → Bool
  | .recheck => true
  | .clock => true
  | .park _ => true
  | .parkReturned => true
  | .leave => true
  | .leaveElapsed => true
  | .underflowed => true
  | _ => false

/-- The thread is to sleep for what the last reading leaves until the deadline. -/
def Remains (deadline : Nat) (log : List DeadlineEvent) (timeout : Nat) : Prop :=
  ∃ now, lastReading log = some now ∧ now < deadline ∧ timeout = deadline - now

/-- What the log of a call tells at each of its places. -/
def Told (deadline : Nat) (log : List DeadlineEvent) : DeadlinePc → Prop
  | .idle => True
  | .entry => True
  | .hasWorker => lastAnswer log = some false
  | .spin _ => lastAnswer log = some false
  | .spinClock _ => lastAnswer log = some false
  | .announce => lastAnswer log = some false
  | .recheck => ∃ before, log = .announced :: before
  | .clock => lastAnswer log = some false ∧ Rechecked log
  | .park timeout =>
      lastAnswer log = some false ∧ Rechecked log ∧ Remains deadline log timeout
  | .parkReturned => Rechecked log
  | .leave => lastAnswer log = some true
  | .leaveElapsed => lastAnswer log = some false ∧ Elapsed deadline log
  | .lastLook => Elapsed deadline log
  | .returned elapsed =>
      lastAnswer log = some !elapsed ∧ (elapsed = true → Elapsed deadline log)
  | .panicked => lastAnswer log = some false
  | .underflowed => False

structure DeadlineOk (s : DeadlineWait) : Prop where
  flag : s.parked = if between s.pc then .parked else .unparked
  told : Told s.deadline s.log s.pc

theorem deadlineOk_new : DeadlineOk new := ⟨rfl, trivial⟩

/-! ### Steps -/

theorem between_spinAt (spinIters turn : Nat) : between (spinAt spinIters turn) = false := by
  unfold spinAt
  split <;> rfl

theorem told_spinAt {deadline : Nat} {log : List DeadlineEvent}
    (unready : lastAnswer log = some false) (spinIters turn : Nat) :
    Told deadline log (spinAt spinIters turn) := by
  unfold spinAt
  split <;> exact unready

theorem rechecked_announced (before : List DeadlineEvent) (answer : Bool) :
    Rechecked (.ready answer :: .announced :: before) := by
  refine ⟨[.ready answer], before, rfl, ?_, answer, List.mem_cons_self⟩
  rw [List.mem_singleton]
  exact DeadlineEvent.noConfusion

theorem elapsed_now {deadline now : Nat} {log : List DeadlineEvent} (reached : deadline ≤ now)
    (unready : lastAnswer log = some false) : Elapsed deadline (.now now :: log) :=
  ⟨[], now, log, rfl, reached, unready⟩

/-- A reading before the deadline leaves a time to sleep. -/
theorem durationUntil_of_lt {deadline now : Nat} (early : now < deadline) :
    durationUntil deadline now = some (deadline - now) :=
  if_pos (Nat.le_of_lt early)

theorem DeadlineOk.evaluate (ok : DeadlineOk s) {answer : Bool}
    (taken : s.evaluate answer = some after) : DeadlineOk after := by
  obtain ⟨word, registered, deadline, pc, log⟩ := s
  obtain ⟨flag, told⟩ := ok
  -- behind the announcement: leave, or look at the clock
  have behind (same : word = .parked) (rechecked : Rechecked (.ready answer :: log)) :
      DeadlineOk ⟨word, registered, deadline, if answer then .leave else .clock,
        .ready answer :: log⟩ := by
    cases answer with
    | true => exact ⟨same, rfl⟩
    | false => exact ⟨same, rfl, rechecked⟩
  cases pc with
  | entry | spin turn =>
      obtain rfl := Option.some.inj taken
      cases answer with
      | true => exact ⟨flag, rfl, fun never => absurd never Bool.false_ne_true⟩
      | false => exact ⟨flag, rfl⟩
  | recheck =>
      obtain rfl := Option.some.inj taken
      obtain ⟨before, rfl⟩ := told
      exact behind flag (rechecked_announced before answer)
  | parkReturned =>
      obtain rfl := Option.some.inj taken
      exact behind flag (told.cons DeadlineEvent.noConfusion)
  | lastLook =>
      obtain rfl := Option.some.inj taken
      refine ⟨flag, ?_, fun _ => told.cons _⟩
      rw [Bool.not_not]
      rfl
  | _ => cases taken

theorem DeadlineOk.clock (ok : DeadlineOk s) {now : Nat}
    (taken : s.clock spinIters now = some after) : DeadlineOk after := by
  obtain ⟨word, registered, deadline, pc, log⟩ := s
  obtain ⟨flag, told⟩ := ok
  cases pc with
  | spinClock turn =>
      obtain rfl := Option.some.inj taken
      by_cases reached : deadline ≤ now
      · refine ⟨?_, ?_⟩ <;> simp only [goto, logged, reached, if_true]
        · exact flag
        · exact ⟨told, fun _ => elapsed_now reached told⟩
      · have unready : lastAnswer (.now now :: log) = some false := told
        refine ⟨?_, ?_⟩ <;> simp only [goto, logged, reached, if_false]
        · rw [between_spinAt]
          exact flag
        · exact told_spinAt unready spinIters (turn + 1)
  | clock =>
      obtain ⟨unready, rechecked⟩ := told
      by_cases reached : deadline ≤ now
      · simp only [DeadlineWait.clock, logged, reached, if_true] at taken
        obtain rfl := Option.some.inj taken
        exact ⟨flag, unready, elapsed_now reached unready⟩
      · have early := Nat.lt_of_not_le reached
        simp only [DeadlineWait.clock, logged, reached, if_false, durationUntil_of_lt early]
          at taken
        obtain rfl := Option.some.inj taken
        exact ⟨flag, unready, rechecked.cons DeadlineEvent.noConfusion, now, rfl, early, rfl⟩
  | _ => cases taken

theorem DeadlineOk.tick (ok : DeadlineOk s) (taken : s.tick spinIters = some after) :
    DeadlineOk after := by
  obtain ⟨word, registered, deadline, pc, log⟩ := s
  obtain ⟨flag, told⟩ := ok
  cases pc with
  | hasWorker =>
      obtain rfl := Option.some.inj taken
      cases registered with
      | false => exact ⟨flag, told⟩
      | true =>
          refine ⟨?_, told_spinAt told spinIters 0⟩
          refine Eq.trans flag ?_
          simp only [goto, if_true, between_spinAt]
          rfl
  | announce =>
      obtain rfl := Option.some.inj taken
      exact ⟨rfl, log, rfl⟩
  | leave =>
      obtain rfl := Option.some.inj taken
      exact ⟨rfl, told, fun never => absurd never Bool.false_ne_true⟩
  | leaveElapsed =>
      obtain rfl := Option.some.inj taken
      exact ⟨rfl, told.2.cons _⟩
  | returned elapsed =>
      obtain rfl := Option.some.inj taken
      exact ⟨flag, trivial⟩
  | _ => cases taken

theorem DeadlineOk.step (ok : DeadlineOk s) {action : DeadlineAction}
    (taken : s.step spinIters action = some after) : DeadlineOk after := by
  obtain ⟨word, registered, deadline, pc, log⟩ := s
  cases action with
  | setWorker | waitUntilDeadline later =>
      cases pc with
      | idle =>
          obtain rfl := Option.some.inj taken
          exact ⟨ok.flag, trivial⟩
      | _ => cases taken
  | tick => exact ok.tick taken
  | evaluate answer => exact ok.evaluate taken
  | clock now => exact ok.clock taken
  | parkReturn cause =>
      cases pc with
      | park timeout =>
          obtain rfl := Option.some.inj taken
          exact ⟨ok.flag, ok.told.2.1.cons DeadlineEvent.noConfusion⟩
      | _ => cases taken

theorem deadlineOk (reached : (system spinIters).Reachable s) : DeadlineOk s := by
  refine reached.invariant DeadlineOk ?_ ?_
  · rintro state rfl
    exact deadlineOk_new
  · intro before action after _ ok taken
    exact ok.step taken

/-! ### What a call reports -/

/-- What a call of `wait_until_deadline` reports, and how it sleeps. -/
structure ReportsTruth (s : DeadlineWait) : Prop where
  ready : ∀ elapsed, s.pc = .returned elapsed →
    (elapsed = false ↔ lastAnswer s.log = some true)
  elapsed : s.pc = .returned true →
    Elapsed s.deadline s.log ∧ lastAnswer s.log = some false
  restored : ∀ elapsed, s.pc = .returned elapsed → s.parked = .unparked
  -- whatever happens next, the call parks only behind its announcement and a look
  parks : ∀ timeout, s.pc = .park timeout →
    s.parked = .parked ∧ Rechecked s.log ∧ lastAnswer s.log = some false
  timeout : ∀ timeout, s.pc = .park timeout → Remains s.deadline s.log timeout
  noUnderflow : s.pc ≠ .underflowed

theorem wait_reportsTruth (reached : (system spinIters).Reachable s) : ReportsTruth s := by
  obtain ⟨flag, told⟩ := deadlineOk reached
  refine ⟨fun elapsed here => ?_, fun here => ?_, fun elapsed here => ?_, fun timeout here => ?_,
    fun timeout here => ?_, fun here => ?_⟩
  all_goals rw [here] at flag told
  · obtain ⟨answer, -⟩ := told
    rw [answer]
    cases elapsed <;> decide
  · exact ⟨told.2 rfl, told.1⟩
  · exact flag
  · exact ⟨flag, told.2.1, told.1⟩
  · exact told.2.2
  · exact told

/-- A wait that spins once, sleeps twice and finds the deadline passed on waking up. -/
def sleptTwice : List DeadlineAction :=
  [DeadlineAction.setWorker, .waitUntilDeadline 100, .evaluate false, .tick] ++
    (List.range (tightSpin + 1)).flatMap (fun turn =>
      [DeadlineAction.evaluate false, .clock turn]) ++
    [DeadlineAction.tick, .evaluate false, .clock 70, .parkReturn .spurious, .evaluate false,
      .clock 80, .parkReturn .timedOut, .evaluate false, .clock 100, .tick, .evaluate false]

theorem wait_reportsTruth_sleptTwice :
    ∃ s, s.pc = .returned true ∧ s.log.length = 142 ∧ ReportsTruth s := by
  have ran : (execute (step 1) new sleptTwice).map (fun s => (s.pc, s.log.length)) =
      some (.returned true, 142) := by rfl
  obtain ⟨s, ran, seen⟩ := Option.map_eq_some_iff.mp ran
  obtain ⟨pc, length⟩ := Prod.mk.inj seen
  exact ⟨s, pc, length, wait_reportsTruth (System.reachable_of_execute rfl ran)⟩

end DeadlineWait

/-! ### Among wakers -/

namespace ParkState

variable {ι L V : Type*} {spinIters : Nat} {s after : ParkState ι L V} {d : DeadlineWait}

/-- The place of the waiting thread in its timed wait; outside of one it is idle. -/
def Placed : ParkWaiterPc L V → DeadlinePc → Prop
  | .entry .waitUntilDeadline _ _, pc => pc = .entry
  | .hasWorker .waitUntilDeadline _, pc => pc = .hasWorker
  | .spin .waitUntilDeadline _ turn _, pc => pc = .spin turn
  | .spinClock _ turn, pc => pc = .spinClock turn
  | .announce .waitUntilDeadline _, pc => pc = .announce
  | .fence .waitUntilDeadline _, pc => pc = .recheck
  | .recheck .waitUntilDeadline _ _, pc => pc = .recheck
  | .clock _, pc => pc = .clock
  | .park .waitUntilDeadline _, pc => ∃ timeout, pc = .park timeout
  | .parkReturned .waitUntilDeadline _ _, pc => pc = .parkReturned
  | .leave .waitUntilDeadline, pc => pc = .leave
  | .leaveElapsed _, pc => pc = .leaveElapsed
  | .lastLook _, pc => pc = .lastLook
  | .returned (.waitUntilDeadline elapsed), pc => pc = .returned elapsed
  | .panicked, pc => pc = .panicked ∨ pc = .idle
  | _, pc => pc = .idle

/-- The timed wait that the waiting thread makes among its wakers. -/
structure Views (s : ParkState ι L V) (d : DeadlineWait) : Prop where
  registered : d.registered = s.registered
  placed : Placed s.waiter d.pc
  -- so that the clock can read less
  deadline : d.pc ≠ .idle → 0 < d.deadline

theorem placed_spinAt (spinIters : Nat) (ready : Probe L V) (turn : Nat) :
    Placed (spinAt spinIters .waitUntilDeadline ready turn)
      (DeadlineWait.spinAt spinIters turn) := by
  unfold spinAt DeadlineWait.spinAt
  split <;> rfl

theorem placed_spinAt_waitUntil (spinIters : Nat) (ready : Probe L V) (turn : Nat) :
    Placed (spinAt spinIters .waitUntil ready turn) .idle := by
  unfold spinAt
  split <;> rfl

/-- A step of the thread, or of another one, in the eyes of the timed wait. -/
def Shows (spinIters : Nat) (d : DeadlineWait) (after : ParkState ι L V) : Prop :=
  ∃ next, (next = d ∨ ∃ move, d.step spinIters move = some next) ∧ Views after next

theorem Views.shows_same (views : Views s d) (registered : after.registered = s.registered)
    (placed : Placed after.waiter d.pc) : Shows spinIters d after :=
  ⟨d, .inl rfl, views.registered.trans registered.symm, placed, views.deadline⟩

/-- A step that leaves the waiting thread where it is. -/
theorem Views.shows_other (views : Views s d) (registered : after.registered = s.registered)
    (waiter : after.waiter = s.waiter) : Shows spinIters d after :=
  views.shows_same registered (waiter ▸ views.placed)

/-- A move inside a call. -/
theorem Views.shows_move (views : Views s d) (move : DeadlineAction)
    (registered : after.registered = s.registered) (inside : d.pc ≠ .idle) {next : DeadlineWait}
    (taken : d.step spinIters move = some next) (kept : next.registered = d.registered)
    (deadline : next.deadline = d.deadline) (placed : Placed after.waiter next.pc) :
    Shows spinIters d after := by
  refine ⟨next, .inr ⟨move, taken⟩, ?_, placed, fun _ => ?_⟩
  · rw [kept, registered]
    exact views.registered
  · rw [deadline]
    exact views.deadline inside

theorem Views.shows_wakerTick (views : Views s d) [DecidableEq ι] {i : ι}
    (taken : s.wakerTick i = some after) : Shows spinIters d after := by
  unfold wakerTick at taken
  repeat' split at taken
  all_goals
    first
    | obtain rfl := Option.some.inj taken
      exact views.shows_other rfl rfl
    | cases taken

variable [DecidableEq L]

/-- An evaluation by loads is one answer to the wait. -/
theorem Views.shows_evaluate (views : Views s d) {rest : Probe L V}
    {loaded : Probe L V → ParkWaiterPc L V} {answered : Bool → ParkWaiterPc L V}
    (loads : ∀ rest, Placed (loaded rest) d.pc)
    (answers : ∀ answer, Shows spinIters d (s.waiterAt (answered answer))) :
    Shows spinIters d (s.evaluate rest loaded answered) := by
  cases rest with
  | load location next => exact views.shows_same rfl (loads _)
  | answer ready => exact answers ready

/-- An evaluation in a timed wait. -/
theorem Views.shows_look (views : Views s d) (inside : d.pc ≠ .idle) {rest : Probe L V}
    {loaded : Probe L V → ParkWaiterPc L V} {answered : Bool → ParkWaiterPc L V}
    {pc : Bool → DeadlinePc} (loads : ∀ rest, Placed (loaded rest) d.pc)
    (taken : ∀ answer,
      d.evaluate answer = some ((d.logged (.ready answer)).goto (pc answer)))
    (answers : ∀ answer, Placed (answered answer) (pc answer)) :
    Shows spinIters d (s.evaluate rest loaded answered) := by
  refine views.shows_evaluate loads fun answer => ?_
  exact views.shows_move (.evaluate answer) rfl inside (taken answer) rfl rfl (answers answer)

/-- Outside of a timed wait the wait is idle. -/
theorem Views.shows_away (views : Views s d) (idle : d.pc = .idle) {rest : Probe L V}
    {loaded : Probe L V → ParkWaiterPc L V} {answered : Bool → ParkWaiterPc L V}
    (loads : ∀ rest, Placed (loaded rest) .idle)
    (answers : ∀ answer, Placed (answered answer) .idle) :
    Shows spinIters d (s.evaluate rest loaded answered) := by
  rw [← idle] at loads answers
  refine views.shows_evaluate loads fun answer => ?_
  have placed : Placed (s.waiterAt (answered answer)).waiter d.pc := answers answer
  exact views.shows_same rfl placed

theorem Views.shows_tick (views : Views s d) (taken : s.tick spinIters = some after) :
    Shows spinIters d after := by
  obtain ⟨registered, placed, -⟩ := id views
  obtain ⟨word, known, deadline, pc, log⟩ := d
  unfold tick at taken
  split at taken
  case h_1 => cases taken
  case h_2 waiter =>
    rw [waiter] at placed
    obtain rfl := placed
    obtain rfl := Option.some.inj taken
    exact ⟨⟨word, true, deadline, .idle, log⟩, .inr ⟨.setWorker, rfl⟩, rfl, rfl,
      fun never => absurd rfl never⟩
  case h_3 call ready rest waiter =>
    rw [waiter] at placed
    obtain rfl := Option.some.inj taken
    cases call with
    | waitUntil =>
        obtain rfl := placed
        refine views.shows_away rfl (fun _ => rfl) fun answer => ?_
        cases answer <;> rfl
    | waitUntilDeadline =>
        obtain rfl := placed
        refine views.shows_look DeadlinePc.noConfusion (fun _ => rfl) (fun _ => rfl) ?_
        intro answer
        cases answer <;> rfl
  case h_4 call ready waiter =>
    rw [waiter] at placed
    split at taken
    all_goals obtain rfl := Option.some.inj taken
    · rename_i present
      cases call with
      | waitUntil =>
          obtain rfl := placed
          exact views.shows_same rfl (placed_spinAt_waitUntil spinIters ready 0)
      | waitUntilDeadline =>
          obtain rfl := placed
          rw [present] at registered
          obtain rfl := registered
          exact views.shows_move .tick rfl DeadlinePc.noConfusion rfl rfl rfl
            (placed_spinAt spinIters ready 0)
    · rename_i absent
      rw [Bool.not_eq_true] at absent
      cases call with
      | waitUntil =>
          obtain rfl := placed
          exact views.shows_same rfl (.inr rfl)
      | waitUntilDeadline =>
          obtain rfl := placed
          rw [absent] at registered
          obtain rfl := registered
          exact views.shows_move .tick rfl DeadlinePc.noConfusion rfl rfl rfl (.inl rfl)
  case h_5 call ready turn rest waiter =>
    rw [waiter] at placed
    obtain rfl := Option.some.inj taken
    cases call with
    | waitUntil =>
        obtain rfl := placed
        refine views.shows_away rfl (fun _ => rfl) fun answer => ?_
        cases answer with
        | true => rfl
        | false => exact placed_spinAt_waitUntil spinIters ready (turn + 1)
    | waitUntilDeadline =>
        obtain rfl := placed
        refine views.shows_look DeadlinePc.noConfusion (fun _ => rfl) (fun _ => rfl) ?_
        intro answer
        cases answer <;> rfl
  case h_6 => cases taken
  case h_7 call ready waiter =>
    rw [waiter] at placed
    split at taken
    case isFalse => cases taken
    obtain rfl := Option.some.inj taken
    cases call with
    | waitUntil =>
        obtain rfl := placed
        exact views.shows_same rfl rfl
    | waitUntilDeadline =>
        obtain rfl := placed
        exact views.shows_move .tick rfl DeadlinePc.noConfusion rfl rfl rfl rfl
  case h_8 call ready waiter =>
    rw [waiter] at placed
    split at taken
    case isFalse => cases taken
    obtain rfl := Option.some.inj taken
    cases call with
    | waitUntil | waitUntilDeadline => exact views.shows_same rfl placed
  case h_9 call ready rest waiter =>
    rw [waiter] at placed
    obtain rfl := Option.some.inj taken
    cases call with
    | waitUntil =>
        obtain rfl := placed
        refine views.shows_away rfl (fun _ => rfl) fun answer => ?_
        cases answer <;> rfl
    | waitUntilDeadline =>
        obtain rfl := placed
        refine views.shows_look DeadlinePc.noConfusion (fun _ => rfl) (fun _ => rfl) ?_
        intro answer
        cases answer <;> rfl
  case h_10 => cases taken
  case h_11 call ready waiter =>
    rw [waiter] at placed
    split at taken
    case isFalse => cases taken
    obtain rfl := Option.some.inj taken
    cases call with
    | waitUntil =>
        obtain rfl := placed
        exact views.shows_same rfl rfl
    | waitUntilDeadline =>
        obtain ⟨timeout, rfl⟩ := placed
        exact views.shows_move (.parkReturn .genuine) rfl DeadlinePc.noConfusion rfl rfl rfl
          rfl
  case h_12 call ready rest waiter =>
    rw [waiter] at placed
    obtain rfl := Option.some.inj taken
    cases call with
    | waitUntil =>
        obtain rfl := placed
        refine views.shows_away rfl (fun _ => rfl) fun answer => ?_
        cases answer <;> rfl
    | waitUntilDeadline =>
        obtain rfl := placed
        refine views.shows_look DeadlinePc.noConfusion (fun _ => rfl) (fun _ => rfl) ?_
        intro answer
        cases answer <;> rfl
  case h_13 call waiter =>
    rw [waiter] at placed
    split at taken
    case isFalse => cases taken
    obtain rfl := Option.some.inj taken
    cases call with
    | waitUntil =>
        obtain rfl := placed
        exact views.shows_same rfl rfl
    | waitUntilDeadline =>
        obtain rfl := placed
        exact views.shows_move .tick rfl DeadlinePc.noConfusion rfl rfl rfl rfl
  case h_14 ready waiter =>
    rw [waiter] at placed
    split at taken
    case isFalse => cases taken
    obtain rfl := Option.some.inj taken
    obtain rfl := placed
    exact views.shows_move .tick rfl DeadlinePc.noConfusion rfl rfl rfl rfl
  case h_15 rest waiter =>
    rw [waiter] at placed
    obtain rfl := Option.some.inj taken
    obtain rfl := placed
    exact views.shows_look DeadlinePc.noConfusion (fun _ => rfl) (fun _ => rfl) fun _ => rfl
  case h_16 outcome waiter =>
    rw [waiter] at placed
    obtain rfl := Option.some.inj taken
    cases outcome with
    | waitUntil =>
        obtain rfl := placed
        exact views.shows_same rfl rfl
    | waitUntilDeadline elapsed =>
        obtain rfl := placed
        exact views.shows_move .tick rfl DeadlinePc.noConfusion rfl rfl rfl rfl
  case h_17 => cases taken

/-- The clock reads the deadline, or less. -/
theorem Views.shows_clock (views : Views s d) {elapsed : Bool} [DecidableEq ι]
    (taken : s.step spinIters (.clock elapsed) = some after) : Shows spinIters d after := by
  obtain ⟨-, placed, ahead⟩ := id views
  obtain ⟨word, known, deadline, pc, log⟩ := d
  simp only [step] at taken
  split at taken
  case h_1 ready turn waiter =>
    rw [waiter] at placed
    obtain rfl := placed
    have ahead : ¬ deadline ≤ 0 := Nat.not_le_of_lt (ahead DeadlinePc.noConfusion)
    cases elapsed with
    | true =>
        obtain rfl := Option.some.inj taken
        refine views.shows_move (.clock deadline) rfl DeadlinePc.noConfusion rfl rfl rfl ?_
        simp [DeadlineWait.goto, DeadlineWait.logged, waiterAt, Placed]
    | false =>
        obtain rfl := Option.some.inj taken
        refine views.shows_move (.clock 0) rfl DeadlinePc.noConfusion rfl rfl rfl ?_
        simp only [DeadlineWait.goto, DeadlineWait.logged, ahead, if_false]
        exact placed_spinAt spinIters ready (turn + 1)
  case h_2 ready waiter =>
    rw [waiter] at placed
    obtain rfl := placed
    have ahead : ¬ deadline ≤ 0 := Nat.not_le_of_lt (ahead DeadlinePc.noConfusion)
    cases elapsed with
    | true =>
        obtain rfl := Option.some.inj taken
        refine views.shows_move (.clock deadline) rfl DeadlinePc.noConfusion
          (if_pos (Nat.le_refl deadline)) rfl rfl rfl
    | false =>
        obtain rfl := Option.some.inj taken
        refine views.shows_move (.clock 0) rfl DeadlinePc.noConfusion (if_neg ahead) rfl rfl ?_
        exact ⟨deadline, rfl⟩
  case h_3 => cases taken

theorem Views.shows_step (views : Views s d) [DecidableEq ι] {action : ParkAction ι L V}
    (taken : s.step spinIters action = some after) : Shows spinIters d after := by
  have idle (waiter : s.waiter = .idle) : d.pc = .idle := by
    have placed := views.placed
    rw [waiter] at placed
    exact placed
  cases action with
  | tick => exact views.shows_tick taken
  | clock elapsed => exact views.shows_clock taken
  | wakerTick i => exact views.shows_wakerTick taken
  | flush thread =>
      obtain ⟨memory, -, rfl⟩ := Option.map_eq_some_iff.mp taken
      exact views.shows_other rfl rfl
  | setWorker =>
      simp only [step] at taken
      split at taken
      case h_2 => cases taken
      case h_1 waiter =>
        split at taken
        case isFalse => cases taken
        obtain rfl := Option.some.inj taken
        exact views.shows_same rfl (idle waiter)
  | wait call ready =>
      simp only [step] at taken
      split at taken
      case h_2 => cases taken
      case h_1 waiter =>
        obtain rfl := Option.some.inj taken
        have here := idle waiter
        cases call with
        | waitUntil => exact views.shows_same rfl here
        | waitUntilDeadline =>
            have called : d.step spinIters (.waitUntilDeadline 1) =
                some ({ d with deadline := 1, log := [] }.goto .entry) := by
              simp only [DeadlineWait.step, here]
            exact ⟨_, .inr ⟨_, called⟩, views.registered, rfl, fun _ => Nat.one_pos⟩
  | store location value =>
      simp only [step] at taken
      split at taken
      case h_2 => cases taken
      obtain rfl := Option.some.inj taken
      exact views.shows_other rfl rfl
  | exchange location value =>
      simp only [step] at taken
      split at taken
      case h_2 => cases taken
      split at taken
      case isFalse => cases taken
      obtain rfl := Option.some.inj taken
      exact views.shows_other rfl rfl
  | spurious =>
      simp only [step] at taken
      split at taken
      case h_2 => cases taken
      case h_1 call ready waiter =>
        obtain rfl := Option.some.inj taken
        have placed := views.placed
        rw [waiter] at placed
        cases call with
        | waitUntil => exact views.shows_same rfl placed
        | waitUntilDeadline =>
            obtain ⟨timeout, here⟩ := placed
            have woke : d.step spinIters (.parkReturn .spurious) =
                some ((d.logged (.parked timeout .spurious)).goto .parkReturned) := by
              simp only [DeadlineWait.step, here]
            refine views.shows_move _ rfl ?_ woke rfl rfl rfl
            rw [here]
            exact DeadlinePc.noConfusion
  | publish i location value =>
      simp only [step] at taken
      split at taken
      case h_2 => cases taken
      obtain rfl := Option.some.inj taken
      exact views.shows_other rfl rfl
  | publishExchange i location value =>
      simp only [step] at taken
      split at taken
      case h_2 => cases taken
      split at taken
      case isFalse => cases taken
      obtain rfl := Option.some.inj taken
      exact views.shows_other rfl rfl

/-- Among wakers, whatever they do, the waiting thread makes a timed wait of its own. -/
theorem waits_alone [DecidableEq ι] {cells : L → V}
    (reached : (system spinIters cells).Reachable s) :
    ∃ d, (DeadlineWait.system spinIters).Reachable d ∧ Views s d := by
  induction reached with
  | initial starts =>
      obtain rfl := starts
      exact ⟨.new, .initial rfl, rfl, rfl, fun never => absurd rfl never⟩
  | next _ taken ih =>
      obtain ⟨d, reached, views⟩ := ih
      obtain ⟨next, same | ⟨move, moves⟩, views⟩ := views.shows_step taken
      · exact ⟨next, same ▸ reached, views⟩
      · exact ⟨next, reached.next moves, views⟩

/-- So a timed wait among wakers leaves its flag down, and reports what it saw last. -/
theorem returned_deadline [DecidableEq ι] {cells : L → V}
    (reached : (system spinIters cells).Reachable s) {elapsed : Bool}
    (returned : s.waiter = .returned (.waitUntilDeadline elapsed)) :
    s.parked = .unparked ∧ ∃ d, (DeadlineWait.system spinIters).Reachable d ∧
      d.pc = .returned elapsed ∧ lastAnswer d.log = some !elapsed := by
  obtain ⟨d, follows, views⟩ := waits_alone reached
  have placed := views.placed
  rw [returned] at placed
  have told := (DeadlineWait.deadlineOk follows).told
  rw [placed] at told
  refine ⟨?_, d, follows, placed, told.1⟩
  have flag := (parkOk reached).flag
  rw [returned] at flag
  cases word : s.parked with
  | unparked => rfl
  | parked => cases flag.mp word

end ParkState

end ArbitroKit
