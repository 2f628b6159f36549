import ArbitroKit.MpscPoolLease
import ArbitroKit.MpscShutdown

/-!
# Bound threads of a producer pool

With `ParkWaiter` a blocking `send` through a lease sleeps on the handle's waiter, and
the consumer's wake unparks the thread that was last bound to this waiter, by this lease
or by an earlier one.  The assertion on the park path only asks whether any thread was
ever bound.
-/

namespace ArbitroKit

open Transition

/-- `worker` and `registered` of a `ParkWaiter`; the rest of the waiter is part of the
channel. -/
structure WorkerCell (ι : Type*) where
  worker : Option ι
  registered : Bool

/-- What a thread does with a lease on the handle `idx`. -/
inductive LeaseUse where
  | idle
  -- `bind`: the handle behind the mutex, then the flag
  | setWorker (idx : Nat)
  | publishRegistered (idx : Nat)
  | sending (idx : Nat)
  -- unwinding from the assertion of `wait_slow`
  | panicked
  deriving DecidableEq, Repr

/-- A channel behind `Mpsc::producer_pool`.  `tokens` are the threads' `park` tokens and
`borrower` says which thread's running call borrows the lease on a handle.  `boundInLease`
is history: the last thread that was bound during the present lease. -/
structure PooledMpsc (α ι : Type*) where
  channel : MpscState α
  pool : PoolState Nat ι
  cells : Nat → WorkerCell ι
  tokens : ι → Bool
  users : ι → LeaseUse
  borrower : Nat → Option ι
  boundInLease : Nat → Option ι

/-- `lease` is the place in the list of live leases, which any thread may use. -/
inductive PooledAction (α ι : Type*) where
  | acquire (thread : ι)
  | dropLease (thread : ι) (lease : Nat)
  | bind (thread : ι) (lease : Nat)
  | send (thread : ι) (lease : Nat) (value : α)
  | tick (thread : ι)
  | spin (thread : ι)
  | spurious (thread : ι)
  | consumer (action : MpscConsumerAction)
  | signaller (k : Nat) (action : MpscSignalAction)

namespace MpscState

variable {α : Type*} {size : MpscSize} {s after : MpscState α} {i : Nat}

/-- A `send` has announced that it parks, and not come back from it. -/
def onParkPath : MpscProducerPc α → Bool
  | .waitShutdown .announced _ => true
  | .waitHead .announced _ => true
  | .waitTail .announced _ _ => true
  | .waitPark _ => true
  | .waitLeave _ => true
  | _ => false

/-- The park path is entered by the announcement only. -/
theorem onParkPath_of_producerTick (taken : s.producerTick size i = some after)
    (path : onParkPath (after.producers i) = true) :
    onParkPath (s.producers i) = true ∨ ∃ value, s.producers i = .waitAnnounce value := by
  unfold producerTick at taken
  cases pcEq : s.producers i with
  | idle | gone => simp [pcEq] at taken
  | waitAnnounce value => exact .inr ⟨value, rfl⟩
  | waitPark value | waitLeave value => exact .inl rfl
  | sendLoop value | bulkLoadShutdown items | asyncLoop value | asyncAwait value | fetchSub =>
      simp only [pcEq] at taken
      split at taken <;> cases taken <;> simp [onParkPath] at path
  | loadShutdown call value =>
      simp only [pcEq] at taken
      split at taken <;> cases taken
      · cases call <;> simp [onParkPath, sendRejected] at path
      · simp [onParkPath] at path
  | waitShutdown phase value =>
      cases phase with
      | announced => exact .inl rfl
      | entry =>
          simp only [pcEq] at taken
          split at taken <;> cases taken <;> simp [onParkPath, sendWaited] at path
  | waitHead phase value =>
      cases phase with
      | announced => exact .inl rfl
      | entry =>
          simp only [pcEq, Option.some.injEq] at taken
          subst taken
          simp [onParkPath] at path
  | waitTail phase value head =>
      cases phase with
      | announced => exact .inl rfl
      | entry =>
          simp only [pcEq, Option.some.injEq] at taken
          subst taken
          generalize (!RingState.isFull size.cap head (s.rings i).shared.tail.current) = ready
            at path
          cases ready <;> simp [onParkPath, sendWaited] at path
  | returned outcome | asyncArm value | wakeFanin call | bulkWakeFanin consumed items
  | wakeLast =>
      simp only [pcEq, Option.some.injEq] at taken
      subst taken
      simp [onParkPath] at path
  | enterTrySend call value | enterBulk items | enterClose =>
      simp only [pcEq] at taken
      obtain ⟨inside, moved, rfl⟩ := Option.map_eq_some_iff.mp taken
      simp [onParkPath] at path
  | inTrySend call value =>
      simp only [pcEq] at taken
      split at taken
      · rename_i result _ _
        obtain ⟨inside, moved, rfl⟩ := Option.map_eq_some_iff.mp taken
        rcases result with (value | value) | ⟨⟩ <;>
          rw [trySendReturned, producers_producerAt] at path <;>
            cases call <;> simp [onParkPath, sendRejected] at path
      · rw [(ringProducer_live taken).2, pcEq] at path
        simp [onParkPath] at path
  | inBulk =>
      simp only [pcEq] at taken
      split at taken
      · obtain ⟨inside, moved, rfl⟩ := Option.map_eq_some_iff.mp taken
        split at path <;> simp [onParkPath] at path
      · rw [(ringProducer_live taken).2, pcEq] at path
        simp [onParkPath] at path
  | inClose =>
      simp only [pcEq] at taken
      split at taken
      · cases taken
        simp [onParkPath] at path
      · rw [(ringProducer_live taken).2, pcEq] at path
        simp [onParkPath] at path

end MpscState

namespace PooledMpsc

variable {α ι : Type*} {size : MpscSize}

/-- `Mpsc::producer_pool`. -/
def new (size : MpscSize) : PooledMpsc α ι where
  channel := MpscState.new size
  pool := PoolState.new size id
  cells _ := ⟨none, false⟩
  tokens _ := false
  users _ := .idle
  borrower _ := none
  boundInLease _ := none

section Definitions

variable [DecidableEq ι]

def withChannel (s : PooledMpsc α ι) (channel : MpscState α) : PooledMpsc α ι :=
  { s with channel := channel }

def withPool (s : PooledMpsc α ι) (pool : PoolState Nat ι) : PooledMpsc α ι :=
  { s with pool := pool }

def setCell (s : PooledMpsc α ι) (idx : Nat) (cell : WorkerCell ι) : PooledMpsc α ι :=
  { s with cells := Function.update s.cells idx cell }

def userAt (s : PooledMpsc α ι) (thread : ι) (use : LeaseUse) : PooledMpsc α ι :=
  { s with users := Function.update s.users thread use }

def setBorrower (s : PooledMpsc α ι) (idx : Nat) (borrower : Option ι) : PooledMpsc α ι :=
  { s with borrower := Function.update s.borrower idx borrower }

def setBound (s : PooledMpsc α ι) (idx : Nat) (bound : Option ι) : PooledMpsc α ι :=
  { s with boundInLease := Function.update s.boundInLease idx bound }

/-- No call of the thread is running. -/
def free (s : PooledMpsc α ι) (thread : ι) : Bool :=
  match s.users thread, s.pool.threads thread with
  | .idle, .idle => true
  | _, _ => false

/-- The handle of a live lease that no running call borrows. -/
def lent (s : PooledMpsc α ι) (lease : Nat) : Option Nat :=
  (s.pool.leases[lease]?.map MpscProducerLease.producer).filter fun idx =>
    (s.borrower idx).isNone

/-- Every `unpark` of a step goes to the thread its waiter is bound to. -/
def unparkWorkers (size : MpscSize) (s : PooledMpsc α ι) (channel : MpscState α) :
    PooledMpsc α ι :=
  { s with
    channel :=
      { channel with producerWaiters := fun i => (channel.producerWaiters i).consume }
    tokens := fun thread => s.tokens thread || (List.range size.m).any fun i =>
      (channel.producerWaiters i).token && decide ((s.cells i).worker = some thread) }

/-- The call on handle `idx` is over. -/
def finish (s : PooledMpsc α ι) (thread : ι) (idx : Nat) (use : LeaseUse) : PooledMpsc α ι :=
  (s.userAt thread use).setBorrower idx none

/-- The next step of a `send`.  In front of the announcement stands the assertion of
`wait_slow`, and `park` waits for the thread's own token. -/
def sendTick (size : MpscSize) (s : PooledMpsc α ι) (thread : ι) (idx : Nat) :
    Option (PooledMpsc α ι) :=
  match s.channel.producers idx with
  | .waitAnnounce _ =>
      if (s.cells idx).registered then
        (s.channel.step size (.producer idx .tick)).map s.withChannel
      else
        some ((s.withChannel (s.channel.producerAt idx .idle)).finish thread idx .panicked)
  | .waitPark _ =>
      if s.tokens thread then
        (s.channel.step size (.producer idx .spurious)).map
          { s with tokens := Function.update s.tokens thread false }.withChannel
      else
        none
  | .returned _ =>
      (s.channel.step size (.producer idx .tick)).map fun channel =>
        (s.withChannel channel).finish thread idx .idle
  | _ => (s.channel.step size (.producer idx .tick)).map s.withChannel

/-- The next step of a thread's call. -/
def tick (size : MpscSize) (s : PooledMpsc α ι) (thread : ι) : Option (PooledMpsc α ι) :=
  match s.users thread with
  | .idle => (s.pool.step size (.tick thread)).map s.withPool
  | .setWorker idx =>
      some (((s.setCell idx { s.cells idx with worker := some thread }).setBound idx
        (some thread)).userAt thread (.publishRegistered idx))
  | .publishRegistered idx =>
      some ((s.setCell idx { s.cells idx with registered := true }).finish thread idx .idle)
  | .sending idx => s.sendTick size thread idx
  | .panicked => some (s.userAt thread .idle)

def step (size : MpscSize) (s : PooledMpsc α ι) :
    PooledAction α ι → Option (PooledMpsc α ι)
  | .acquire thread =>
      if s.free thread then (s.pool.step size (.acquire thread)).map s.withPool else none
  | .dropLease thread lease =>
      match s.lent lease with
      | some idx =>
          if s.free thread then
            (s.pool.step size (.dropLease thread lease)).map (s.setBound idx none).withPool
          else
            none
      | none => none
  | .bind thread lease =>
      match s.lent lease with
      | some idx =>
          if s.free thread then
            some ((s.userAt thread (.setWorker idx)).setBorrower idx (some thread))
          else
            none
      | none => none
  | .send thread lease value =>
      match s.lent lease with
      | some idx =>
          if s.free thread then
            (s.channel.step size (.producer idx (.send value))).map fun channel =>
              ((s.withChannel channel).userAt thread (.sending idx)).setBorrower idx (some thread)
          else
            none
      | none => none
  | .tick thread => s.tick size thread
  | .spin thread =>
      match s.users thread with
      | .sending idx =>
          if (s.cells idx).registered then
            (s.channel.step size (.producer idx .spin)).map s.withChannel
          else
            none
      | _ => none
  | .spurious thread =>
      match s.users thread with
      | .sending idx => (s.channel.step size (.producer idx .spurious)).map s.withChannel
      | _ => none
  | .consumer action => (s.channel.step size (.consumer action)).map (s.unparkWorkers size)
  | .signaller k action => (s.channel.step size (.signaller k action)).map (s.unparkWorkers size)

/-- Every interleaving of the threads, the consumer and the shutdown handles. -/
def system (size : MpscSize) : System (PooledMpsc α ι) (PooledAction α ι) :=
  System.ofFunction (fun s => s = new size) fun s action => s.step size action

/-- In front of the announcement: the thread's own `bind` is the last of the present
lease, or nobody was ever bound to the waiter. -/
def bindsFirst (s : PooledMpsc α ι) : PooledAction α ι → Bool
  | .tick thread =>
      match s.users thread with
      | .sending idx =>
          match s.channel.producers idx with
          | .waitAnnounce _ =>
              !(s.cells idx).registered || decide (s.boundInLease idx = some thread)
          | _ => true
      | _ => true
  | _ => true

/-- The runs in which whoever comes to the park path of a waiter that somebody was bound
to has been bound during the present lease, and nobody else after it. -/
def binding (size : MpscSize) : System (PooledMpsc α ι) (PooledAction α ι) :=
  (system size).guarded fun s action => s.bindsFirst action = true

end Definitions

/-- Whoever sleeps in `send` is the thread that the wake unparks, and nobody gets past
the assertion without a `bind` of the present lease. -/
structure ParksItself (s : PooledMpsc α ι) : Prop where
  worker : ∀ thread idx value, s.users thread = .sending idx →
    s.channel.producers idx = .waitPark value → (s.cells idx).worker = some thread
  bound : ∀ thread idx, s.users thread = .sending idx →
    MpscState.onParkPath (s.channel.producers idx) = true →
      s.boundInLease idx = some thread

/-! ### One step -/

/-- The handle a thread's running call borrows. -/
def uses : LeaseUse → Option Nat
  | .setWorker idx => some idx
  | .publishRegistered idx => some idx
  | .sending idx => some idx
  | _ => none

structure PooledOk (s : PooledMpsc α ι) : Prop where
  bound : ∀ idx thread, s.boundInLease idx = some thread → (s.cells idx).worker = some thread
  borrowed : ∀ thread idx, uses (s.users thread) = some idx → s.borrower idx = some thread
  path : ∀ thread idx, s.users thread = .sending idx →
    MpscState.onParkPath (s.channel.producers idx) = true →
      s.boundInLease idx = some thread

variable {s after : PooledMpsc α ι} {thread : ι} {idx : Nat}

/-- Two running calls borrow different handles. -/
theorem PooledOk.unique (ok : PooledOk s) {other : ι}
    (mine : uses (s.users thread) = some idx) (others : uses (s.users other) = some idx) :
    other = thread :=
  Option.some.inj ((ok.borrowed other idx others).symm.trans (ok.borrowed thread idx mine))

theorem PooledOk.apart (ok : PooledOk s) {other : ι} {otherIdx : Nat}
    (mine : uses (s.users thread) = some idx) (others : uses (s.users other) = some otherIdx)
    (different : other ≠ thread) : otherIdx ≠ idx := by
  rintro rfl
  exact different (ok.unique mine others)

/-- A step of the channel that moves one producer. -/
theorem PooledOk.withChannel (ok : PooledOk s) {channel : MpscState α}
    (others : ∀ other, other ≠ idx → channel.producers other = s.channel.producers other)
    (enters : ∀ user, s.users user = .sending idx →
      MpscState.onParkPath (channel.producers idx) = true → s.boundInLease idx = some user) :
    PooledOk (s.withChannel channel) where
  bound := ok.bound
  borrowed := ok.borrowed
  path user used running path := by
    change MpscState.onParkPath (channel.producers used) = true at path
    by_cases same : used = idx
    · subst same
      exact enters user running path
    · rw [others used same] at path
      exact ok.path user used running path

/-- The end of a lease that no running call borrows. -/
theorem PooledOk.unlease (ok : PooledOk s) (lent : s.borrower idx = none) :
    PooledOk (s.setBound idx none) where
  bound other user bound := by
    simp only [setBound] at bound
    by_cases same : other = idx
    · subst same
      rw [Function.update_self] at bound
      cases bound
    · rw [Function.update_of_ne same] at bound
      exact ok.bound other user bound
  borrowed := ok.borrowed
  path user other running path := by
    have different : other ≠ idx := by
      rintro rfl
      have held := ok.borrowed user other (by rw [show s.users user = _ from running]; rfl)
      rw [lent] at held
      cases held
    simp only [setBound]
    rw [Function.update_of_ne different]
    exact ok.path user other running path

/-- What neither the threads' calls nor the bound threads are part of. -/
theorem PooledOk.congr (ok : PooledOk s) (users : after.users = s.users)
    (borrower : after.borrower = s.borrower) (cells : after.cells = s.cells)
    (bound : after.boundInLease = s.boundInLease)
    (producers : after.channel.producers = s.channel.producers) : PooledOk after where
  bound := by rw [bound, cells]; exact ok.bound
  borrowed := by rw [users, borrower]; exact ok.borrowed
  path := by rw [users, producers, bound]; exact ok.path

theorem borrower_of_lent {lease : Nat} (lent : s.lent lease = some idx) :
    s.borrower idx = none := by
  simp only [PooledMpsc.lent, Option.filter_eq_some_iff, Option.isNone_iff_eq_none] at lent
  exact lent.2

theorem uses_of_free (free : s.free thread = true) : uses (s.users thread) = none := by
  unfold PooledMpsc.free at free
  split at free
  · rename_i idle _
    rw [idle]
    rfl
  · cases free

/-! ### Steps of the channel -/

theorem producers_of_step {action : MpscProducerAction α} {channel after : MpscState α}
    (taken : channel.step size (.producer idx action) = some after) (other : Nat)
    (different : other ≠ idx) : after.producers other = channel.producers other :=
  (MpscState.producerStep_frame (MpscState.producer_of_step taken).2).producers other different

theorem sendLoop_of_send {value : α} {channel after : MpscState α}
    (taken : channel.step size (.producer idx (.send value)) = some after) :
    after.producers idx = .sendLoop value := by
  have begun := (MpscState.producer_of_step taken).2
  simp only [MpscState.producerStep] at begun
  split at begun <;> cases begun
  exact MpscState.producers_producerAt _ _ _

/-- A step of the ring, the checks or the sleep. -/
theorem PooledOk.sendStep (ok : PooledOk s) (sending : s.users thread = .sending idx)
    {channel : MpscState α}
    (taken : s.channel.step size (.producer idx .tick) = some channel)
    (enters : ∀ value, s.channel.producers idx = .waitAnnounce value →
      s.boundInLease idx = some thread) : PooledOk (s.withChannel channel) := by
  refine ok.withChannel (producers_of_step taken) fun user running path => ?_
  rcases MpscState.onParkPath_of_producerTick (MpscState.producer_of_step taken).2 path with
    before | ⟨value, announces⟩
  · exact ok.path user idx running before
  · obtain rfl : user = thread := ok.unique (by rw [sending]; rfl) (by rw [running]; rfl)
    exact enters value announces

theorem PooledOk.spurious (ok : PooledOk s) {channel : MpscState α}
    (taken : s.channel.step size (.producer idx .spurious) = some channel) :
    PooledOk (s.withChannel channel) := by
  refine ok.withChannel (producers_of_step taken) fun user running _ => ?_
  apply ok.path user idx running
  have woken := (MpscState.producer_of_step taken).2
  simp only [MpscState.producerStep] at woken
  split at woken
  · rename_i parked
    rw [parked]
    rfl
  · cases woken

theorem PooledOk.spin (ok : PooledOk s) {channel : MpscState α}
    (taken : s.channel.step size (.producer idx .spin) = some channel) :
    PooledOk (s.withChannel channel) := by
  refine ok.withChannel (producers_of_step taken) fun _ _ path => ?_
  have spun := (MpscState.producer_of_step taken).2
  simp only [MpscState.producerStep] at spun
  split at spun <;> cases spun
  rw [MpscState.producers_producerAt] at path
  cases path

/-! ### Steps of a thread -/

variable [DecidableEq ι]

/-- A thread goes on without a lease. -/
theorem PooledOk.leave (ok : PooledOk s) {use : LeaseUse} (freed : uses use = none) :
    PooledOk (s.userAt thread use) where
  bound := ok.bound
  borrowed user used running := by
    simp only [userAt] at running
    by_cases same : user = thread
    · subst same
      rw [Function.update_self, freed] at running
      cases running
    · rw [Function.update_of_ne same] at running
      exact ok.borrowed user used running
  path user used running path := by
    simp only [userAt] at running
    by_cases same : user = thread
    · subst same
      rw [Function.update_self] at running
      rw [running] at freed
      cases freed
    · rw [Function.update_of_ne same] at running
      exact ok.path user used running path

/-- The end of a call. -/
theorem PooledOk.finish (ok : PooledOk s) (mine : uses (s.users thread) = some idx)
    {use : LeaseUse} (freed : uses use = none) : PooledOk (s.finish thread idx use) where
  bound := ok.bound
  borrowed user used running := by
    have different : used ≠ idx := by
      simp only [PooledMpsc.finish, setBorrower, userAt] at running
      by_cases same : user = thread
      · subst same
        rw [Function.update_self, freed] at running
        cases running
      · rw [Function.update_of_ne same] at running
        exact ok.apart mine running same
    have left : PooledOk (s.userAt thread use) := ok.leave freed
    simp only [PooledMpsc.finish, setBorrower]
    rw [Function.update_of_ne different]
    exact left.borrowed user used running
  path := (ok.leave freed).path

/-- A call that starts on a lent handle. -/
theorem PooledOk.start (ok : PooledOk s) (lent : s.borrower idx = none)
    (idle : uses (s.users thread) = none) {use : LeaseUse} (used : uses use = some idx)
    (outside : use = .sending idx →
      MpscState.onParkPath (s.channel.producers idx) = false) :
    PooledOk ((s.userAt thread use).setBorrower idx (some thread)) where
  bound := ok.bound
  borrowed user other running := by
    simp only [setBorrower, userAt] at running ⊢
    by_cases same : user = thread
    · subst same
      rw [Function.update_self, used] at running
      cases running
      rw [Function.update_self]
    · rw [Function.update_of_ne same] at running
      have held := ok.borrowed user other running
      have different : other ≠ idx := by
        rintro rfl
        rw [lent] at held
        cases held
      rw [Function.update_of_ne different]
      exact held
  path user other running path := by
    simp only [setBorrower, userAt] at running path
    by_cases same : user = thread
    · subst same
      rw [Function.update_self] at running
      rw [running] at used outside
      cases used
      rw [outside rfl] at path
      cases path
    · rw [Function.update_of_ne same] at running
      exact ok.path user other running path

/-- The write behind the mutex of `bind`. -/
theorem PooledOk.setWorker (ok : PooledOk s) (mine : s.users thread = .setWorker idx) :
    PooledOk (((s.setCell idx { s.cells idx with worker := some thread }).setBound idx
      (some thread)).userAt thread (.publishRegistered idx)) where
  bound other user bound := by
    simp only [setCell, setBound, userAt] at bound ⊢
    by_cases same : other = idx
    · subst same
      rw [Function.update_self] at bound ⊢
      exact bound
    · rw [Function.update_of_ne same] at bound ⊢
      exact ok.bound other user bound
  borrowed user other running := by
    simp only [setCell, setBound, userAt] at running ⊢
    by_cases same : user = thread
    · subst same
      rw [Function.update_self] at running
      cases running
      exact ok.borrowed user idx (by rw [mine]; rfl)
    · rw [Function.update_of_ne same] at running
      exact ok.borrowed user other running
  path user other running path := by
    simp only [setCell, setBound, userAt] at running path ⊢
    by_cases same : user = thread
    · subst same
      rw [Function.update_self] at running
      cases running
    · rw [Function.update_of_ne same] at running
      have different : other ≠ idx :=
        ok.apart (by rw [mine]; rfl) (by rw [running]; rfl) same
      rw [Function.update_of_ne different]
      exact ok.path user other running path

theorem PooledOk.sendTick (ok : PooledOk s) (sending : s.users thread = .sending idx)
    (binds : s.bindsFirst (.tick thread) = true)
    (taken : s.sendTick size thread idx = some after) : PooledOk after := by
  have mine : uses (s.users thread) = some idx := by rw [sending]; rfl
  unfold PooledMpsc.sendTick at taken
  split at taken
  · rename_i value announces
    split at taken
    · rename_i registered
      obtain ⟨channel, moved, rfl⟩ := Option.map_eq_some_iff.mp taken
      refine ok.sendStep sending moved fun _ _ => ?_
      simpa [bindsFirst, sending, announces, registered] using binds
    · cases taken
      have unwound : PooledOk (s.withChannel (s.channel.producerAt idx .idle)) := by
        have others : ∀ other, other ≠ idx →
            (s.channel.producerAt idx .idle).producers other = s.channel.producers other :=
          fun other different => Function.update_of_ne different _ _
        refine ok.withChannel others fun _ _ path => ?_
        rw [MpscState.producers_producerAt] at path
        cases path
      exact unwound.finish mine rfl
  · split at taken
    · obtain ⟨channel, moved, rfl⟩ := Option.map_eq_some_iff.mp taken
      exact (ok.spurious moved).congr rfl rfl rfl rfl rfl
    · cases taken
  · rename_i outcome returned
    obtain ⟨channel, moved, rfl⟩ := Option.map_eq_some_iff.mp taken
    have stepped : PooledOk (s.withChannel channel) := by
      refine ok.sendStep sending moved fun value announces => ?_
      rw [returned] at announces
      cases announces
    exact stepped.finish mine rfl
  · rename_i notAnnouncing _ _
    obtain ⟨channel, moved, rfl⟩ := Option.map_eq_some_iff.mp taken
    exact ok.sendStep sending moved fun value announces =>
      absurd announces (notAnnouncing value)

theorem PooledOk.tick (ok : PooledOk s) (binds : s.bindsFirst (.tick thread) = true)
    (taken : s.tick size thread = some after) : PooledOk after := by
  unfold PooledMpsc.tick at taken
  cases usersEq : s.users thread with
  | idle =>
      simp only [usersEq] at taken
      obtain ⟨pool, -, rfl⟩ := Option.map_eq_some_iff.mp taken
      exact ok.congr rfl rfl rfl rfl rfl
  | setWorker idx =>
      simp only [usersEq, Option.some.injEq] at taken
      subst taken
      exact ok.setWorker usersEq
  | publishRegistered idx =>
      simp only [usersEq, Option.some.injEq] at taken
      subst taken
      have published : PooledOk (s.setCell idx { s.cells idx with registered := true }) := by
        refine ⟨fun other user bound => ?_, ok.borrowed, ok.path⟩
        have worker := ok.bound other user bound
        simp only [setCell]
        by_cases same : other = idx
        · subst same
          rw [Function.update_self]
          exact worker
        · rw [Function.update_of_ne same]
          exact worker
      exact published.finish (by rw [show (s.setCell idx _).users = s.users from rfl, usersEq]; rfl)
        rfl
  | sending idx =>
      simp only [usersEq] at taken
      exact ok.sendTick usersEq binds taken
  | panicked =>
      simp only [usersEq, Option.some.injEq] at taken
      subst taken
      exact ok.leave rfl

theorem PooledOk.step {action : PooledAction α ι} (ok : PooledOk s)
    (binds : s.bindsFirst action = true) (taken : s.step size action = some after) :
    PooledOk after := by
  cases action with
  | tick thread => exact ok.tick binds taken
  | acquire thread =>
      simp only [PooledMpsc.step] at taken
      split at taken
      · obtain ⟨pool, -, rfl⟩ := Option.map_eq_some_iff.mp taken
        exact ok.congr rfl rfl rfl rfl rfl
      · cases taken
  | dropLease thread lease =>
      simp only [PooledMpsc.step] at taken
      split at taken
      · rename_i idx lent
        split at taken
        · obtain ⟨pool, -, rfl⟩ := Option.map_eq_some_iff.mp taken
          exact (ok.unlease (borrower_of_lent lent)).congr rfl rfl rfl rfl rfl
        · cases taken
      · cases taken
  | bind thread lease =>
      simp only [PooledMpsc.step] at taken
      split at taken
      · rename_i idx lent
        split at taken <;> cases taken
        rename_i free
        refine ok.start (borrower_of_lent lent) (uses_of_free free) rfl fun sending => ?_
        cases sending
      · cases taken
  | send thread lease value =>
      simp only [PooledMpsc.step] at taken
      split at taken
      · rename_i idx lent
        split at taken
        · rename_i free
          obtain ⟨channel, moved, rfl⟩ := Option.map_eq_some_iff.mp taken
          have begun := sendLoop_of_send moved
          have outside : MpscState.onParkPath (channel.producers idx) = false := by
            rw [begun]
            rfl
          have stepped : PooledOk (s.withChannel channel) := by
            refine ok.withChannel (producers_of_step moved) fun _ _ path => ?_
            rw [outside] at path
            cases path
          exact stepped.start (borrower_of_lent lent) (uses_of_free free) rfl fun _ => outside
        · cases taken
      · cases taken
  | spin thread =>
      simp only [PooledMpsc.step] at taken
      split at taken
      · split at taken
        · obtain ⟨channel, moved, rfl⟩ := Option.map_eq_some_iff.mp taken
          exact ok.spin moved
        · cases taken
      · cases taken
  | spurious thread =>
      simp only [PooledMpsc.step] at taken
      split at taken
      · obtain ⟨channel, moved, rfl⟩ := Option.map_eq_some_iff.mp taken
        exact ok.spurious moved
      · cases taken
  | consumer action =>
      obtain ⟨channel, moved, rfl⟩ := Option.map_eq_some_iff.mp taken
      exact ok.congr rfl rfl rfl rfl (MpscState.consumerStep_frame moved).producers
  | signaller k action =>
      obtain ⟨channel, moved, rfl⟩ := Option.map_eq_some_iff.mp taken
      exact ok.congr rfl rfl rfl rfl (MpscState.signallerStep_frame moved).producers

/-- In every run in which whoever comes to the park path was bound during the present
lease, or nobody ever was, sleeping threads are the ones that are woken. -/
theorem parks_itself (reached : (binding size).Reachable s) : ParksItself s := by
  have ok : PooledOk s := by
    refine reached.invariant PooledOk ?base ?preserved
    case base =>
      rintro _ rfl
      constructor
      · intro idx thread bound
        cases bound
      · intro thread idx running
        cases running
      · intro thread idx running
        cases running
    case preserved =>
      rintro before action after - ok ⟨binds, taken⟩
      exact ok.step binds taken
  refine ⟨fun thread idx value sending parked => ?_, ok.path⟩
  apply ok.bound
  apply ok.path thread idx sending
  rw [parked]
  rfl

/-- One handle with one slot. -/
def oneHandle : MpscSize := ⟨oneSlotCap, 1, Nat.one_pos, MpscSize.one_le⟩

def ticksOf (thread n : Nat) : List (PooledAction Nat Nat) := List.replicate n (.tick thread)

/-- A thread leases the handle, is bound to it and fills the ring. -/
def leaseAndFill : List (PooledAction Nat Nat) :=
  [PooledAction.acquire 0] ++ ticksOf 0 4 ++ [PooledAction.bind 0 0] ++ ticksOf 0 2 ++
    [PooledAction.send 0 0 7] ++ ticksOf 0 9

/-- It sends once more. -/
def fillAndPark : List (PooledAction Nat Nat) :=
  leaseAndFill ++ [PooledAction.send 0 0 8] ++ ticksOf 0 13

/-- It gives the lease back; another thread leases the handle and sends. -/
def leaseAgainAndPark : List (PooledAction Nat Nat) :=
  leaseAndFill ++ [PooledAction.dropLease 0 0] ++ ticksOf 0 2 ++ [PooledAction.acquire 1] ++
    ticksOf 1 4 ++ [PooledAction.send 1 0 8] ++ ticksOf 1 13

theorem parks_itself_fillAndPark :
    ∃ s : PooledMpsc Nat Nat, (binding oneHandle).Reachable s ∧
      s.users 0 = .sending 0 ∧ s.channel.producers 0 = .waitPark 8 ∧
        (s.cells 0).worker = some 0 ∧ ParksItself s := by
  have ran : (Transition.execute (Transition.guardedStep
      (fun (s : PooledMpsc Nat Nat) action => s.bindsFirst action = true)
      (step oneHandle)) (new oneHandle) fillAndPark).map
        (fun s => (s.users 0, s.channel.producers 0)) = some (.sending 0, .waitPark 8) := by
    rfl
  obtain ⟨s, ran, seen⟩ := Option.map_eq_some_iff.mp ran
  obtain ⟨sending, parked⟩ := Prod.mk.inj seen
  have reached : (binding oneHandle).Reachable s := System.reachable_of_guarded_execute rfl ran
  have right : ParksItself s := parks_itself reached
  exact ⟨s, reached, sending, parked, right.worker 0 0 8 sending parked, right⟩

/-- Thread 1 has called no `bind` and sleeps; the consumer makes room and its wake goes to
thread 0. -/
theorem parksOther_leaseAgainAndPark :
    ∃ s later : PooledMpsc Nat Nat, (system oneHandle).Reachable s ∧
      (s.users 1 = .sending 0 ∧ s.channel.producers 0 = .waitPark 8 ∧
        (s.cells 0).worker = some 0 ∧ s.boundInLease 0 = none) ∧ ¬ ParksItself s ∧
          (system oneHandle).Leads s later ∧
            (later.channel.rings 0).consumer.delivered = [7] ∧
              (later.channel.producers 0 = .waitPark 8 ∧ later.channel.consumer = .idle) ∧
                later.tokens 0 = true ∧ later.tokens 1 = false := by
  have ran : (Transition.execute (step oneHandle) (new oneHandle) leaseAgainAndPark).map
      (fun s => ((s.users 1, s.channel.producers 0, (s.cells 0).worker, s.boundInLease 0),
        (Transition.execute (step oneHandle) s
          (.consumer .tryRecv :: List.replicate 8 (.consumer .tick))).map fun later =>
            ((later.channel.rings 0).consumer.delivered,
              (later.channel.producers 0, later.channel.consumer),
                later.tokens 0, later.tokens 1))) =
        some ((.sending 0, .waitPark 8, some 0, none),
          some ([7], (.waitPark 8, .idle), true, false)) := by
    rfl
  obtain ⟨s, ran, seen⟩ := Option.map_eq_some_iff.mp ran
  obtain ⟨⟨sending, parked, worker, bound⟩, last⟩ := by simpa only [Prod.mk.injEq] using seen
  obtain ⟨later, finished, seenLater⟩ := Option.map_eq_some_iff.mp last
  obtain ⟨delivered, stays, token0, token1⟩ := by simpa only [Prod.mk.injEq] using seenLater
  refine ⟨s, later, System.reachable_of_execute rfl ran, ⟨sending, parked, worker, bound⟩, ?_,
    System.leads_of_execute finished, delivered, stays, token0, token1⟩
  intro right
  have own := right.worker 1 0 8 sending parked
  rw [worker] at own
  cases own

end PooledMpsc

end ArbitroKit
