import ArbitroKit.MpscShutdown
import ArbitroKit.RingClosed

/-!
# `is_closed` of the many-producer channel

`MpscConsumer::is_closed` and `MpscShutdown::is_closed` load `shutdown` and, if it
is clear, `live_producers`.  A call that has returned true is never contradicted by
a later one.  It promises that no item is sent any more, but a send that has passed
its own check of `shutdown` before the signal still publishes.
-/

namespace ArbitroKit

open Coherent SlotLane Cyclic Transition

namespace RingState

variable {α : Type*} {cap : Cap} {s after : RingState α}

/-- The running call can still come to a store of `head`. -/
def mayPublish : ProducerPc α → Bool
  | .sendRefresh _ _ _ => true
  | .sendWrite _ _ _ => true
  | .sendPublish _ _ _ => true
  | .bulkRefresh _ _ => true
  | .bulkWrite _ _ _ _ => true
  | .bulkPublish _ _ _ => true
  -- the ring's own `send` tries again
  | .sendClosed .send _ => true
  | .sendRetry _ => true
  | .waitHead _ _ => true
  | .waitTail _ _ _ => true
  | .waitClosed _ _ => true
  | .waitAnnounce _ => true
  | .waitPark _ => true
  | .waitLeave _ => true
  | _ => false

/-- A call that cannot come to a store of `head` makes none. -/
theorem head_of_producerTick {index : Nat} (never : mayPublish s.producer.pc = false)
    (taken : s.producerTick cap index = some after) :
    after.shared.head = s.shared.head ∧ mayPublish after.producer.pc = false := by
  unfold producerTick at taken
  cases pcEq : s.producer.pc with
  | idle | gone => simp [pcEq] at taken
  | sendClosed call value =>
      simp only [pcEq, Option.some.injEq] at taken
      subst taken
      cases call with
      | trySend =>
          generalize s.shared.closed = closed
          cases closed <;> exact ⟨rfl, rfl⟩
      | send => simp [pcEq, mayPublish] at never
  | sendWake call value =>
      simp only [pcEq, Option.some.injEq] at taken
      subst taken
      cases call <;> exact ⟨rfl, rfl⟩
  | bulkWake items written | dropWakeFull | dropWakeEmpty | returned outcome accepted =>
      simp only [pcEq, Option.some.injEq] at taken
      subst taken
      exact ⟨rfl, rfl⟩
  | _ => simp [pcEq, mayPublish] at never

end RingState

namespace MpscState

variable {α : Type*} {size : MpscSize} {s after : MpscState α} {i : Nat}

/-- Past the check of `shutdown`, about to enter the ring. -/
def entering : MpscProducerPc α → Bool
  | .enterTrySend _ _ => true
  | .enterBulk _ => true
  | _ => false

/-- Producer `i` has passed its check of `shutdown` and can still come to the store
that publishes. -/
def onTheWay (s : MpscState α) (i : Nat) : Bool :=
  entering (s.producers i) || RingState.mayPublish (s.rings i).producer.pc

theorem onTheWay_eq_false : s.onTheWay i = false ↔
    entering (s.producers i) = false ∧
      RingState.mayPublish (s.rings i).producer.pc = false := by
  simp [onTheWay]

/-! ### A step of a producer that is not on the way -/

/-- It enters its ring only on a clear flag, and makes no store of `head`. -/
structure KeepsOff (before after : MpscState α) (i : Nat) : Prop where
  entering : entering (after.producers i) = true →
    before.shutdown = false ∧ countedLive (before.producers i) = true
  head : RingState.mayPublish (before.rings i).producer.pc = false →
    (after.rings i).shared.head = (before.rings i).shared.head
  ring : RingState.mayPublish (before.rings i).producer.pc = false →
    RingState.mayPublish (after.rings i).producer.pc = false

theorem KeepsOff.ofRings (rings : after.rings = s.rings)
    (enters : MpscState.entering (after.producers i) = true →
      s.shutdown = false ∧ countedLive (s.producers i) = true) : KeepsOff s after i where
  entering := enters
  head _ := by rw [rings]
  ring off := by rwa [rings]

theorem KeepsOff.ofRingTick (taken : s.ringProducerTick size i = some after)
    (outside : MpscState.entering (s.producers i) = false) : KeepsOff s after i := by
  obtain ⟨ring, ticked, rfl⟩ := ringProducerTick_eq_some taken
  constructor
  · intro enters
    rw [show (s.setRing i ring).producers i = s.producers i from rfl, outside] at enters
    cases enters
  · intro off
    rw [rings_setRing]
    exact (RingState.head_of_producerTick off ticked).1
  · intro off
    rw [rings_setRing]
    exact (RingState.head_of_producerTick off ticked).2

/-- What follows a ring's step in the same step of the channel. -/
theorem KeepsOff.andThen {middle : MpscState α} (keeps : KeepsOff s middle i)
    (rings : after.rings = middle.rings)
    (outside : MpscState.entering (after.producers i) = false) : KeepsOff s after i where
  entering enters := by
    rw [outside] at enters
    cases enters
  head off := by rw [rings]; exact keeps.head off
  ring off := by rw [rings]; exact keeps.ring off

theorem entering_trySendReturned (s : MpscState α) (i : Nat) (call : MpscSendCall)
    (result : Except (TrySendError α) Unit) :
    entering ((s.trySendReturned i call result).producers i) = false ∧
      (s.trySendReturned i call result).rings = s.rings := by
  rcases result with (value | value) | ⟨⟩
  · rw [trySendReturned, producers_producerAt]
    exact ⟨by cases call <;> rfl, rfl⟩
  · rw [trySendReturned, producers_producerAt]
    exact ⟨by cases call <;> rfl, rings_disarm _ _ _⟩
  · rw [trySendReturned, producers_producerAt]
    exact ⟨rfl, rfl⟩

theorem keepsOff_of_producerTick (outside : entering (s.producers i) = false)
    (taken : s.producerTick size i = some after) : KeepsOff s after i := by
  unfold producerTick at taken
  cases pcEq : s.producers i with
  | idle | gone => simp [pcEq] at taken
  | enterTrySend call value | enterBulk items => simp [pcEq, entering] at outside
  | sendLoop value | waitPark value | asyncAwait value | fetchSub =>
      simp only [pcEq] at taken
      split at taken <;> cases taken <;> exact .ofRings rfl (by simp [entering])
  | loadShutdown call value =>
      simp only [pcEq] at taken
      split at taken
      · cases taken
        exact .ofRings rfl (by cases call <;> simp [sendRejected, entering])
      · rename_i clear
        cases taken
        exact .ofRings rfl fun _ => ⟨by simpa using clear, by rw [pcEq]; rfl⟩
  | bulkLoadShutdown items | asyncLoop value =>
      simp only [pcEq] at taken
      split at taken
      · cases taken
        exact .ofRings rfl (by simp [entering])
      · rename_i clear
        cases taken
        exact .ofRings rfl fun _ => ⟨by simpa using clear, by rw [pcEq]; rfl⟩
  | waitShutdown phase value =>
      simp only [pcEq] at taken
      split at taken <;> cases taken
      · exact .ofRings rfl (by cases phase <;> simp [sendWaited, entering])
      · exact .ofRings rfl (by simp [entering])
  | waitTail phase value head =>
      simp only [pcEq, Option.some.injEq] at taken
      subst taken
      generalize (!RingState.isFull size.cap head (s.rings i).shared.tail.current) = ready
      exact .ofRings rfl (by cases phase <;> cases ready <;> simp [sendWaited, entering])
  | waitHead phase value | returned outcome | asyncArm value | waitAnnounce value
  | waitLeave value | bulkWakeFanin consumed items | wakeLast =>
      simp only [pcEq, Option.some.injEq] at taken
      subst taken
      exact .ofRings rfl (by simp [entering])
  | wakeFanin call =>
      simp only [pcEq, Option.some.injEq] at taken
      subst taken
      exact .ofRings (rings_disarm _ _ _) (by simp [entering])
  | enterClose =>
      simp only [pcEq] at taken
      obtain ⟨inside, moved, rfl⟩ := Option.map_eq_some_iff.mp taken
      obtain ⟨ring, started, rfl⟩ := ringProducer_eq_some moved
      simp only [RingState.producerStep] at started
      split at started <;> cases started
      constructor
      · simp [entering]
      · intro _
        simp [producerAt, setRing, RingState.producerAt]
      · intro _
        simp [producerAt, setRing, RingState.producerAt, RingState.mayPublish]
  | inTrySend call value =>
      simp only [pcEq] at taken
      split at taken
      · obtain ⟨inside, moved, rfl⟩ := Option.map_eq_some_iff.mp taken
        obtain ⟨outsideAfter, rings⟩ := entering_trySendReturned inside i call _
        exact (KeepsOff.ofRingTick moved outside).andThen rings outsideAfter
      · exact .ofRingTick taken outside
  | inBulk =>
      simp only [pcEq] at taken
      split at taken
      · obtain ⟨inside, moved, rfl⟩ := Option.map_eq_some_iff.mp taken
        split <;> exact (KeepsOff.ofRingTick moved outside).andThen rfl (by simp [entering])
      · exact .ofRingTick taken outside
  | inClose =>
      simp only [pcEq] at taken
      split at taken
      · cases taken
        exact .ofRings rfl (by simp [entering])
      · exact .ofRingTick taken outside

theorem keepsOff_of_producerStep {action : MpscProducerAction α}
    (outside : entering (s.producers i) = false)
    (taken : s.producerStep size i action = some after) : KeepsOff s after i := by
  cases action with
  | tick => exact keepsOff_of_producerTick outside taken
  | trySendBulk items =>
      simp only [producerStep] at taken
      split at taken
      · split at taken <;> cases taken <;> exact .ofRings rfl (by simp [entering])
      · cases taken
  | trySend value | send value | sendAsyncSend value | drop | spin | spurious =>
      simp only [producerStep] at taken
      split at taken <;> cases taken
      exact .ofRings rfl (by simp [entering])

/-! ### Producers that publish nothing any more -/

/-- No item of producer `i` is published any more: its handle is dropped, or it will
find `shutdown` set before it enters its ring. -/
structure Sealed (s : MpscState α) (i : Nat) : Prop where
  off : s.onTheWay i = false
  barred : s.shutdown = true ∨ countedLive (s.producers i) = false

theorem Sealed.congr (isSealed : Sealed s i) (producers : after.producers i = s.producers i)
    (ring : (after.rings i).producer = (s.rings i).producer)
    (shutdown : s.shutdown = true → after.shutdown = true) : Sealed after i where
  off := by
    rw [onTheWay, producers, ring]
    exact isSealed.off
  barred := by
    rw [producers]
    exact isSealed.barred.imp_left shutdown

theorem Sealed.ownStep {action : MpscProducerAction α} (isSealed : Sealed s i)
    (taken : s.producerStep size i action = some after) :
    Sealed after i ∧ (after.rings i).shared.head = (s.rings i).shared.head := by
  obtain ⟨outside, off⟩ := onTheWay_eq_false.mp isSealed.off
  have keeps := keepsOff_of_producerStep outside taken
  have frame := producerStep_frame taken
  refine ⟨⟨onTheWay_eq_false.mpr ⟨?_, keeps.ring off⟩, ?_⟩, keeps.head off⟩
  · by_contra enters
    obtain ⟨clear, counted⟩ := keeps.entering (by simpa using enters)
    rcases isSealed.barred with signalled | uncounted
    · rw [clear] at signalled
      cases signalled
    · rw [counted] at uncounted
      cases uncounted
  · rw [frame.shutdown]
    refine isSealed.barred.imp_right fun uncounted => ?_
    cases producerStep_live taken with
    | same live counted => rw [counted, uncounted]
    | leaves live was out => exact out

/-- Nobody else's step publishes anything either. -/
theorem Sealed.step {action : MpscAction α} (isSealed : Sealed s i)
    (taken : s.step size action = some after) :
    Sealed after i ∧ (after.rings i).shared.head = (s.rings i).shared.head := by
  cases action with
  | producer j action =>
      have taken := (producer_of_step taken).2
      by_cases same : i = j
      · subst same
        exact isSealed.ownStep taken
      · have frame := producerStep_frame taken
        have ring := frame.rings i same
        refine ⟨isSealed.congr (frame.producers i same) (by rw [ring]) ?_, by rw [ring]⟩
        intro signalled
        rw [frame.shutdown, signalled]
  | consumer action =>
      have frame := consumerStep_frame taken
      have producers := congrFun frame.producers i
      have shutdown : s.shutdown = true → after.shutdown = true := by
        intro signalled
        rw [frame.shutdown, signalled]
      rcases frame.rings i with same | ⟨move, moved, -⟩
      · exact ⟨isSealed.congr producers (by rw [same]) shutdown, by rw [same]⟩
      · have moves := RingState.tailMoves_of_consumerStep moved
        exact ⟨isSealed.congr producers moves.producer shutdown, moves.head⟩
  | signaller k action =>
      have frame := signallerStep_frame taken
      exact ⟨isSealed.congr (congrFun frame.producers i) (by rw [frame.rings]) frame.shutdown,
        by rw [frame.rings]⟩

/-- What `is_closed` tests, in one look. -/
def Shut (s : MpscState α) : Prop :=
  s.shutdown = true ∨ s.liveProducers = 0

theorem Shut.step {action : MpscAction α} (shut : Shut s)
    (taken : s.step size action = some after) :
    Shut after ∧ (s.liveProducers = 0 → after.liveProducers = 0) := by
  have flagAndCount : (s.shutdown = true → after.shutdown = true) ∧
      (s.liveProducers = 0 → after.liveProducers = 0) := by
    cases action with
    | producer i action =>
        have taken := (producer_of_step taken).2
        rw [(producerStep_frame taken).shutdown]
        refine ⟨id, fun none => ?_⟩
        cases producerStep_live taken with
        | same live counted => rw [live, none]
        | leaves live was out => rw [live, none]
    | consumer action =>
        have frame := consumerStep_frame taken
        rw [frame.shutdown, frame.liveProducers]
        exact ⟨id, id⟩
    | signaller k action =>
        have frame := signallerStep_frame taken
        rw [frame.liveProducers]
        exact ⟨frame.shutdown, id⟩
  exact ⟨shut.imp flagAndCount.1 flagAndCount.2, flagAndCount.2⟩

end MpscState

/-! ### The channel with its probes -/

/-- Whose `is_closed` is called. -/
inductive MpscProber where
  | consumer
  | shutdown (k : Nat)
  deriving DecidableEq, Repr

/-- Where an `is_closed` call stands.  `late` is history: the call started after some
other had returned true. -/
inductive IsClosedPc where
  | idle
  -- `is_shutdown_signaled`
  | loadShutdown (late : Bool)
  -- `all_producers_gone`
  | loadLive (late : Bool)
  | returned (late answer : Bool)
  deriving DecidableEq, Repr

/-- The channel and the probes of its handles; `answered` is history: some call of
`is_closed` has returned true. -/
structure ProbedMpsc (α : Type*) where
  channel : MpscState α
  probers : MpscProber → IsClosedPc
  answered : Bool

inductive ProbedMpscAction (α : Type*) where
  | channel (action : MpscAction α)
  | isClosed (prober : MpscProber)
  | tick (prober : MpscProber)

namespace ProbedMpsc

variable {α : Type*} {size : MpscSize} {s after : ProbedMpsc α} {prober : MpscProber}

def new (size : MpscSize) : ProbedMpsc α where
  channel := MpscState.new size
  probers _ := .idle
  answered := false

def proberAt (s : ProbedMpsc α) (prober : MpscProber) (pc : IsClosedPc) : ProbedMpsc α :=
  { s with probers := Function.update s.probers prober pc }

/-- The consumer handle makes one call at a time. -/
def consumerFree (s : ProbedMpsc α) : Bool :=
  match s.channel.consumer with
  | .idle => true
  | _ => false

def mayProbe (s : ProbedMpsc α) : MpscProber → Bool
  | .consumer => s.consumerFree
  | .shutdown _ => true

def mayMove (s : ProbedMpsc α) : MpscAction α → Bool
  | .consumer _ => s.probers .consumer = .idle
  | _ => true

def proberTick (s : ProbedMpsc α) (prober : MpscProber) : Option (ProbedMpsc α) :=
  match s.probers prober with
  | .idle => none
  | .loadShutdown late =>
      if s.channel.shutdown then
        some (s.proberAt prober (.returned late true))
      else
        some (s.proberAt prober (.loadLive late))
  | .loadLive late =>
      some (s.proberAt prober (.returned late (s.channel.liveProducers == 0)))
  | .returned _ answer =>
      some { s.proberAt prober .idle with answered := s.answered || answer }

def step (size : MpscSize) (s : ProbedMpsc α) : ProbedMpscAction α → Option (ProbedMpsc α)
  | .channel action =>
      if s.mayMove action then
        (s.channel.step size action).map fun channel => { s with channel := channel }
      else
        none
  | .isClosed prober =>
      match s.probers prober with
      | .idle =>
          if s.mayProbe prober then
            some (s.proberAt prober (.loadShutdown s.answered))
          else
            none
      | _ => none
  | .tick prober => s.proberTick prober

/-- Every interleaving of the handles and of any number of probes. -/
def system (size : MpscSize) : System (ProbedMpsc α) (ProbedMpscAction α) :=
  System.ofFunction (fun s => s = new size) fun s action => s.step size action

theorem channel_of_step {action : MpscAction α}
    (taken : s.step size (.channel action) = some after) :
    ∃ channel, s.channel.step size action = some channel ∧
      after = { s with channel := channel } := by
  simp only [step] at taken
  split at taken
  · obtain ⟨channel, moved, rfl⟩ := Option.map_eq_some_iff.mp taken
    exact ⟨channel, moved, rfl⟩
  · cases taken

theorem isClosed_of_step (taken : s.step size (.isClosed prober) = some after) :
    after = s.proberAt prober (.loadShutdown s.answered) := by
  simp only [step] at taken
  split at taken
  · split at taken <;> cases taken
    rfl
  · cases taken

/-- A probe's own steps: to another place in the call, or back with an answer. -/
theorem tick_of_step (taken : s.step size (.tick prober) = some after) :
    (∃ pc, after = s.proberAt prober pc) ∨
      ∃ late answer, s.probers prober = .returned late answer ∧
        after = { s.proberAt prober .idle with answered := s.answered || answer } := by
  simp only [step, proberTick] at taken
  cases pcEq : s.probers prober with
  | idle => simp [pcEq] at taken
  | loadShutdown late =>
      simp only [pcEq] at taken
      split at taken <;> cases taken <;> exact .inl ⟨_, rfl⟩
  | loadLive late =>
      simp only [pcEq, Option.some.injEq] at taken
      exact .inl ⟨_, taken.symm⟩
  | returned late answer =>
      simp only [pcEq, Option.some.injEq] at taken
      exact .inr ⟨late, answer, rfl, taken.symm⟩

/-- The channel under the probes runs as a channel of its own. -/
theorem channel_reachable (reached : (system size).Reachable s) :
    (MpscState.system size).Reachable s.channel := by
  refine reached.project (fun s => s.channel) ?_ ?_
  · rintro _ rfl
    rfl
  · intro before action after _ taken
    cases action with
    | channel action =>
        obtain ⟨channel, moved, rfl⟩ := channel_of_step taken
        exact .inr ⟨action, moved⟩
    | isClosed prober =>
        rw [isClosed_of_step taken]
        exact .inl rfl
    | tick prober =>
        rcases tick_of_step taken with ⟨pc, rfl⟩ | ⟨late, answer, -, rfl⟩
        · exact .inl rfl
        · exact .inl rfl

/-! ### A later call returns true -/

/-- What a running call has seen. -/
def ProbeOk (channel : MpscState α) : IsClosedPc → Prop
  | .idle => True
  | .loadShutdown late => late = true → channel.Shut
  | .loadLive late => late = true → channel.liveProducers = 0
  | .returned late answer =>
      (late = true → answer = true) ∧ (answer = true → channel.Shut)

structure ProbesOk (s : ProbedMpsc α) : Prop where
  answered : s.answered = true → s.channel.Shut
  probers : ∀ prober, ProbeOk s.channel (s.probers prober)

theorem ProbesOk.proberAt (ok : ProbesOk s) {pc : IsClosedPc} (here : ProbeOk s.channel pc) :
    ProbesOk (s.proberAt prober pc) where
  answered := ok.answered
  probers other := by
    by_cases same : other = prober
    · subst same
      simpa [ProbedMpsc.proberAt] using here
    · simpa [ProbedMpsc.proberAt, same] using ok.probers other

theorem probesOk (reached : (system size).Reachable s) : ProbesOk s := by
  refine reached.invariant ProbesOk ?base ?preserved
  case base =>
    rintro _ rfl
    constructor
    · intro answered
      cases answered
    · exact fun _ => trivial
  case preserved =>
    intro before action after reached ok taken
    cases action with
    | channel action =>
        obtain ⟨channel, moved, rfl⟩ := channel_of_step taken
        refine ⟨fun answered => ((ok.answered answered).step moved).1, fun prober => ?_⟩
        have here := ok.probers prober
        change ProbeOk channel (before.probers prober)
        cases pcEq : before.probers prober with
        | idle => trivial
        | loadShutdown late =>
            rw [pcEq] at here
            exact fun isLate => ((here isLate).step moved).1
        | loadLive late =>
            rw [pcEq] at here
            intro isLate
            have none := here isLate
            exact (MpscState.Shut.step (.inr none) moved).2 none
        | returned late answer =>
            rw [pcEq] at here
            exact ⟨here.1, fun answered => ((here.2 answered).step moved).1⟩
    | isClosed prober =>
        rw [isClosed_of_step taken]
        exact ok.proberAt ok.answered
    | tick prober =>
        change before.proberTick prober = some after at taken
        unfold proberTick at taken
        have here := ok.probers prober
        cases pcEq : before.probers prober with
        | idle => simp [pcEq] at taken
        | loadShutdown late =>
            rw [pcEq] at here
            simp only [pcEq] at taken
            split at taken
            · rename_i signalled
              cases taken
              exact ok.proberAt ⟨fun _ => rfl, fun _ => .inl signalled⟩
            · rename_i clear
              cases taken
              exact ok.proberAt fun isLate => (here isLate).resolve_left clear
        | loadLive late =>
            rw [pcEq] at here
            simp only [pcEq, Option.some.injEq] at taken
            subst taken
            refine ok.proberAt ⟨fun isLate => ?_, fun answer => ?_⟩
            · rw [here isLate]
              rfl
            · exact .inr (by simpa using answer)
        | returned late answer =>
            rw [pcEq] at here
            simp only [pcEq, Option.some.injEq] at taken
            subst taken
            have rest : ProbesOk (before.proberAt prober .idle) := ok.proberAt trivial
            refine ⟨fun answered => ?_, rest.probers⟩
            rcases (Bool.or_eq_true _ _).mp answered with earlier | now
            · exact ok.answered earlier
            · exact here.2 now

/-! ### Nothing is sent any more -/

/-- When a call returns true, no producer is between its check of `shutdown` and the
store that publishes. -/
def answersQuietly (size : MpscSize) (s : ProbedMpsc α) : ProbedMpscAction α → Bool
  | .tick prober =>
      match s.probers prober with
      | .returned _ true => (List.range size.m).all fun i => !s.channel.onTheWay i
      | _ => true
  | _ => true

/-- The runs in which `is_closed` returns true only while no producer is on the way. -/
def quiet (size : MpscSize) : System (ProbedMpsc α) (ProbedMpscAction α) :=
  (system size).guarded fun s action => s.answersQuietly size action = true

/-- `is_closed` means closed: a call that started after another had returned true
does not return false, and once a call has returned true no ring's `head` is stored
again, whatever the handles do. -/
structure ClosedForGood (size : MpscSize) (s : ProbedMpsc α) : Prop where
  answers : ∀ prober answer, s.probers prober = .returned true answer → answer = true
  heads : s.answered = true → ∀ later, (system size).Leads s later → ∀ i < size.m,
    (later.channel.rings i).shared.head = (s.channel.rings i).shared.head

def AllSealed (size : MpscSize) (s : ProbedMpsc α) : Prop :=
  ∀ i < size.m, s.channel.Sealed i

theorem AllSealed.step {action : ProbedMpscAction α} (allSealed : AllSealed size s)
    (taken : s.step size action = some after) :
    AllSealed size after ∧ ∀ i < size.m,
      (after.channel.rings i).shared.head = (s.channel.rings i).shared.head := by
  cases action with
  | channel action =>
      obtain ⟨channel, moved, rfl⟩ := channel_of_step taken
      exact ⟨fun i inside => ((allSealed i inside).step moved).1,
        fun i inside => ((allSealed i inside).step moved).2⟩
  | isClosed prober =>
      rw [isClosed_of_step taken]
      exact ⟨allSealed, fun _ _ => rfl⟩
  | tick prober =>
      rcases tick_of_step taken with ⟨pc, rfl⟩ | ⟨late, answer, -, rfl⟩
      · exact ⟨allSealed, fun _ _ => rfl⟩
      · exact ⟨allSealed, fun _ _ => rfl⟩

theorem AllSealed.heads {later : ProbedMpsc α} (allSealed : AllSealed size s)
    (leads : (system size).Leads s later) :
    ∀ i < size.m, (later.channel.rings i).shared.head = (s.channel.rings i).shared.head := by
  have kept := leads.invariant (fun later => AllSealed size later ∧ ∀ i < size.m,
    (later.channel.rings i).shared.head = (s.channel.rings i).shared.head)
    ⟨allSealed, fun _ _ => rfl⟩ ?preserved
  · exact kept.2
  case preserved =>
    rintro before action after ⟨sealedBefore, same⟩ taken
    obtain ⟨sealedAfter, still⟩ := sealedBefore.step taken
    exact ⟨sealedAfter, fun i inside => (still i inside).trans (same i inside)⟩

/-- A call that returns true with no producer on the way finds them all sealed. -/
theorem allSealed_of_answer (reached : (system size).Reachable s) {late : Bool}
    (returned : s.probers prober = .returned late true)
    (quietly : s.answersQuietly size (.tick prober) = true) : AllSealed size s := by
  intro i inside
  have shut : s.channel.Shut := by
    have here := (probesOk reached).probers prober
    rw [returned] at here
    exact here.2 rfl
  constructor
  · simp only [answersQuietly, returned, List.all_eq_true, List.mem_range] at quietly
    simpa using quietly i inside
  · refine shut.imp_right fun none => ?_
    exact MpscState.uncounted_of_live (MpscState.liveOk (channel_reachable reached)) none inside

theorem allSealed (reached : (quiet size).Reachable s) (answered : s.answered = true) :
    AllSealed size s := by
  revert answered
  refine reached.invariant (fun s => s.answered = true → AllSealed size s) ?base ?preserved
  case base =>
    rintro _ rfl answered
    cases answered
  case preserved =>
    rintro before action after reached ok ⟨quietly, taken⟩
    have kept (earlier : before.answered = true) : AllSealed size after :=
      ((ok earlier).step taken).1
    cases action with
    | channel action =>
        obtain ⟨channel, moved, rfl⟩ := channel_of_step taken
        exact kept
    | isClosed prober =>
        have afterEq := isClosed_of_step taken
        intro answered
        rw [afterEq] at answered
        exact kept answered
    | tick prober =>
        intro answered
        rcases tick_of_step taken with ⟨pc, afterEq⟩ | ⟨late, answer, returned, afterEq⟩
        · rw [afterEq] at answered
          exact kept answered
        · rw [afterEq] at answered
          rcases (Bool.or_eq_true _ _).mp answered with earlier | now
          · exact kept earlier
          · rw [now] at returned
            subst afterEq
            change AllSealed size before
            exact allSealed_of_answer reached.of_guarded returned quietly

/-- In every run in which `is_closed` returns true only while no producer is between
its check and its publication, closed means closed. -/
theorem closedForGood (reached : (quiet size).Reachable s) : ClosedForGood size s where
  answers prober answer returned := by
    have here := (probesOk reached.of_guarded).probers prober
    rw [returned] at here
    exact here.1 rfl
  heads answered _ leads := (allSealed reached answered).heads leads

/-- Producer 0 sends, a handle signals, and its probe answers. -/
def probeAfterSend : List (ProbedMpscAction Nat) :=
  (ProbedMpscAction.channel (.producer 0 (.trySend 7)) ::
      List.replicate 8 (.channel (.producer 0 .tick))) ++
    [ProbedMpscAction.channel (.signaller 0 .signal), .isClosed (.shutdown 0),
      .tick (.shutdown 0), .tick (.shutdown 0)]

/-- The same with the signal and the probe between the producer's check and its ring. -/
def probeBeforePublish : List (ProbedMpscAction Nat) :=
  [.channel (.producer 0 (.trySend 7)), .channel (.producer 0 .tick),
    .channel (.signaller 0 .signal), .isClosed (.shutdown 0), .tick (.shutdown 0),
    .tick (.shutdown 0)]

theorem closedForGood_probeAfterSend :
    ∃ s : ProbedMpsc Nat, (quiet MpscState.soloSize).Reachable s ∧ s.answered = true ∧
      (s.channel.rings 0).shared.head.current = 1 ∧
        ClosedForGood MpscState.soloSize s := by
  have ran : (Transition.execute (Transition.guardedStep
      (fun s (action : ProbedMpscAction Nat) =>
        s.answersQuietly MpscState.soloSize action = true)
      fun s action => s.step MpscState.soloSize action) (new MpscState.soloSize)
        probeAfterSend).map
          (fun s => (s.answered, (s.channel.rings 0).shared.head.current)) =
            some (true, 1) := by
    rfl
  obtain ⟨s, ran, seen⟩ := Option.map_eq_some_iff.mp ran
  obtain ⟨answered, head⟩ := Prod.mk.inj seen
  have reached : (quiet MpscState.soloSize).Reachable s :=
    System.reachable_of_guarded_execute rfl ran
  exact ⟨s, reached, answered, head, closedForGood reached⟩

/-- The handle's probe has returned true; the producer, past its check, publishes. -/
theorem notClosed_probeBeforePublish :
    ∃ s later : ProbedMpsc Nat, (system MpscState.soloSize).Reachable s ∧
      s.answered = true ∧ (system MpscState.soloSize).Leads s later ∧
        (s.channel.rings 0).shared.head.current = 0 ∧
          (later.channel.rings 0).shared.head.current = 1 ∧
            ¬ ClosedForGood MpscState.soloSize s := by
  have ran : (Transition.execute (fun s action => s.step MpscState.soloSize action)
      (new MpscState.soloSize) probeBeforePublish).map
        (fun s => (s.answered, (s.channel.rings 0).shared.head.current,
          (Transition.execute (fun s action => s.step MpscState.soloSize action) s
            (List.replicate 3 (.channel (.producer 0 .tick)))).map
              fun later => (later.channel.rings 0).shared.head.current)) =
          some (true, 0, some 1) := by
    rfl
  obtain ⟨s, ran, seen⟩ := Option.map_eq_some_iff.mp ran
  obtain ⟨answered, head, last⟩ := by simpa only [Prod.mk.injEq] using seen
  obtain ⟨later, finished, headLater⟩ := Option.map_eq_some_iff.mp last
  have leads : (system MpscState.soloSize).Leads s later := System.leads_of_execute finished
  refine ⟨s, later, System.reachable_of_execute rfl ran, answered, leads, head, headLater, ?_⟩
  intro closed
  have same := closed.heads answered later leads 0 (by decide)
  rw [same, head] at headLater
  cases headLater

end ProbedMpsc

end ArbitroKit
