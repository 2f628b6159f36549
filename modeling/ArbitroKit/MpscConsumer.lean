import ArbitroKit.MpscProducers

/-!
# The consumer of the many-producer channel

How the consumer and its halves of the rings keep in step, and what a scan that
found nothing has seen of each ring when it looked.
-/

namespace ArbitroKit

open Coherent SlotLane Cyclic Transition

/-- Which call a ring's consumer half is inside. -/
inductive ReceiveActivity where
  | idle
  | receiving
  | draining
  | blocking
  | closing
  | gone
  | undefined
  deriving DecidableEq

namespace RingState

variable {α : Type*} {cap : Cap} {s after : RingState α}

def recvActivity : RecvCall → ReceiveActivity
  | .tryRecv => .receiving
  | .recv => .blocking

def consumerActivity : ConsumerPc α → ReceiveActivity
  | .idle => .idle
  | .recvRefresh call _ => recvActivity call
  | .recvClosed call _ => recvActivity call
  | .recvRecheck call _ => recvActivity call
  | .recvRead call _ => recvActivity call
  | .recvRelease call _ _ => recvActivity call
  | .recvWake call _ => recvActivity call
  | .drainLoad _ => .draining
  | .drainRead _ _ _ => .draining
  | .drainCallback _ _ _ _ => .draining
  | .drainCommit _ _ _ => .draining
  | .drainWake _ _ => .draining
  | .drainUnwind _ _ => .draining
  | .dropWakeFull => .closing
  | .dropWakeEmpty => .closing
  | .gone => .gone
  | .undefined => .undefined
  | .returned (.tryRecv _) => .receiving
  | .returned (.drain _) => .draining
  | .returned .panicked => .draining
  | _ => .blocking

inductive ConsumerProgress (before after : ConsumerPc α) : Prop
  | running (same : consumerActivity after = consumerActivity before)
      (notReturned : ∀ outcome, before ≠ .returned outcome)
  | closed (closing : consumerActivity before = .closing) (gone : after = .gone)
  | returned (outcome : ConsumerOutcome α) (was : before = .returned outcome)
      (idle : after = .idle)
  | undefined (lost : after = .undefined)
      (notReturned : ∀ outcome, before ≠ .returned outcome)

@[simp]
theorem consumerActivity_tryRecvStart (call : RecvCall) :
    consumerActivity (s.tryRecvStart call).consumer.pc = recvActivity call := by
  unfold tryRecvStart
  dsimp only
  split <;> rfl

theorem readSlot_progress {before : ConsumerPc α} {index : Nat} {next : α → ConsumerPc α}
    (same : ∀ value, consumerActivity (next value) = consumerActivity before)
    (notReturned : ∀ outcome, before ≠ .returned outcome) :
    ConsumerProgress before (s.readSlot index next).consumer.pc := by
  unfold readSlot
  dsimp only
  split
  · exact .running (same _) notReturned
  · exact .undefined rfl notReturned

theorem consumerTick_progress {index : Nat}
    (taken : s.consumerTick cap index = some after) :
    ConsumerProgress s.consumer.pc after.consumer.pc := by
  unfold consumerTick at taken
  cases pcEq : s.consumer.pc with
  | idle | gone | undefined => simp [pcEq] at taken
  | recvRefresh call tail | drainLoad start =>
      simp only [pcEq] at taken
      obtain ⟨⟨head, loadedState⟩, loaded, rfl⟩ := Option.map_eq_some_iff.mp taken
      obtain ⟨-, rfl⟩ := loadHead_eq_some loaded
      dsimp only
      split <;> exact .running rfl (by simp)
  | recvRecheck call tail =>
      simp only [pcEq] at taken
      obtain ⟨⟨head, loadedState⟩, loaded, rfl⟩ := Option.map_eq_some_iff.mp taken
      obtain ⟨-, rfl⟩ := loadHead_eq_some loaded
      dsimp only
      split
      · exact .running (by cases call <;> rfl) (by simp)
      · exact .running rfl (by simp)
  | waitHead phase =>
      simp only [pcEq] at taken
      obtain ⟨⟨head, loadedState⟩, loaded, rfl⟩ := Option.map_eq_some_iff.mp taken
      obtain ⟨-, rfl⟩ := loadHead_eq_some loaded
      exact .running rfl (by simp)
  | recvClosed call tail =>
      simp only [pcEq] at taken
      split at taken <;> cases taken
      · exact .running rfl (by simp)
      · exact .running (by cases call <;> rfl) (by simp)
  | recvRead call tail | drainRead start head tail =>
      simp only [pcEq, Option.some.injEq] at taken
      subst taken
      exact readSlot_progress (fun _ => rfl) (by simp)
  | drainCallback start head tail value =>
      simp only [pcEq] at taken
      split at taken <;> cases taken <;> exact .running rfl (by simp)
  | recvWake call value =>
      simp only [pcEq, Option.some.injEq] at taken
      subst taken
      exact .running (by cases call <;> rfl) (by simp)
  | recvRetry =>
      simp only [pcEq, Option.some.injEq] at taken
      subst taken
      exact .running (consumerActivity_tryRecvStart .recv) (by simp)
  | waitTail phase head =>
      simp only [pcEq] at taken
      split at taken <;> cases taken
      · exact .running rfl (by simp)
      · exact .running (by cases phase <;> rfl) (by simp)
  | waitClosed phase =>
      simp only [pcEq, Option.some.injEq] at taken
      subst taken
      refine .running ?_ (by simp)
      cases phase <;> cases s.shared.closed <;> rfl
  | waitPark =>
      simp only [pcEq] at taken
      split at taken <;> cases taken
      exact .running rfl (by simp)
  | dropWakeEmpty =>
      simp only [pcEq, Option.some.injEq] at taken
      subst taken
      exact .closed rfl rfl
  | returned outcome =>
      simp only [pcEq, Option.some.injEq] at taken
      subst taken
      exact .returned outcome rfl rfl
  | recvRelease call tail value | drainCommit start head tail | drainWake head consumed
  | drainUnwind start tail | waitAnnounce | waitLeave | dropWakeFull =>
      simp only [pcEq, Option.some.injEq] at taken
      subst taken
      exact .running rfl (by simp)

/-- What entering a call of the channel's rings does. -/
theorem consumerStart_progress {action : ConsumerAction} {activity : ReceiveActivity}
    (starts : (action = .tryRecv ∧ activity = .receiving) ∨
      (action = .drain ∧ activity = .draining) ∨ action = .drop ∧ activity = .closing)
    (taken : s.consumerStep cap action = some after) :
    consumerActivity after.consumer.pc = activity := by
  rcases starts with ⟨rfl, rfl⟩ | ⟨rfl, rfl⟩ | ⟨rfl, rfl⟩
  · simp only [consumerStep] at taken
    split at taken <;> cases taken
    exact consumerActivity_tryRecvStart _
  all_goals
    simp only [consumerStep] at taken
    split at taken <;> cases taken
    rfl

/-- Where a call has found nothing, the `looked` items published at its last
load of `head` are the ones already received. -/
def EmptySeen (received looked : Nat) : ConsumerPc α → Prop
  | .recvClosed _ _ => looked = received
  | .recvRecheck _ _ => looked = received
  | .returned (.tryRecv (.error _)) => looked = received
  | .returned (.drain n) => n = 0 → looked = received
  | _ => True

theorem emptySeen_tryRecvStart {received looked : Nat} (call : RecvCall) :
    EmptySeen received looked (s.tryRecvStart call).consumer.pc := by
  unfold tryRecvStart
  dsimp only
  split <;> trivial

theorem emptySeen_recvFailed {received looked : Nat} (call : RecvCall) (error : TryRecvError)
    (seen : looked = received) :
    EmptySeen received looked (recvFailed call error : ConsumerPc α) := by
  cases call with
  | tryRecv => exact seen
  | recv => cases error <;> trivial

/-- A current load of `head` gives the published count. -/
theorem loadHead_latest {pair : Usize × RingState α} (shared : SharedOk cap s.shared)
    (ok : ConsumerOk s) (loaded : s.loadHead s.shared.head.latest = some pair) :
    pair.1 = BitVec.ofNat 64 s.shared.lane.published ∧ pair.2.shared = s.shared := by
  obtain ⟨known, fresh, facts⟩ := ok
  obtain ⟨read, rest⟩ := loadHead_eq_some loaded
  rw [Location.load_latest _ facts.follows.view_le] at read
  rw [← Option.some.inj read, shared.head, rest]
  exact ⟨rfl, rfl⟩

theorem emptySeen_tick {looked : Nat} (shared : SharedOk cap s.shared) (ok : ConsumerOk s)
    (seen : EmptySeen s.shared.lane.received.length looked s.consumer.pc)
    (taken : s.consumerTick cap s.shared.head.latest = some after) :
    EmptySeen after.shared.lane.received.length
      (if MpscState.loadsHead s.consumer.pc then s.shared.lane.published else looked)
      after.consumer.pc := by
  have here := ok.choose_spec.choose_spec.here
  have received_le := shared.sound.received_le
  unfold consumerTick at taken
  cases pcEq : s.consumer.pc with
  | idle | gone | undefined => simp [pcEq] at taken
  | recvRefresh call tail | recvRecheck call tail =>
      simp only [pcEq] at taken here
      obtain ⟨allReleased, -, rfl⟩ := here
      obtain ⟨⟨head, loadedState⟩, loaded, rfl⟩ := Option.map_eq_some_iff.mp taken
      obtain ⟨headEq, sharedEq⟩ := loadHead_latest shared ok loaded
      have same := shared.ofNat_inj le_rfl (allReleased.symm.le.trans received_le) le_rfl
      simp only at headEq sharedEq
      subst headEq
      dsimp only
      split
      · rename_i nothing
        have caughtUp : s.shared.lane.published = s.shared.lane.received.length :=
          (same.mp nothing).trans allReleased.symm
        have seenNow : s.shared.lane.published =
            loadedState.shared.lane.received.length := by
          rw [sharedEq, caughtUp]
        first
          | exact seenNow
          | exact emptySeen_recvFailed _ _ seenNow
      · trivial
  | drainLoad start =>
      simp only [pcEq] at taken here
      obtain ⟨allReleased, -, rfl⟩ := here
      obtain ⟨⟨head, loadedState⟩, loaded, rfl⟩ := Option.map_eq_some_iff.mp taken
      obtain ⟨headEq, sharedEq⟩ := loadHead_latest shared ok loaded
      have same := shared.ofNat_inj le_rfl (allReleased.symm.le.trans received_le) le_rfl
      simp only at headEq sharedEq
      subst headEq
      dsimp only
      split
      · rename_i nothing
        intro _
        change s.shared.lane.published = loadedState.shared.lane.received.length
        rw [sharedEq, same.mp nothing.symm, allReleased]
      · trivial
  | recvClosed call tail =>
      simp only [pcEq] at taken seen
      split at taken <;> cases taken
      · exact seen
      · exact emptySeen_recvFailed _ _ seen
  | recvRead call tail | drainRead start head tail =>
      simp only [pcEq, Option.some.injEq] at taken
      subst taken
      unfold readSlot
      dsimp only
      split <;> trivial
  | drainCallback start head tail value =>
      simp only [pcEq] at taken
      split at taken <;> cases taken <;> trivial
  | recvWake call value =>
      simp only [pcEq, Option.some.injEq] at taken
      subst taken
      cases call <;> trivial
  | drainWake head consumed =>
      simp only [pcEq, Option.some.injEq] at taken here
      subst taken
      exact fun zero => absurd here.1 (by omega)
  | recvRetry =>
      simp only [pcEq, Option.some.injEq] at taken
      subst taken
      exact emptySeen_tryRecvStart .recv
  | waitHead phase =>
      simp only [pcEq] at taken
      obtain ⟨⟨head, loadedState⟩, loaded, rfl⟩ := Option.map_eq_some_iff.mp taken
      trivial
  | waitTail phase head =>
      simp only [pcEq] at taken
      split at taken <;> cases taken
      · trivial
      · cases phase <;> trivial
  | waitClosed phase =>
      simp only [pcEq, Option.some.injEq] at taken
      subst taken
      cases phase <;> cases s.shared.closed <;> trivial
  | waitPark =>
      simp only [pcEq] at taken
      split at taken <;> cases taken
      trivial
  | recvRelease call tail value | drainCommit start head tail | drainUnwind start tail
  | waitAnnounce | waitLeave | dropWakeFull | dropWakeEmpty | returned outcome =>
      simp only [pcEq, Option.some.injEq] at taken
      subst taken
      trivial

end RingState

namespace MpscState

variable {α : Type*} {size : MpscSize} {s after : MpscState α}

/-- What each ring's consumer half is doing meanwhile. -/
def ReceiveActivityAt : MpscConsumerPc α → Nat → ReceiveActivity → Prop
  | .inTryRecv _ idx, j, activity => activity = if j = idx then .receiving else .idle
  | .inDrain _ idx _ _, j, activity => activity = if j = idx then .draining else .idle
  | .enterClose idx, j, activity => activity = if j < idx then .gone else .idle
  | .inClose idx, j, activity =>
      if j = idx then activity = .closing ∨ activity = .gone
      else activity = if j < idx then .gone else .idle
  | .gone, _, _ => True
  | _, _, activity => activity = .idle

/-- The last look at each of the first `n` rings found nothing. -/
def Scanned (s : MpscState α) (n : Nat) : Prop :=
  ∀ j < n, s.history.looked j = (s.rings j).shared.lane.received.length

/-- The producers are gone and the first `n` rings are empty for good. -/
def Exhausted (s : MpscState α) (n : Nat) : Prop :=
  s.liveProducers = 0 ∧
    ∀ j < n, (s.rings j).shared.lane.published = (s.rings j).shared.lane.received.length

/-- What holds when `Err(Shutdown)` comes back. -/
def EndSeen (size : MpscSize) (s : MpscState α) : Prop :=
  s.Scanned size.m ∧ (s.shutdown = true ∨ s.Exhausted size.m)

/-- What the consumer's scan has seen so far. -/
def ConsumerHere (size : MpscSize) (s : MpscState α) : MpscConsumerPc α → Prop
  | .enterTryRecv _ idx => idx < size.m ∧ s.Scanned idx
  | .inTryRecv _ idx =>
      idx < size.m ∧ s.Scanned idx ∧
        RingState.EmptySeen (s.rings idx).shared.lane.received.length
          (s.history.looked idx) (s.rings idx).consumer.pc
  | .enterDrain _ idx _ progress => idx < size.m ∧ (progress = false → s.Scanned idx)
  | .inDrain _ idx _ progress =>
      idx < size.m ∧ (progress = false → s.Scanned idx) ∧
        RingState.EmptySeen (s.rings idx).shared.lane.received.length
          (s.history.looked idx) (s.rings idx).consumer.pc
  | .batchWakeProducer _ idx _ => idx < size.m
  | .finishedShutdown _ asker => asker = .check → s.Scanned size.m
  | .finishedLive _ asker => asker = .check → s.Scanned size.m
  | .workHead _ asker inFinished idx =>
      idx < size.m ∧
        (asker = .check → inFinished = true ∧ s.Scanned size.m ∧ s.Exhausted idx)
  | .workTail _ asker inFinished idx head =>
      idx < size.m ∧
        (asker = .check → inFinished = true ∧
          (∀ j < size.m, j ≠ idx →
            s.history.looked j = (s.rings j).shared.lane.received.length) ∧
          s.Exhausted idx ∧
          s.history.looked idx = (s.rings idx).shared.lane.published ∧
          head = BitVec.ofNat 64 (s.rings idx).shared.lane.published)
  | .returned (.recv none) => s.EndSeen size
  | .returned (.recvBatch none) => s.EndSeen size
  | _ => True

structure ConsumerInStep (size : MpscSize) (s : MpscState α) : Prop where
  activity : ∀ j, ReceiveActivityAt s.consumer j
    (RingState.consumerActivity (s.rings j).consumer.pc)
  here : ConsumerHere size s s.consumer

/-! ### Where the calls go next -/

/-- A place outside the rings that fits what has been seen. -/
def Lands (size : MpscSize) (s : MpscState α) (pc : MpscConsumerPc α) : Prop :=
  (∀ j, ReceiveActivityAt pc j .idle) ∧ ConsumerHere size s pc

theorem Lands.inStep {pc : MpscConsumerPc α} (lands : Lands size s pc)
    (allIdle : ∀ j, RingState.consumerActivity (s.rings j).consumer.pc = .idle) :
    ConsumerInStep size (s.consumerAt pc) where
  activity j := by
    change ReceiveActivityAt pc j (RingState.consumerActivity (s.rings j).consumer.pc)
    rw [allIdle j]
    exact lands.1 j
  here := lands.2

theorem lands_scanAt {call : MpscRecvCall} {idx : Nat} (scanned : s.Scanned idx) :
    Lands size s (scanAt size call idx) := by
  unfold scanAt
  split
  · exact ⟨fun _ => rfl, by assumption, scanned⟩
  · have all : s.Scanned size.m := fun j inside => scanned j (by omega)
    cases call with
    | tryRecv => exact ⟨fun _ => rfl, trivial⟩
    | recv => exact ⟨fun _ => rfl, fun _ => all⟩

theorem lands_batchDone {call : MpscBatchCall} {total : Nat} (scanned : s.Scanned size.m) :
    Lands size s (batchDone call total) := by
  cases call with
  | tryRecvBatch => exact ⟨fun _ => rfl, trivial⟩
  | recvBatch =>
      unfold batchDone
      dsimp only
      split
      · exact ⟨fun _ => rfl, trivial⟩
      · exact ⟨fun _ => rfl, fun _ => scanned⟩

theorem scanned_zero (s : MpscState α) : s.Scanned 0 :=
  fun _ none => absurd none (Nat.not_lt_zero _)

theorem lands_passAt {call : MpscBatchCall} {idx total : Nat} {progress : Bool}
    (scanned : progress = false → s.Scanned idx) :
    Lands size s (passAt size call idx total progress) := by
  unfold passAt
  split
  · exact ⟨fun _ => rfl, by assumption, scanned⟩
  · split
    · exact ⟨fun _ => rfl, size.m_pos, fun _ => s.scanned_zero⟩
    · rename_i noProgress
      have all := scanned (by simpa using noProgress)
      exact lands_batchDone fun j inside => all j (by omega)

theorem lands_receiveAgain {call : MpscBlocking} :
    Lands size s (receiveAgain size call) := by
  cases call with
  | recv => exact lands_scanAt s.scanned_zero
  | recvBatch => exact lands_passAt fun _ => s.scanned_zero

theorem lands_finishedAnswer {call : MpscBlocking} {asker : MpscAsker} {finished : Bool}
    (ends : asker = .check → finished = true → s.EndSeen size) :
    Lands size s (finishedAnswer size call asker finished) := by
  rcases asker with _ | phase
  · cases finished with
    | true => cases call <;> exact ⟨fun _ => rfl, ends rfl rfl⟩
    | false => exact ⟨fun _ => rfl, size.m_pos, nofun⟩
  · cases phase <;> cases finished <;>
      first | exact ⟨fun _ => rfl, trivial⟩ | exact lands_receiveAgain

theorem lands_workAnswer {call : MpscBlocking} {asker : MpscAsker} {inFinished work : Bool}
    (ends : asker = .check → inFinished = true ∧ (work = false → s.EndSeen size)) :
    Lands size s (workAnswer size call asker inFinished work) := by
  cases inFinished with
  | true =>
      refine lands_finishedAnswer fun check nothing => (ends check).2 ?_
      simpa using nothing
  | false =>
      have notCheck : asker ≠ .check := fun check => nomatch (ends check).1
      cases work with
      | true => exact lands_finishedAnswer fun check => absurd check notCheck
      | false => exact ⟨fun _ => rfl, fun check => absurd check notCheck⟩

theorem lands_workAt {call : MpscBlocking} {asker : MpscAsker} {inFinished : Bool} {idx : Nat}
    (seen : asker = .check → inFinished = true ∧ s.Scanned size.m ∧ s.Exhausted idx) :
    Lands size s (workAt size call asker inFinished idx) := by
  unfold workAt
  split
  · exact ⟨fun _ => rfl, by assumption, seen⟩
  · refine lands_workAnswer fun check => ?_
    obtain ⟨inFinishedEq, scanned, live, empty⟩ := seen check
    exact ⟨inFinishedEq, fun _ => ⟨scanned, .inr ⟨live, fun j inside => empty j (by omega)⟩⟩⟩

/-! ### Steps of the consumer -/

@[simp]
theorem consumerAt_rings (s : MpscState α) (pc : MpscConsumerPc α) :
    (s.consumerAt pc).rings = s.rings :=
  rfl

@[simp]
theorem consumerAt_history (s : MpscState α) (pc : MpscConsumerPc α) :
    (s.consumerAt pc).history = s.history :=
  rfl

theorem looked_noteTick_self (s : MpscState α) (i : Nat) :
    (s.noteTick i).history.looked i =
      if loadsHead (s.rings i).consumer.pc then (s.rings i).shared.lane.published
      else s.history.looked i := by
  unfold noteTick
  split <;> simp [look]

theorem looked_noteTick_of_ne (s : MpscState α) {i j : Nat} (other : j ≠ i) :
    (s.noteTick i).history.looked j = s.history.looked j := by
  unfold noteTick
  split <;> simp [look, other]

theorem consumer_noteTick (s : MpscState α) (i : Nat) :
    (s.noteTick i).consumer = s.consumer := by
  unfold noteTick
  split <;> rfl

theorem rings_setRing_of_ne (s : MpscState α) {i j : Nat} (ring : RingState α)
    (other : j ≠ i) : (s.setRing i ring).rings j = s.rings j := by
  simp [setRing, other]

/-- A step inside a ring leaves what was seen of the earlier rings. -/
theorem Scanned.noteTick {idx : Nat} (scanned : s.Scanned idx) (ring : RingState α) :
    ((s.noteTick idx).setRing idx ring).Scanned idx := by
  intro j before
  have other : j ≠ idx := by omega
  rw [rings_setRing_of_ne _ _ other, noteTick_rings]
  exact (looked_noteTick_of_ne s other).trans (scanned j before)

theorem Scanned.setRing {idx : Nat} (scanned : s.Scanned idx) (ring : RingState α) :
    (s.setRing idx ring).Scanned idx := by
  intro j before
  rw [rings_setRing_of_ne _ _ (by omega)]
  exact scanned j before

theorem Scanned.succ {idx : Nat} (scanned : s.Scanned idx)
    (last : s.history.looked idx = (s.rings idx).shared.lane.received.length) :
    s.Scanned (idx + 1) := by
  intro j before
  rcases Nat.lt_succ_iff_lt_or_eq.mp before with earlier | rfl
  · exact scanned j earlier
  · exact last

/-- A step inside ring `idx` while its call has not returned. -/
theorem ring_running_consumer {idx : Nat} (reached : (withinCache size).Reachable s)
    (reachedAfter : (withinCache size).Reachable after)
    (notReturned : ∀ outcome, (s.rings idx).consumer.pc ≠ .returned outcome)
    (taken : s.ringConsumerTick size idx = some after) :
    ∃ ring, after = (s.noteTick idx).setRing idx ring ∧
      (RingState.consumerActivity ring.consumer.pc =
          RingState.consumerActivity (s.rings idx).consumer.pc ∨
        RingState.consumerActivity (s.rings idx).consumer.pc = .closing ∧
          ring.consumer.pc = .gone) ∧
      (RingState.EmptySeen (s.rings idx).shared.lane.received.length
        (s.history.looked idx) (s.rings idx).consumer.pc →
          RingState.EmptySeen ring.shared.lane.received.length
            (((s.noteTick idx).setRing idx ring).history.looked idx) ring.consumer.pc) := by
  obtain ⟨ring, ticked, rfl⟩ := ringConsumerTick_eq_some taken
  obtain ⟨shared, -, consumer⟩ := ring_ok reached idx
  refine ⟨ring, rfl, ?_, fun seen => ?_⟩
  · cases RingState.consumerTick_progress ticked with
    | running same _ => exact .inl same
    | closed closing gone => exact .inr ⟨closing, gone⟩
    | returned outcome was _ => exact absurd was (notReturned outcome)
    | undefined lost _ =>
        obtain ⟨-, -, ⟨known, fresh, facts⟩⟩ := ring_ok reachedAfter idx
        have here := facts.here
        rw [rings_setRing, lost] at here
        exact here.elim
  · have later := RingState.emptySeen_tick shared consumer seen ticked
    rwa [← looked_noteTick_self] at later

/-- The step that takes ring `idx` out of a call that has returned. -/
theorem ring_returned_consumer {idx : Nat} {outcome : ConsumerOutcome α}
    (returned : (s.rings idx).consumer.pc = .returned outcome)
    (taken : s.ringConsumerTick size idx = some after) :
    ∃ ring, after = s.setRing idx ring ∧ ring.consumer.pc = .idle ∧
      ring.shared.lane = (s.rings idx).shared.lane := by
  obtain ⟨ring, ticked, rfl⟩ := ringConsumerTick_eq_some taken
  have quiet : s.noteTick idx = s := by
    simp [noteTick, returned, loadsHead]
  rw [quiet]
  simp only [RingState.consumerStep, RingState.consumerTick, returned,
    Option.some.injEq] at ticked
  subst ticked
  exact ⟨_, rfl, rfl, rfl⟩

theorem consumer_ownTick (reached : (withinCache size).Reachable s)
    (reachedAfter : (withinCache size).Reachable after) (ok : ConsumerInStep size s)
    (taken : s.consumerTick size = some after) : ConsumerInStep size after := by
  have activity := ok.activity
  have here := ok.here
  unfold consumerTick at taken
  cases pcEq : s.consumer with
  | idle | gone => simp [pcEq] at taken
  | enterTryRecv call idx =>
      simp only [pcEq] at taken here activity
      obtain ⟨inside, moved, rfl⟩ := Option.map_eq_some_iff.mp taken
      obtain ⟨ring, started, rfl⟩ := ringConsumer_eq_some moved
      have receiving := RingState.consumerStart_progress (.inl ⟨rfl, rfl⟩) started
      refine ⟨fun j => ?_, here.1, here.2.setRing ring, ?_⟩
      · simp only [consumerAt, ReceiveActivityAt, setRing, Function.update_apply]
        split
        · exact receiving
        · exact activity j
      · simp only [RingState.consumerStep] at started
        split at started <;> cases started
        simp only [consumerAt_rings, rings_setRing]
        exact RingState.emptySeen_tryRecvStart _
  | enterDrain call idx total progress =>
      simp only [pcEq] at taken here activity
      obtain ⟨inside, moved, rfl⟩ := Option.map_eq_some_iff.mp taken
      obtain ⟨ring, started, rfl⟩ := ringConsumer_eq_some moved
      have draining := RingState.consumerStart_progress (.inr (.inl ⟨rfl, rfl⟩)) started
      refine ⟨fun j => ?_, here.1, fun none => (here.2 none).setRing ring, ?_⟩
      · simp only [consumerAt, ReceiveActivityAt, setRing, Function.update_apply]
        split
        · exact draining
        · exact activity j
      · simp only [RingState.consumerStep] at started
        split at started <;> cases started
        simp only [consumerAt_rings, rings_setRing]
        trivial
  | inTryRecv call idx =>
      simp only [pcEq] at taken here activity
      obtain ⟨inside, scanned, seen⟩ := here
      have receiving := activity idx
      simp only [ReceiveActivityAt, if_pos] at receiving
      split at taken
      · rename_i result returned
        obtain ⟨moved, ticked, rfl⟩ := Option.map_eq_some_iff.mp taken
        obtain ⟨ring, rfl, idle, lane⟩ := ring_returned_consumer returned ticked
        have allIdle : ∀ j, RingState.consumerActivity
            ((s.setRing idx ring).rings j).consumer.pc = .idle := by
          intro j
          by_cases same : j = idx
          · rw [same, rings_setRing, idle]
            rfl
          · rw [rings_setRing_of_ne _ _ same]
            simpa [ReceiveActivityAt, same] using activity j
        rcases result with error | value
        · refine (lands_scanAt ?_).inStep allIdle
          refine (scanned.setRing ring).succ ?_
          rw [returned] at seen
          rw [rings_setRing, lane]
          exact seen
        · exact ⟨allIdle, trivial⟩
      · rename_i notTryRecv
        have notReturned : ∀ outcome, (s.rings idx).consumer.pc ≠ .returned outcome := by
          intro outcome was
          rw [was] at receiving
          cases outcome with
          | tryRecv result => exact notTryRecv result was
          | recv result | drain consumed | panicked => cases receiving
        obtain ⟨ring, rfl, progress, keeps⟩ :=
          ring_running_consumer reached reachedAfter notReturned taken
        rcases progress with same | ⟨closing, -⟩
        · refine ⟨fun j => ?_, ?_⟩
          · simp only [setRing, consumer_noteTick, pcEq, ReceiveActivityAt,
              Function.update_apply, noteTick_rings]
            split
            · exact same.trans receiving
            · rename_i other
              simpa [ReceiveActivityAt, other] using activity j
          · simp only [setRing, consumer_noteTick, pcEq]
            refine ⟨inside, scanned.noteTick ring, ?_⟩
            simpa [setRing] using keeps seen
        · rw [receiving] at closing
          cases closing
  | inDrain call idx total progress =>
      simp only [pcEq] at taken here activity
      obtain ⟨inside, scanned, seen⟩ := here
      have draining := activity idx
      simp only [ReceiveActivityAt, if_pos] at draining
      have allIdle (ring : RingState α) (idle : ring.consumer.pc = .idle) (j : Nat) :
          RingState.consumerActivity ((s.setRing idx ring).rings j).consumer.pc = .idle := by
        by_cases same : j = idx
        · rw [same, rings_setRing, idle]
          rfl
        · rw [rings_setRing_of_ne _ _ same]
          simpa [ReceiveActivityAt, same] using activity j
      split at taken
      · rename_i n returned
        obtain ⟨moved, ticked, rfl⟩ := Option.map_eq_some_iff.mp taken
        obtain ⟨ring, rfl, idle, lane⟩ := ring_returned_consumer returned ticked
        rw [returned] at seen
        split
        · exact ⟨allIdle ring idle, inside⟩
        · refine (lands_passAt fun none => ?_).inStep (allIdle ring idle)
          refine ((scanned none).setRing ring).succ ?_
          rw [rings_setRing, lane]
          exact seen (by omega)
      · rename_i returned
        obtain ⟨moved, ticked, rfl⟩ := Option.map_eq_some_iff.mp taken
        obtain ⟨ring, rfl, idle, lane⟩ := ring_returned_consumer returned ticked
        exact ⟨allIdle ring idle, trivial⟩
      · rename_i notDrain notPanicked
        have notReturned : ∀ outcome, (s.rings idx).consumer.pc ≠ .returned outcome := by
          intro outcome was
          rw [was] at draining
          cases outcome with
          | drain consumed => exact notDrain consumed was
          | panicked => exact notPanicked was
          | recv result | tryRecv result => cases draining
        obtain ⟨ring, rfl, runs, keeps⟩ :=
          ring_running_consumer reached reachedAfter notReturned taken
        rcases runs with same | ⟨closing, -⟩
        · refine ⟨fun j => ?_, ?_⟩
          · simp only [setRing, consumer_noteTick, pcEq, ReceiveActivityAt,
              Function.update_apply, noteTick_rings]
            split
            · exact same.trans draining
            · rename_i other
              simpa [ReceiveActivityAt, other] using activity j
          · simp only [setRing, consumer_noteTick, pcEq]
            refine ⟨inside, fun none => (scanned none).noteTick ring, ?_⟩
            simpa [setRing] using keeps seen
        · rw [draining] at closing
          cases closing
  | wakeProducer call idx value =>
      simp only [pcEq, Option.some.injEq] at taken activity
      subst taken
      refine ⟨activity, ?_⟩
      cases call <;> trivial
  | batchWakeProducer call idx total =>
      simp only [pcEq, Option.some.injEq] at taken activity
      subst taken
      refine Lands.inStep ?_ activity
      exact lands_passAt fun never => absurd never.symm Bool.false_ne_true
  | finishedShutdown call asker =>
      simp only [pcEq] at taken here activity
      split at taken <;> cases taken
      · rename_i signalled
        exact (lands_finishedAnswer fun check _ => ⟨here check, .inl signalled⟩).inStep activity
      · exact ⟨activity, here⟩
  | finishedLive call asker =>
      simp only [pcEq] at taken here activity
      split at taken <;> cases taken
      · rename_i live
        refine (lands_workAt fun check => ?_).inStep activity
        exact ⟨rfl, here check, live, fun j none => absurd none (Nat.not_lt_zero j)⟩
      · refine Lands.inStep ?_ activity
        exact lands_finishedAnswer fun _ never => absurd never Bool.false_ne_true
  | workHead call asker inFinished idx =>
      simp only [pcEq, Option.some.injEq] at taken here activity
      subst taken
      refine ⟨activity, here.1, fun check => ?_⟩
      obtain ⟨inFinishedEq, scanned, exhausted⟩ := here.2 check
      refine ⟨inFinishedEq, fun j inside other => ?_, exhausted, ?_, ?_⟩
      · simp only [consumerAt, look, Function.update_of_ne other]
        exact scanned j inside
      · simp [consumerAt, look]
      · exact (ring_ok reached idx).1.head
  | workTail call asker inFinished idx head =>
      simp only [pcEq] at taken here activity
      obtain ⟨shared, -, ⟨known, fresh, facts⟩⟩ := ring_ok reached idx
      have ringHere := facts.here
      have idle := activity idx
      split at taken <;> cases taken
      · rename_i nothing
        refine (lands_workAt fun check => ?_).inStep activity
        obtain ⟨inFinishedEq, others, ⟨live, empty⟩, looked, headEq⟩ := here.2 check
        have caughtUp : (s.rings idx).shared.lane.published =
            (s.rings idx).shared.lane.received.length := by
          have released_le := shared.sound.released_le
          have received_le := shared.sound.received_le
          rw [headEq, shared.tail] at nothing
          have same := (shared.ofNat_inj le_rfl (by omega) le_rfl).mp nothing
          omega
        refine ⟨inFinishedEq, fun j inside => ?_, live, fun j before => ?_⟩
        · by_cases same : j = idx
          · rw [same, looked, caughtUp]
          · exact others j inside same
        · rcases Nat.lt_succ_iff_lt_or_eq.mp before with earlier | rfl
          · exact empty j earlier
          · exact caughtUp
      · refine Lands.inStep ?_ activity
        exact lands_workAnswer fun check => ⟨(here.2 check).1,
          fun never => absurd never.symm Bool.false_ne_true⟩
  | waitAnnounce call =>
      simp only [pcEq, Option.some.injEq] at taken activity
      subst taken
      exact ⟨activity, size.m_pos, fun check => by cases check⟩
  | waitPark call =>
      simp only [pcEq] at taken activity
      split at taken <;> cases taken
      exact ⟨activity, size.m_pos, fun check => by cases check⟩
  | waitLeave call =>
      simp only [pcEq, Option.some.injEq] at taken activity
      subst taken
      exact lands_receiveAgain.inStep activity
  | enterClose idx =>
      simp only [pcEq] at taken activity
      split at taken
      · obtain ⟨inside, moved, rfl⟩ := Option.map_eq_some_iff.mp taken
        obtain ⟨ring, started, rfl⟩ := ringConsumer_eq_some moved
        have closing := RingState.consumerStart_progress (.inr (.inr ⟨rfl, rfl⟩)) started
        refine ⟨fun j => ?_, trivial⟩
        simp only [consumerAt, ReceiveActivityAt, setRing, Function.update_apply]
        split
        · exact .inl closing
        · exact activity j
      · cases taken
        exact ⟨fun _ => trivial, trivial⟩
  | inClose idx =>
      simp only [pcEq] at taken activity
      split at taken
      · rename_i gone
        cases taken
        refine ⟨fun j => ?_, trivial⟩
        have was := activity j
        simp only [ReceiveActivityAt, consumerAt] at was ⊢
        by_cases same : j = idx
        · rw [same, gone, if_pos (Nat.lt_succ_self idx)]
          rfl
        · rw [if_neg same] at was
          rw [was]
          by_cases before : j < idx
          · rw [if_pos before, if_pos (by omega)]
          · rw [if_neg before, if_neg (by omega)]
      · rename_i notGone
        have was := activity idx
        simp only [ReceiveActivityAt, if_pos] at was
        have notReturned : ∀ outcome, (s.rings idx).consumer.pc ≠ .returned outcome := by
          intro outcome returned
          rw [returned] at was
          cases outcome <;> rcases was with closing | closing <;> cases closing
        obtain ⟨ring, rfl, progress, -⟩ :=
          ring_running_consumer reached reachedAfter notReturned taken
        refine ⟨fun j => ?_, by simp only [setRing, consumer_noteTick, pcEq]; trivial⟩
        simp only [setRing, consumer_noteTick, pcEq, ReceiveActivityAt, Function.update_apply,
          noteTick_rings]
        split
        · rcases progress with same | ⟨-, gone⟩
          · rw [same]
            exact was
          · rw [gone]
            exact .inr rfl
        · rename_i other
          simpa [ReceiveActivityAt, other] using activity j
  | returned outcome =>
      simp only [pcEq, Option.some.injEq] at taken activity
      subst taken
      exact ⟨activity, trivial⟩

theorem consumer_ownStep (reached : (withinCache size).Reachable s)
    (reachedAfter : (withinCache size).Reachable after) (ok : ConsumerInStep size s)
    {action : MpscConsumerAction} (taken : s.consumerStep size action = some after) :
    ConsumerInStep size after := by
  have activity := ok.activity
  have here := ok.here
  cases action with
  | tick => exact consumer_ownTick reached reachedAfter ok taken
  | tryRecv | recv =>
      simp only [consumerStep] at taken
      split at taken
      · rename_i pcEq
        cases taken
        simp only [pcEq] at activity
        exact (lands_scanAt s.scanned_zero).inStep activity
      · cases taken
  | tryRecvBatch | recvBatch =>
      simp only [consumerStep] at taken
      split at taken
      · rename_i pcEq
        cases taken
        simp only [pcEq] at activity
        exact (lands_passAt fun _ => s.scanned_zero).inStep activity
      · cases taken
  | drop =>
      simp only [consumerStep] at taken
      split at taken
      · rename_i pcEq
        cases taken
        simp only [pcEq] at activity
        exact ⟨activity, trivial⟩
      · cases taken
  | panic =>
      simp only [consumerStep] at taken
      split at taken
      · rename_i call idx total progress pcEq
        obtain ⟨ring, moved, rfl⟩ := ringConsumer_eq_some taken
        simp only [pcEq] at activity here
        obtain ⟨start, head, tail, value, callback, rfl⟩ :=
          RingState.panic_eq_some size.cap moved
        refine ⟨fun j => ?_, ?_⟩
        · simp only [setRing, pcEq, ReceiveActivityAt, Function.update_apply]
          split
          · rfl
          · rename_i other
            simpa [ReceiveActivityAt, other] using activity j
        · simp only [setRing, pcEq]
          refine ⟨here.1, fun none => (here.2.1 none).setRing _, ?_⟩
          simp only [Function.update_self]
          trivial
      · cases taken
  | spin | spurious =>
      simp only [consumerStep] at taken
      split at taken
      · rename_i pcEq
        cases taken
        simp only [pcEq] at activity
        exact ⟨activity, size.m_pos, fun check => by cases check⟩
      · cases taken

/-! ### Steps of the others -/

/-- Whoever does not touch what the consumer has seen leaves it in step. -/
theorem ConsumerInStep.congr (ok : ConsumerInStep size s)
    (consumer : after.consumer = s.consumer)
    (ringConsumer : ∀ j, (after.rings j).consumer = (s.rings j).consumer)
    (received : ∀ j, (after.rings j).shared.lane.received = (s.rings j).shared.lane.received)
    (looked : after.history.looked = s.history.looked)
    (shutdown : s.shutdown = true → after.shutdown = true)
    (exhausted : s.liveProducers = 0 → after.liveProducers = 0 ∧
      ∀ j < size.m, (after.rings j).shared.lane.published =
        (s.rings j).shared.lane.published) : ConsumerInStep size after := by
  have scanned {n : Nat} (was : s.Scanned n) : after.Scanned n := by
    intro j before
    rw [looked, received]
    exact was j before
  have exhaustedAt {n : Nat} (bound : n ≤ size.m) (was : s.Exhausted n) :
      after.Exhausted n := by
    obtain ⟨live, same⟩ := exhausted was.1
    refine ⟨live, fun j before => ?_⟩
    rw [same j (by omega), received]
    exact was.2 j before
  have ends (was : s.EndSeen size) : after.EndSeen size :=
    ⟨scanned was.1, was.2.imp shutdown (exhaustedAt le_rfl)⟩
  have activity := ok.activity
  have here := ok.here
  refine ⟨fun j => ?_, ?_⟩
  · rw [consumer, ringConsumer]
    exact activity j
  · rw [consumer]
    cases pcEq : s.consumer with
    | enterTryRecv call idx =>
        rw [pcEq] at here
        exact ⟨here.1, scanned here.2⟩
    | inTryRecv call idx =>
        rw [pcEq] at here
        refine ⟨here.1, scanned here.2.1, ?_⟩
        rw [received, looked, ringConsumer]
        exact here.2.2
    | enterDrain call idx total progress =>
        rw [pcEq] at here
        exact ⟨here.1, fun none => scanned (here.2 none)⟩
    | inDrain call idx total progress =>
        rw [pcEq] at here
        refine ⟨here.1, fun none => scanned (here.2.1 none), ?_⟩
        rw [received, looked, ringConsumer]
        exact here.2.2
    | batchWakeProducer call idx total =>
        rw [pcEq] at here
        exact here
    | finishedShutdown call asker | finishedLive call asker =>
        rw [pcEq] at here
        exact fun check => scanned (here check)
    | workHead call asker inFinished idx =>
        rw [pcEq] at here
        refine ⟨here.1, fun check => ?_⟩
        obtain ⟨inFinishedEq, seen, gone⟩ := here.2 check
        exact ⟨inFinishedEq, scanned seen, exhaustedAt here.1.le gone⟩
    | workTail call asker inFinished idx head =>
        rw [pcEq] at here
        refine ⟨here.1, fun check => ?_⟩
        obtain ⟨inFinishedEq, others, gone, last, headEq⟩ := here.2 check
        refine ⟨inFinishedEq, fun j inside other => ?_, exhaustedAt here.1.le gone, ?_, ?_⟩
        · rw [looked, received]
          exact others j inside other
        · rw [looked, (exhausted gone.1).2 idx here.1]
          exact last
        · rw [(exhausted gone.1).2 idx here.1]
          exact headEq
    | returned outcome =>
        rw [pcEq] at here
        cases outcome with
        | recv result | recvBatch result =>
            cases result with
            | none => exact ends here
            | some value => trivial
        | tryRecv result | tryRecvBatch total | panicked => trivial
    | idle | wakeProducer call idx value | waitAnnounce call | waitPark call | waitLeave call
    | enterClose idx | inClose idx | gone => trivial

/-- Nobody publishes once every handle has given up its place. -/
theorem producerStep_uncounted {i : Nat} (out : countedLive (s.producers i) = false)
    {action : MpscProducerAction α} (taken : s.producerStep size i action = some after) :
    after.rings = s.rings ∧ after.liveProducers = s.liveProducers := by
  cases action with
  | tick =>
      simp only [producerStep, producerTick] at taken
      cases pcEq : s.producers i with
      | wakeLast =>
          simp only [pcEq, Option.some.injEq] at taken
          subst taken
          exact ⟨rfl, rfl⟩
      | gone => simp [pcEq] at taken
      | _ => simp [pcEq, countedLive] at out
  | _ =>
      simp only [producerStep] at taken
      split at taken
      · rename_i pcEq
        simp [pcEq, countedLive] at out
      · cases taken

theorem uncounted_of_live (ok : LiveOk size s) (none : s.liveProducers = 0) {i : Nat}
    (inside : i < size.m) : countedLive (s.producers i) = false := by
  rw [LiveOk, none] at ok
  have zero := Finset.sum_eq_zero_iff.mp ok.symm i (Finset.mem_range.mpr inside)
  by_contra counted
  simp [counted] at zero

theorem consumerInStep (reached : (withinCache size).Reachable s) :
    ConsumerInStep size s := by
  refine reached.invariant (ConsumerInStep size) ?base ?preserved
  case base =>
    rintro _ rfl
    exact ⟨fun _ => rfl, trivial⟩
  case preserved =>
    rintro before action after reached ok ⟨within, taken⟩
    have reachedAfter : (withinCache size).Reachable after := reached.next ⟨within, taken⟩
    cases action with
    | producer i action =>
        obtain ⟨inside, taken⟩ := producer_of_step taken
        have frame := producerStep_frame taken
        refine ok.congr frame.consumer (fun j => ?_) (fun j => ?_) frame.looked
          (fun signalled => frame.shutdown.trans signalled) fun none => ?_
        · rcases producerStep_rely reached taken j with same | rely
          · rw [same]
          · exact rely.consumer
        · rcases producerStep_rely reached taken j with same | rely
          · rw [same]
          · exact rely.received
        · obtain ⟨rings, live⟩ := producerStep_uncounted
            (uncounted_of_live (producersOk reached).live none inside) taken
          exact ⟨live.trans none, fun j _ => by rw [rings]⟩
    | consumer action => exact consumer_ownStep reached reachedAfter ok taken
    | signaller k action =>
        have frame := signallerStep_frame taken
        exact ok.congr frame.consumer (fun j => by rw [frame.rings])
          (fun j => by rw [frame.rings]) frame.looked frame.shutdown
          fun none => ⟨frame.liveProducers.trans none, fun j _ => by rw [frame.rings]⟩

end MpscState

end ArbitroKit
