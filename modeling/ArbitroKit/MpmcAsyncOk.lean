import ArbitroKit.MpmcAsyncLinks
import ArbitroKit.MpmcFacts

/-!
# What holds between the tasks

The invariant of the channel: the facts of every ring with the tasks at its ends, and what
each task hears of its peers' cursors, of `shutdown` and of the other side's count.  A step
of one handle is seen by the others through a few places only.
-/

namespace ArbitroKit

open Coherent SlotLane Cyclic Transition

namespace MpmcSenderPc

variable {α : Type*}

def wait : MpmcSenderPc α → Option (AwaitPc Nat)
  | .waits _ pc => some pc
  | _ => none

/-- The call has to wake the shard's consumer. -/
def wakes (shard : Nat) : MpmcSenderPc α → Bool
  | .wakeConsumer j _ _ => decide (j = shard)
  | _ => false

/-- The last producer is on its way to wake the shard's consumer. -/
def lastFor (shard : Nat) : MpmcSenderPc α → Bool
  | .wakeLast j _ => decide (j ≤ shard)
  | _ => false

end MpmcSenderPc

namespace MpmcReceiverPc

variable {α : Type*}

def wait : MpmcReceiverPc α → Option (AwaitPc Nat)
  | .waits pc => some pc
  | _ => none

/-- The call has to wake producer `p`. -/
def wakes (p : Nat) : MpmcReceiverPc α → Bool
  | .scanWake q _ _ => decide (q = p)
  | .drainWake q _ => decide (q = p)
  | _ => false

/-- The call looks only at rings that there are. -/
def Inside (m : Nat) : MpmcReceiverPc α → Prop
  | .scan _ p => p < m
  | .scanRead _ p _ => p < m
  | .drain p _ => p < m
  | .drainRead p _ _ => p < m
  | .drainCallback p _ _ _ => p < m
  | _ => True

/-- The last consumer is on its way to wake producer `p`. -/
def lastFor (p : Nat) : MpmcReceiverPc α → Bool
  | .wakeLast q _ => decide (q ≤ p)
  | _ => false

end MpmcReceiverPc

namespace MpmcTaskSignalPc

/-- The signal is on its way to wake the shard's consumer. -/
def forConsumer (shard : Nat) : MpmcTaskSignalPc → Bool
  | .wakeConsumer j _ => decide (j ≤ shard)
  | _ => false

/-- The signal is on its way to wake producer `p`. -/
def forProducer (p : Nat) : MpmcTaskSignalPc → Bool
  | .wakeConsumer _ _ => true
  | .wakeProducer q _ => decide (q ≤ p)
  | .idle => false

end MpmcTaskSignalPc

namespace AsyncMpmc

open AsyncGate TaskRing

variable {α : Type*} {size : MpmcSize} {s after : AsyncMpmc α} {shard p : Nat}

/-- What producer `p` watches; its gate's numbers are the turns of its predicate. -/
def senderWatch (size : MpmcSize) (s : AsyncMpmc α) (p : Nat) : Watched where
  latest
    | 0 => stores s.shutdown
    | 1 => stores (decide (s.liveConsumers = 0))
    | shard + 2 => (s.rings shard p).tail.latest
  view
    | 0 => (s.senders p).view.shutdown
    | 1 => (s.senders p).view.live
    | shard + 2 => (s.rings shard p).tailView
  onWay
    | 0 => ∃ k, (s.signallers k).forProducer p = true
    | 1 => ∃ shard, (s.receivers shard).pc.lastFor p = true
    | shard + 2 => (s.receivers shard).pc.wakes p = true
  calm
    | 0 => s.shutdown = false
    | 1 => s.liveConsumers ≠ 0
    | shard + 2 => (s.rings shard p).lane.published =
        (s.rings shard p).lane.released + size.ringCap.size

/-- What the shard's consumer watches. -/
def receiverWatch (s : AsyncMpmc α) (shard : Nat) : Watched where
  latest
    | 0 => stores s.shutdown
    | 1 => stores (decide (s.liveProducers = 0))
    | p + 2 => (s.rings shard p).head.latest
  view
    | 0 => (s.receivers shard).view.shutdown
    | 1 => (s.receivers shard).view.live
    | p + 2 => (s.rings shard p).headView
  onWay
    | 0 => ∃ k, (s.signallers k).forConsumer shard = true
    | 1 => ∃ p, (s.senders p).pc.lastFor shard = true
    | p + 2 => (s.senders p).pc.wakes shard = true
  calm
    | 0 => s.shutdown = false
    | 1 => s.liveProducers ≠ 0
    | p + 2 => (s.rings shard p).lane.published = (s.rings shard p).lane.released

/-- What a task watches, by its number at the gate. -/
@[elab_as_elim]
theorem watchCases {motive : Nat → Prop} (shutdown : motive 0) (live : motive 1)
    (peer : ∀ j, motive (j + 2)) (idx : Nat) : motive idx := by
  rcases idx with _ | _ | j
  · exact shutdown
  · exact live
  · exact peer j

/-- In which turn the predicate of `recv_async` looks at what its gate numbers so. -/
def receiverTurn (size : MpmcSize) (idx : Nat) : Nat :=
  if idx < 2 then size.m + idx else idx - 2

/-- What producer `p` hears. -/
def SenderHears (size : MpmcSize) (s : AsyncMpmc α) (p : Nat) : Prop :=
  Watches (s.producerWaiters p) (s.senders p).pc.wait id (size.n + 2) (s.senderWatch size p)

/-- What the shard's consumer hears. -/
def ReceiverHears (size : MpmcSize) (s : AsyncMpmc α) (shard : Nat) : Prop :=
  Watches (s.consumerWaiters shard) (s.receivers shard).pc.wait (receiverTurn size)
    (size.m + 2) (s.receiverWatch shard)

/-- The ring of producer `p` in the shard. -/
def RingLinked (size : MpmcSize) (s : AsyncMpmc α) (shard p : Nat) : Prop :=
  LinkOk size.ringCap shard p (s.rings shard p) (s.senders p).pc (s.receivers shard).pc
    (s.accepted shard p) (s.delivered shard p)

/-- Whoever wakes because the channel is terminal has made it so. -/
structure TerminalOk (s : AsyncMpmc α) : Prop where
  signals : ∀ k, s.signallers k ≠ .idle → s.shutdown = true
  lastProducer : ∀ p shard stage, (s.senders p).pc = .wakeLast shard stage → s.liveProducers = 0
  lastConsumer : ∀ shard p stage, (s.receivers shard).pc = .wakeLast p stage →
    s.liveConsumers = 0

/-- The invariant of the channel between tasks. -/
structure Ok (size : MpmcSize) (s : AsyncMpmc α) : Prop where
  terminal : TerminalOk s
  inside : ∀ shard, (s.receivers shard).pc.Inside size.m
  links : ∀ shard < size.n, ∀ p < size.m, RingLinked size s shard p
  senders : ∀ p < size.m, SenderHears size s p
  receivers : ∀ shard < size.n, ReceiverHears size s shard

theorem ok_new (size : MpmcSize) : Ok size (new size : AsyncMpmc α) where
  terminal :=
    { signals := fun _ busy => absurd rfl busy
      lastProducer := fun p shard stage here => by cases here
      lastConsumer := fun shard p stage here => by cases here }
  inside _ := trivial
  links shard _ p _ := linkOk_new size.ringCap shard p
  senders p _ := by
    refine watches_new fun idx _ => ?_
    cases idx using watchCases with
    | shutdown => exact ⟨rfl, rfl⟩
    | live =>
        have some : ¬ size.n = 0 := Nat.pos_iff_ne_zero.mp size.n_pos
        exact ⟨by simp [senderWatch, new, stores, some], rfl⟩
    | peer shard => exact ⟨rfl, rfl⟩
  receivers shard _ := by
    refine watches_new fun idx _ => ?_
    cases idx using watchCases with
    | shutdown => exact ⟨rfl, rfl⟩
    | live =>
        have some : ¬ size.m = 0 := Nat.pos_iff_ne_zero.mp size.m_pos
        exact ⟨by simp [receiverWatch, new, stores, some], rfl⟩
    | peer p => exact ⟨rfl, rfl⟩

theorem senderTurns (size : MpmcSize) (idx : Nat) :
    ∀ other < size.n + 2, id other < size.n + 2 ∧ (id other = id idx → other = idx) :=
  fun _ inside => ⟨inside, id⟩

theorem receiverTurns (size : MpmcSize) {idx : Nat} (inside : idx < size.m + 2) :
    ∀ other < size.m + 2, receiverTurn size other < size.m + 2 ∧
      (receiverTurn size other = receiverTurn size idx → other = idx) := by
  intro other within
  unfold receiverTurn
  constructor
  · split <;> omega
  · split <;> split <;> omega

/-- A load of a flag: a stale one misses only that it is set. -/
theorem loadFlag_eq {set value : Bool} {view index : Nat}
    (loaded : loadFlag set view index = some value) :
    view ≤ index ∧ (value = true → set = true) ∧
      (value = false → stores set ≤ index → set = false) := by
  unfold loadFlag at loaded
  split at loaded <;> cases loaded
  rename_i within
  refine ⟨within.1, ?_, ?_⟩
  · intro one
    have one : index = 1 := of_decide_eq_true one
    cases set
    · have none := within.2
      simp [stores, one] at none
    · rfl
  · intro other newest
    have other : index ≠ 1 := of_decide_eq_false other
    cases set
    · rfl
    · have le := within.2
      simp only [stores, Bool.toNat_true] at le newest
      omega

/-! ### How a producer's step is seen -/

/-- A step of producer `p` leaves to the others what is theirs. -/
structure SenderFrame (p : Nat) (s after : AsyncMpmc α) : Prop where
  senders : ∀ q, q ≠ p → after.senders q = s.senders q
  producerWaiters : ∀ q, q ≠ p → after.producerWaiters q = s.producerWaiters q
  rings : ∀ shard q, q ≠ p → after.rings shard q = s.rings shard q
  accepted : ∀ shard q, q ≠ p → after.accepted shard q = s.accepted shard q
  tails : ∀ shard, (after.rings shard p).tail = (s.rings shard p).tail
  released : ∀ shard, (after.rings shard p).lane.released = (s.rings shard p).lane.released
  headView : ∀ shard, (after.rings shard p).headView = (s.rings shard p).headView
  receivers : after.receivers = s.receivers
  signallers : after.signallers = s.signallers
  shutdown : after.shutdown = s.shutdown
  liveConsumers : after.liveConsumers = s.liveConsumers
  left : after.liveProducers ≤ s.liveProducers
  delivered : after.delivered = s.delivered

theorem SenderFrame.senderWatch (frame : SenderFrame p s after) {q : Nat} (other : q ≠ p) :
    after.senderWatch size q = s.senderWatch size q := by
  have rings (shard : Nat) := frame.rings shard q other
  simp only [AsyncMpmc.senderWatch, rings, frame.senders q other, frame.receivers,
    frame.signallers, frame.shutdown, frame.liveConsumers]

/-- What the shard's consumer can hear of the step. -/
structure SenderNews (p : Nat) (s after : AsyncMpmc α) (shard : Nat) : Prop where
  head : ((after.rings shard p).head = (s.rings shard p).head ∧
      (after.rings shard p).lane.published = (s.rings shard p).lane.published ∧
      ((s.senders p).pc.wakes shard = true → (after.senders p).pc.wakes shard = true)) ∨
    ((s.rings shard p).head.latest ≤ (after.rings shard p).head.latest ∧
      (after.senders p).pc.wakes shard = true)
  live : (after.liveProducers = 0 ↔ s.liveProducers = 0) ∧
      ((s.senders p).pc.lastFor shard = true → (after.senders p).pc.lastFor shard = true) ∨
    s.liveProducers ≠ 0 ∧ (after.senders p).pc.lastFor shard = true

/-- The last producer for the shard is the one that takes the step, or another one. -/
theorem SenderFrame.last (frame : SenderFrame p s after)
    (own : (s.senders p).pc.lastFor shard = true → (after.senders p).pc.lastFor shard = true)
    (before : ∃ q, (s.senders q).pc.lastFor shard = true) :
    ∃ q, (after.senders q).pc.lastFor shard = true := by
  obtain ⟨q, here⟩ := before
  refine ⟨q, ?_⟩
  by_cases same : q = p
  · rw [same] at here ⊢
    exact own here
  · rw [frame.senders q same]
    exact here

theorem SenderFrame.receiverView (frame : SenderFrame p s after) (idx : Nat) :
    (after.receiverWatch shard).view idx = (s.receiverWatch shard).view idx := by
  cases idx using watchCases with
  | shutdown | live =>
      simp only [receiverWatch, frame.receivers]
  | peer q =>
      change (after.rings shard q).headView = (s.rings shard q).headView
      by_cases same : q = p
      · rw [same]
        exact frame.headView shard
      · rw [frame.rings shard q same]

theorem SenderFrame.receiverHears (frame : SenderFrame p s after)
    (hears : ReceiverHears size s shard) (news : SenderNews p s after shard)
    (gate : after.consumerWaiters shard = s.consumerWaiters shard) :
    ReceiverHears size after shard := by
  rw [ReceiverHears, gate, frame.receivers]
  refine hears.keeps (fun idx _ => (frame.receiverView idx).ge) fun idx _ => ?_
  cases idx using watchCases with
  | shutdown =>
      refine .inl ⟨?_, ?_, fun _ => ?_⟩
      · simp only [receiverWatch, frame.shutdown]
      · simp only [receiverWatch, frame.signallers, imp_self]
      · simp only [receiverWatch, frame.shutdown, imp_self]
  | live =>
      rcases news.live with ⟨same, stays⟩ | ⟨before, last⟩
      · refine .inl ⟨?_, frame.last stays, fun _ => ?_⟩
        · simp only [receiverWatch, same]
        · exact fun some none => some (same.mp none)
      · refine .inr ⟨?_, p, last⟩
        simp [receiverWatch, stores, before]
  | peer q =>
      by_cases same : q = p
      · subst same
        rcases news.head with ⟨head, published, stays⟩ | ⟨le, comes⟩
        · refine .inl ⟨congrArg Location.latest head, stays, fun _ calm => ?_⟩
          change (after.rings shard q).lane.published = (after.rings shard q).lane.released
          rw [published, frame.released]
          exact calm
        · exact .inr ⟨le, comes⟩
      · refine .inl ⟨?_, ?_, fun _ => ?_⟩
        · simp only [receiverWatch, frame.rings shard q same]
        · simp only [receiverWatch, frame.senders q same, imp_self]
        · simp only [receiverWatch, frame.rings shard q same, imp_self]

/-! ### How a consumer's step is seen -/

/-- A step of the shard's consumer leaves to the others what is theirs. -/
structure ReceiverFrame (shard : Nat) (s after : AsyncMpmc α) : Prop where
  receivers : ∀ other, other ≠ shard → after.receivers other = s.receivers other
  consumerWaiters : ∀ other, other ≠ shard → after.consumerWaiters other = s.consumerWaiters other
  rings : ∀ other, other ≠ shard → after.rings other = s.rings other
  delivered : ∀ other, other ≠ shard → after.delivered other = s.delivered other
  heads : ∀ p, (after.rings shard p).head = (s.rings shard p).head
  published : ∀ p, (after.rings shard p).lane.published = (s.rings shard p).lane.published
  tailView : ∀ p, (after.rings shard p).tailView = (s.rings shard p).tailView
  senders : after.senders = s.senders
  signallers : after.signallers = s.signallers
  shutdown : after.shutdown = s.shutdown
  liveProducers : after.liveProducers = s.liveProducers
  left : after.liveConsumers ≤ s.liveConsumers
  accepted : after.accepted = s.accepted

theorem ReceiverFrame.receiverWatch (frame : ReceiverFrame shard s after) {other : Nat}
    (different : other ≠ shard) : after.receiverWatch other = s.receiverWatch other := by
  simp only [AsyncMpmc.receiverWatch, frame.rings other different,
    frame.receivers other different, frame.senders, frame.signallers, frame.shutdown,
    frame.liveProducers]

/-- What producer `p` can hear of the step. -/
structure ReceiverNews (shard : Nat) (s after : AsyncMpmc α) (p : Nat) : Prop where
  tail : ((after.rings shard p).tail = (s.rings shard p).tail ∧
      (after.rings shard p).lane.released = (s.rings shard p).lane.released ∧
      ((s.receivers shard).pc.wakes p = true → (after.receivers shard).pc.wakes p = true)) ∨
    ((s.rings shard p).tail.latest ≤ (after.rings shard p).tail.latest ∧
      (after.receivers shard).pc.wakes p = true)
  live : (after.liveConsumers = 0 ↔ s.liveConsumers = 0) ∧
      ((s.receivers shard).pc.lastFor p = true → (after.receivers shard).pc.lastFor p = true) ∨
    s.liveConsumers ≠ 0 ∧ (after.receivers shard).pc.lastFor p = true

/-- The last consumer for the producer is the one that takes the step, or another one. -/
theorem ReceiverFrame.last (frame : ReceiverFrame shard s after)
    (own : (s.receivers shard).pc.lastFor p = true → (after.receivers shard).pc.lastFor p = true)
    (before : ∃ other, (s.receivers other).pc.lastFor p = true) :
    ∃ other, (after.receivers other).pc.lastFor p = true := by
  obtain ⟨other, here⟩ := before
  refine ⟨other, ?_⟩
  by_cases same : other = shard
  · rw [same] at here ⊢
    exact own here
  · rw [frame.receivers other same]
    exact here

theorem ReceiverFrame.senderView (frame : ReceiverFrame shard s after) (idx : Nat) :
    (after.senderWatch size p).view idx = (s.senderWatch size p).view idx := by
  cases idx using watchCases with
  | shutdown | live =>
      simp only [senderWatch, frame.senders]
  | peer other =>
      change (after.rings other p).tailView = (s.rings other p).tailView
      by_cases same : other = shard
      · rw [same]
        exact frame.tailView p
      · rw [frame.rings other same]

theorem ReceiverFrame.senderHears (frame : ReceiverFrame shard s after)
    (hears : SenderHears size s p) (news : ReceiverNews shard s after p)
    (gate : after.producerWaiters p = s.producerWaiters p) : SenderHears size after p := by
  rw [SenderHears, gate, frame.senders]
  refine hears.keeps (fun idx _ => (frame.senderView idx).ge) fun idx _ => ?_
  cases idx using watchCases with
  | shutdown =>
      refine .inl ⟨?_, ?_, fun _ => ?_⟩
      · simp only [senderWatch, frame.shutdown]
      · simp only [senderWatch, frame.signallers, imp_self]
      · simp only [senderWatch, frame.shutdown, imp_self]
  | live =>
      rcases news.live with ⟨same, stays⟩ | ⟨before, last⟩
      · refine .inl ⟨?_, frame.last stays, fun _ => ?_⟩
        · simp only [senderWatch, same]
        · exact fun some none => some (same.mp none)
      · refine .inr ⟨?_, shard, last⟩
        simp [senderWatch, stores, before]
  | peer other =>
      by_cases same : other = shard
      · subst same
        rcases news.tail with ⟨tail, released, stays⟩ | ⟨le, comes⟩
        · refine .inl ⟨congrArg Location.latest tail, stays, fun _ calm => ?_⟩
          change (after.rings other p).lane.published =
            (after.rings other p).lane.released + size.ringCap.size
          rw [released, frame.published]
          exact calm
        · exact .inr ⟨le, comes⟩
      · refine .inl ⟨?_, ?_, fun _ => ?_⟩
        · simp only [senderWatch, frame.rings other same]
        · simp only [senderWatch, frame.receivers other same, imp_self]
        · simp only [senderWatch, frame.rings other same, imp_self]

end AsyncMpmc

end ArbitroKit
