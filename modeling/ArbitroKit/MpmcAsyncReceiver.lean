import ArbitroKit.MpmcAsyncSender

/-!
# The consumers' steps

Every step of a consumer handle and its future keeps the invariant of the channel between
tasks: the scan of `try_recv`, the passes of `drain_all`, the wakes, the wait, the drop of the
future and the drop of the handle.
-/

namespace ArbitroKit

open Coherent SlotLane Cyclic Transition

namespace MpmcReceiverPc

variable {α : Type*}

/-- The task is in no ring, in no wait and in no wake. -/
def aside : MpmcReceiverPc α → Bool
  | .idle => true
  | .unpolled => true
  | .loopShutdown => true
  | .loopLive => true
  | .scan _ _ => true
  | .drain _ _ => true
  | .fetchSub => true
  | .gone => true
  | _ => false

/-- The task stays aside, or begins to wait. -/
def Starts (m : Nat) (pc : MpmcReceiverPc α) : Prop :=
  pc.Inside m ∧ (pc.aside = true ∨ pc = .waits (.check .entry 0))

variable {size : MpmcSize} {pc : MpmcReceiverPc α}

theorem aside_scanAt (call : MpmcTaskRecv) (p : Nat) :
    (AsyncMpmc.scanAt size call p : MpmcReceiverPc α).aside = true := by
  unfold AsyncMpmc.scanAt
  split
  · rfl
  · cases call <;> rfl

theorem aside_drainAt (p : Nat) (progress : Bool) :
    (AsyncMpmc.drainAt size p progress : MpmcReceiverPc α).aside = true := by
  unfold AsyncMpmc.drainAt
  split
  · rfl
  · split <;> rfl

theorem starts_scanAt (call : MpmcTaskRecv) (p : Nat) :
    (AsyncMpmc.scanAt size call p : MpmcReceiverPc α).Starts size.m := by
  refine ⟨?_, .inl (aside_scanAt call p)⟩
  unfold AsyncMpmc.scanAt
  split
  · assumption
  · cases call <;> trivial

theorem starts_drainAt (p : Nat) (progress : Bool) :
    (AsyncMpmc.drainAt size p progress : MpmcReceiverPc α).Starts size.m := by
  refine ⟨?_, .inl (aside_drainAt p progress)⟩
  unfold AsyncMpmc.drainAt
  split
  · assumption
  · split
    · exact size.m_pos
    · trivial

theorem outside_of_aside (aside : pc.aside = true) : pc.outside = true := by
  cases pc <;> first | rfl | cases aside

theorem wait_of_aside (aside : pc.aside = true) : pc.wait = none := by
  cases pc <;> first | rfl | cases aside

theorem wakes_of_aside (aside : pc.aside = true) (p : Nat) : pc.wakes p = false := by
  cases pc <;> first | rfl | cases aside

theorem lastFor_of_aside (aside : pc.aside = true) (p : Nat) : pc.lastFor p = false := by
  cases pc <;> first | rfl | cases aside

theorem Starts.outside {m : Nat} (starts : pc.Starts m) : pc.outside = true := by
  rcases starts.2 with aside | rfl
  · exact outside_of_aside aside
  · rfl

theorem Starts.notLast {m : Nat} (starts : pc.Starts m) (p : Nat) (stage : WakeStage) :
    pc ≠ .wakeLast p stage := by
  rintro rfl
  rcases starts.2 with never | never <;> cases never

theorem Starts.wait {m : Nat} (starts : pc.Starts m) :
    pc.wait = none ∨ pc.wait = some (.check .entry 0) := by
  rcases starts.2 with aside | rfl
  · exact .inl (wait_of_aside aside)
  · exact .inr rfl

theorem wait_recvWaited (next : AwaitNext Nat) :
    (AsyncMpmc.recvWaited size next : MpmcReceiverPc α).wait = next.wait := by
  cases next with
  | goes pc | dropped => rfl
  | returned => exact wait_of_aside (aside_scanAt .recvAsync 0)

theorem outside_recvWaited (next : AwaitNext Nat) :
    (AsyncMpmc.recvWaited size next : MpmcReceiverPc α).outside = true := by
  cases next with
  | goes pc | dropped => rfl
  | returned => exact outside_of_aside (aside_scanAt .recvAsync 0)

theorem recvWaited_notLast (next : AwaitNext Nat) (p : Nat) (stage : WakeStage) :
    (AsyncMpmc.recvWaited size next : MpmcReceiverPc α) ≠ .wakeLast p stage := by
  cases next with
  | goes pc | dropped => simp [AsyncMpmc.recvWaited]
  | returned => exact (starts_scanAt .recvAsync 0).notLast p stage

theorem inside_recvWaited (next : AwaitNext Nat) :
    (AsyncMpmc.recvWaited size next : MpmcReceiverPc α).Inside size.m := by
  cases next with
  | goes pc | dropped => trivial
  | returned => exact (starts_scanAt .recvAsync 0).1

end MpmcReceiverPc

namespace AsyncMpmc

open AsyncGate TaskRing

variable {α : Type*} {size : MpmcSize} {s middle after : AsyncMpmc α} {shard p : Nat}

/-- The shard's rings, when one of them is set. -/
theorem shard_setRing (s : AsyncMpmc α) (shard p : Nat) (ring : TaskRing α) (q : Nat) :
    q = p ∧ (s.setRing shard p ring).rings shard q = ring ∨
      q ≠ p ∧ (s.setRing shard p ring).rings shard q = s.rings shard q := by
  by_cases same : q = p
  · subst same
    exact .inl ⟨rfl, setEntry_self⟩
  · exact .inr ⟨same, setEntry_of_ne (.inr same)⟩

namespace ReceiverFrame

theorem trans (first : ReceiverFrame shard s middle) (second : ReceiverFrame shard middle after) :
    ReceiverFrame shard s after where
  receivers j other := (second.receivers j other).trans (first.receivers j other)
  consumerWaiters j other :=
    (second.consumerWaiters j other).trans (first.consumerWaiters j other)
  rings j other := (second.rings j other).trans (first.rings j other)
  delivered j other := (second.delivered j other).trans (first.delivered j other)
  heads p := (second.heads p).trans (first.heads p)
  published p := (second.published p).trans (first.published p)
  tailView p := (second.tailView p).trans (first.tailView p)
  senders := second.senders.trans first.senders
  signallers := second.signallers.trans first.signallers
  shutdown := second.shutdown.trans first.shutdown
  liveProducers := second.liveProducers.trans first.liveProducers
  left := second.left.trans first.left
  accepted := second.accepted.trans first.accepted

theorem setReceiver (s : AsyncMpmc α) (receiver : MpmcReceiver α) :
    ReceiverFrame shard s (s.setReceiver shard receiver) := by
  constructor <;> intros <;> first | rfl | exact Function.update_of_ne (by assumption) ..

theorem setConsumerWaiter (s : AsyncMpmc α) (gate : AsyncGate) :
    ReceiverFrame shard s (s.setConsumerWaiter shard gate) := by
  constructor <;> intros <;> first | rfl | exact Function.update_of_ne (by assumption) ..

theorem setProducerWaiter (s : AsyncMpmc α) (p : Nat) (gate : AsyncGate) :
    ReceiverFrame shard s (s.setProducerWaiter p gate) := by
  constructor <;> intros <;> rfl

theorem liveConsumers (s : AsyncMpmc α) :
    ReceiverFrame shard s { s with liveConsumers := s.liveConsumers - 1 } := by
  constructor
  case left => exact Nat.sub_le ..
  all_goals intros; rfl

theorem delivers (s : AsyncMpmc α) (p : Nat) (value : α) :
    ReceiverFrame shard s (s.deliver shard p value) := by
  constructor
  case delivered =>
    intro j other
    funext q
    exact setEntry_of_ne (.inl other)
  all_goals intros; rfl

theorem setRing (s : AsyncMpmc α) {ring : TaskRing α} (head : ring.head = (s.rings shard p).head)
    (published : ring.lane.published = (s.rings shard p).lane.published)
    (tailView : ring.tailView = (s.rings shard p).tailView) :
    ReceiverFrame shard s (s.setRing shard p ring) := by
  have own := shard_setRing s shard p ring
  constructor
  case rings =>
    intro j other
    funext q
    exact setEntry_of_ne (.inl other)
  case heads =>
    intro q
    rcases own q with ⟨rfl, same⟩ | ⟨-, same⟩ <;> rw [same]
    exact head
  case published =>
    intro q
    rcases own q with ⟨rfl, same⟩ | ⟨-, same⟩ <;> rw [same]
    exact published
  case tailView =>
    intro q
    rcases own q with ⟨rfl, same⟩ | ⟨-, same⟩ <;> rw [same]
    exact tailView
  all_goals intros; rfl

theorem receiverSees (s : AsyncMpmc α) (seen : Nat → Nat) :
    ReceiverFrame shard s (s.receiverSees shard seen) := by
  have own (q : Nat) : (s.receiverSees shard seen).rings shard q =
      { s.rings shard q with headView := max (s.rings shard q).headView (seen (q + 2)) } := by
    simp only [AsyncMpmc.receiverSees, Function.update_self]
  constructor
  case receivers => exact fun j other => Function.update_of_ne other ..
  case rings => exact fun j other => Function.update_of_ne other ..
  case heads | published | tailView =>
    intro q
    rw [own]
  all_goals intros; rfl

theorem latest (frame : ReceiverFrame shard s after) (idx : Nat) :
    (after.receiverWatch shard).latest idx = (s.receiverWatch shard).latest idx := by
  cases idx using watchCases with
  | shutdown => simp only [AsyncMpmc.receiverWatch, frame.shutdown]
  | live => simp only [AsyncMpmc.receiverWatch, frame.liveProducers]
  | peer q => exact congrArg Location.latest (frame.heads q)

theorem onWay (frame : ReceiverFrame shard s after) (idx : Nat) :
    (after.receiverWatch shard).onWay idx = (s.receiverWatch shard).onWay idx := by
  cases idx using watchCases with
  | shutdown => simp only [AsyncMpmc.receiverWatch, frame.signallers]
  | live | peer q => simp only [AsyncMpmc.receiverWatch, frame.senders]

theorem calm (frame : ReceiverFrame shard s after)
    (released : ∀ q, (after.rings shard q).lane.released = (s.rings shard q).lane.released)
    (idx : Nat) : (after.receiverWatch shard).calm idx = (s.receiverWatch shard).calm idx := by
  cases idx using watchCases with
  | shutdown => simp only [AsyncMpmc.receiverWatch, frame.shutdown]
  | live => simp only [AsyncMpmc.receiverWatch, frame.liveProducers]
  | peer q => simp only [AsyncMpmc.receiverWatch, released, frame.published]

end ReceiverFrame

/-- What the consumer hears outside of a wait, and when it begins to wait. -/
theorem ReceiverFrame.hears (frame : ReceiverFrame shard s after)
    (hears : ReceiverHears size s shard) (away : (s.receivers shard).pc.wait = none)
    (gate : after.consumerWaiters shard = s.consumerWaiters shard)
    (view : ∀ idx, (s.receiverWatch shard).view idx ≤ (after.receiverWatch shard).view idx)
    (wait : (after.receivers shard).pc.wait = none ∨
      (after.receivers shard).pc.wait = some (.check .entry 0)) :
    ReceiverHears size after shard := by
  have kept : Watches (s.consumerWaiters shard) none (receiverTurn size) (size.m + 2)
      (after.receiverWatch shard) := by
    rw [ReceiverHears, away] at hears
    refine hears.keeps (fun idx _ => view idx) fun idx _ => ?_
    exact .inl ⟨frame.latest idx, (frame.onWay idx).symm ▸ id, fun never => never.elim⟩
  rw [ReceiverHears, gate]
  rcases wait with none | first
  · rw [none]
    exact kept
  · rw [first]
    exact kept.starts (Nat.succ_pos _)

theorem receivers_setReceiver (s : AsyncMpmc α) (shard : Nat) (receiver : MpmcReceiver α) :
    (s.setReceiver shard receiver).receivers shard = receiver := Function.update_self ..

theorem pc_receiverAt (s : AsyncMpmc α) (shard : Nat) (pc : MpmcReceiverPc α) :
    ((s.receiverAt shard pc).receivers shard).pc = pc := by
  simp only [receiverAt, setReceiver, Function.update_self]

theorem view_receiverAt (s : AsyncMpmc α) (shard : Nat) (pc : MpmcReceiverPc α) :
    ((s.receiverAt shard pc).receivers shard).view = (s.receivers shard).view := by
  simp only [receiverAt, setReceiver, Function.update_self]

/-- What there is to be shown of a step of the shard's consumer. -/
theorem Ok.ofReceiver (ok : Ok size s) (frame : ReceiverFrame shard s after)
    (live : s.liveConsumers = 0 → after.liveConsumers = 0)
    (last : ∀ p stage, (after.receivers shard).pc = .wakeLast p stage →
      after.liveConsumers = 0)
    (within : (after.receivers shard).pc.Inside size.m)
    (links : shard < size.n → ∀ p < size.m, RingLinked size after shard p)
    (hears : shard < size.n → ReceiverHears size after shard)
    (heard : ∀ p < size.m, SenderHears size after p) : Ok size after where
  terminal :=
    { signals := by
        rw [frame.signallers, frame.shutdown]
        exact ok.terminal.signals
      lastProducer := by
        rw [frame.senders, frame.liveProducers]
        exact ok.terminal.lastProducer
      lastConsumer := fun j p stage here => by
        by_cases same : j = shard
        · exact last p stage (same ▸ here)
        · rw [frame.receivers j same] at here
          exact live (ok.terminal.lastConsumer j p stage here) }
  inside j := by
    by_cases same : j = shard
    · rw [same]
      exact within
    · rw [frame.receivers j same]
      exact ok.inside j
  links j insideShard p inside := by
    by_cases same : j = shard
    · subst same
      exact links insideShard p inside
    · rw [RingLinked, frame.rings j same, frame.senders, frame.receivers j same,
        frame.accepted, frame.delivered j same]
      exact ok.links j insideShard p inside
  senders := heard
  receivers j insideShard := by
    by_cases same : j = shard
    · subst same
      exact hears insideShard
    · rw [ReceiverHears, frame.receiverWatch same, frame.receivers j same,
        frame.consumerWaiters j same]
      exact ok.receivers j insideShard

/-- A step of which the producers hear nothing. -/
theorem Ok.ofQuietReceiver (ok : Ok size s) (frame : ReceiverFrame shard s after)
    (wakes : ∀ p, (s.receivers shard).pc.wakes p = false)
    (notLast : ∀ p < size.m, (s.receivers shard).pc.lastFor p = false)
    (last : ∀ p stage, (after.receivers shard).pc ≠ .wakeLast p stage)
    (within : (after.receivers shard).pc.Inside size.m)
    (gates : after.producerWaiters = s.producerWaiters)
    (liveConsumers : after.liveConsumers = s.liveConsumers)
    (tails : ∀ p, (after.rings shard p).tail = (s.rings shard p).tail)
    (released : ∀ p, (after.rings shard p).lane.released = (s.rings shard p).lane.released)
    (links : shard < size.n → ∀ p < size.m, RingLinked size after shard p)
    (hears : shard < size.n → ReceiverHears size after shard) : Ok size after := by
  refine ok.ofReceiver frame (fun none => liveConsumers.trans none)
    (fun p stage here => absurd here (last p stage)) within links hears fun p inside => ?_
  refine frame.senderHears (ok.senders p inside) ?_ (by rw [gates])
  exact
    { tail := .inl ⟨tails p, released p, fun never => by
        rw [wakes p] at never
        cases never⟩
      live := .inl ⟨by rw [liveConsumers], fun never => by
        rw [notLast p inside] at never
        cases never⟩ }

/-! ### Steps outside of the rings, and in them -/

/-- A step at one of the shard's rings of which its producer hears nothing. -/
theorem Ok.receiverRing (ok : Ok size s) {was pc : MpmcReceiverPc α} {ring : TaskRing α}
    (here : (s.receivers shard).pc = was) (head : ring.head = (s.rings shard p).head)
    (published : ring.lane.published = (s.rings shard p).lane.published)
    (tailView : ring.tailView = (s.rings shard p).tailView)
    (tail : ring.tail = (s.rings shard p).tail)
    (released : ring.lane.released = (s.rings shard p).lane.released)
    (headView : (s.rings shard p).headView ≤ ring.headView)
    (wakes : ∀ q, was.wakes q = false) (notLast : ∀ q < size.m, was.lastFor q = false)
    (last : ∀ q stage, pc ≠ .wakeLast q stage) (within : pc.Inside size.m)
    (elsewhere : ∀ q, q ≠ p → was.Away q ∧ pc.Away q)
    (link : shard < size.n → p < size.m → LinkOk size.ringCap shard p ring (s.senders p).pc pc
      (s.accepted shard p) (s.delivered shard p))
    (away : was.wait = none) (wait : pc.wait = none ∨ pc.wait = some (.check .entry 0)) :
    Ok size ((s.setRing shard p ring).receiverAt shard pc) := by
  have stored : ReceiverFrame shard s (s.setRing shard p ring) :=
    .setRing s head published tailView
  have frame : ReceiverFrame shard s ((s.setRing shard p ring).receiverAt shard pc) :=
    stored.trans (.setReceiver _ _)
  have now : ((s.setRing shard p ring).receiverAt shard pc).receivers shard =
      { s.receivers shard with pc := pc } := receivers_setReceiver ..
  have rings (q : Nat) :
      q = p ∧ ((s.setRing shard p ring).receiverAt shard pc).rings shard q = ring ∨
        q ≠ p ∧ ((s.setRing shard p ring).receiverAt shard pc).rings shard q =
          s.rings shard q := shard_setRing s shard p ring q
  subst here
  refine ok.ofQuietReceiver frame wakes notLast ?last ?within rfl rfl ?tails ?released ?links ?hears
  case last =>
    rw [now]
    exact last
  case within =>
    rw [now]
    exact within
  case tails =>
    intro q
    rcases rings q with ⟨rfl, same⟩ | ⟨-, same⟩ <;> rw [same]
    exact tail
  case released =>
    intro q
    rcases rings q with ⟨rfl, same⟩ | ⟨-, same⟩ <;> rw [same]
    exact released
  case links =>
    intro insideShard q inside
    rcases rings q with ⟨rfl, same⟩ | ⟨other, same⟩ <;> rw [RingLinked, same, now]
    · exact link insideShard inside
    · obtain ⟨before, behind⟩ := elsewhere q other
      exact (ok.links shard insideShard q inside).receiverAway before behind
  case hears =>
    intro insideShard
    refine frame.hears (ok.receivers shard insideShard) away rfl (fun idx => ?_) (by
      rw [now]
      exact wait)
    cases idx using watchCases with
    | shutdown | live => simp only [receiverWatch, now, le_rfl]
    | peer q =>
        change _ ≤ (((s.setRing shard p ring).receiverAt shard pc).rings shard q).headView
        rcases rings q with ⟨rfl, same⟩ | ⟨-, same⟩ <;> rw [same]
        · exact headView
        · exact le_rfl

section Steps

variable (ok : Ok size s) {was : MpmcReceiverPc α} (here : (s.receivers shard).pc = was)

include ok here

/-- The task goes on outside of the rings, or begins to wait. -/
theorem Ok.receiverGoes {receiver : MpmcReceiver α} (outside : was.outside = true)
    (away : was.wait = none) (wakes : ∀ p, was.wakes p = false)
    (notLast : ∀ p < size.m, was.lastFor p = false) (starts : receiver.pc.Starts size.m)
    (shutdown : (s.receivers shard).view.shutdown ≤ receiver.view.shutdown)
    (live : (s.receivers shard).view.live ≤ receiver.view.live) :
    Ok size (s.setReceiver shard receiver) := by
  have frame : ReceiverFrame shard s (s.setReceiver shard receiver) := .setReceiver s receiver
  have now : (s.setReceiver shard receiver).receivers shard = receiver :=
    receivers_setReceiver ..
  subst here
  refine ok.ofQuietReceiver frame wakes notLast ?last ?within rfl rfl (fun _ => rfl)
    (fun _ => rfl) ?links ?hears
  case last =>
    rw [now]
    exact starts.notLast
  case within =>
    rw [now]
    exact starts.1
  case links =>
    intro insideShard p inside
    rw [RingLinked, now]
    exact (ok.links shard insideShard p inside).receiverAway
      (MpmcReceiverPc.away_of_outside outside)
      (MpmcReceiverPc.away_of_outside starts.outside)
  case hears =>
    intro insideShard
    refine frame.hears (ok.receivers shard insideShard) away rfl (fun idx => ?_) (by
      rw [now]
      exact starts.wait)
    cases idx using watchCases with
    | shutdown =>
        change _ ≤ ((s.setReceiver shard receiver).receivers shard).view.shutdown
        rw [now]
        exact shutdown
    | live =>
        change _ ≤ ((s.setReceiver shard receiver).receivers shard).view.live
        rw [now]
        exact live
    | peer p => exact le_rfl

/-- The task goes on aside. -/
theorem Ok.receiverAside {pc : MpmcReceiverPc α} (aside : was.aside = true)
    (starts : pc.Starts size.m) : Ok size (s.receiverAt shard pc) :=
  ok.receiverGoes here (MpmcReceiverPc.outside_of_aside aside)
    (MpmcReceiverPc.wait_of_aside aside) (MpmcReceiverPc.wakes_of_aside aside)
    (fun p _ => MpmcReceiverPc.lastFor_of_aside aside p) starts le_rfl le_rfl

/-- A load of `shutdown` outside of a wait. -/
theorem Ok.receiverLoadsShutdown {index : Nat} {next : Bool → MpmcReceiverPc α}
    (aside : was.aside = true) (starts : ∀ set, (next set).Starts size.m)
    (stepped : s.receiverShutdown shard index next = some after) : Ok size after := by
  obtain ⟨set, loaded, rfl⟩ := Option.map_eq_some_iff.mp stepped
  exact ok.receiverGoes here (MpmcReceiverPc.outside_of_aside aside)
    (MpmcReceiverPc.wait_of_aside aside) (MpmcReceiverPc.wakes_of_aside aside)
    (fun p _ => MpmcReceiverPc.lastFor_of_aside aside p) (starts set) (loadFlag_eq loaded).1
    le_rfl

/-- A load of `live_producers` outside of a wait. -/
theorem Ok.receiverLoadsLive {index : Nat} {next : Bool → MpmcReceiverPc α}
    (aside : was.aside = true) (starts : ∀ zero, (next zero).Starts size.m)
    (stepped : s.receiverLive shard index next = some after) : Ok size after := by
  obtain ⟨zero, loaded, rfl⟩ := Option.map_eq_some_iff.mp stepped
  exact ok.receiverGoes here (MpmcReceiverPc.outside_of_aside aside)
    (MpmcReceiverPc.wait_of_aside aside) (MpmcReceiverPc.wakes_of_aside aside)
    (fun p _ => MpmcReceiverPc.lastFor_of_aside aside p) (starts zero) le_rfl
    (loadFlag_eq loaded).1

/-- A load of `head`: the task stays outside where `head` shows nothing, and else goes inside
with what it knows. -/
theorem Ok.receiverLooks {index : Nat} {head : Usize} {ring : TaskRing α}
    {empty inside : MpmcReceiverPc α} (aside : was.aside = true)
    (loaded : (s.rings shard p).loadHead index = some (head, ring))
    (starts : empty.Starts size.m) (within : inside.Inside size.m)
    (ringOf : inside.ringOf = some p) (away : inside.wait = none)
    (inHand : inside.inHand p = []) (notLast : ∀ q stage, inside ≠ .wakeLast q stage)
    (tailAt : ∀ received count, ring.tail.current = BitVec.ofNat 64 received →
      head = BitVec.ofNat 64 count → received < count → inside.TailAt p received count) :
    Ok size ((s.setRing shard p ring).receiverAt shard
      (if ring.tail.current = head then empty else inside)) := by
  have le : (s.rings shard p).headView ≤ index := by
    obtain ⟨value, read, -⟩ := Option.map_eq_some_iff.mp loaded
    exact (Location.load_eq_some read).1
  have outside := MpmcReceiverPc.outside_of_aside aside
  have before := fun q (_ : q ≠ p) => MpmcReceiverPc.away_of_outside (p := q) outside
  obtain ⟨value, -, equal⟩ := Option.map_eq_some_iff.mp loaded
  obtain ⟨-, same⟩ := Prod.mk.inj equal
  subst same
  split
  · refine ok.receiverRing here rfl rfl rfl rfl rfl le (MpmcReceiverPc.wakes_of_aside aside)
      (fun q _ => MpmcReceiverPc.lastFor_of_aside aside q) starts.notLast starts.1 ?_ ?_
      (MpmcReceiverPc.wait_of_aside aside) starts.wait
    · exact fun q other => ⟨before q other, MpmcReceiverPc.away_of_outside starts.outside⟩
    · intro insideShard inMesh
      have link := ok.links shard insideShard p inMesh
      rw [RingLinked, here] at link
      exact (link.loadsHead outside loaded).1.receiverAway
        (MpmcReceiverPc.away_of_outside outside) (MpmcReceiverPc.away_of_outside starts.outside)
  · rename_i unequal
    refine ok.receiverRing here rfl rfl rfl rfl rfl le (MpmcReceiverPc.wakes_of_aside aside)
      (fun q _ => MpmcReceiverPc.lastFor_of_aside aside q) notLast within ?_ ?_
      (MpmcReceiverPc.wait_of_aside aside) (.inl away)
    · exact fun q other => ⟨before q other, MpmcReceiverPc.away_of_ringOf other ringOf⟩
    · intro insideShard inMesh
      have link := ok.links shard insideShard p inMesh
      rw [RingLinked, here] at link
      obtain ⟨link, -, tail, count, headIs, follows, behind, found, -⟩ :=
        link.loadsHead outside loaded
      refine link.goesInside outside follows behind (tailAt _ _ tail headIs ?_) inHand
      exact Nat.lt_of_le_of_ne behind fun same => unequal (found.mpr same.symm)

end Steps

theorem counts_read (lane : Lane α) (index : Nat) :
    (lane.read index).2.published = lane.published ∧
      (lane.read index).2.released = lane.released := by
  unfold Lane.read
  split <;> exact ⟨rfl, rfl⟩

section Inside

variable (ok : Ok size s) (insideShard : shard < size.n) {was : MpmcReceiverPc α}
  (here : (s.receivers shard).pc = was)

include ok insideShard here

/-- A read of the next slot: there is a value in it. -/
theorem Ok.receiverReads {tail : Usize} {next : α → MpmcReceiverPc α}
    (inMesh : p < size.m) (ringOf : was.ringOf = some p) (inHand : was.inHand p = [])
    (wakes : ∀ q, was.wakes q = false) (away : was.wait = none)
    (notLast : ∀ q, was.lastFor q = false)
    (place : ∀ received known, was.TailAt p received known →
      tail = BitVec.ofNat 64 received ∧ received < known ∧
        ∀ value, (next value).TailAt p (received + 1) known)
    (hands : ∀ value, (next value).inHand p = [value] ∧ (next value).holding p = true ∧
      (next value).ringOf = some p ∧ (next value).wait = none ∧ (next value).Inside size.m ∧
        ∀ q stage, next value ≠ .wakeLast q stage) :
    Ok size (s.readSlot shard p (size.ringCap.slot tail) next) := by
  have link := ok.links shard insideShard p inMesh
  rw [RingLinked, here] at link
  obtain ⟨known, follows, -, tailAt⟩ := link.reads
  obtain ⟨rfl, unread, later⟩ := place _ _ tailAt
  obtain ⟨value, read, linked⟩ := link.reads_eq inHand follows unread
  obtain ⟨inHandNext, holding, ringOfNext, awayNext, within, notLastNext⟩ := hands value
  have same : s.readSlot shard p (size.ringCap.slot
        (BitVec.ofNat 64 (s.rings shard p).lane.received.length)) next =
      (s.setRing shard p { s.rings shard p with
        lane := ((s.rings shard p).lane.read
          ((s.rings shard p).lane.received.length % size.ringCap.size)).2 }).receiverAt shard
            (next value) := by
    simp only [readSlot, read]
  rw [same]
  have counts := counts_read (s.rings shard p).lane
    ((s.rings shard p).lane.received.length % size.ringCap.size)
  refine ok.receiverRing here rfl counts.1 rfl rfl counts.2 le_rfl wakes
    (fun q _ => notLast q) notLastNext within ?_
    (fun _ _ => linked (next value) inHandNext holding (later value)) away (.inl awayNext)
  exact fun q other => ⟨MpmcReceiverPc.away_of_ringOf other ringOf,
    MpmcReceiverPc.away_of_ringOf other ringOfNext⟩

/-- The store that gives the slots back; the wake is still to come. -/
theorem Ok.receiverReleases {tail : Usize} {pc : MpmcReceiverPc α}
    (ringOf : was.ringOf = some p) (wakes : ∀ q, was.wakes q = false) (away : was.wait = none)
    (notLast : ∀ q, was.lastFor q = false)
    (tailIs : ∀ received known, was.TailAt p received known → tail = BitVec.ofNat 64 received)
    (tailAt : ∀ received known, pc.TailAt p received known)
    (inHand : pc.inHand p = was.inHand p) (elsewhere : ∀ q, q ≠ p → pc.Away q)
    (awayNext : pc.wait = none) (wakesNext : pc.wakes p = true)
    (notLastNext : ∀ q stage, pc ≠ .wakeLast q stage) (within : pc.Inside size.m) :
    Ok size ((s.setRing shard p ((s.rings shard p).storeTail tail)).receiverAt shard pc) := by
  have stored : ReceiverFrame shard s (s.setRing shard p ((s.rings shard p).storeTail tail)) :=
    .setRing s rfl rfl rfl
  have frame : ReceiverFrame shard s
      ((s.setRing shard p ((s.rings shard p).storeTail tail)).receiverAt shard pc) :=
    stored.trans (.setReceiver _ _)
  have now : ((s.setRing shard p ((s.rings shard p).storeTail tail)).receiverAt shard
      pc).receivers shard = { s.receivers shard with pc := pc } := receivers_setReceiver ..
  have rings (q : Nat) : q = p ∧ ((s.setRing shard p
        ((s.rings shard p).storeTail tail)).receiverAt shard pc).rings shard q =
          (s.rings shard p).storeTail tail ∨
      q ≠ p ∧ ((s.setRing shard p ((s.rings shard p).storeTail tail)).receiverAt shard
        pc).rings shard q = s.rings shard q := shard_setRing s shard p _ q
  subst here
  refine ok.ofReceiver frame id ?last ?within ?links ?hears ?heard
  case last =>
    intro q stage last
    rw [now] at last
    exact absurd last (notLastNext q stage)
  case within =>
    rw [now]
    exact within
  case links =>
    intro _ q inside
    have link := ok.links shard insideShard q inside
    rcases rings q with ⟨rfl, same⟩ | ⟨other, same⟩ <;> rw [RingLinked, same, now]
    · obtain ⟨known, -, -, tailAtWas⟩ := link.reads
      exact link.releases (tailIs _ _ tailAtWas) (fun known => tailAt _ known) inHand
    · exact link.receiverAway (MpmcReceiverPc.away_of_ringOf other ringOf) (elsewhere q other)
  case hears =>
    intro _
    refine frame.hears (ok.receivers shard insideShard) away rfl (fun idx => ?_)
      (.inl (by rw [now]; exact awayNext))
    cases idx using watchCases with
    | shutdown | live => simp only [receiverWatch, now, le_rfl]
    | peer q =>
        change _ ≤ (((s.setRing shard p ((s.rings shard p).storeTail tail)).receiverAt shard
          pc).rings shard q).headView
        rcases rings q with ⟨rfl, same⟩ | ⟨-, same⟩ <;> rw [same] <;> exact le_rfl
  case heard =>
    intro q inside
    refine frame.senderHears (ok.senders q inside) ⟨?_, .inl ⟨Iff.rfl, ?_⟩⟩ rfl
    · rcases rings q with ⟨rfl, same⟩ | ⟨-, same⟩
      · refine .inr ⟨?_, by rw [now]; exact wakesNext⟩
        rw [same]
        exact Location.latest_le_store ..
      · refine .inl ⟨by rw [same], by rw [same], fun never => ?_⟩
        rw [wakes] at never
        cases never
    · rw [notLast]
      intro never
      cases never

end Inside

/-- A callback gets its value. -/
theorem Ok.receiverHands (ok : Ok size s) {head tail : Usize} {value : α}
    (here : (s.receivers shard).pc = .drainCallback p head tail value) :
    Ok size ((s.deliver shard p value).receiverAt shard
      (if tail = head then .drainStore p tail else .drainRead p head tail)) := by
  generalize next : (if tail = head then MpmcReceiverPc.drainStore p tail
    else .drainRead p head tail) = pc
  have inMesh := ok.inside shard
  rw [here] at inMesh
  have shape : pc.ringOf = some p ∧ pc.wait = none ∧ pc.inHand p = [] ∧ pc.holding p = true ∧
      pc.Inside size.m := by
    subst next
    split
    · exact ⟨rfl, rfl, rfl, decide_eq_true rfl, trivial⟩
    · exact ⟨rfl, rfl, rfl, decide_eq_true rfl, inMesh⟩
  obtain ⟨ringOf, wait, inHand, holding, within⟩ := shape
  have frame : ReceiverFrame shard s ((s.deliver shard p value).receiverAt shard pc) :=
    (ReceiverFrame.delivers s p value).trans (.setReceiver _ _)
  have now : ((s.deliver shard p value).receiverAt shard pc).receivers shard =
      { s.receivers shard with pc := pc } := receivers_setReceiver ..
  refine ok.ofQuietReceiver frame (fun q => by rw [here]; rfl) (fun q _ => by rw [here]; rfl)
    ?last (by rw [now]; exact within) rfl rfl (fun _ => rfl) (fun _ => rfl) ?links ?hears
  case last =>
    intro q stage
    rw [now]
    rintro rfl
    cases ringOf
  case links =>
    intro insideShard q inside
    have link := ok.links shard insideShard q inside
    rw [RingLinked, here] at link
    rw [RingLinked, now]
    by_cases same : q = p
    · subst same
      have delivered : ((s.deliver shard q value).receiverAt shard pc).delivered shard q =
          s.delivered shard q ++ [value] := setEntry_self
      rw [delivered]
      refine link.hands (if_pos rfl) (fun known place => ?_) ?_ inHand
      · subst next
        obtain ⟨tailIs, last, headIs, behind, seen⟩ := place rfl
        split
        · exact fun _ => tailIs
        · rename_i unequal
          refine fun _ => ⟨tailIs, last, headIs, ?_, seen⟩
          exact Nat.lt_of_le_of_ne behind fun same => unequal (by rw [tailIs, headIs, same])
      · rw [holding]
        exact (decide_eq_true rfl).symm
    · have delivered : ((s.deliver shard p value).receiverAt shard pc).delivered shard q =
          s.delivered shard q := setEntry_of_ne (.inr same)
      rw [delivered]
      exact link.receiverAway (MpmcReceiverPc.away_of_ringOf same rfl)
        (MpmcReceiverPc.away_of_ringOf same ringOf)
  case hears =>
    intro insideShard
    refine frame.hears (ok.receivers shard insideShard) (by rw [here]; rfl) rfl (fun idx => ?_)
      (.inl (by rw [now]; exact wait))
    cases idx using watchCases with
    | shutdown | live => simp only [receiverWatch, now, le_rfl]
    | peer q => exact le_rfl

/-! ### Wakes -/

section Wakes

variable {idx stores : Nat} {saw : Bool} {stage : WakeStage}

theorem ReceiverFrame.senderLatest (frame : ReceiverFrame shard s after)
    (tails : ∀ p, (after.rings shard p).tail = (s.rings shard p).tail)
    (live : after.liveConsumers = s.liveConsumers) (idx : Nat) :
    (after.senderWatch size p).latest idx = (s.senderWatch size p).latest idx := by
  cases idx using watchCases with
  | shutdown => simp only [senderWatch, frame.shutdown]
  | live => simp only [senderWatch, live]
  | peer j =>
      by_cases same : j = shard
      · subst same
        exact congrArg Location.latest (tails p)
      · simp only [senderWatch, frame.rings j same]

theorem ReceiverFrame.senderCalm (frame : ReceiverFrame shard s after)
    (released : ∀ p, (after.rings shard p).lane.released = (s.rings shard p).lane.released)
    (live : after.liveConsumers = s.liveConsumers) (idx : Nat) :
    (after.senderWatch size p).calm idx = (s.senderWatch size p).calm idx := by
  cases idx using watchCases with
  | shutdown => simp only [senderWatch, frame.shutdown]
  | live => simp only [senderWatch, live]
  | peer j =>
      by_cases same : j = shard
      · subst same
        simp only [senderWatch, released, frame.published]
      · simp only [senderWatch, frame.rings j same]

/-- The consumer takes a step of a wake of producer `p`. -/
theorem ReceiverFrame.senderWoken (frame : ReceiverFrame shard s after)
    (hears : SenderHears size s p) (rings : after.rings = s.rings)
    (live : after.liveConsumers = s.liveConsumers)
    (own : stores = (s.senderWatch size p).latest idx)
    (gate : after.producerWaiters p =
      ((s.producerWaiters p).wakeStep (some (idx, stores)) saw stage).1)
    (others : ∀ other, other ≠ idx → (s.senderWatch size p).onWay other →
      (after.senderWatch size p).onWay other)
    (goesOn : ((s.producerWaiters p).wakeStep (some (idx, stores)) saw stage).2.isSome =
      true → (after.senderWatch size p).onWay idx) :
    SenderHears size after p := by
  rw [SenderHears, gate, frame.senders]
  refine hears.woken own (fun other _ => ?_) (fun other _ => (frame.senderView other).ge)
    (fun other _ => ?_) (fun other _ => others other) goesOn
  · exact frame.senderLatest (fun _ => by rw [rings]) live other
  · exact (frame.senderCalm (fun _ => by rw [rings]) live other).ge

/-- A step of the wake of a producer. -/
theorem Ok.ofReceiverWake (ok : Ok size s) (frame : ReceiverFrame shard s after)
    (rings : after.rings = s.rings)
    (live : after.liveConsumers = s.liveConsumers)
    (own : p < size.m → stores = (s.senderWatch size p).latest idx)
    (gates : after.producerWaiters = Function.update s.producerWaiters p
      ((s.producerWaiters p).wakeStep (some (idx, stores)) saw stage).1)
    (last : ∀ q stage, (after.receivers shard).pc = .wakeLast q stage → s.liveConsumers = 0)
    (within : (after.receivers shard).pc.Inside size.m)
    (links : shard < size.n → ∀ q < size.m, RingLinked size after shard q)
    (hears : shard < size.n → ReceiverHears size after shard)
    (elsewhere : ∀ q, q ≠ p →
      ((s.receivers shard).pc.wakes q = true → (after.receivers shard).pc.wakes q = true) ∧
      ((s.receivers shard).pc.lastFor q = true → (after.receivers shard).pc.lastFor q = true))
    (others : ∀ other, other ≠ idx → (s.senderWatch size p).onWay other →
      (after.senderWatch size p).onWay other)
    (goesOn : ((s.producerWaiters p).wakeStep (some (idx, stores)) saw stage).2.isSome =
      true → (after.senderWatch size p).onWay idx) : Ok size after := by
  refine ok.ofReceiver frame (fun none => live.trans none)
    (fun q stage here => live.trans (last q stage here)) within links hears fun q inside => ?_
  by_cases same : q = p
  · subst same
    refine frame.senderWoken (ok.senders q inside) rings live (own inside) ?_ others goesOn
    rw [gates, Function.update_self]
  · obtain ⟨wakes, lasts⟩ := elsewhere q same
    refine frame.senderHears (ok.senders q inside) ⟨.inl ?_, .inl ?_⟩ ?_
    · exact ⟨by rw [rings], by rw [rings], wakes⟩
    · exact ⟨by rw [live], lasts⟩
    · rw [gates, Function.update_of_ne same]

end Wakes

/-- A step of the wake behind a store of `tail`. -/
theorem Ok.receiverWakes (ok : Ok size s) {was : MpmcReceiverPc α} {stage : WakeStage}
    {saw : Bool} (here : (s.receivers shard).pc = was) (frame : ReceiverFrame shard s after)
    (wakes : ∀ q, was.wakes q = decide (p = q)) (notLast : ∀ q, was.lastFor q = false)
    (away : was.wait = none) (rings : after.rings = s.rings)
    (live : after.liveConsumers = s.liveConsumers)
    (consumerWaiters : after.consumerWaiters = s.consumerWaiters)
    (gates : after.producerWaiters = Function.update s.producerWaiters p
      ((s.producerWaiters p).wakeStep
        (some (shard + 2, (s.rings shard p).tail.latest)) saw stage).1)
    (view : (after.receivers shard).view = (s.receivers shard).view)
    (waitNext : (after.receivers shard).pc.wait = none)
    (notLastNext : ∀ q stage, (after.receivers shard).pc ≠ .wakeLast q stage)
    (within : (after.receivers shard).pc.Inside size.m)
    (links : shard < size.n → ∀ q < size.m, RingLinked size after shard q)
    (goesOn : ((s.producerWaiters p).wakeStep
        (some (shard + 2, (s.rings shard p).tail.latest)) saw stage).2.isSome = true →
      (after.receivers shard).pc.wakes p = true) : Ok size after := by
  subst here
  refine ok.ofReceiverWake frame rings live (fun _ => rfl) gates
    (fun q stage last => absurd last (notLastNext q stage)) within links ?hears ?elsewhere
    ?others goesOn
  case hears =>
    intro insideShard
    refine frame.hears (ok.receivers shard insideShard) away (by rw [consumerWaiters])
      (fun idx => ?_) (.inl waitNext)
    cases idx using watchCases with
    | shutdown | live => simp only [receiverWatch, view, le_rfl]
    | peer q => simp only [receiverWatch, rings, le_rfl]
  case elsewhere =>
    intro q other
    rw [wakes, notLast]
    refine ⟨fun never => ?_, fun never => by cases never⟩
    exact absurd (of_decide_eq_true never).symm other
  case others =>
    intro other different
    cases other using watchCases with
    | shutdown => simp only [senderWatch, frame.signallers, imp_self]
    | live =>
        refine frame.last fun never => ?_
        rw [notLast] at never
        cases never
    | peer j =>
        have elsewhere : j ≠ shard := fun same => different (by rw [same])
        simp only [senderWatch, frame.receivers j elsewhere, imp_self]

/-- A step of the wake of `try_recv`, which returns behind it. -/
theorem Ok.receiverScanWakes (ok : Ok size s) {value : α} {stage : WakeStage} {index : Nat}
    {saw : Bool} (here : (s.receivers shard).pc = .scanWake p value stage)
    (stepped : s.receiverTick size shard index saw = some after) : Ok size after := by
  simp only [receiverTick, here] at stepped
  split at stepped <;> cases stepped
  · rename_i next goesOn
    have first : ReceiverFrame shard s
        (s.wakeProducerBy p (shard + 2) (s.rings shard p).tail.latest saw stage).1 :=
      .setProducerWaiter s p _
    refine ok.receiverWakes here (first.trans (.setReceiver _ _)) (fun _ => rfl) (fun _ => rfl)
      rfl rfl rfl rfl rfl ?_ ?_ ?_ (by rw [pc_receiverAt]; trivial) ?_ ?_
    · exact view_receiverAt ..
    · exact congrArg MpmcReceiverPc.wait (pc_receiverAt ..)
    · intro q stage
      rw [pc_receiverAt]
      simp
    · intro insideShard q inside
      have link := ok.links shard insideShard q inside
      rw [RingLinked, here] at link
      rw [RingLinked, pc_receiverAt]
      exact link.receiverGoes (fun _ place => place) rfl rfl
    · intro _
      rw [pc_receiverAt]
      exact decide_eq_true rfl
  · rename_i done
    have first : ReceiverFrame shard s
        (s.wakeProducerBy p (shard + 2) (s.rings shard p).tail.latest saw stage).1 :=
      .setProducerWaiter s p _
    refine ok.receiverWakes here ((first.trans (.delivers _ p value)).trans (.setReceiver _ _))
      (fun _ => rfl) (fun _ => rfl) rfl rfl rfl rfl rfl ?_ ?_ ?_ (by rw [pc_receiverAt]; trivial)
      ?_ ?_
    · exact view_receiverAt ..
    · exact congrArg MpmcReceiverPc.wait (pc_receiverAt ..)
    · intro q stage
      rw [pc_receiverAt]
      simp
    · intro insideShard q inside
      have link := ok.links shard insideShard q inside
      rw [RingLinked, here] at link
      rw [RingLinked, pc_receiverAt]
      by_cases same : q = p
      · subst same
        have delivered : setEntry s.delivered shard q (s.delivered shard q ++ [value]) shard q =
            s.delivered shard q ++ [value] := setEntry_self
        change LinkOk _ _ _ (s.rings shard q) _ _ (s.accepted shard q)
          (setEntry s.delivered shard q (s.delivered shard q ++ [value]) shard q)
        rw [delivered]
        exact link.hands (if_pos rfl) (fun _ _ => trivial) rfl rfl
      · have delivered : setEntry s.delivered shard p (s.delivered shard p ++ [value]) shard q =
            s.delivered shard q := setEntry_of_ne (.inr same)
        change LinkOk _ _ _ (s.rings shard q) _ _ (s.accepted shard q)
          (setEntry s.delivered shard p (s.delivered shard p ++ [value]) shard q)
        rw [delivered]
        exact link.receiverAway (MpmcReceiverPc.away_of_ringOf same rfl)
          (MpmcReceiverPc.away_of_outside rfl)
    · intro more
      change ((s.producerWaiters p).wakeStep _ saw stage).2 = none at done
      rw [done] at more
      cases more

/-- A step of the wake of `drain_all`, which goes on to the next ring behind it. -/
theorem Ok.receiverDrainWakes (ok : Ok size s) {stage : WakeStage} {index : Nat}
    {saw : Bool} (here : (s.receivers shard).pc = .drainWake p stage)
    (stepped : s.receiverTick size shard index saw = some after) : Ok size after := by
  obtain ⟨pc, rfl, outside, away, notLast, within, goesOn⟩ : ∃ pc : MpmcReceiverPc α,
      after = (s.wakeProducerBy p (shard + 2) (s.rings shard p).tail.latest saw
        stage).1.receiverAt shard pc ∧ pc.outside = true ∧ pc.wait = none ∧
      (∀ q stage, pc ≠ .wakeLast q stage) ∧ pc.Inside size.m ∧
      (((s.producerWaiters p).wakeStep (some (shard + 2, (s.rings shard p).tail.latest)) saw
        stage).2.isSome = true → pc.wakes p = true) := by
    simp only [receiverTick, here] at stepped
    split at stepped <;> cases stepped
    · exact ⟨_, rfl, rfl, rfl, fun q stage => by simp, trivial, fun _ => decide_eq_true rfl⟩
    · rename_i done
      have starts : (drainAt size (p + 1) true : MpmcReceiverPc α).Starts size.m :=
        MpmcReceiverPc.starts_drainAt (p + 1) true
      refine ⟨_, rfl, starts.outside, MpmcReceiverPc.wait_of_aside
        (MpmcReceiverPc.aside_drainAt (p + 1) true), starts.notLast, starts.1, fun more => ?_⟩
      change ((s.producerWaiters p).wakeStep _ saw stage).2 = none at done
      rw [done] at more
      cases more
  have first : ReceiverFrame shard s
      (s.wakeProducerBy p (shard + 2) (s.rings shard p).tail.latest saw stage).1 :=
    .setProducerWaiter s p _
  refine ok.receiverWakes here (first.trans (.setReceiver _ _)) (fun _ => rfl) (fun _ => rfl)
    rfl rfl rfl rfl rfl ?_ ?_ ?_ (by rw [pc_receiverAt]; exact within) ?_ ?_
  · exact view_receiverAt ..
  · rw [pc_receiverAt]
    exact away
  · rw [pc_receiverAt]
    exact notLast
  · intro insideShard q inside
    have link := ok.links shard insideShard q inside
    rw [RingLinked, here] at link
    rw [RingLinked, pc_receiverAt]
    exact link.receiverAway (MpmcReceiverPc.away_of_outside rfl)
      (MpmcReceiverPc.away_of_outside outside)
  · rw [pc_receiverAt]
    exact goesOn

/-- The handle is dropped; the last one still has to wake the producers. -/
theorem Ok.receiverLeaves (ok : Ok size s) {pc : MpmcReceiverPc α}
    (here : (s.receivers shard).pc = .fetchSub)
    (goes : s.liveConsumers = 1 ∧ pc = .wakeLast 0 .probe ∨
      s.liveConsumers ≠ 1 ∧ pc = .gone) :
    Ok size ({ s with liveConsumers := s.liveConsumers - 1 }.receiverAt shard pc) := by
  have frame : ReceiverFrame shard s
      ({ s with liveConsumers := s.liveConsumers - 1 }.receiverAt shard pc) :=
    (ReceiverFrame.liveConsumers s).trans (.setReceiver _ _)
  have now : ({ s with liveConsumers := s.liveConsumers - 1 }.receiverAt shard
      pc).receivers shard = { s.receivers shard with pc := pc } := receivers_setReceiver ..
  have outside : pc.outside = true := by
    rcases goes with ⟨-, rfl⟩ | ⟨-, rfl⟩ <;> rfl
  refine ok.ofReceiver frame ?live ?last ?within ?links ?hears ?heard
  case live =>
    intro none
    change s.liveConsumers - 1 = 0
    omega
  case last =>
    intro q stage last
    rw [now] at last
    change s.liveConsumers - 1 = 0
    rcases goes with ⟨one, -⟩ | ⟨-, rfl⟩
    · omega
    · cases last
  case within =>
    rw [now]
    rcases goes with ⟨-, rfl⟩ | ⟨-, rfl⟩ <;> trivial
  case links =>
    intro insideShard q inside
    have link := ok.links shard insideShard q inside
    rw [RingLinked, here] at link
    rw [RingLinked, now]
    exact link.receiverAway (MpmcReceiverPc.away_of_outside rfl)
      (MpmcReceiverPc.away_of_outside outside)
  case hears =>
    intro insideShard
    refine frame.hears (ok.receivers shard insideShard) (by rw [here]; rfl) rfl (fun idx => ?_) ?_
    · cases idx using watchCases with
      | shutdown | live => simp only [receiverWatch, now, le_rfl]
      | peer q => exact le_rfl
    · rw [now]
      rcases goes with ⟨-, rfl⟩ | ⟨-, rfl⟩ <;> exact .inl rfl
  case heard =>
    intro q inside
    refine frame.senderHears (ok.senders q inside) ⟨.inl ⟨rfl, rfl, ?_⟩, ?_⟩ rfl
    · rw [here]
      intro never
      cases never
    · rw [now, here]
      rcases goes with ⟨one, rfl⟩ | ⟨more, rfl⟩
      · right
        exact ⟨by omega, decide_eq_true (Nat.zero_le q)⟩
      · left
        refine ⟨?_, fun never => by cases never⟩
        change s.liveConsumers - 1 = 0 ↔ s.liveConsumers = 0
        omega

/-- A step of the wakes of the last consumer. -/
theorem Ok.receiverWakesLast (ok : Ok size s) {stage : WakeStage} {saw : Bool}
    {pc : MpmcReceiverPc α} (here : (s.receivers shard).pc = .wakeLast p stage)
    (goes : (∃ next, ((s.producerWaiters p).wakeStep (some (1, 1)) saw stage).2 = some next ∧
        pc = .wakeLast p next) ∨
      ((s.producerWaiters p).wakeStep (some (1, 1)) saw stage).2 = none ∧
        pc = .wakeLast (p + 1) .probe) :
    Ok size ((s.wakeProducerBy p 1 1 saw stage).1.receiverAt shard pc) := by
  generalize result : (s.wakeProducerBy p 1 1 saw stage).1.receiverAt shard pc = after
  have frame : ReceiverFrame shard s after := by
    subst result
    have first : ReceiverFrame shard s (s.wakeProducerBy p 1 1 saw stage).1 :=
      .setProducerWaiter s p _
    exact first.trans (.setReceiver _ _)
  have now : after.receivers shard = { s.receivers shard with pc := pc } := by
    subst result
    exact receivers_setReceiver ..
  have rings : after.rings = s.rings := by
    subst result
    rfl
  have terminal : s.liveConsumers = 0 := ok.terminal.lastConsumer shard p stage here
  obtain ⟨j, next, pcIs, le⟩ : ∃ j next, pc = .wakeLast j next ∧ j ≤ p + 1 := by
    rcases goes with ⟨next, -, rfl⟩ | ⟨-, rfl⟩
    · exact ⟨p, next, rfl, Nat.le_succ p⟩
    · exact ⟨p + 1, .probe, rfl, le_rfl⟩
  refine ok.ofReceiverWake frame rings (by subst result; rfl) ?own (by subst result; rfl)
    (fun _ _ _ => terminal) (by rw [now, pcIs]; trivial) ?links ?hears ?elsewhere ?others ?goesOn
  case own =>
    intro _
    change 1 = stores (decide (s.liveConsumers = 0))
    rw [terminal]
    rfl
  case links =>
    intro insideShard q inside
    have link := ok.links shard insideShard q inside
    rw [RingLinked, here] at link
    have delivered : after.delivered = s.delivered := by
      subst result
      rfl
    rw [RingLinked, rings, now, frame.senders, frame.accepted, delivered, pcIs]
    exact link.receiverAway (MpmcReceiverPc.away_of_outside rfl)
      (MpmcReceiverPc.away_of_outside rfl)
  case hears =>
    intro insideShard
    refine frame.hears (ok.receivers shard insideShard) (by rw [here]; rfl)
      (by subst result; rfl) (fun idx => ?_) (.inl (by rw [now, pcIs]; rfl))
    cases idx using watchCases with
    | shutdown | live => simp only [receiverWatch, now, le_rfl]
    | peer q => simp only [receiverWatch, rings, le_rfl]
  case elsewhere =>
    intro other different
    rw [here, now, pcIs]
    refine ⟨fun never => (by cases never), fun behind => ?_⟩
    have behind : p ≤ other := of_decide_eq_true behind
    exact decide_eq_true (by omega)
  case others =>
    intro other different
    cases other using watchCases with
    | shutdown => simp only [senderWatch, frame.signallers, imp_self]
    | live => exact absurd rfl different
    | peer j =>
        intro wakes
        change (after.receivers j).pc.wakes p = true
        have wakes : (s.receivers j).pc.wakes p = true := wakes
        by_cases same : j = shard
        · subst same
          rw [here] at wakes
          cases wakes
        · rw [frame.receivers j same]
          exact wakes
  case goesOn =>
    intro more
    refine ⟨shard, ?_⟩
    rw [now]
    rcases goes with ⟨next, -, rfl⟩ | ⟨done, -⟩
    · exact decide_eq_true le_rfl
    · rw [done] at more
      cases more

/-! ### The wait of `recv_async` -/

/-- A step of the wait, of which the producers hear nothing. -/
theorem Ok.ofReceiverWait (ok : Ok size s) {pc : AwaitPc Nat} {next : AwaitNext Nat}
    (frame : ReceiverFrame shard s after) (here : (s.receivers shard).pc = .waits pc)
    (now : (after.receivers shard).pc = recvWaited size next)
    (gates : after.producerWaiters = s.producerWaiters)
    (liveConsumers : after.liveConsumers = s.liveConsumers)
    (tails : ∀ p, (after.rings shard p).tail = (s.rings shard p).tail)
    (released : ∀ p, (after.rings shard p).lane.released = (s.rings shard p).lane.released)
    (links : shard < size.n → ∀ p < size.m, LinkOk size.ringCap shard p (after.rings shard p)
      (s.senders p).pc (s.receivers shard).pc (s.accepted shard p) (s.delivered shard p))
    (delivered : after.delivered = s.delivered)
    (hears : shard < size.n → Watches (after.consumerWaiters shard) next.wait
      (receiverTurn size) (size.m + 2) (after.receiverWatch shard)) : Ok size after := by
  refine ok.ofQuietReceiver frame (fun q => by rw [here]; rfl) (fun q _ => by rw [here]; rfl) ?_
    (by rw [now]; exact MpmcReceiverPc.inside_recvWaited next) gates liveConsumers tails
    released ?_ ?_
  · intro q stage
    rw [now]
    exact MpmcReceiverPc.recvWaited_notLast next q stage
  · intro insideShard q inside
    have link := links insideShard q inside
    rw [here] at link
    rw [RingLinked, now, frame.senders, frame.accepted, delivered]
    exact link.receiverAway (MpmcReceiverPc.away_of_outside rfl)
      (MpmcReceiverPc.away_of_outside (MpmcReceiverPc.outside_recvWaited next))
  · rw [ReceiverHears, now, MpmcReceiverPc.wait_recvWaited]
    exact hears

section Wait

variable (ok : Ok size s) (insideShard : shard < size.n)

include ok insideShard

/-- A step of the wait at its gate. -/
theorem Ok.receiverAwaits {pc : AwaitPc Nat} {step : Awaited Nat}
    (here : (s.receivers shard).pc = .waits pc)
    (taken : pc.tick (s.consumerWaiters shard) 0 = some step) :
    Ok size (((s.setConsumerWaiter shard step.gate).receiverSees shard step.seen).receiverAt
      shard (recvWaited size step.next)) := by
  generalize result : ((s.setConsumerWaiter shard step.gate).receiverSees shard
    step.seen).receiverAt shard (recvWaited size step.next) = after
  have frame : ReceiverFrame shard s after := by
    subst result
    have first : ReceiverFrame shard s (s.setConsumerWaiter shard step.gate) :=
      .setConsumerWaiter s step.gate
    exact (first.trans (.receiverSees _ step.seen)).trans (.setReceiver _ _)
  have rings (q : Nat) : after.rings shard q =
      { s.rings shard q with headView := max (s.rings shard q).headView (step.seen (q + 2)) } := by
    subst result
    simp only [receiverAt, setReceiver, receiverSees, setConsumerWaiter, Function.update_self]
  have view : (after.receivers shard).view = ⟨max (s.receivers shard).view.shutdown (step.seen 0),
      max (s.receivers shard).view.live (step.seen 1)⟩ := by
    subst result
    simp only [receiverAt, setReceiver, receiverSees, setConsumerWaiter, Function.update_self]
  have watches := ok.receivers shard insideShard
  rw [ReceiverHears, here] at watches
  refine ok.ofReceiverWait frame here (by subst result; exact pc_receiverAt ..)
    (by subst result; rfl) (by subst result; rfl) (fun q => by rw [rings]) (fun q => by rw [rings])
    (fun _ q inside => ?_) (by subst result; rfl) fun _ => ?_
  · rw [rings]
    exact (ok.links shard insideShard q inside).seesHead
      (watches.seen_le taken (Nat.add_lt_add_right inside 2))
  · have gate : after.consumerWaiters shard = step.gate := by
      subst result
      exact Function.update_self ..
    rw [gate]
    refine (watches.tick (Nat.succ_pos _) taken).keeps (fun idx _ => ?_) fun idx _ => ?_
    · cases idx using watchCases with
      | shutdown | live => simp only [receiverWatch, view, le_rfl]
      | peer q => simp only [receiverWatch, rings, le_rfl]
    · refine .inl ⟨frame.latest idx, (frame.onWay idx).symm ▸ id, fun _ => ?_⟩
      exact (frame.calm (fun q => by rw [rings]) idx).symm ▸ id

/-- A turn of the predicate. -/
theorem Ok.receiverTurns {phase : WaitPhase} {idx seen : Nat} {ready : Bool}
    (inTurn : idx < size.m + 2) (frame : ReceiverFrame shard s after)
    (here : (s.receivers shard).pc = .waits (.check phase (receiverTurn size idx)))
    (now : (after.receivers shard).pc =
      recvWaited size (AwaitPc.turned phase (receiverTurn size idx) (size.m + 2) ready))
    (gates : after.producerWaiters = s.producerWaiters)
    (gate : after.consumerWaiters = s.consumerWaiters)
    (liveConsumers : after.liveConsumers = s.liveConsumers)
    (tails : ∀ p, (after.rings shard p).tail = (s.rings shard p).tail)
    (released : ∀ p, (after.rings shard p).lane.released = (s.rings shard p).lane.released)
    (links : ∀ p < size.m, LinkOk size.ringCap shard p (after.rings shard p)
      (s.senders p).pc (s.receivers shard).pc (s.accepted shard p) (s.delivered shard p))
    (delivered : after.delivered = s.delivered)
    (view : (after.receiverWatch shard).view =
      Function.update (s.receiverWatch shard).view idx seen)
    (le : (s.receiverWatch shard).view idx ≤ seen)
    (sure : ready = false → (s.receiverWatch shard).latest idx ≤ seen →
      (s.receiverWatch shard).calm idx) : Ok size after := by
  refine ok.ofReceiverWait frame here now gates liveConsumers tails released (fun _ => links)
    delivered fun _ => ?_
  have watches := ok.receivers shard insideShard
  rw [ReceiverHears, here] at watches
  rw [gate]
  refine (Watches.turned watches (AsyncMpmc.receiverTurns size inTurn) le sure).keeps
    (fun other _ => ?_) fun other _ => ?_
  · rw [view]
  · refine .inl ⟨frame.latest other, (frame.onWay other).symm ▸ id, fun _ => ?_⟩
    exact (frame.calm released other).symm ▸ id

/-- The future is dropped while it is suspended. -/
theorem Ok.receiverCancels (here : (s.receivers shard).pc = .waits .suspended) :
    Ok size (s.receiverAt shard (.waits (.dropNotified .dropped))) := by
  have frame : ReceiverFrame shard s (s.receiverAt shard (.waits (.dropNotified .dropped))) :=
    .setReceiver s _
  have watches := ok.receivers shard insideShard
  rw [ReceiverHears, here] at watches
  have now : ((s.receiverAt shard (.waits (.dropNotified .dropped))).receivers shard).pc =
      recvWaited size (.goes (.dropNotified .dropped)) := pc_receiverAt ..
  refine ok.ofReceiverWait frame here now rfl rfl (fun _ => rfl) (fun _ => rfl)
    (fun _ => ok.links shard insideShard) rfl fun _ => ?_
  refine watches.cancel.keeps (fun idx _ => ?_) fun idx _ => ?_
  · cases idx using watchCases with
    | shutdown | live =>
        simp only [receiverWatch, receiverAt, setReceiver, Function.update_self, le_rfl]
    | peer q => exact le_rfl
  · refine .inl ⟨frame.latest idx, (frame.onWay idx).symm ▸ id, fun _ => ?_⟩
    exact (frame.calm (fun _ => rfl) idx).symm ▸ id

/-- A turn that loads `shutdown`. -/
theorem Ok.receiverTurnsShutdown {phase : WaitPhase} {index : Nat}
    (here : (s.receivers shard).pc = .waits (.check phase (receiverTurn size 0)))
    (stepped : s.receiverShutdown shard index (fun ready =>
      recvWaited size (AwaitPc.turned phase (receiverTurn size 0) (size.m + 2) ready)) =
        some after) : Ok size after := by
  obtain ⟨ready, loaded, rfl⟩ := Option.map_eq_some_iff.mp stepped
  obtain ⟨le, -, sure⟩ := loadFlag_eq loaded
  refine ok.receiverTurns insideShard (Nat.succ_pos _) (.setReceiver s _) here
    (congrArg _ (receivers_setReceiver ..)) rfl rfl rfl (fun _ => rfl) (fun _ => rfl)
    (ok.links shard insideShard) rfl ?_ le sure
  funext idx
  cases idx using watchCases with
  | shutdown | live => simp [receiverWatch, setReceiver]
  | peer q => rfl

/-- A turn that loads `live_producers`. -/
theorem Ok.receiverTurnsLive {phase : WaitPhase} {index : Nat}
    (here : (s.receivers shard).pc = .waits (.check phase (receiverTurn size 1)))
    (stepped : s.receiverLive shard index (fun ready =>
      recvWaited size (AwaitPc.turned phase (receiverTurn size 1) (size.m + 2) ready)) =
        some after) : Ok size after := by
  obtain ⟨ready, loaded, rfl⟩ := Option.map_eq_some_iff.mp stepped
  obtain ⟨le, -, sure⟩ := loadFlag_eq loaded
  refine ok.receiverTurns insideShard (Nat.succ_lt_succ (Nat.succ_pos _)) (.setReceiver s _) here
    (congrArg _ (receivers_setReceiver ..)) rfl rfl rfl (fun _ => rfl) (fun _ => rfl)
    (ok.links shard insideShard) rfl ?_ le (fun unready newest => ?_)
  · funext idx
    cases idx using watchCases with
    | shutdown | live => simp [receiverWatch, setReceiver]
    | peer q => rfl
  · exact of_decide_eq_false (sure unready newest)

/-- A turn that looks at a ring. -/
theorem Ok.receiverTurnsRing {phase : WaitPhase} {index : Nat} {head : Usize}
    {ring : TaskRing α} (inside : p < size.m)
    (here : (s.receivers shard).pc = .waits (.check phase (receiverTurn size (p + 2))))
    (loaded : (s.rings shard p).loadHead index = some (head, ring)) :
    Ok size ((s.setRing shard p ring).receiverAt shard
      (recvWaited size (AwaitPc.turned phase (receiverTurn size (p + 2)) (size.m + 2)
        (decide (head ≠ ring.tail.current))))) := by
  generalize answer : decide (head ≠ ring.tail.current) = ready
  have le : (s.rings shard p).headView ≤ index := by
    obtain ⟨known, read, -⟩ := Option.map_eq_some_iff.mp loaded
    exact (Location.load_eq_some read).1
  have link := ok.links shard insideShard p inside
  have outside : (s.receivers shard).pc.outside = true := by
    rw [here]
    rfl
  have free : (s.rings shard p).lane.received.length = (s.rings shard p).lane.released :=
    link.held (by rw [here]; rfl)
  obtain ⟨link, rfl, -, count, -, -, -, found, newest⟩ := link.loadsHead outside loaded
  have rings := shard_setRing s shard p { s.rings shard p with headView := index }
  have kept (q : Nat) :
      ((s.setRing shard p { s.rings shard p with headView := index }).rings shard q).tail =
          (s.rings shard q).tail ∧
        ((s.setRing shard p
          { s.rings shard p with headView := index }).rings shard q).lane.released =
            (s.rings shard q).lane.released := by
    rcases rings q with ⟨rfl, same⟩ | ⟨-, same⟩ <;> rw [same] <;> exact ⟨rfl, rfl⟩
  have stored : ReceiverFrame shard s
      (s.setRing shard p { s.rings shard p with headView := index }) :=
    .setRing s rfl rfl rfl
  refine ok.receiverTurns insideShard (Nat.add_lt_add_right inside 2)
    (stored.trans (.setReceiver _ _)) here (pc_receiverAt ..) rfl rfl rfl
    (fun q => (kept q).1) (fun q => (kept q).2) ?links rfl ?view le ?sure
  case links =>
    intro q within
    change LinkOk size.ringCap shard q ((s.setRing shard p
      { s.rings shard p with headView := index }).rings shard q) _ _ _ _
    rcases rings q with ⟨rfl, same⟩ | ⟨-, same⟩ <;> rw [same]
    · exact link
    · exact ok.links shard insideShard q within
  case view =>
    funext idx
    cases idx using watchCases with
    | shutdown | live => simp [receiverWatch, setReceiver, receiverAt, setRing]
    | peer q =>
        change ((s.setRing shard p
            { s.rings shard p with headView := index }).rings shard q).headView =
          Function.update (s.receiverWatch shard).view (p + 2) index (q + 2)
        rcases rings q with ⟨rfl, same⟩ | ⟨other, same⟩ <;> rw [same]
        · rw [Function.update_self]
        · rw [Function.update_of_ne (by omega)]
          rfl
  case sure =>
    intro unready all
    have empty : count = (s.rings shard p).lane.received.length := by
      rw [unready] at answer
      exact found.mp (not_not.mp (of_decide_eq_false answer)).symm
    change (s.rings shard p).lane.published = (s.rings shard p).lane.released
    have all : count = (s.rings shard p).lane.published := newest all
    omega

/-- A turn of the predicate, whatever it looks at. -/
theorem Ok.receiverCheck {phase : WaitPhase} {k index : Nat}
    (here : (s.receivers shard).pc = .waits (.check phase k))
    (stepped : s.receiverCheck size shard phase k index = some after) : Ok size after := by
  have within : k < size.m + 2 := by
    have watches := ok.receivers shard insideShard
    rw [ReceiverHears, here] at watches
    exact watches.within phase k rfl
  unfold AsyncMpmc.receiverCheck at stepped
  dsimp only at stepped
  split at stepped
  · obtain ⟨⟨head, ring⟩, loaded, rfl⟩ := Option.map_eq_some_iff.mp stepped
    exact ok.receiverTurnsRing insideShard (by assumption) here loaded
  · split at stepped
    · subst k
      exact ok.receiverTurnsShutdown insideShard here stepped
    · obtain rfl : k = size.m + 1 := by omega
      exact ok.receiverTurnsLive insideShard here stepped

/-- A step of the wait. -/
theorem Ok.receiverWait {pc : AwaitPc Nat} {index : Nat}
    (here : (s.receivers shard).pc = .waits pc)
    (stepped : s.receiverWait size shard index pc = some after) : Ok size after := by
  cases pc with
  | check phase k => exact ok.receiverCheck insideShard here stepped
  | notified | poll | suspended | dropNotified next | disarm next =>
      simp only [AsyncMpmc.receiverWait, Option.map_eq_some_iff] at stepped
      obtain ⟨step, taken, rfl⟩ := stepped
      exact ok.receiverAwaits insideShard here taken

end Wait

/-! ### All steps of a consumer -/

theorem Ok.receiverCall (ok : Ok size s) {pc : MpmcReceiverPc α} (starts : pc.Starts size.m)
    (stepped : s.receiverCall shard pc = some after) : Ok size after := by
  unfold AsyncMpmc.receiverCall at stepped
  split at stepped <;> cases stepped
  exact ok.receiverAside (by assumption) rfl starts

section Step

variable (ok : Ok size s) (insideShard : shard < size.n)

include ok insideShard

/-- Every step of a consumer keeps the invariant. -/
theorem Ok.receiverTick {index : Nat} {saw : Bool}
    (stepped : s.receiverTick size shard index saw = some after) : Ok size after := by
  have within := ok.inside shard
  cases here : (s.receivers shard).pc with
  | idle | gone | undefined => simp [AsyncMpmc.receiverTick, here] at stepped
  | unpolled =>
      simp only [AsyncMpmc.receiverTick, here, Option.some.injEq] at stepped
      subst stepped
      exact ok.receiverAside here rfl (MpmcReceiverPc.starts_scanAt .recvAsync 0)
  | loopShutdown =>
      simp only [AsyncMpmc.receiverTick, here] at stepped
      refine ok.receiverLoadsShutdown here rfl (fun set => ?_) stepped
      cases set <;> exact ⟨trivial, .inl rfl⟩
  | loopLive =>
      simp only [AsyncMpmc.receiverTick, here] at stepped
      refine ok.receiverLoadsLive here rfl (fun zero => ?_) stepped
      cases zero
      · exact ⟨trivial, .inr rfl⟩
      · exact ⟨trivial, .inl rfl⟩
  | waits pc =>
      simp only [AsyncMpmc.receiverTick, here] at stepped
      exact ok.receiverWait insideShard here stepped
  | scan call p =>
      rw [here] at within
      simp only [AsyncMpmc.receiverTick, here] at stepped
      obtain ⟨⟨head, ring⟩, loaded, rfl⟩ := Option.map_eq_some_iff.mp stepped
      exact ok.receiverLooks here rfl loaded (MpmcReceiverPc.starts_scanAt call (p + 1)) within
        rfl rfl rfl (fun q stage => by simp) fun received count tail _ unread _ => ⟨tail, unread⟩
  | scanRead call p tail =>
      rw [here] at within
      simp only [AsyncMpmc.receiverTick, here, Option.some.injEq] at stepped
      subst stepped
      refine ok.receiverReads insideShard here within rfl rfl (fun _ => rfl) rfl (fun _ => rfl)
        (fun received known place => ?_) fun value => ?_
      · obtain ⟨rfl, unread⟩ := place rfl
        exact ⟨rfl, unread, fun _ _ => ofNat_add_one received⟩
      · exact ⟨if_pos rfl, decide_eq_true rfl, rfl, rfl, trivial, fun q stage => by simp⟩
  | scanStore p tail value =>
      simp only [AsyncMpmc.receiverTick, here, Option.some.injEq] at stepped
      subst stepped
      exact ok.receiverReleases insideShard here rfl (fun _ => rfl) rfl (fun _ => rfl)
        (fun received known place => place rfl) (fun _ _ => trivial) rfl
        (fun q other => MpmcReceiverPc.away_of_ringOf other rfl) rfl (decide_eq_true rfl)
        (fun q stage => by simp) trivial
  | scanWake p value stage => exact ok.receiverScanWakes here stepped
  | drain p progress =>
      rw [here] at within
      simp only [AsyncMpmc.receiverTick, here] at stepped
      obtain ⟨⟨head, ring⟩, loaded, rfl⟩ := Option.map_eq_some_iff.mp stepped
      refine ok.receiverLooks here rfl loaded (MpmcReceiverPc.starts_drainAt (p + 1) progress)
        within rfl rfl rfl (fun q stage => by simp) fun received count tail headIs unread _ => ?_
      exact ⟨tail, count, headIs, unread, le_rfl⟩
  | drainRead p head tail =>
      rw [here] at within
      simp only [AsyncMpmc.receiverTick, here, Option.some.injEq] at stepped
      subst stepped
      refine ok.receiverReads insideShard here within rfl rfl (fun _ => rfl) rfl (fun _ => rfl)
        (fun received known place => ?_) fun value => ?_
      · obtain ⟨rfl, last, headIs, unread, seen⟩ := place rfl
        refine ⟨rfl, Nat.lt_of_lt_of_le unread seen, fun _ _ => ?_⟩
        exact ⟨ofNat_add_one received, last, headIs, unread, seen⟩
      · exact ⟨if_pos rfl, decide_eq_true rfl, rfl, rfl, within, fun q stage => by simp⟩
  | drainCallback p head tail value =>
      simp only [AsyncMpmc.receiverTick, here, Option.some.injEq] at stepped
      subst stepped
      exact ok.receiverHands here
  | drainStore p tail =>
      simp only [AsyncMpmc.receiverTick, here, Option.some.injEq] at stepped
      subst stepped
      exact ok.receiverReleases insideShard here rfl (fun _ => rfl) rfl (fun _ => rfl)
        (fun received known place => place rfl) (fun _ _ => trivial) rfl
        (fun q _ => MpmcReceiverPc.away_of_outside rfl) rfl (decide_eq_true rfl)
        (fun q stage => by simp) trivial
  | drainWake p stage => exact ok.receiverDrainWakes here stepped
  | fetchSub =>
      simp only [AsyncMpmc.receiverTick, here] at stepped
      split at stepped <;> cases stepped
      · exact ok.receiverLeaves here (.inl ⟨by assumption, rfl⟩)
      · exact ok.receiverLeaves here (.inr ⟨by assumption, rfl⟩)
  | wakeLast p stage =>
      simp only [AsyncMpmc.receiverTick, here] at stepped
      split at stepped
      · split at stepped <;> cases stepped
        · rename_i next goesOn
          exact ok.receiverWakesLast here (.inl ⟨next, goesOn, rfl⟩)
        · rename_i done
          exact ok.receiverWakesLast here (.inr ⟨done, rfl⟩)
      · cases stepped
        refine ok.receiverGoes here rfl rfl (fun _ => rfl) (fun q inside => ?_)
          ⟨trivial, .inl rfl⟩ le_rfl le_rfl
        exact decide_eq_false (by omega)

theorem Ok.receiverStep {action : MpmcReceiverAction}
    (stepped : s.receiverStep size shard action = some after) : Ok size after := by
  cases action with
  | tick index saw => exact ok.receiverTick insideShard stepped
  | tryRecv => exact ok.receiverCall (MpmcReceiverPc.starts_scanAt .tryRecv 0) stepped
  | tryRecvBatch => exact ok.receiverCall (MpmcReceiverPc.starts_drainAt 0 false) stepped
  | recvAsync =>
      have starts : (MpmcReceiverPc.unpolled : MpmcReceiverPc α).Starts size.m :=
        ⟨trivial, .inl rfl⟩
      exact ok.receiverCall starts stepped
  | drop =>
      have starts : (MpmcReceiverPc.fetchSub : MpmcReceiverPc α).Starts size.m :=
        ⟨trivial, .inl rfl⟩
      exact ok.receiverCall starts stepped
  | cancel =>
      simp only [AsyncMpmc.receiverStep] at stepped
      split at stepped <;> cases stepped
      · exact ok.receiverAside (by assumption) rfl ⟨trivial, .inl rfl⟩
      · exact ok.receiverCancels insideShard (by assumption)

end Step

end AsyncMpmc

end ArbitroKit
