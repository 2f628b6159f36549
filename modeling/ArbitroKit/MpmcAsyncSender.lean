import ArbitroKit.MpmcAsyncOk

/-!
# The senders' steps

Every step of a producer handle and its future keeps the invariant of the channel between
tasks: its loads and slot accesses, its wakes, its wait, the drop of the future and the drop
of the handle.
-/

namespace ArbitroKit

open Coherent SlotLane Cyclic Transition

namespace MpmcSenderPc

variable {α : Type*}

/-- The task is in no ring, in no wait and in no wake. -/
def aside : MpmcSenderPc α → Bool
  | .waits _ _ => false
  | .write _ _ _ _ _ => false
  | .publish _ _ _ _ => false
  | .wakeConsumer _ _ _ => false
  | .wakeLast _ _ => false
  | _ => true

/-- The task stays aside, or begins to wait. -/
def Starts (pc : MpmcSenderPc α) : Prop :=
  pc.aside = true ∨ ∃ value, pc = .waits value (.check .entry 0)

theorem starts_sendRejected (call : MpmcTaskSend α) : (AsyncMpmc.sendRejected call).Starts := by
  cases call with
  | trySend | trySendBatch => exact .inl rfl
  | sendAsync value => exact .inr ⟨value, rfl⟩

variable {pc : MpmcSenderPc α}

theorem wakes_of_outside (outside : pc.outside = true) (shard : Nat) : pc.wakes shard = false := by
  cases pc <;> first | rfl | cases outside

theorem wait_of_aside (aside : pc.aside = true) : pc.wait = none := by
  cases pc <;> first | rfl | cases aside

theorem lastFor_of_aside (aside : pc.aside = true) (shard : Nat) : pc.lastFor shard = false := by
  cases pc <;> first | rfl | cases aside

theorem Starts.outside (starts : pc.Starts) : pc.outside = true := by
  rcases starts with aside | ⟨value, rfl⟩
  · cases pc <;> first | rfl | cases aside
  · rfl

theorem Starts.notLast (starts : pc.Starts) (shard : Nat) (stage : WakeStage) :
    pc ≠ .wakeLast shard stage := by
  rintro rfl
  rcases starts with aside | ⟨value, never⟩
  · cases aside
  · cases never

theorem Starts.wait (starts : pc.Starts) : pc.wait = none ∨ pc.wait = some (.check .entry 0) := by
  rcases starts with aside | ⟨value, rfl⟩
  · exact .inl (wait_of_aside aside)
  · exact .inr rfl

theorem wait_sendWaited (value : α) (next : AwaitNext Nat) :
    (AsyncMpmc.sendWaited value next).wait = next.wait := by
  cases next <;> rfl

theorem outside_sendWaited (value : α) (next : AwaitNext Nat) :
    (AsyncMpmc.sendWaited value next).outside = true := by
  cases next <;> rfl

theorem sendWaited_notLast (value : α) (next : AwaitNext Nat) (shard : Nat) (stage : WakeStage) :
    AsyncMpmc.sendWaited value next ≠ .wakeLast shard stage := by
  cases next <;> simp [AsyncMpmc.sendWaited]

end MpmcSenderPc

namespace AsyncMpmc

open AsyncGate TaskRing

variable {α : Type*} {size : MpmcSize} {s middle after : AsyncMpmc α} {shard p : Nat}

/-- The producer's ring in each shard, when one of them is set. -/
theorem rings_setRing (s : AsyncMpmc α) (shard p : Nat) (ring : TaskRing α) (j : Nat) :
    j = shard ∧ (s.setRing shard p ring).rings j p = ring ∨
      j ≠ shard ∧ (s.setRing shard p ring).rings j p = s.rings j p := by
  by_cases same : j = shard
  · subst same
    exact .inl ⟨rfl, setEntry_self⟩
  · exact .inr ⟨same, setEntry_of_ne (.inl same)⟩

namespace SenderFrame

theorem refl (s : AsyncMpmc α) : SenderFrame p s s := by
  constructor <;> intros <;> rfl

theorem trans (first : SenderFrame p s middle) (second : SenderFrame p middle after) :
    SenderFrame p s after where
  senders q other := (second.senders q other).trans (first.senders q other)
  producerWaiters q other := (second.producerWaiters q other).trans (first.producerWaiters q other)
  rings shard q other := (second.rings shard q other).trans (first.rings shard q other)
  accepted shard q other := (second.accepted shard q other).trans (first.accepted shard q other)
  tails shard := (second.tails shard).trans (first.tails shard)
  released shard := (second.released shard).trans (first.released shard)
  headView shard := (second.headView shard).trans (first.headView shard)
  receivers := second.receivers.trans first.receivers
  signallers := second.signallers.trans first.signallers
  shutdown := second.shutdown.trans first.shutdown
  liveConsumers := second.liveConsumers.trans first.liveConsumers
  left := second.left.trans first.left
  delivered := second.delivered.trans first.delivered

theorem setSender (s : AsyncMpmc α) (sender : MpmcSender α) :
    SenderFrame p s (s.setSender p sender) := by
  constructor <;> intros <;> first | rfl | exact Function.update_of_ne (by assumption) ..

theorem setProducerWaiter (s : AsyncMpmc α) (gate : AsyncGate) :
    SenderFrame p s (s.setProducerWaiter p gate) := by
  constructor <;> intros <;> first | rfl | exact Function.update_of_ne (by assumption) ..

theorem setConsumerWaiter (s : AsyncMpmc α) (shard : Nat) (gate : AsyncGate) :
    SenderFrame p s (s.setConsumerWaiter shard gate) := by
  constructor <;> intros <;> rfl

theorem liveProducers (s : AsyncMpmc α) :
    SenderFrame p s { s with liveProducers := s.liveProducers - 1 } := by
  constructor
  case left => exact Nat.sub_le ..
  all_goals intros; rfl

theorem accepts (s : AsyncMpmc α) (shard : Nat) (values : List α) :
    SenderFrame p s { s with accepted := setEntry s.accepted shard p values } := by
  constructor <;> intros <;> first | rfl | exact setEntry_of_ne (.inr (by assumption))

theorem setRing (s : AsyncMpmc α) {ring : TaskRing α} (tail : ring.tail = (s.rings shard p).tail)
    (released : ring.lane.released = (s.rings shard p).lane.released)
    (headView : ring.headView = (s.rings shard p).headView) :
    SenderFrame p s (s.setRing shard p ring) := by
  have own := rings_setRing s shard p ring
  constructor
  case rings => exact fun other q different => setEntry_of_ne (.inr different)
  case tails =>
    intro other
    rcases own other with ⟨rfl, same⟩ | ⟨-, same⟩ <;> rw [same]
    exact tail
  case released =>
    intro other
    rcases own other with ⟨rfl, same⟩ | ⟨-, same⟩ <;> rw [same]
    exact released
  case headView =>
    intro other
    rcases own other with ⟨rfl, same⟩ | ⟨-, same⟩ <;> rw [same]
    exact headView
  all_goals intros; rfl

theorem senderSees (s : AsyncMpmc α) (seen : Nat → Nat) :
    SenderFrame p s (s.senderSees p seen) := by
  have own (other : Nat) : (s.senderSees p seen).rings other p =
      { s.rings other p with
        tailView := max (s.rings other p).tailView (seen (other + 2)) } :=
    Function.update_self ..
  constructor
  case senders => exact fun q different => Function.update_of_ne different ..
  case rings => exact fun other q different => Function.update_of_ne different ..
  case tails | released | headView =>
    intro other
    rw [own]
  all_goals intros; rfl

theorem latest (frame : SenderFrame p s after) (idx : Nat) :
    (after.senderWatch size p).latest idx = (s.senderWatch size p).latest idx := by
  cases idx using watchCases with
  | shutdown => simp only [AsyncMpmc.senderWatch, frame.shutdown]
  | live => simp only [AsyncMpmc.senderWatch, frame.liveConsumers]
  | peer shard => exact congrArg Location.latest (frame.tails shard)

theorem onWay (frame : SenderFrame p s after) (idx : Nat) :
    (after.senderWatch size p).onWay idx = (s.senderWatch size p).onWay idx := by
  cases idx using watchCases with
  | shutdown => simp only [AsyncMpmc.senderWatch, frame.signallers]
  | live | peer shard => simp only [AsyncMpmc.senderWatch, frame.receivers]

theorem calm (frame : SenderFrame p s after)
    (published : ∀ shard, (after.rings shard p).lane.published =
      (s.rings shard p).lane.published) (idx : Nat) :
    (after.senderWatch size p).calm idx = (s.senderWatch size p).calm idx := by
  cases idx using watchCases with
  | shutdown => simp only [AsyncMpmc.senderWatch, frame.shutdown]
  | live => simp only [AsyncMpmc.senderWatch, frame.liveConsumers]
  | peer shard => simp only [AsyncMpmc.senderWatch, published, frame.released]

end SenderFrame

/-- What the producer hears outside of a wait, and when it begins to wait. -/
theorem SenderFrame.hears (frame : SenderFrame p s after) (hears : SenderHears size s p)
    (away : (s.senders p).pc.wait = none)
    (gate : after.producerWaiters p = s.producerWaiters p)
    (view : ∀ idx, (s.senderWatch size p).view idx ≤ (after.senderWatch size p).view idx)
    (wait : (after.senders p).pc.wait = none ∨
      (after.senders p).pc.wait = some (.check .entry 0)) :
    SenderHears size after p := by
  have kept : Watches (s.producerWaiters p) none id (size.n + 2) (after.senderWatch size p) := by
    rw [SenderHears, away] at hears
    refine hears.keeps (fun idx _ => view idx) fun idx _ => ?_
    exact .inl ⟨frame.latest idx, (frame.onWay idx).symm ▸ id, fun never => never.elim⟩
  rw [SenderHears, gate]
  rcases wait with none | first
  · rw [none]
    exact kept
  · rw [first]
    exact kept.starts (Nat.succ_pos _)

theorem pc_senderAt (s : AsyncMpmc α) (p : Nat) (pc : MpmcSenderPc α) :
    ((s.senderAt p pc).senders p).pc = pc := by
  simp only [senderAt, setSender, Function.update_self]

theorem senders_setSender (s : AsyncMpmc α) (p : Nat) (sender : MpmcSender α) :
    (s.setSender p sender).senders p = sender := Function.update_self ..

/-- What there is to be shown of a step of producer `p`. -/
theorem Ok.ofSender (ok : Ok size s) (frame : SenderFrame p s after)
    (live : s.liveProducers = 0 → after.liveProducers = 0)
    (last : ∀ shard stage, (after.senders p).pc = .wakeLast shard stage →
      after.liveProducers = 0)
    (links : ∀ shard < size.n, RingLinked size after shard p)
    (hears : SenderHears size after p)
    (heard : ∀ shard < size.n, ReceiverHears size after shard) : Ok size after where
  terminal :=
    { signals := by
        rw [frame.signallers, frame.shutdown]
        exact ok.terminal.signals
      lastProducer := fun q shard stage here => by
        by_cases same : q = p
        · exact last shard stage (same ▸ here)
        · rw [frame.senders q same] at here
          exact live (ok.terminal.lastProducer q shard stage here)
      lastConsumer := by
        rw [frame.receivers, frame.liveConsumers]
        exact ok.terminal.lastConsumer }
  inside := by
    rw [frame.receivers]
    exact ok.inside
  links shard insideShard q inside := by
    by_cases same : q = p
    · rw [same]
      exact links shard insideShard
    · rw [RingLinked, frame.rings shard q same, frame.senders q same, frame.receivers,
        frame.accepted shard q same, frame.delivered]
      exact ok.links shard insideShard q inside
  senders q inside := by
    by_cases same : q = p
    · rw [same]
      exact hears
    · rw [SenderHears, frame.senderWatch same, frame.senders q same,
        frame.producerWaiters q same]
      exact ok.senders q inside
  receivers := heard

/-- A step of which the consumers hear nothing. -/
theorem Ok.ofQuietSender (ok : Ok size s) (frame : SenderFrame p s after)
    (wakes : ∀ shard, (s.senders p).pc.wakes shard = false)
    (notLast : ∀ shard < size.n, (s.senders p).pc.lastFor shard = false)
    (last : ∀ shard stage, (after.senders p).pc ≠ .wakeLast shard stage)
    (gates : after.consumerWaiters = s.consumerWaiters)
    (liveProducers : after.liveProducers = s.liveProducers)
    (heads : ∀ shard, (after.rings shard p).head = (s.rings shard p).head)
    (published : ∀ shard, (after.rings shard p).lane.published =
      (s.rings shard p).lane.published)
    (links : ∀ shard < size.n, RingLinked size after shard p)
    (hears : SenderHears size after p) : Ok size after := by
  refine ok.ofSender frame (fun none => liveProducers.trans none)
    (fun shard stage here => absurd here (last shard stage)) links hears fun shard inside => ?_
  refine frame.receiverHears (ok.receivers shard inside) ?_ (by rw [gates])
  exact
    { head := .inl ⟨heads shard, published shard, fun never => by
        rw [wakes shard] at never
        cases never⟩
      live := .inl ⟨by rw [liveProducers], fun never => by
        rw [notLast shard inside] at never
        cases never⟩ }

/-- A step at the producer's ring of one shard of which its consumer hears nothing. -/
theorem Ok.senderRing (ok : Ok size s) (inside : p < size.m) {was pc : MpmcSenderPc α}
    {ring : TaskRing α} (here : (s.senders p).pc = was)
    (tail : ring.tail = (s.rings shard p).tail) (head : ring.head = (s.rings shard p).head)
    (released : ring.lane.released = (s.rings shard p).lane.released)
    (published : ring.lane.published = (s.rings shard p).lane.published)
    (headView : ring.headView = (s.rings shard p).headView)
    (wakes : ∀ j, was.wakes j = false) (notLast : ∀ j < size.n, was.lastFor j = false)
    (last : ∀ j stage, pc ≠ .wakeLast j stage)
    (elsewhere : ∀ j, j ≠ shard → was.Away j ∧ pc.Away j)
    (link : shard < size.n → LinkOk size.ringCap shard p ring pc (s.receivers shard).pc
      (s.accepted shard p) (s.delivered shard p))
    (hears : SenderHears size ((s.setRing shard p ring).senderAt p pc) p) :
    Ok size ((s.setRing shard p ring).senderAt p pc) := by
  have frame : SenderFrame p s ((s.setRing shard p ring).senderAt p pc) :=
    (SenderFrame.setRing s tail released headView).trans (.setSender _ _)
  have now : (((s.setRing shard p ring).senderAt p pc).senders p).pc = pc := pc_senderAt ..
  have rings (j : Nat) : j = shard ∧ ((s.setRing shard p ring).senderAt p pc).rings j p = ring ∨
      j ≠ shard ∧ ((s.setRing shard p ring).senderAt p pc).rings j p = s.rings j p :=
    rings_setRing s shard p ring j
  subst here
  refine ok.ofQuietSender frame wakes notLast ?_ rfl rfl ?_ ?_ ?_ hears
  · rw [now]
    exact last
  · intro j
    rcases rings j with ⟨rfl, same⟩ | ⟨-, same⟩ <;> rw [same]
    exact head
  · intro j
    rcases rings j with ⟨rfl, same⟩ | ⟨-, same⟩ <;> rw [same]
    exact published
  · intro j insideShard
    rcases rings j with ⟨rfl, same⟩ | ⟨other, same⟩ <;> rw [RingLinked, same, now]
    · exact link insideShard
    · obtain ⟨before, behind⟩ := elsewhere j other
      exact (ok.links j insideShard p inside).senderAway before behind

section Steps

variable (ok : Ok size s) (inside : p < size.m) {was : MpmcSenderPc α}
  (here : (s.senders p).pc = was)

include ok inside here

/-- The task goes on outside of the rings, or begins to wait. -/
theorem Ok.senderGoes {sender : MpmcSender α} (outside : was.outside = true)
    (away : was.wait = none) (notLast : ∀ shard < size.n, was.lastFor shard = false)
    (starts : sender.pc.Starts) (shutdown : (s.senders p).view.shutdown ≤ sender.view.shutdown)
    (live : (s.senders p).view.live ≤ sender.view.live) :
    Ok size (s.setSender p sender) := by
  have frame : SenderFrame p s (s.setSender p sender) := .setSender s sender
  have now : (s.setSender p sender).senders p = sender := Function.update_self ..
  subst here
  refine ok.ofQuietSender frame (MpmcSenderPc.wakes_of_outside outside) notLast ?_ rfl rfl
    (fun _ => rfl) (fun _ => rfl) ?_ ?_
  · rw [now]
    exact starts.notLast
  · intro shard insideShard
    rw [RingLinked, now]
    exact (ok.links shard insideShard p inside).senderAway (MpmcSenderPc.away_of_outside outside)
      (MpmcSenderPc.away_of_outside starts.outside)
  · refine frame.hears (ok.senders p inside) away rfl (fun idx => ?_) (by
      rw [now]
      exact starts.wait)
    cases idx using watchCases with
    | shutdown =>
        change _ ≤ ((s.setSender p sender).senders p).view.shutdown
        rw [now]
        exact shutdown
    | live =>
        change _ ≤ ((s.setSender p sender).senders p).view.live
        rw [now]
        exact live
    | peer shard => exact le_rfl

/-- The same outside of a wait, where `tail` may have been loaded. -/
theorem Ok.senderAccess {ring : TaskRing α} {pc : MpmcSenderPc α}
    (tail : ring.tail = (s.rings shard p).tail) (head : ring.head = (s.rings shard p).head)
    (released : ring.lane.released = (s.rings shard p).lane.released)
    (published : ring.lane.published = (s.rings shard p).lane.published)
    (headView : ring.headView = (s.rings shard p).headView)
    (tailView : (s.rings shard p).tailView ≤ ring.tailView)
    (wakes : ∀ j, was.wakes j = false) (notLast : ∀ j < size.n, was.lastFor j = false)
    (last : ∀ j stage, pc ≠ .wakeLast j stage)
    (elsewhere : ∀ j, j ≠ shard → was.Away j ∧ pc.Away j)
    (link : shard < size.n → LinkOk size.ringCap shard p ring pc (s.receivers shard).pc
      (s.accepted shard p) (s.delivered shard p))
    (away : was.wait = none) (wait : pc.wait = none ∨ pc.wait = some (.check .entry 0)) :
    Ok size ((s.setRing shard p ring).senderAt p pc) := by
  have frame : SenderFrame p s ((s.setRing shard p ring).senderAt p pc) :=
    (SenderFrame.setRing s tail released headView).trans (.setSender _ _)
  have now : ((s.setRing shard p ring).senderAt p pc).senders p =
      { s.senders p with pc := pc } := Function.update_self ..
  refine ok.senderRing inside here tail head released published headView wakes notLast last
    elsewhere link ?_
  refine frame.hears (ok.senders p inside) (here ▸ away) rfl (fun idx => ?_) (by
    rw [now]
    exact wait)
  cases idx using watchCases with
  | shutdown | live =>
      simp only [senderWatch, now, le_rfl]
  | peer j =>
      change _ ≤ (setEntry s.rings shard p ring j p).tailView
      by_cases same : j = shard
      · subst same
        rw [setEntry_self]
        exact tailView
      · rw [setEntry_of_ne (.inl same)]
        exact le_rfl

/-- A load of `tail` behind which the task stays outside. -/
theorem Ok.senderLooks {index : Nat} {tail : Usize} {ring : TaskRing α} {pc : MpmcSenderPc α}
    (insideShard : shard < size.n) (outside : was.outside = true) (away : was.wait = none)
    (notLast : ∀ j < size.n, was.lastFor j = false)
    (loaded : (s.rings shard p).loadTail index = some (tail, ring)) (starts : pc.Starts) :
    Ok size ((s.setRing shard p ring).senderAt p pc) := by
  have le : (s.rings shard p).tailView ≤ index := by
    obtain ⟨value, read, -⟩ := Option.map_eq_some_iff.mp loaded
    exact (Location.load_eq_some read).1
  have link := ok.links shard insideShard p inside
  rw [RingLinked, here] at link
  obtain ⟨link, rfl, -⟩ := link.loadsTail outside loaded
  refine ok.senderAccess inside here rfl rfl rfl rfl rfl le
    (MpmcSenderPc.wakes_of_outside outside) notLast starts.notLast ?_ ?_ away starts.wait
  · exact fun j _ => ⟨MpmcSenderPc.away_of_outside outside,
      MpmcSenderPc.away_of_outside starts.outside⟩
  · exact fun _ => link.senderAway (MpmcSenderPc.away_of_outside outside)
      (MpmcSenderPc.away_of_outside starts.outside)

/-- A load of `tail` that has found room. -/
theorem Ok.senderFinds {index : Nat} {tail : Usize} {ring : TaskRing α}
    {call : MpmcTaskSend α} {items : List α}
    (insideShard : shard < size.n) (outside : was.outside = true) (away : was.wait = none)
    (notLast : ∀ j < size.n, was.lastFor j = false)
    (loaded : (s.rings shard p).loadTail index = some (tail, ring))
    (room : ¬ size.ringCap.size ≤ (ring.head.current - tail).toNat) :
    Ok size ((s.setRing shard p ring).senderAt p (.write call shard ring.head.current
      (items.take (size.ringCap.size - (ring.head.current - tail).toNat)) [])) := by
  have le : (s.rings shard p).tailView ≤ index := by
    obtain ⟨value, read, -⟩ := Option.map_eq_some_iff.mp loaded
    exact (Location.load_eq_some read).1
  have link := ok.links shard insideShard p inside
  rw [RingLinked, here] at link
  obtain ⟨link, rfl, count, -, -, used, near, -, fits⟩ := link.loadsTail outside loaded
  refine ok.senderAccess inside here rfl rfl rfl rfl rfl le
    (MpmcSenderPc.wakes_of_outside outside) notLast (fun j stage => by simp) ?_ ?_ away
    (.inl rfl)
  · exact fun j other => ⟨MpmcSenderPc.away_of_outside outside,
      MpmcSenderPc.away_of_shardOf other rfl⟩
  · refine fun _ => link.startsToWrite outside (fits _ ?_)
    change (s.rings shard p).lane.written.length + _ ≤ _
    dsimp only at used near room ⊢
    rw [used] at room ⊢
    rw [List.length_take]
    omega

end Steps

section Inside

variable (ok : Ok size s) (inside : p < size.m) {call : MpmcTaskSend α} {head : Usize}
  {left written : List α}

include ok inside

/-- The next slot is written. -/
theorem Ok.senderWrites {value : α}
    (here : (s.senders p).pc = .write call shard head (value :: left) written) :
    Ok size ((s.setRing shard p
      ((s.rings shard p).writeSlot (size.ringCap.slot head) value)).senderAt p
        (.write call shard (head + 1) left (written ++ [value]))) := by
  refine ok.senderAccess inside here rfl rfl rfl rfl rfl le_rfl (fun _ => rfl)
    (fun _ _ => rfl) (fun j stage => by simp) ?_ ?_ rfl (.inl rfl)
  · exact fun j other => ⟨MpmcSenderPc.away_of_shardOf other rfl,
      MpmcSenderPc.away_of_shardOf other rfl⟩
  · intro insideShard
    have link := ok.links shard insideShard p inside
    rw [RingLinked, here] at link
    exact link.writes

/-- Everything is written. -/
theorem Ok.senderFilled (here : (s.senders p).pc = .write call shard head [] written) :
    Ok size (s.senderAt p (.publish call shard head written)) := by
  have frame : SenderFrame p s (s.senderAt p (.publish call shard head written)) :=
    .setSender s _
  have now : (s.senderAt p (.publish call shard head written)).senders p =
      { s.senders p with pc := .publish call shard head written } := Function.update_self ..
  refine ok.ofQuietSender frame (fun j => by rw [here]; rfl) (fun j _ => by rw [here]; rfl)
    (fun j stage => by simp [now]) rfl rfl (fun _ => rfl) (fun _ => rfl) ?_ ?_
  · intro j insideShard
    have link := ok.links j insideShard p inside
    rw [RingLinked, here] at link
    rw [RingLinked, now]
    by_cases same : j = shard
    · subst same
      exact link.senderGoes rfl rfl (Nat.zero_le _) link.headAt
    · exact link.senderAway (MpmcSenderPc.away_of_shardOf same rfl)
        (MpmcSenderPc.away_of_shardOf same rfl)
  · refine frame.hears (ok.senders p inside) (by rw [here]; rfl) rfl (fun idx => ?_)
      (.inl (by rw [now]; rfl))
    cases idx using watchCases with
    | shutdown | live => simp only [senderWatch, now, le_rfl]
    | peer j => exact le_rfl

end Inside

/-! ### Wakes -/

section Wakes

variable {idx stores : Nat} {saw : Bool} {stage : WakeStage}

theorem SenderFrame.receiverLatest (frame : SenderFrame p s after)
    (heads : ∀ shard, (after.rings shard p).head = (s.rings shard p).head)
    (live : after.liveProducers = s.liveProducers) (idx : Nat) :
    (after.receiverWatch shard).latest idx = (s.receiverWatch shard).latest idx := by
  cases idx using watchCases with
  | shutdown => simp only [receiverWatch, frame.shutdown]
  | live => simp only [receiverWatch, live]
  | peer q =>
      by_cases same : q = p
      · subst same
        exact congrArg Location.latest (heads shard)
      · simp only [receiverWatch, frame.rings shard q same]

theorem SenderFrame.receiverCalm (frame : SenderFrame p s after)
    (published : ∀ shard, (after.rings shard p).lane.published =
      (s.rings shard p).lane.published)
    (live : after.liveProducers = s.liveProducers) (idx : Nat) :
    (after.receiverWatch shard).calm idx = (s.receiverWatch shard).calm idx := by
  cases idx using watchCases with
  | shutdown => simp only [receiverWatch, frame.shutdown]
  | live => simp only [receiverWatch, live]
  | peer q =>
      by_cases same : q = p
      · subst same
        simp only [receiverWatch, published, frame.released]
      · simp only [receiverWatch, frame.rings shard q same]

/-- The producer takes a step of a wake of the shard's consumer. -/
theorem SenderFrame.receiverWoken (frame : SenderFrame p s after)
    (hears : ReceiverHears size s shard) (rings : after.rings = s.rings)
    (live : after.liveProducers = s.liveProducers)
    (own : stores = (s.receiverWatch shard).latest idx)
    (gate : after.consumerWaiters shard =
      ((s.consumerWaiters shard).wakeStep (some (idx, stores)) saw stage).1)
    (others : ∀ other, other ≠ idx → (s.receiverWatch shard).onWay other →
      (after.receiverWatch shard).onWay other)
    (goesOn : ((s.consumerWaiters shard).wakeStep (some (idx, stores)) saw stage).2.isSome =
      true → (after.receiverWatch shard).onWay idx) :
    ReceiverHears size after shard := by
  rw [ReceiverHears, gate, frame.receivers]
  refine hears.woken own (fun other _ => ?_) (fun other _ => (frame.receiverView other).ge)
    (fun other _ => ?_) (fun other _ => others other) goesOn
  · exact frame.receiverLatest (fun _ => by rw [rings]) live other
  · exact (frame.receiverCalm (fun _ => by rw [rings]) live other).ge

/-- A step of the wake of a shard's consumer. -/
theorem Ok.ofSenderWake (ok : Ok size s) (frame : SenderFrame p s after)
    (rings : after.rings = s.rings)
    (live : after.liveProducers = s.liveProducers)
    (own : shard < size.n → stores = (s.receiverWatch shard).latest idx)
    (gates : after.consumerWaiters = Function.update s.consumerWaiters shard
      ((s.consumerWaiters shard).wakeStep (some (idx, stores)) saw stage).1)
    (last : ∀ j stage, (after.senders p).pc = .wakeLast j stage → s.liveProducers = 0)
    (links : ∀ j < size.n, RingLinked size after j p)
    (hears : SenderHears size after p)
    (elsewhere : ∀ j, j ≠ shard →
      ((s.senders p).pc.wakes j = true → (after.senders p).pc.wakes j = true) ∧
      ((s.senders p).pc.lastFor j = true → (after.senders p).pc.lastFor j = true))
    (others : ∀ other, other ≠ idx → (s.receiverWatch shard).onWay other →
      (after.receiverWatch shard).onWay other)
    (goesOn : ((s.consumerWaiters shard).wakeStep (some (idx, stores)) saw stage).2.isSome =
      true → (after.receiverWatch shard).onWay idx) : Ok size after := by
  refine ok.ofSender frame (fun none => live.trans none)
    (fun j stage here => live.trans (last j stage here)) links hears fun j insideShard => ?_
  by_cases same : j = shard
  · subst same
    refine frame.receiverWoken (ok.receivers j insideShard) rings live (own insideShard) ?_
      others goesOn
    rw [gates, Function.update_self]
  · obtain ⟨wakes, lasts⟩ := elsewhere j same
    refine frame.receiverHears (ok.receivers j insideShard) ⟨.inl ?_, .inl ?_⟩ ?_
    · exact ⟨by rw [rings], by rw [rings], wakes⟩
    · exact ⟨by rw [live], lasts⟩
    · rw [gates, Function.update_of_ne same]

end Wakes

section Inside

variable (ok : Ok size s) (inside : p < size.m)

include ok inside

/-- The store that publishes; the wake is still to come. -/
theorem Ok.senderPublishes {call : MpmcTaskSend α} {head : Usize} {written : List α}
    (here : (s.senders p).pc = .publish call shard head written) :
    Ok size ((s.setRing shard p ((s.rings shard p).storeHead head)).senderAt p
      (.wakeConsumer shard written .probe)) := by
  have stored : SenderFrame p s (s.setRing shard p ((s.rings shard p).storeHead head)) :=
    .setRing s rfl rfl rfl
  have frame : SenderFrame p s ((s.setRing shard p
      ((s.rings shard p).storeHead head)).senderAt p (.wakeConsumer shard written .probe)) :=
    stored.trans (.setSender _ _)
  have now := pc_senderAt (s.setRing shard p ((s.rings shard p).storeHead head)) p
    (.wakeConsumer shard written .probe)
  have self : ((s.setRing shard p ((s.rings shard p).storeHead head)).senderAt p
      (.wakeConsumer shard written .probe)).rings shard p = (s.rings shard p).storeHead head :=
    setEntry_self
  have elsewhere (j : Nat) (other : j ≠ shard) : ((s.setRing shard p
      ((s.rings shard p).storeHead head)).senderAt p
        (.wakeConsumer shard written .probe)).rings j p = s.rings j p :=
    setEntry_of_ne (.inl other)
  refine ok.ofSender frame id (fun j stage last => ?_) ?_ ?_ ?_
  · rw [now] at last
    cases last
  · intro j insideShard
    have link := ok.links j insideShard p inside
    rw [RingLinked, here] at link
    by_cases same : j = shard
    · subst same
      rw [RingLinked, self, now]
      exact link.publishes
    · rw [RingLinked, elsewhere j same, now]
      exact link.senderAway (MpmcSenderPc.away_of_shardOf same rfl)
        (MpmcSenderPc.away_of_shardOf same rfl)
  · refine frame.hears (ok.senders p inside) (by rw [here]; rfl) rfl (fun idx => ?_)
      (.inl (by rw [now]; rfl))
    cases idx using watchCases with
    | shutdown | live =>
        simp only [senderWatch, senderAt, setSender, Function.update_self, setRing, le_rfl]
    | peer j =>
        change _ ≤ (setEntry s.rings shard p _ j p).tailView
        by_cases same : j = shard
        · subst same
          rw [setEntry_self]
          exact le_rfl
        · rw [setEntry_of_ne (.inl same)]
          exact le_rfl
  · intro j insideShard
    refine frame.receiverHears (ok.receivers j insideShard) ⟨?_, .inl ⟨Iff.rfl, ?_⟩⟩ rfl
    · by_cases same : j = shard
      · subst same
        refine .inr ⟨?_, by rw [now]; exact decide_eq_true rfl⟩
        rw [self]
        exact Location.latest_le_store ..
      · refine .inl ⟨by rw [elsewhere j same], by rw [elsewhere j same], fun never => ?_⟩
        rw [here] at never
        cases never
    · rw [here]
      intro never
      cases never

/-- A step of the wake behind a store of `head`, behind which the task is at `pc`. -/
theorem Ok.senderWakes {written : List α} {stage : WakeStage} {saw : Bool}
    {sender : MpmcSender α} {accepted : Nat → Nat → List α}
    (here : (s.senders p).pc = .wakeConsumer shard written stage)
    (acceptedFrame : SenderFrame p s { s with accepted := accepted })
    (view : sender.view = (s.senders p).view)
    (goes : (∃ next, ((s.consumerWaiters shard).wakeStep
          (some (p + 2, (s.rings shard p).head.latest)) saw stage).2 = some next ∧
        sender.pc = .wakeConsumer shard written next ∧ accepted = s.accepted) ∨
      ((s.consumerWaiters shard).wakeStep
          (some (p + 2, (s.rings shard p).head.latest)) saw stage).2 = none ∧
        sender.pc = .idle ∧
        accepted = setEntry s.accepted shard p (s.accepted shard p ++ written)) :
    Ok size ({ s.wakeConsumerBy shard (p + 2) (s.rings shard p).head.latest saw stage |>.1 with
      accepted := accepted }.setSender p sender) := by
  generalize result : { s.wakeConsumerBy shard (p + 2) (s.rings shard p).head.latest saw stage
    |>.1 with accepted := accepted }.setSender p sender = after
  have frame : SenderFrame p s after := by
    subst result
    have first : SenderFrame p s
        { (s.wakeConsumerBy shard (p + 2) (s.rings shard p).head.latest saw stage).1 with
          accepted := accepted } :=
      { (SenderFrame.setConsumerWaiter (p := p) s shard
          ((s.consumerWaiters shard).wakeStep
            (some (p + 2, (s.rings shard p).head.latest)) saw stage).1) with
        accepted := acceptedFrame.accepted }
    exact first.trans (.setSender _ _)
  have now : after.senders p = sender := by
    subst result
    exact Function.update_self ..
  have rings : after.rings = s.rings := by
    subst result
    rfl
  have acceptedIs : after.accepted = accepted := by
    subst result
    rfl
  have idle : (s.senders p).pc.wait = none := by rw [here]; rfl
  have wait : sender.pc.wait = none := by
    rcases goes with ⟨next, -, pc, -⟩ | ⟨-, pc, -⟩ <;> rw [pc] <;> rfl
  refine ok.ofSenderWake frame rings (by subst result; rfl) (fun _ => rfl)
    (by subst result; rfl) ?last ?links ?hears ?elsewhere ?others ?goesOn
  case last =>
    intro j stage last
    rw [now] at last
    rcases goes with ⟨next, -, pc, -⟩ | ⟨-, pc, -⟩ <;> rw [pc] at last <;> cases last
  case links =>
    intro j insideShard
    have link := ok.links j insideShard p inside
    rw [RingLinked, here] at link
    rw [RingLinked, rings, now, frame.receivers, frame.delivered, acceptedIs]
    by_cases same : j = shard
    · subst same
      rcases goes with ⟨next, -, pc, rfl⟩ | ⟨-, pc, rfl⟩ <;> rw [pc]
      · exact link.senderGoes rfl rfl (Nat.zero_le _) trivial
      · rw [setEntry_self]
        exact link.returns
    · have away : sender.pc.Away j := by
        rcases goes with ⟨next, -, pc, -⟩ | ⟨-, pc, -⟩ <;> rw [pc]
        · exact MpmcSenderPc.away_of_shardOf same rfl
        · exact MpmcSenderPc.away_of_outside rfl
      have unchanged : accepted j p = s.accepted j p := by
        rcases goes with ⟨next, -, -, rfl⟩ | ⟨-, -, rfl⟩
        · rfl
        · exact setEntry_of_ne (.inl same)
      rw [unchanged]
      exact link.senderAway (MpmcSenderPc.away_of_shardOf same rfl) away
  case hears =>
    refine frame.hears (ok.senders p inside) idle (by subst result; rfl) (fun idx => ?_)
      (.inl (by rw [now]; exact wait))
    cases idx using watchCases with
    | shutdown | live => simp only [senderWatch, now, view, le_rfl]
    | peer j => simp only [senderWatch, rings, le_rfl]
  case elsewhere =>
    intro j other
    rw [here]
    refine ⟨fun never => ?_, fun never => by cases never⟩
    exact absurd (of_decide_eq_true never).symm other
  case others =>
    intro other different
    cases other using watchCases with
    | shutdown => simp only [receiverWatch, frame.signallers, imp_self]
    | live =>
        refine frame.last fun never => ?_
        rw [here] at never
        cases never
    | peer q =>
        have elsewhere : q ≠ p := fun same => different (by rw [same])
        simp only [receiverWatch, frame.senders q elsewhere, imp_self]
  case goesOn =>
    intro more
    rcases goes with ⟨next, -, pc, -⟩ | ⟨done, -, -⟩
    · change (after.senders p).pc.wakes shard = true
      rw [now, pc]
      exact decide_eq_true rfl
    · change (((s.consumerWaiters shard).wakeStep
        (some (p + 2, (s.rings shard p).head.latest)) saw stage).2).isSome = true at more
      rw [done] at more
      cases more

/-- The handle is dropped; the last one still has to wake the consumers. -/
theorem Ok.senderLeaves {pc : MpmcSenderPc α} (here : (s.senders p).pc = .fetchSub)
    (goes : s.liveProducers = 1 ∧ pc = .wakeLast 0 .probe ∨
      s.liveProducers ≠ 1 ∧ pc = .gone) :
    Ok size ({ s with liveProducers := s.liveProducers - 1 }.senderAt p pc) := by
  have frame : SenderFrame p s ({ s with liveProducers := s.liveProducers - 1 }.senderAt p pc) :=
    (SenderFrame.liveProducers s).trans (.setSender _ _)
  have now : ({ s with liveProducers := s.liveProducers - 1 }.senderAt p pc).senders p =
      { s.senders p with pc := pc } := Function.update_self ..
  have outside : pc.outside = true := by
    rcases goes with ⟨-, rfl⟩ | ⟨-, rfl⟩ <;> rfl
  refine ok.ofSender frame ?live ?last ?links ?hears ?heard
  case live =>
    intro none
    change s.liveProducers - 1 = 0
    omega
  case last =>
    intro j stage last
    rw [now] at last
    change s.liveProducers - 1 = 0
    rcases goes with ⟨one, -⟩ | ⟨-, rfl⟩
    · omega
    · cases last
  case links =>
    intro j insideShard
    have link := ok.links j insideShard p inside
    rw [RingLinked, here] at link
    rw [RingLinked, now]
    exact link.senderAway (MpmcSenderPc.away_of_outside rfl)
      (MpmcSenderPc.away_of_outside outside)
  case hears =>
    refine frame.hears (ok.senders p inside) (by rw [here]; rfl) rfl (fun idx => ?_) ?_
    · cases idx using watchCases with
      | shutdown | live => simp only [senderWatch, now, le_rfl]
      | peer j => exact le_rfl
    · rw [now]
      rcases goes with ⟨-, rfl⟩ | ⟨-, rfl⟩ <;> exact .inl rfl
  case heard =>
    intro j insideShard
    refine frame.receiverHears (ok.receivers j insideShard) ⟨.inl ⟨rfl, rfl, ?_⟩, ?_⟩ rfl
    · rw [here]
      intro never
      cases never
    · rw [now, here]
      rcases goes with ⟨one, rfl⟩ | ⟨more, rfl⟩
      · right
        refine ⟨by omega, decide_eq_true (Nat.zero_le j)⟩
      · left
        refine ⟨?_, fun never => by cases never⟩
        change s.liveProducers - 1 = 0 ↔ s.liveProducers = 0
        omega

/-- A step of the wakes of the last producer. -/
theorem Ok.senderWakesLast {stage : WakeStage} {saw : Bool} {pc : MpmcSenderPc α}
    (here : (s.senders p).pc = .wakeLast shard stage)
    (goes : (∃ next, ((s.consumerWaiters shard).wakeStep (some (1, 1)) saw stage).2 = some next ∧
        pc = .wakeLast shard next) ∨
      ((s.consumerWaiters shard).wakeStep (some (1, 1)) saw stage).2 = none ∧
        pc = .wakeLast (shard + 1) .probe) :
    Ok size ((s.wakeConsumerBy shard 1 1 saw stage).1.senderAt p pc) := by
  generalize result : (s.wakeConsumerBy shard 1 1 saw stage).1.senderAt p pc = after
  have frame : SenderFrame p s after := by
    subst result
    have first : SenderFrame p s (s.wakeConsumerBy shard 1 1 saw stage).1 :=
      .setConsumerWaiter s shard _
    exact first.trans (.setSender _ _)
  have now : after.senders p = { s.senders p with pc := pc } := by
    subst result
    exact Function.update_self ..
  have rings : after.rings = s.rings := by
    subst result
    rfl
  have terminal : s.liveProducers = 0 := ok.terminal.lastProducer p shard stage here
  obtain ⟨j, next, pcIs, le⟩ : ∃ j next, pc = .wakeLast j next ∧ j ≤ shard + 1 := by
    rcases goes with ⟨next, -, rfl⟩ | ⟨-, rfl⟩
    · exact ⟨shard, next, rfl, Nat.le_succ shard⟩
    · exact ⟨shard + 1, .probe, rfl, le_rfl⟩
  refine ok.ofSenderWake frame rings (by subst result; rfl) ?own (by subst result; rfl)
    (fun _ _ _ => terminal) ?links ?hears ?elsewhere ?others ?goesOn
  case own =>
    intro _
    change 1 = stores (decide (s.liveProducers = 0))
    rw [terminal]
    rfl
  case links =>
    intro j insideShard
    have link := ok.links j insideShard p inside
    rw [RingLinked, here] at link
    rw [RingLinked, rings, now, frame.receivers, frame.delivered, pcIs]
    have accepted : after.accepted = s.accepted := by
      subst result
      rfl
    rw [accepted]
    exact link.senderAway (MpmcSenderPc.away_of_outside rfl) (MpmcSenderPc.away_of_outside rfl)
  case hears =>
    refine frame.hears (ok.senders p inside) (by rw [here]; rfl) (by subst result; rfl)
      (fun idx => ?_) (.inl (by rw [now, pcIs]; rfl))
    cases idx using watchCases with
    | shutdown | live => simp only [senderWatch, now, le_rfl]
    | peer j => simp only [senderWatch, rings, le_rfl]
  case elsewhere =>
    intro other different
    rw [here, now, pcIs]
    refine ⟨fun never => (by cases never), fun behind => ?_⟩
    have behind : shard ≤ other := of_decide_eq_true behind
    exact decide_eq_true (by omega)
  case others =>
    intro other different
    cases other using watchCases with
    | shutdown => simp only [receiverWatch, frame.signallers, imp_self]
    | live => exact absurd rfl different
    | peer q =>
        intro wakes
        change (after.senders q).pc.wakes shard = true
        have wakes : (s.senders q).pc.wakes shard = true := wakes
        by_cases same : q = p
        · subst same
          rw [here] at wakes
          cases wakes
        · rw [frame.senders q same]
          exact wakes
  case goesOn =>
    intro more
    refine ⟨p, ?_⟩
    rw [now]
    rcases goes with ⟨next, -, rfl⟩ | ⟨done, -⟩
    · exact decide_eq_true le_rfl
    · rw [done] at more
      cases more

end Inside

/-! ### The wait of `send_async` -/

/-- A step of the wait, of which the consumers hear nothing. -/
theorem Ok.ofSenderWait (ok : Ok size s) {value : α} {pc : AwaitPc Nat}
    {next : AwaitNext Nat} (frame : SenderFrame p s after)
    (here : (s.senders p).pc = .waits value pc)
    (now : (after.senders p).pc = sendWaited value next)
    (gates : after.consumerWaiters = s.consumerWaiters)
    (liveProducers : after.liveProducers = s.liveProducers)
    (heads : ∀ shard, (after.rings shard p).head = (s.rings shard p).head)
    (published : ∀ shard, (after.rings shard p).lane.published =
      (s.rings shard p).lane.published)
    (links : ∀ shard < size.n, LinkOk size.ringCap shard p (after.rings shard p)
      (s.senders p).pc (s.receivers shard).pc (s.accepted shard p) (s.delivered shard p))
    (accepted : after.accepted = s.accepted)
    (hears : Watches (after.producerWaiters p) next.wait id (size.n + 2)
      (after.senderWatch size p)) : Ok size after := by
  refine ok.ofQuietSender frame (fun j => by rw [here]; rfl) (fun j _ => by rw [here]; rfl) ?_
    gates liveProducers heads published ?_ ?_
  · intro j stage
    rw [now]
    exact MpmcSenderPc.sendWaited_notLast value next j stage
  · intro j insideShard
    have link := links j insideShard
    rw [here] at link
    rw [RingLinked, now, frame.receivers, frame.delivered, accepted]
    exact link.senderAway (MpmcSenderPc.away_of_outside rfl)
      (MpmcSenderPc.away_of_outside (MpmcSenderPc.outside_sendWaited value next))
  · rw [SenderHears, now, MpmcSenderPc.wait_sendWaited]
    exact hears

section Wait

variable (ok : Ok size s) (inside : p < size.m)

include ok inside

/-- A step of the wait at its gate. -/
theorem Ok.senderAwaits {value : α} {pc : AwaitPc Nat} {step : Awaited Nat}
    (here : (s.senders p).pc = .waits value pc)
    (taken : pc.tick (s.producerWaiters p) 0 = some step) :
    Ok size (((s.setProducerWaiter p step.gate).senderSees p step.seen).senderAt p
      (sendWaited value step.next)) := by
  generalize result : ((s.setProducerWaiter p step.gate).senderSees p step.seen).senderAt p
    (sendWaited value step.next) = after
  have frame : SenderFrame p s after := by
    subst result
    have first : SenderFrame p s (s.setProducerWaiter p step.gate) :=
      .setProducerWaiter s step.gate
    exact (first.trans (.senderSees _ step.seen)).trans (.setSender _ _)
  have rings (j : Nat) : after.rings j p =
      { s.rings j p with tailView := max (s.rings j p).tailView (step.seen (j + 2)) } := by
    subst result
    exact Function.update_self ..
  have view : (after.senders p).view = ⟨max (s.senders p).view.shutdown (step.seen 0),
      max (s.senders p).view.live (step.seen 1)⟩ := by
    subst result
    simp only [senderAt, setSender, senderSees, setProducerWaiter, Function.update_self]
  have watches := ok.senders p inside
  rw [SenderHears, here] at watches
  refine ok.ofSenderWait frame here (by subst result; exact pc_senderAt ..)
    (by subst result; rfl) (by subst result; rfl) (fun j => by rw [rings]) (fun j => by rw [rings])
    (fun j insideShard => ?_) (by subst result; rfl) ?_
  · rw [rings]
    exact (ok.links j insideShard p inside).seesTail
      (watches.seen_le taken (Nat.add_lt_add_right insideShard 2))
  · have gate : after.producerWaiters p = step.gate := by
      subst result
      exact Function.update_self ..
    rw [gate]
    refine (watches.tick (Nat.succ_pos _) taken).keeps (fun idx _ => ?_) fun idx _ => ?_
    · cases idx using watchCases with
      | shutdown | live => simp only [senderWatch, view, le_rfl]
      | peer j => simp only [senderWatch, rings, le_rfl]
    · refine .inl ⟨frame.latest idx, (frame.onWay idx).symm ▸ id, fun _ => ?_⟩
      exact (frame.calm (fun j => by rw [rings]) idx).symm ▸ id

/-- A turn of the predicate. -/
theorem Ok.senderTurns {value : α} {phase : WaitPhase} {idx seen : Nat} {ready : Bool}
    (frame : SenderFrame p s after) (here : (s.senders p).pc = .waits value (.check phase idx))
    (now : (after.senders p).pc =
      sendWaited value (AwaitPc.turned phase idx (size.n + 2) ready))
    (gates : after.consumerWaiters = s.consumerWaiters)
    (gate : after.producerWaiters = s.producerWaiters)
    (liveProducers : after.liveProducers = s.liveProducers)
    (heads : ∀ shard, (after.rings shard p).head = (s.rings shard p).head)
    (published : ∀ shard, (after.rings shard p).lane.published =
      (s.rings shard p).lane.published)
    (links : ∀ shard < size.n, LinkOk size.ringCap shard p (after.rings shard p)
      (s.senders p).pc (s.receivers shard).pc (s.accepted shard p) (s.delivered shard p))
    (accepted : after.accepted = s.accepted)
    (view : (after.senderWatch size p).view =
      Function.update (s.senderWatch size p).view idx seen)
    (le : (s.senderWatch size p).view idx ≤ seen)
    (sure : ready = false → (s.senderWatch size p).latest idx ≤ seen →
      (s.senderWatch size p).calm idx) : Ok size after := by
  refine ok.ofSenderWait frame here now gates liveProducers heads published links accepted
    ?_
  have watches := ok.senders p inside
  rw [SenderHears, here] at watches
  rw [gate]
  refine (Watches.turned watches (AsyncMpmc.senderTurns size idx) le sure).keeps
    (fun other _ => ?_) fun other _ => ?_
  · rw [view]
  · refine .inl ⟨frame.latest other, (frame.onWay other).symm ▸ id, fun _ => ?_⟩
    exact (frame.calm published other).symm ▸ id

/-- The future is dropped while it is suspended. -/
theorem Ok.senderCancels {value : α} (here : (s.senders p).pc = .waits value .suspended) :
    Ok size (s.senderAt p (.waits value (.dropNotified .dropped))) := by
  have frame : SenderFrame p s (s.senderAt p (.waits value (.dropNotified .dropped))) :=
    .setSender s _
  have watches := ok.senders p inside
  rw [SenderHears, here] at watches
  have now : ((s.senderAt p (.waits value (.dropNotified .dropped))).senders p).pc =
      sendWaited value (.goes (.dropNotified .dropped)) := pc_senderAt ..
  refine ok.ofSenderWait frame here now rfl rfl (fun _ => rfl) (fun _ => rfl)
    (fun j insideShard => ok.links j insideShard p inside) rfl ?_
  refine watches.cancel.keeps (fun idx _ => ?_) fun idx _ => ?_
  · cases idx using watchCases with
    | shutdown | live => simp only [senderWatch, senderAt, setSender, Function.update_self, le_rfl]
    | peer j => exact le_rfl
  · refine .inl ⟨frame.latest idx, (frame.onWay idx).symm ▸ id, fun _ => ?_⟩
    exact (frame.calm (fun _ => rfl) idx).symm ▸ id

/-- A turn that loads `shutdown`. -/
theorem Ok.senderTurnsShutdown {value : α} {phase : WaitPhase} {index : Nat}
    (here : (s.senders p).pc = .waits value (.check phase 0))
    (stepped : s.senderShutdown p index
      (fun ready => sendWaited value (AwaitPc.turned phase 0 (size.n + 2) ready)) =
        some after) : Ok size after := by
  obtain ⟨ready, loaded, rfl⟩ := Option.map_eq_some_iff.mp stepped
  obtain ⟨le, -, sure⟩ := loadFlag_eq loaded
  refine ok.senderTurns inside (.setSender s _) here (congrArg _ (senders_setSender ..))
    rfl rfl rfl (fun _ => rfl) (fun _ => rfl) (fun j insideShard => ok.links j insideShard p inside)
    rfl ?_ le sure
  funext idx
  cases idx using watchCases with
  | shutdown | live => simp [senderWatch, setSender]
  | peer j => rfl

/-- A turn that loads `live_consumers`. -/
theorem Ok.senderTurnsLive {value : α} {phase : WaitPhase} {index : Nat}
    (here : (s.senders p).pc = .waits value (.check phase 1))
    (stepped : s.senderLive p index
      (fun ready => sendWaited value (AwaitPc.turned phase 1 (size.n + 2) ready)) =
        some after) : Ok size after := by
  obtain ⟨ready, loaded, rfl⟩ := Option.map_eq_some_iff.mp stepped
  obtain ⟨le, -, sure⟩ := loadFlag_eq loaded
  refine ok.senderTurns inside (.setSender s _) here (congrArg _ (senders_setSender ..))
    rfl rfl rfl (fun _ => rfl) (fun _ => rfl) (fun j insideShard => ok.links j insideShard p inside)
    rfl ?_ le (fun unready newest => ?_)
  · funext idx
    cases idx using watchCases with
    | shutdown | live => simp [senderWatch, setSender]
    | peer j => rfl
  · exact of_decide_eq_false (sure unready newest)

/-- A turn that looks at a shard. -/
theorem Ok.senderTurnsShard {value : α} {phase : WaitPhase} {index : Nat} {tail : Usize}
    {ring : TaskRing α} (here : (s.senders p).pc = .waits value (.check phase (shard + 2)))
    (loaded : (s.rings shard p).loadTail index = some (tail, ring)) :
    Ok size ((s.setRing shard p ring).senderAt p
      (sendWaited value (AwaitPc.turned phase (shard + 2) (size.n + 2)
        (!RingState.isFull size.ringCap ring.head.current tail)))) := by
  generalize answer : (!RingState.isFull size.ringCap ring.head.current tail) = ready
  have le : (s.rings shard p).tailView ≤ index := by
    obtain ⟨known, read, -⟩ := Option.map_eq_some_iff.mp loaded
    exact (Location.load_eq_some read).1
  have insideShard : shard < size.n := by
    have watches := ok.senders p inside
    rw [SenderHears, here] at watches
    exact Nat.lt_of_add_lt_add_right (watches.within phase (shard + 2) rfl)
  have link := ok.links shard insideShard p inside
  have outside : (s.senders p).pc.outside = true := by
    rw [here]
    rfl
  obtain ⟨link, rfl, count, -, behind, used, near, newest, -⟩ := link.loadsTail outside loaded
  have rings := rings_setRing s shard p { s.rings shard p with tailView := index }
  have kept (j : Nat) :
      ((s.setRing shard p { s.rings shard p with tailView := index }).rings j p).head =
          (s.rings j p).head ∧
        ((s.setRing shard p { s.rings shard p with tailView := index }).rings j p).lane.published =
          (s.rings j p).lane.published := by
    rcases rings j with ⟨rfl, same⟩ | ⟨-, same⟩ <;> rw [same] <;> exact ⟨rfl, rfl⟩
  have stored : SenderFrame p s
      (s.setRing shard p { s.rings shard p with tailView := index }) :=
    .setRing s rfl rfl rfl
  refine ok.senderTurns inside (stored.trans (.setSender _ _)) here (pc_senderAt ..) rfl rfl rfl
    (fun j => (kept j).1) (fun j => (kept j).2) ?links rfl ?view le ?sure
  case links =>
    intro j insideJ
    change LinkOk size.ringCap j p ((s.setRing shard p
      { s.rings shard p with tailView := index }).rings j p) _ _ _ _
    rcases rings j with ⟨rfl, same⟩ | ⟨-, same⟩ <;> rw [same]
    · exact link
    · exact ok.links j insideJ p inside
  case view =>
    funext idx
    cases idx using watchCases with
    | shutdown | live => simp [senderWatch, setSender, senderAt, setRing]
    | peer j =>
        change ((s.setRing shard p { s.rings shard p with tailView := index }).rings j p).tailView =
          Function.update (s.senderWatch size p).view (shard + 2) index (j + 2)
        rcases rings j with ⟨rfl, same⟩ | ⟨other, same⟩ <;> rw [same]
        · rw [Function.update_self]
        · rw [Function.update_of_ne (by omega)]
          rfl
  case sure =>
    intro unready all
    have full : RingState.isFull size.ringCap (s.rings shard p).head.current tail = true := by
      rw [unready] at answer
      simpa using answer
    rw [RingState.isFull, decide_eq_true_iff] at full
    change (s.rings shard p).lane.published =
      (s.rings shard p).lane.released + size.ringCap.size
    have nothing : (s.senders p).pc.ahead shard = [] := by
      rw [here]
      rfl
    have written : (s.rings shard p).lane.written.length = (s.rings shard p).lane.published := by
      rw [link.written, nothing, List.append_nil]
      exact link.ok.sound.length_sent
    have all : count = (s.rings shard p).lane.released := newest all
    have near : (s.rings shard p).lane.written.length ≤ count + size.ringCap.size := near
    have positive : 0 < size.ringCap.size := size.ringCap.size_pos
    rw [used] at full
    have full : size.ringCap.size ≤ (s.rings shard p).lane.written.length - count := full
    omega

end Wait

/-! ### All steps of a producer -/

section Step

variable (ok : Ok size s) (inside : p < size.m)

include ok inside

/-- A load of `shutdown` outside of a wait. -/
theorem Ok.senderLoadsShutdown {was : MpmcSenderPc α} {index : Nat}
    {next : Bool → MpmcSenderPc α} (here : (s.senders p).pc = was) (aside : was.aside = true)
    (starts : ∀ set, (next set).Starts) (stepped : s.senderShutdown p index next = some after) :
    Ok size after := by
  obtain ⟨set, loaded, rfl⟩ := Option.map_eq_some_iff.mp stepped
  have outside := MpmcSenderPc.Starts.outside (.inl aside)
  exact ok.senderGoes inside here outside (MpmcSenderPc.wait_of_aside aside)
    (fun _ _ => MpmcSenderPc.lastFor_of_aside aside _) (starts set) (loadFlag_eq loaded).1 le_rfl

/-- A load of `live_consumers` outside of a wait. -/
theorem Ok.senderLoadsLive {was : MpmcSenderPc α} {index : Nat}
    {next : Bool → MpmcSenderPc α} (here : (s.senders p).pc = was) (aside : was.aside = true)
    (starts : ∀ zero, (next zero).Starts) (stepped : s.senderLive p index next = some after) :
    Ok size after := by
  obtain ⟨zero, loaded, rfl⟩ := Option.map_eq_some_iff.mp stepped
  have outside := MpmcSenderPc.Starts.outside (.inl aside)
  exact ok.senderGoes inside here outside (MpmcSenderPc.wait_of_aside aside)
    (fun _ _ => MpmcSenderPc.lastFor_of_aside aside _) (starts zero) le_rfl (loadFlag_eq loaded).1

/-- The task goes on aside. -/
theorem Ok.senderAside {was pc : MpmcSenderPc α} (here : (s.senders p).pc = was)
    (aside : was.aside = true) (starts : pc.Starts) : Ok size (s.senderAt p pc) :=
  ok.senderGoes inside here (MpmcSenderPc.Starts.outside (.inl aside))
    (MpmcSenderPc.wait_of_aside aside) (fun _ _ => MpmcSenderPc.lastFor_of_aside aside _) starts
    le_rfl le_rfl

/-- A turn of the predicate, whatever it looks at. -/
theorem Ok.senderCheck {value : α} {phase : WaitPhase} {k index : Nat}
    (here : (s.senders p).pc = .waits value (.check phase k))
    (stepped : s.senderCheck size p value phase k index = some after) : Ok size after := by
  cases k using watchCases with
  | shutdown => exact ok.senderTurnsShutdown inside here stepped
  | live => exact ok.senderTurnsLive inside here stepped
  | peer shard =>
      obtain ⟨⟨tail, ring⟩, loaded, rfl⟩ := Option.map_eq_some_iff.mp stepped
      exact ok.senderTurnsShard inside here loaded

/-- A step of the wait. -/
theorem Ok.senderWait {value : α} {pc : AwaitPc Nat} {index : Nat}
    (here : (s.senders p).pc = .waits value pc)
    (stepped : s.senderWait size p value index pc = some after) : Ok size after := by
  cases pc with
  | check phase k => exact ok.senderCheck inside here stepped
  | notified | poll | suspended | dropNotified next | disarm next =>
      simp only [AsyncMpmc.senderWait, Option.map_eq_some_iff] at stepped
      obtain ⟨step, taken, rfl⟩ := stepped
      exact ok.senderAwaits inside here taken

/-- The next shard of a scan. -/
theorem Ok.senderScans {call : MpmcTaskSend α} {items : List α} {start k index : Nat}
    {saw : Bool} (here : (s.senders p).pc = .scan call items start k)
    (stepped : s.senderTick size p index saw = some after) : Ok size after := by
  simp only [senderTick, here] at stepped
  obtain ⟨⟨tail, ring⟩, loaded, rfl⟩ := Option.map_eq_some_iff.mp stepped
  have insideShard : (start + k) % size.n < size.n := Nat.mod_lt _ size.n_pos
  dsimp only
  split
  · refine ok.senderLooks inside here insideShard rfl rfl (fun _ _ => rfl) loaded ?_
    split
    · exact .inl rfl
    · exact MpmcSenderPc.starts_sendRejected call
  · exact ok.senderFinds inside here insideShard rfl rfl (fun _ _ => rfl) loaded (by assumption)

/-- A step of the wake behind a store of `head`. -/
theorem Ok.senderWakesConsumer {written : List α} {stage : WakeStage} {index : Nat} {saw : Bool}
    (here : (s.senders p).pc = .wakeConsumer shard written stage)
    (stepped : s.senderTick size p index saw = some after) : Ok size after := by
  simp only [senderTick, here] at stepped
  split at stepped <;> cases stepped
  · rename_i next goesOn
    exact ok.senderWakes inside here (.refl s) rfl (.inl ⟨next, goesOn, rfl, rfl⟩)
  · rename_i done
    exact ok.senderWakes inside here (.accepts s shard _) rfl (.inr ⟨done, rfl, rfl⟩)

/-- Every step of a producer keeps the invariant. -/
theorem Ok.senderTick {index : Nat} {saw : Bool}
    (stepped : s.senderTick size p index saw = some after) : Ok size after := by
  cases here : (s.senders p).pc with
  | idle | gone => simp [AsyncMpmc.senderTick, here] at stepped
  | unpolled value =>
      simp only [AsyncMpmc.senderTick, here, Option.some.injEq] at stepped
      subst stepped
      exact ok.senderAside inside here rfl (.inl rfl)
  | loopShutdown value =>
      simp only [AsyncMpmc.senderTick, here] at stepped
      refine ok.senderLoadsShutdown inside here rfl (fun set => ?_) stepped
      cases set <;> exact .inl rfl
  | loopLive value =>
      simp only [AsyncMpmc.senderTick, here] at stepped
      refine ok.senderLoadsLive inside here rfl (fun zero => ?_) stepped
      cases zero <;> exact .inl rfl
  | waits value pc =>
      simp only [AsyncMpmc.senderTick, here] at stepped
      exact ok.senderWait inside here stepped
  | loadShutdown call value =>
      simp only [AsyncMpmc.senderTick, here] at stepped
      refine ok.senderLoadsShutdown inside here rfl (fun set => ?_) stepped
      cases set
      · exact .inl rfl
      · exact MpmcSenderPc.starts_sendRejected call
  | loadLive call value =>
      simp only [AsyncMpmc.senderTick, here] at stepped
      refine ok.senderLoadsLive inside here rfl (fun zero => ?_) stepped
      cases zero
      · exact .inl rfl
      · exact MpmcSenderPc.starts_sendRejected call
  | scan call items start k => exact ok.senderScans inside here stepped
  | write call shard head left written =>
      simp only [AsyncMpmc.senderTick, here] at stepped
      split at stepped <;> cases stepped
      · exact ok.senderFilled inside here
      · exact ok.senderWrites inside here
  | publish call shard head written =>
      simp only [AsyncMpmc.senderTick, here, Option.some.injEq] at stepped
      subst stepped
      exact ok.senderPublishes inside here
  | wakeConsumer shard written stage => exact ok.senderWakesConsumer inside here stepped
  | fetchSub =>
      simp only [AsyncMpmc.senderTick, here] at stepped
      split at stepped <;> cases stepped
      · exact ok.senderLeaves inside here (.inl ⟨by assumption, rfl⟩)
      · exact ok.senderLeaves inside here (.inr ⟨by assumption, rfl⟩)
  | wakeLast shard stage =>
      simp only [AsyncMpmc.senderTick, here] at stepped
      split at stepped
      · split at stepped <;> cases stepped
        · rename_i next goesOn
          exact ok.senderWakesLast inside here (.inl ⟨next, goesOn, rfl⟩)
        · rename_i done
          exact ok.senderWakesLast inside here (.inr ⟨done, rfl⟩)
      · cases stepped
        refine ok.senderGoes inside here rfl rfl (fun j insideShard => ?_) (.inl rfl) le_rfl le_rfl
        exact decide_eq_false (by omega)

theorem Ok.senderCall {pc : MpmcSenderPc α} (starts : pc.Starts)
    (stepped : s.senderCall p pc = some after) : Ok size after := by
  unfold AsyncMpmc.senderCall at stepped
  split at stepped <;> cases stepped
  exact ok.senderAside inside (by assumption) rfl starts

theorem Ok.senderStep {action : MpmcSenderAction α}
    (stepped : s.senderStep size p action = some after) : Ok size after := by
  cases action with
  | tick index saw => exact ok.senderTick inside stepped
  | trySend value | sendAsync value | drop => exact ok.senderCall inside (.inl rfl) stepped
  | trySendBatch items =>
      refine ok.senderCall inside ?_ stepped
      split <;> exact .inl rfl
  | cancel =>
      simp only [AsyncMpmc.senderStep] at stepped
      split at stepped <;> cases stepped
      · exact ok.senderAside inside (by assumption) rfl (.inl rfl)
      · exact ok.senderCancels inside (by assumption)

end Step

end AsyncMpmc

end ArbitroKit
