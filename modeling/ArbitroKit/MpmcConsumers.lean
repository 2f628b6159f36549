import ArbitroKit.MpmcFacts

/-!
# Consumers of the sharded channel

A receive that starts inside a callback is sound as long as it does not load the
cursor of a ring that a call around it is still draining: that cursor is behind
the values the outer call has moved out.  Under this condition a step of a
consumer keeps the rings in order and the facts of all its running calls.
-/

namespace ArbitroKit

open SlotLane Cyclic Transition

namespace MpmcState

variable {α : Type*}

/-- The rings the calls are draining. -/
def draining (frames : List (MpmcFrame α)) : List Nat :=
  frames.filterMap fun frame =>
    match frame with
    | .drainCallback _ p _ _ _ => some p
    | _ => none

/-- The innermost call is about to load the cursor of a ring that a call around it
is still draining. -/
def rereads : MpmcConsumerPc α → Bool
  | .running (.scanTail _ p :: rest) => decide (p ∈ draining rest)
  | .running (.drainTail _ p _ _ :: rest) => decide (p ∈ draining rest)
  | _ => false

/-- The step loads no cursor of a ring that is being drained further out. -/
def rereadsNothing (s : MpmcState α) : MpmcAction α → Bool
  | .consumer shard .tick => !rereads (s.consumers shard)
  | _ => true

/-- The runs whose nested receives keep off the rings being drained around them. -/
def apart (size : MpmcSize) : System (MpmcState α) (MpmcAction α) :=
  (system size).guarded fun s action => s.rereadsNothing action = true

/-! ### The stack of calls -/

section Frames

variable {rings moved : Nat → PRing α} {frame next : MpmcFrame α} {rest : List (MpmcFrame α)}

/-- Around the innermost call, holding a ring is draining it. -/
theorem draining_eq (callbacks : ∀ frame ∈ rest, isCallback frame = true) :
    draining rest = rest.filterMap holds := by
  refine List.filterMap_congr fun frame member => ?_
  have callback := callbacks frame member
  cases frame with
  | drainCallback call p count head tail => rfl
  | _ => cases callback

theorem FramesOk.inFlight_rest (ok : FramesOk rings (frame :: rest)) (p : Nat) :
    rest.flatMap (inFlight p) = [] := by
  refine List.flatMap_eq_nil_iff.mpr fun outer member => ?_
  have callback := ok.callbacks outer member
  cases outer with
  | drainCallback call here count head tail => rfl
  | _ => cases callback

theorem FramesOk.holds_apart (ok : FramesOk rings (frame :: rest)) {p : Nat}
    (held : holds frame = some p) : p ∉ rest.filterMap holds := by
  have apart := ok.apart
  rw [List.filterMap_cons_some held] at apart
  exact (List.nodup_cons.mp apart).1

theorem FramesOk.delivered_top (ok : FramesOk rings (frame :: rest)) (p : Nat) :
    (rings p).lane.received = (rings p).delivered ++ inFlight p frame := by
  have delivered := ok.delivered p
  rwa [List.flatMap_cons, ok.inFlight_rest, List.append_nil] at delivered

theorem FramesOk.rest_apart (ok : FramesOk rings (frame :: rest)) :
    (rest.filterMap holds).Nodup := by
  have apart := ok.apart
  cases held : holds frame with
  | none => rwa [List.filterMap_cons_none held] at apart
  | some p =>
      rw [List.filterMap_cons_some held] at apart
      exact (List.nodup_cons.mp apart).2

theorem mem_holds_cons {q : Nat} :
    q ∈ (frame :: rest).filterMap holds ↔ holds frame = some q ∨ q ∈ rest.filterMap holds := by
  simp [List.mem_filterMap]

/-- The innermost call takes a step, which leaves the rings held further out alone. -/
theorem FramesOk.step (ok : FramesOk rings (frame :: rest))
    (others : ∀ q ∈ rest.filterMap holds, moved q = rings q)
    (apart : ∀ p, holds next = some p → p ∉ rest.filterMap holds)
    (here : ∀ p, holds next = some p → FrameAt (moved p).lane next)
    (defined : next ≠ .undefined)
    (idle : ∀ q, holds next ≠ some q → q ∉ rest.filterMap holds →
      (moved q).lane.received.length = (moved q).lane.released)
    (delivered : ∀ q, (moved q).lane.received = (moved q).delivered ++ inFlight q next) :
    FramesOk moved (next :: rest) where
  apart := by
    cases held : holds next with
    | none =>
        rw [List.filterMap_cons_none held]
        exact ok.rest_apart
    | some p =>
        rw [List.filterMap_cons_some held]
        exact List.nodup_cons.mpr ⟨apart p held, ok.rest_apart⟩
  each inner member p held := by
    rcases List.mem_cons.mp member with rfl | member
    · exact here p held
    · rw [others p (List.mem_filterMap.mpr ⟨inner, member, held⟩)]
      exact ok.each inner (List.mem_cons_of_mem _ member) p held
  defined member := by
    rcases List.mem_cons.mp member with same | member
    · exact defined same.symm
    · exact ok.defined (List.mem_cons_of_mem _ member)
  idle q free := by
    rw [mem_holds_cons, not_or] at free
    exact idle q free.1 free.2
  callbacks := ok.callbacks
  delivered q := by
    rw [List.flatMap_cons, ok.inFlight_rest, List.append_nil]
    exact delivered q

/-- A step that touches no ring and holds what it held, or gives it up between two
items. -/
theorem FramesOk.quiet (ok : FramesOk rings (frame :: rest))
    (held : holds next = holds frame ∨ holds next = none ∧ ∀ p, holds frame = some p →
      (rings p).lane.received.length = (rings p).lane.released)
    (here : ∀ p, holds next = some p → FrameAt (rings p).lane next)
    (defined : next ≠ .undefined) (same : ∀ q, inFlight q next = inFlight q frame) :
    FramesOk rings (next :: rest) := by
  refine ok.step (fun _ _ => rfl) (fun p some => ?_) here defined (fun q none free => ?_)
    fun q => by rw [same]; exact ok.delivered_top q
  · rcases held with same | ⟨none, -⟩
    · exact ok.holds_apart (same.symm.trans some)
    · rw [none] at some
      cases some
  · by_cases holding : holds frame = some q
    · rcases held with same | ⟨-, released⟩
      · exact absurd (same.trans holding) none
      · exact released q holding
    · exact ok.idle q (by rw [mem_holds_cons, not_or]; exact ⟨holding, free⟩)

/-- The innermost call loads the cursor of a ring nobody is draining. -/
theorem FramesOk.acquire (ok : FramesOk rings (frame :: rest)) {p : Nat}
    (none : holds frame = none) (held : holds next = some p) (free : p ∉ rest.filterMap holds)
    (here : (rings p).lane.received.length = (rings p).lane.released → FrameAt (rings p).lane next)
    (defined : next ≠ .undefined) (same : ∀ q, inFlight q next = inFlight q frame) :
    FramesOk rings (next :: rest) := by
  have idle {q : Nat} (freeQ : q ∉ rest.filterMap holds) :
      (rings q).lane.received.length = (rings q).lane.released :=
    ok.idle q (by rw [mem_holds_cons, not_or, none]; exact ⟨nofun, freeQ⟩)
  refine ok.step (fun _ _ => rfl) (fun q some => ?_) (fun q some => ?_) defined
    (fun q _ freeQ => idle freeQ) fun q => by rw [same]; exact ok.delivered_top q
  · obtain rfl : p = q := Option.some.inj (held.symm.trans some)
    exact free
  · obtain rfl : p = q := Option.some.inj (held.symm.trans some)
    exact here (idle free)

/-- The innermost call changes the ring it holds. -/
theorem FramesOk.inRing (ok : FramesOk rings (frame :: rest)) {p : Nat} {ring : PRing α}
    (held : holds frame = some p) (still : holds next = some p ∨ holds next = none)
    (here : holds next = some p → FrameAt ring.lane next)
    (released : holds next = none → ring.lane.received.length = ring.lane.released)
    (defined : next ≠ .undefined)
    (delivered : ring.lane.received = ring.delivered ++ inFlight p next)
    (same : ∀ q, q ≠ p → inFlight q next = inFlight q frame) :
    FramesOk (Function.update rings p ring) (next :: rest) := by
  have apart := ok.holds_apart held
  have only {q : Nat} (some : holds next = some q) : q = p := by
    rcases still with keeps | none
    · exact (Option.some.inj (keeps.symm.trans some)).symm
    · rw [none] at some
      cases some
  refine ok.step (fun q member => Function.update_of_ne ?_ _ _) (fun q some => ?_)
    (fun q some => ?_) defined (fun q none free => ?_) fun q => ?_
  · rintro rfl
    exact apart member
  · rw [only some]
    exact apart
  · obtain rfl := only some
    rw [Function.update_self]
    exact here some
  · by_cases same : q = p
    · subst same
      rw [Function.update_self]
      rcases still with keeps | gone
      · exact absurd keeps none
      · exact released gone
    · rw [Function.update_of_ne same]
      refine ok.idle q ?_
      rw [mem_holds_cons, not_or, held]
      exact ⟨fun equal => same (Option.some.inj equal).symm, free⟩
  · by_cases at_ : q = p
    · rw [at_, Function.update_self]
      exact delivered
    · rw [Function.update_of_ne at_, same q at_]
      exact ok.delivered_top q

/-- The innermost call hands out the value it has in flight. -/
theorem FramesOk.handOut (ok : FramesOk rings (frame :: rest)) {p : Nat} {value : α}
    (unheld : holds frame = none) (carries : ∀ q, inFlight q frame = if p = q then [value] else [])
    (noneNext : holds next = none) (defined : next ≠ .undefined)
    (nothing : ∀ q, inFlight q next = []) :
    FramesOk (Function.update rings p ((rings p).deliver value)) (next :: rest) := by
  have lanes (q : Nat) :
      (Function.update rings p ((rings p).deliver value) q).lane = (rings q).lane := by
    by_cases same : q = p
    · rw [same, Function.update_self]
      rfl
    · rw [Function.update_of_ne same]
  exact
    { apart := by
        rw [List.filterMap_cons_none noneNext]
        exact ok.rest_apart
      each := fun inner member q held => by
        rcases List.mem_cons.mp member with rfl | member
        · rw [noneNext] at held
          cases held
        · rw [lanes]
          exact ok.each inner (List.mem_cons_of_mem _ member) q held
      defined := fun member => by
        rcases List.mem_cons.mp member with same | member
        · exact defined same.symm
        · exact ok.defined (List.mem_cons_of_mem _ member)
      idle := fun q free => by
        rw [lanes]
        refine ok.idle q fun member => free (mem_holds_cons.mpr (.inr ?_))
        exact (mem_holds_cons.mp member).resolve_left (by rw [unheld]; nofun)
      callbacks := ok.callbacks
      delivered := fun q => by
        have delivered := ok.delivered_top q
        rw [carries] at delivered
        rw [lanes, List.flatMap_cons, nothing, ok.inFlight_rest, List.append_nil]
        by_cases same : q = p
        · subst same
          rw [Function.update_self, delivered, if_pos rfl]
          exact (List.append_nil _).symm
        · rw [Function.update_of_ne same, delivered, if_neg (Ne.symm same)] }

/-- The innermost call returns. -/
theorem FramesOk.pop (ok : FramesOk rings (frame :: rest)) (none : holds frame = none)
    (nothing : ∀ q, inFlight q frame = []) : FramesOk rings rest where
  apart := ok.rest_apart
  each inner member := ok.each inner (List.mem_cons_of_mem _ member)
  defined member := ok.defined (List.mem_cons_of_mem _ member)
  idle q free := ok.idle q (by rw [mem_holds_cons, not_or, none]; exact ⟨nofun, free⟩)
  callbacks inner member := ok.callbacks inner (List.mem_of_mem_tail member)
  delivered q := by
    rw [ok.inFlight_rest, ← nothing q]
    exact ok.delivered_top q

/-- A receive starts, on an idle handle or inside a callback. -/
theorem FramesOk.push {frames : List (MpmcFrame α)} (ok : FramesOk rings frames)
    (may : mayCall frames = true) (none : holds next = none) (defined : next ≠ .undefined)
    (nothing : ∀ q, inFlight q next = []) : FramesOk rings (next :: frames) where
  apart := by
    rw [List.filterMap_cons_none none]
    exact ok.apart
  each inner member p held := by
    rcases List.mem_cons.mp member with rfl | member
    · rw [none] at held
      cases held
    · exact ok.each inner member p held
  defined member := by
    rcases List.mem_cons.mp member with same | member
    · exact defined same.symm
    · exact ok.defined member
  idle q free := ok.idle q fun member => free (mem_holds_cons.mpr (.inr member))
  callbacks inner member := by
    cases frames with
    | nil => cases member
    | cons frame rest =>
        rcases List.mem_cons.mp member with rfl | member
        · cases inner with
          | drainCallback call p count head tail => rfl
          | _ => cases may
        · exact ok.callbacks inner member
  delivered q := by
    rw [List.flatMap_cons, nothing, List.nil_append]
    exact ok.delivered q

end Frames

section Steps

variable {size : MpmcSize} {s after : MpmcState α} {shard : Nat}

/-- What a consumer's step shows: the rings of its shard drain, everything else about
rings and handles stays. -/
structure ConsumerFrame (shard : Nat) (before after : MpmcState α) : Prop where
  drains : ∀ p,
    (before.rings shard p).lane.released ≤ (before.rings shard p).lane.received.length →
      PRing.Drains (before.rings shard p) (after.rings shard p)
  rings : ∀ other, other ≠ shard → after.rings other = before.rings other
  consumers : ∀ other, other ≠ shard → after.consumers other = before.consumers other
  producers : after.producers = before.producers
  shutdown : after.shutdown = before.shutdown
  liveProducers : after.liveProducers = before.liveProducers
  signallers : after.signallers = before.signallers
  acked : after.history.acked = before.history.acked
  ackedAtTerminal : after.history.ackedAtTerminal = before.history.ackedAtTerminal
  deadOnArrival : after.history.deadOnArrival = before.history.deadOnArrival
  ackedAtDrop : before.consumers shard ≠ .fetchSub →
    after.history.ackedAtDrop = before.history.ackedAtDrop
  looked : ∀ other, other ≠ shard → after.history.looked other = before.history.looked other

namespace ConsumerFrame

variable {before : MpmcState α}

theorem refl (shard : Nat) (s : MpmcState α) : ConsumerFrame shard s s where
  drains _ _ := .refl _
  rings _ _ := rfl
  consumers _ _ := rfl
  producers := rfl
  shutdown := rfl
  liveProducers := rfl
  signallers := rfl
  acked := rfl
  ackedAtTerminal := rfl
  deadOnArrival := rfl
  ackedAtDrop _ := rfl
  looked _ _ := rfl

theorem consumerAt (frame : ConsumerFrame shard before after) (pc : MpmcConsumerPc α) :
    ConsumerFrame shard before (after.consumerAt shard pc) :=
  { frame with
    consumers := fun other ne => by
      simpa [MpmcState.consumerAt, ne] using frame.consumers other ne }

theorem look (frame : ConsumerFrame shard before after) (p : Nat) :
    ConsumerFrame shard before (after.look shard p) :=
  { frame with
    looked := fun other ne => by
      simpa [MpmcState.look, setEntry, ne] using frame.looked other ne }

theorem noteDrop (frame : ConsumerFrame shard before after) (size : MpmcSize)
    (drops : before.consumers shard = .fetchSub) :
    ConsumerFrame shard before (after.noteDrop size) :=
  { frame with ackedAtDrop := fun stays => absurd drops stays }

theorem setConsumerWaiter (frame : ConsumerFrame shard before after) (here : Nat)
    (waiter : Waiter) : ConsumerFrame shard before (after.setConsumerWaiter here waiter) :=
  { frame with }

theorem wakeProducer (frame : ConsumerFrame shard before after) (p : Nat) :
    ConsumerFrame shard before (after.wakeProducer p) :=
  { frame with }

theorem setLive (frame : ConsumerFrame shard before after) (count : Nat) :
    ConsumerFrame shard before { after with liveConsumers := count } :=
  { frame with }

theorem setRing {p : Nat} {ring : PRing α}
    (drains : (before.rings shard p).lane.released ≤ (before.rings shard p).lane.received.length →
      PRing.Drains (before.rings shard p) ring) :
    ConsumerFrame shard before (before.setRing shard p ring) :=
  { refl shard before with
    drains := fun q le => by
      by_cases same : q = p
      · subst same
        rw [rings_setRing]
        exact drains le
      · rw [rings_setRing_of_ne _ _ (.inr same)]
        exact .refl _
    rings := fun other ne => by
      funext q
      exact rings_setRing_of_ne _ _ (.inl ne) }

end ConsumerFrame

theorem drains_read (ring : PRing α) (index : Nat) :
    PRing.Drains ring { ring with lane := (ring.lane.read index).2 } := by
  unfold Lane.read
  split <;> exact ⟨rfl, rfl, rfl, le_rfl⟩

theorem frameTick_frame {rest : List (MpmcFrame α)} {frame : MpmcFrame α}
    (taken : s.frameTick size shard rest frame = some after) : ConsumerFrame shard s after := by
  have here := ConsumerFrame.refl shard s
  unfold frameTick at taken
  cases frame with
  | scanTail call p | drainTail call p count progress | workHead call phase p
  | terminalLive call asker =>
      cases taken
      exact here.consumerAt _
  | scanHead call p tail | drainHead call p count progress tail =>
      dsimp only at taken
      split at taken <;> cases taken <;> exact (here.look _).consumerAt _
  | scanRead call p tail =>
      dsimp only at taken
      split at taken <;> cases taken <;>
        exact (ConsumerFrame.setRing fun _ => drains_read _ _).consumerAt _
  | drainRead call p count head tail =>
      have drains := drains_read (s.rings shard p) (size.ringCap.slot tail)
      dsimp only at taken
      split at taken <;> cases taken
      · refine (ConsumerFrame.setRing fun _ => ?_).consumerAt _
        exact ⟨drains.head, drains.written, drains.published, drains.released⟩
      · exact (ConsumerFrame.setRing fun _ => drains).consumerAt _
  | scanStore call p tail value =>
      cases taken
      exact (ConsumerFrame.setRing fun le => PRing.drains_storeTail le _).consumerAt _
  | drainStore call p count tail =>
      cases taken
      exact (ConsumerFrame.setRing fun le => PRing.drains_storeTail le _).consumerAt _
  | drainUnwind p tail =>
      cases taken
      exact (ConsumerFrame.setRing fun le => PRing.drains_storeTail le _).consumerAt _
  | scanWake call p value =>
      cases taken
      refine ((ConsumerFrame.setRing fun _ => ?_).wakeProducer p).consumerAt _
      exact ⟨rfl, rfl, rfl, le_rfl⟩
  | drainWake call p count =>
      cases taken
      exact (here.wakeProducer p).consumerAt _
  | drainCallback call p count head tail | terminalShutdown call asker
  | workTail call phase p head =>
      dsimp only at taken
      split at taken <;> cases taken <;> exact here.consumerAt _
  | waitAnnounce call | waitLeave call =>
      cases taken
      exact (here.setConsumerWaiter _ _).consumerAt _
  | waitPark call =>
      dsimp only at taken
      split at taken <;> cases taken
      exact (here.setConsumerWaiter _ _).consumerAt _
  | returned outcome =>
      cases taken
      exact here.consumerAt _
  | undefined => cases taken

theorem consumerStep_frame {action : MpmcConsumerAction}
    (taken : s.consumerStep size shard action = some after) : ConsumerFrame shard s after := by
  have here := ConsumerFrame.refl shard s
  cases action with
  | tick =>
      simp only [consumerStep, consumerTick] at taken
      split at taken
      · cases taken
      · exact frameTick_frame taken
      · rename_i pcEq
        split at taken <;> cases taken <;>
          exact ((here.noteDrop _ pcEq).setLive _).consumerAt _
      · split at taken <;> cases taken
        · exact (here.wakeProducer _).consumerAt _
        · exact here.consumerAt _
      · cases taken
  | tryRecv | recv | tryRecvBatch | recvBatch =>
      simp only [consumerStep, call] at taken
      split at taken
      · split at taken <;> cases taken
        exact here.consumerAt _
      · cases taken
  | drop | panic | spin | spurious =>
      simp only [consumerStep] at taken
      split at taken <;> cases taken
      exact here.consumerAt _

/-! ### Own steps -/

theorem rings_consumerAt (s : MpmcState α) (shard : Nat) (pc : MpmcConsumerPc α) :
    (s.consumerAt shard pc).rings = s.rings := rfl

theorem consumers_consumerAt (s : MpmcState α) (shard : Nat) (pc : MpmcConsumerPc α) :
    (s.consumerAt shard pc).consumers shard = pc := by
  simp [consumerAt]

/-- Arriving at a stack of calls. -/
theorem consumerOk_at {moved : MpmcState α} {frames : List (MpmcFrame α)}
    (ok : FramesOk (moved.rings shard) frames) :
    ConsumerOk (moved.consumerAt shard (.running frames)) shard := by
  rw [ConsumerOk, consumers_consumerAt, rings_consumerAt]
  exact ok

/-- A place between two scans, passes or checks: nothing is held or in flight. -/
def Free (frame : MpmcFrame α) : Prop :=
  holds frame = none ∧ frame ≠ .undefined ∧ ∀ q, inFlight q frame = []

theorem free_scanAt (call : MpmcRecvCall) (p : Nat) : Free (scanAt size call p : MpmcFrame α) := by
  unfold scanAt
  split
  · exact ⟨rfl, nofun, fun _ => rfl⟩
  · cases call <;> exact ⟨rfl, nofun, fun _ => rfl⟩

theorem free_drainAt (call : MpmcBatchCall) (p count : Nat) (progress : Bool) :
    Free (drainAt size call p count progress : MpmcFrame α) := by
  unfold drainAt batchDone
  split
  · exact ⟨rfl, nofun, fun _ => rfl⟩
  · split
    · exact ⟨rfl, nofun, fun _ => rfl⟩
    · cases call
      · exact ⟨rfl, nofun, fun _ => rfl⟩
      · dsimp only
        split <;> exact ⟨rfl, nofun, fun _ => rfl⟩

theorem free_receiveAgain (call : MpmcBlocking) :
    Free (receiveAgain size call : MpmcFrame α) := by
  cases call with
  | recv => exact free_scanAt .recv 0
  | recvBatch => exact free_drainAt .recvBatch 0 0 false

theorem free_recvWaited (call : MpmcBlocking) (phase : WaitPhase) (ready : Bool) :
    Free (recvWaited size call phase ready : MpmcFrame α) := by
  cases phase <;> cases ready
  · exact ⟨rfl, nofun, fun _ => rfl⟩
  · exact free_receiveAgain call
  · exact ⟨rfl, nofun, fun _ => rfl⟩
  · exact ⟨rfl, nofun, fun _ => rfl⟩

theorem free_terminalAnswer (call : MpmcBlocking) (asker : MpmcAsker) (terminal : Bool) :
    Free (terminalAnswer size call asker terminal : MpmcFrame α) := by
  cases asker with
  | check => cases terminal <;> exact ⟨rfl, nofun, fun _ => rfl⟩
  | predicate phase => exact free_recvWaited call phase terminal

theorem free_workAt (call : MpmcBlocking) (phase : WaitPhase) (p : Nat) :
    Free (workAt size call phase p : MpmcFrame α) := by
  unfold workAt
  split <;> exact ⟨rfl, nofun, fun _ => rfl⟩

theorem FramesOk.release {rings : Nat → PRing α} {frame next : MpmcFrame α}
    {rest : List (MpmcFrame α)} (ok : FramesOk rings (frame :: rest)) (free : Free next)
    (released : ∀ p, holds frame = some p →
      (rings p).lane.received.length = (rings p).lane.released)
    (nothing : ∀ q, inFlight q frame = []) : FramesOk rings (next :: rest) :=
  ok.quiet (.inr ⟨free.1, released⟩) (fun _ held => absurd (free.1.symm.trans held) nofun)
    free.2.1 fun q => (free.2.2 q).trans (nothing q).symm

theorem FramesOk.call {rings : Nat → PRing α} {next : MpmcFrame α}
    {frames : List (MpmcFrame α)} (ok : FramesOk rings frames) (may : mayCall frames = true)
    (free : Free next) : FramesOk rings (next :: frames) :=
  ok.push may free.1 free.2.1 free.2.2

theorem rings_setRing_shard (s : MpmcState α) (shard p : Nat) (ring : PRing α) :
    (s.setRing shard p ring).rings shard = Function.update (s.rings shard) p ring := by
  simp [setRing, setEntry]

/-- Arriving at a stack of calls with one ring changed. -/
theorem consumerOk_setRing {moved : MpmcState α} {p : Nat} {ring : PRing α}
    {frames : List (MpmcFrame α)} (rings : moved.rings = (s.setRing shard p ring).rings)
    (ok : FramesOk (Function.update (s.rings shard) p ring) frames) :
    ConsumerOk (moved.consumerAt shard (.running frames)) shard := by
  refine consumerOk_at ?_
  rw [rings, rings_setRing_shard]
  exact ok

/-- The innermost call takes its step. -/
theorem frame_ownTick (rings : RingsOk size s) {rest : List (MpmcFrame α)} {frame : MpmcFrame α}
    (ok : FramesOk (s.rings shard) (frame :: rest))
    (fresh : rereads (.running (frame :: rest)) = false)
    (taken : s.frameTick size shard rest frame = some after) :
    RingsOk size after ∧ ConsumerOk after shard := by
  have here (p : Nat) (held : holds frame = some p) : FrameAt (s.rings shard p).lane frame :=
    ok.each frame List.mem_cons_self p held
  have drainingRest : draining rest = rest.filterMap holds := draining_eq ok.callbacks
  unfold frameTick at taken
  cases frame with
  | scanTail call p =>
      cases taken
      have free : p ∉ rest.filterMap holds := drainingRest ▸ of_decide_eq_false fresh
      refine ⟨rings, consumerOk_at (ok.acquire rfl rfl free (fun released => ?_) nofun
        fun _ => rfl)⟩
      exact ⟨released, (rings shard p).tail⟩
  | drainTail call p count progress =>
      cases taken
      have free : p ∉ rest.filterMap holds := drainingRest ▸ of_decide_eq_false fresh
      refine ⟨rings, consumerOk_at (ok.acquire rfl rfl free (fun released => ?_) nofun
        fun _ => rfl)⟩
      exact ⟨released, (rings shard p).tail⟩
  | scanHead call p tail =>
      obtain ⟨received, tailEq⟩ := here p rfl
      dsimp only at taken
      split at taken <;> cases taken
      · refine ⟨rings, consumerOk_at (ok.release (free_scanAt call (p + 1)) ?_ fun _ => rfl)⟩
        rintro q held
        cases held
        exact received
      · rename_i nonempty
        refine ⟨rings, consumerOk_at (ok.quiet (.inl rfl) ?_ nofun fun _ => rfl)⟩
        rintro q held
        cases held
        refine ⟨received, tailEq, lt_of_le_of_ne (rings shard p).near.1 fun same => nonempty ?_⟩
        rw [tailEq, (rings shard p).head, same]
  | drainHead call p count progress tail =>
      obtain ⟨received, tailEq⟩ := here p rfl
      dsimp only at taken
      split at taken <;> cases taken
      · refine ⟨rings, consumerOk_at (ok.release (free_drainAt call (p + 1) count progress) ?_
          fun _ => rfl)⟩
        rintro q held
        cases held
        exact received
      · rename_i nonempty
        refine ⟨rings, consumerOk_at (ok.quiet (.inl rfl) ?_ nofun fun _ => rfl)⟩
        rintro q held
        cases held
        refine ⟨by rw [tailEq, received], _, (rings shard p).head, ?_, le_rfl⟩
        rw [received]
        refine lt_of_le_of_ne (rings shard p).near.1 fun same => nonempty ?_
        rw [tailEq, (rings shard p).head, same]
  | scanRead call p tail =>
      obtain ⟨received, tailEq, available⟩ := here p rfl
      have atReceived : tail = BitVec.ofNat 64 (s.rings shard p).lane.received.length := by
        rw [tailEq, received]
      obtain ⟨value, readEq, ringOk, receivedAfter, releasedAfter, -⟩ :=
        (rings shard p).read atReceived (by rw [received]; exact available)
      dsimp only at taken
      rw [readEq] at taken
      cases taken
      refine ⟨rings.setRing ringOk, consumerOk_setRing rfl (ok.inRing rfl (.inl rfl)
        (fun _ => ⟨?_, releasedAfter ▸ tailEq⟩) nofun nofun ?_ fun q other => ?_)⟩
      · rw [receivedAfter, List.length_append, received, releasedAfter]
        rfl
      · have delivered := ok.delivered_top p
        rw [receivedAfter, delivered, inFlight, if_pos rfl]
        exact congrArg (· ++ [value]) (List.append_nil _)
      · exact if_neg (Ne.symm other)
  | scanStore call p tail value =>
      obtain ⟨received, tailEq⟩ := here p rfl
      cases taken
      have next : tail + 1 = BitVec.ofNat 64 (s.rings shard p).lane.received.length := by
        rw [tailEq, ofNat_add_one, received]
      have ringOk := (rings shard p).storeTail next
      exact ⟨rings.setRing ringOk, consumerOk_setRing rfl (ok.inRing rfl (.inr rfl) nofun
        (fun _ => rfl) nofun (ok.delivered_top p) fun _ _ => rfl)⟩
  | scanWake call p value =>
      cases taken
      refine ⟨rings.setRing ((rings shard p).deliver value), consumerOk_setRing rfl
        (ok.handOut rfl (fun _ => rfl) rfl nofun fun _ => rfl)⟩
  | drainRead call p count head tail =>
      obtain ⟨tailEq, last, headEq, before, upto⟩ := here p rfl
      obtain ⟨value, readEq, ringOk, receivedAfter, releasedAfter, publishedAfter, -⟩ :=
        (rings shard p).read tailEq (before.trans_le upto)
      dsimp only at taken
      rw [readEq] at taken
      cases taken
      refine ⟨rings.setRing (ringOk.deliver value), consumerOk_setRing rfl (ok.inRing rfl (.inl rfl)
        (fun _ => ⟨?_, ?_, last, headEq, ?_, ?_⟩) nofun nofun ?_ fun q other => rfl)⟩
      · change _ = BitVec.ofNat 64 ((s.rings shard p).lane.read _).2.received.length
        rw [receivedAfter, List.length_append, tailEq, ofNat_add_one]
        rfl
      · change ((s.rings shard p).lane.read _).2.released <
          ((s.rings shard p).lane.read _).2.received.length
        rw [receivedAfter, releasedAfter, List.length_append]
        exact Nat.lt_succ_of_le (rings shard p).sound.released_le
      · change ((s.rings shard p).lane.read _).2.received.length ≤ _
        rw [receivedAfter, List.length_append]
        exact before
      · change _ ≤ ((s.rings shard p).lane.read _).2.published
        rw [publishedAfter]
        exact upto
      · have delivered := ok.delivered_top p
        change ((s.rings shard p).lane.read _).2.received = (_ ++ [value]) ++ []
        rw [receivedAfter, delivered]
        simp [inFlight]
  | drainCallback call p count head tail =>
      obtain ⟨tailEq, -, last, headEq, before, upto⟩ := here p rfl
      dsimp only at taken
      split at taken <;> cases taken
      · refine ⟨rings, consumerOk_at (ok.quiet (.inl rfl) ?_ nofun fun _ => rfl)⟩
        rintro q held
        cases held
        exact tailEq
      · rename_i unfinished
        refine ⟨rings, consumerOk_at (ok.quiet (.inl rfl) ?_ nofun fun _ => rfl)⟩
        rintro q held
        cases held
        refine ⟨tailEq, last, headEq, lt_of_le_of_ne before fun same => unfinished ?_, upto⟩
        rw [tailEq, headEq, same]
  | drainStore call p count tail =>
      have tailEq := here p rfl
      cases taken
      exact ⟨rings.setRing ((rings shard p).storeTail tailEq), consumerOk_setRing rfl
        (ok.inRing rfl (.inr rfl) nofun (fun _ => rfl) nofun (ok.delivered_top p) fun _ _ => rfl)⟩
  | drainUnwind p tail =>
      have tailEq := (here p rfl).1
      cases taken
      exact ⟨rings.setRing ((rings shard p).storeTail tailEq), consumerOk_setRing rfl
        (ok.inRing rfl (.inr rfl) nofun (fun _ => rfl) nofun (ok.delivered_top p) fun _ _ => rfl)⟩
  | drainWake call p count =>
      cases taken
      exact ⟨rings, consumerOk_at (ok.release (free_drainAt call (p + 1) count true) nofun
        fun _ => rfl)⟩
  | terminalShutdown call asker =>
      dsimp only at taken
      split at taken <;> cases taken
      · exact ⟨rings, consumerOk_at (ok.release (free_terminalAnswer call asker true) nofun
          fun _ => rfl)⟩
      · exact ⟨rings, consumerOk_at (ok.release ⟨rfl, nofun, fun _ => rfl⟩ nofun fun _ => rfl)⟩
  | terminalLive call asker =>
      cases taken
      exact ⟨rings, consumerOk_at (ok.release (free_terminalAnswer call asker _) nofun
        fun _ => rfl)⟩
  | workTail call phase p head =>
      dsimp only at taken
      split at taken <;> cases taken
      · exact ⟨rings, consumerOk_at (ok.release (free_workAt call phase (p + 1)) nofun
          fun _ => rfl)⟩
      · exact ⟨rings, consumerOk_at (ok.release (free_recvWaited call phase true) nofun
          fun _ => rfl)⟩
  | workHead call phase p | waitAnnounce call =>
      cases taken
      exact ⟨rings, consumerOk_at (ok.release ⟨rfl, nofun, fun _ => rfl⟩ nofun fun _ => rfl)⟩
  | waitPark call =>
      dsimp only at taken
      split at taken <;> cases taken
      exact ⟨rings, consumerOk_at (ok.release ⟨rfl, nofun, fun _ => rfl⟩ nofun fun _ => rfl)⟩
  | waitLeave call =>
      cases taken
      exact ⟨rings, consumerOk_at (ok.release (free_receiveAgain call) nofun fun _ => rfl)⟩
  | returned outcome =>
      cases taken
      exact ⟨rings, consumerOk_at (ok.pop rfl fun _ => rfl)⟩
  | undefined => cases taken

theorem consumer_ownStep (rings : RingsOk size s) (ok : ConsumerOk s shard)
    {action : MpmcConsumerAction}
    (fresh : s.rereadsNothing (.consumer shard action) = true)
    (taken : s.consumerStep size shard action = some after) :
    RingsOk size after ∧ ConsumerOk after shard := by
  rw [ConsumerOk] at ok
  cases action with
  | tick =>
      simp only [consumerStep, consumerTick] at taken
      simp only [rereadsNothing, Bool.not_eq_true'] at fresh
      cases pcEq : s.consumers shard with
      | running frames =>
          rw [pcEq] at taken ok fresh
          cases frames with
          | nil => cases taken
          | cons frame rest => exact frame_ownTick rings ok fresh taken
      | fetchSub | wakeLast p =>
          simp only [pcEq] at taken ok
          split at taken <;> cases taken
          all_goals
            refine ⟨rings, ?_⟩
            rw [ConsumerOk, consumers_consumerAt]
            exact ok
      | gone => simp [pcEq] at taken
  | tryRecv | recv =>
      simp only [consumerStep, call] at taken
      split at taken
      · rename_i frames pcEq
        rw [pcEq] at ok
        split at taken <;> cases taken
        rename_i may
        exact ⟨rings, consumerOk_at (ok.call may (free_scanAt _ 0))⟩
      · cases taken
  | tryRecvBatch | recvBatch =>
      simp only [consumerStep, call] at taken
      split at taken
      · rename_i frames pcEq
        rw [pcEq] at ok
        split at taken <;> cases taken
        rename_i may
        exact ⟨rings, consumerOk_at (ok.call may (free_drainAt _ 0 0 false))⟩
      · cases taken
  | drop =>
      simp only [consumerStep] at taken
      split at taken
      · rename_i pcEq
        cases taken
        rw [pcEq] at ok
        refine ⟨rings, ?_⟩
        rw [ConsumerOk, consumers_consumerAt]
        exact ok
      · cases taken
  | panic =>
      simp only [consumerStep] at taken
      split at taken
      · rename_i call p count head tail rest pcEq
        cases taken
        rw [pcEq] at ok
        obtain ⟨tailEq, given, -⟩ := ok.each _ List.mem_cons_self p rfl
        refine ⟨rings, consumerOk_at
          (ok.quiet (.inl rfl) ?_ (fun same => by cases same) fun _ => rfl)⟩
        rintro q held
        cases held
        exact ⟨tailEq, given⟩
      · cases taken
  | spin | spurious =>
      simp only [consumerStep] at taken
      split at taken
      · rename_i pcEq
        cases taken
        rw [pcEq] at ok
        exact ⟨rings, consumerOk_at (ok.release ⟨rfl, (fun same => by cases same), fun _ => rfl⟩
          (fun _ held => by cases held) fun _ => rfl)⟩
      · cases taken

end Steps

end MpmcState

end ArbitroKit
