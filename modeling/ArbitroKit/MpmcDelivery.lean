import ArbitroKit.MpmcConsumers
import ArbitroKit.MpmcProducers

/-!
# Exactly-once delivery through the sharded channel

The facts of all handles hold together in every run whose nested receives keep
off the rings being drained around them.  Every accepted item is then in one
ring, and each ring hands its items out once and in order.  Runs without nested
receives and without panics are a special case.
-/

namespace ArbitroKit

open SlotLane Cyclic Transition

/-- The values owned by the slots from `tail` up to `head`, in order. -/
def PRing.inRing {α : Type*} (cap : Cap) (ring : PRing α) : List α :=
  (List.range (ring.head - ring.tail).toNat).filterMap fun offset =>
    (ring.lane.cells (cap.slot (ring.tail + BitVec.ofNat 64 offset))).owned

namespace PRing

variable {α : Type*} {cap : Cap} {ring : PRing α}

/-- The slots between the cursors own the values sent and not yet received. -/
theorem Ok.inRing_eq (ok : ring.Ok cap) :
    ring.inRing cap = ring.lane.sent.drop ring.lane.received.length := by
  rw [← ok.sound.ownedFrom_released, inRing, ok.occupancy, ok.tail]
  simp only [← BitVec.ofNat_add, Capacity.slot_ofNat]
  rfl

theorem Ok.received_append (ok : ring.Ok cap) :
    ring.lane.received ++ ring.inRing cap = ring.lane.sent := by
  rw [ok.inRing_eq, ok.sound.received_append]

/-- `MpmcInner::drop` on a ring nobody works on any more. -/
theorem Ok.dropRing {size : MpmcSize} {ring : PRing α} (ok : ring.Ok size.ringCap)
    (allPublished : ring.lane.written = ring.lane.sent)
    (allReleased : ring.lane.received.length = ring.lane.released) :
    (MpmcState.dropRing size ring).destroyed = ring.inRing size.ringCap ∧
      (MpmcState.dropRing size ring).misread = false ∧
        ∀ slot < size.ringCap.size, ((MpmcState.dropRing size ring).cells slot).owned = none := by
  obtain ⟨ordered, bounded, small⟩ := ok.near
  have length : ring.lane.written.length = ring.lane.published := by
    rw [allPublished, ok.sound.length_sent]
  have dropped : MpmcState.dropRing size ring = ring.lane.destroyFrom size.ringCap.size
      ring.lane.released (ring.lane.published - ring.lane.released) := by
    rw [MpmcState.dropRing, ok.head, ok.tail,
      ← RingState.dropFrom_eq_destroyFrom size.ringCap (by omega)]
    congr 2
    omega
  have holds := ok.sound.holds
  rw [length, allReleased, show ring.lane.published =
    ring.lane.released + (ring.lane.published - ring.lane.released) by omega] at holds
  obtain ⟨destroyed, misread, -, free⟩ := holds.destroyFrom
  rw [dropped]
  refine ⟨?_, misread.trans ok.sound.not_misread, free⟩
  rw [destroyed, ok.sound.destroyed_eq, List.nil_append, ok.inRing_eq, allReleased, allPublished]
  apply List.take_of_length_le
  rw [List.length_drop, ok.sound.length_sent]

end PRing

namespace MpmcState

variable {α : Type*} {size : MpmcSize} {s after : MpmcState α}

/-- A step of a shutdown handle touches no ring and no other handle. -/
structure SignallerFrame (before after : MpmcState α) : Prop where
  rings : after.rings = before.rings
  producers : after.producers = before.producers
  consumers : after.consumers = before.consumers
  liveProducers : after.liveProducers = before.liveProducers
  liveConsumers : after.liveConsumers = before.liveConsumers
  shutdown : before.shutdown = true → after.shutdown = true
  acked : after.history.acked = before.history.acked
  ackedAtTerminal : after.history.ackedAtTerminal = before.history.ackedAtTerminal ∨
    after.history.ackedAtTerminal = before.history.acked
  looked : after.history.looked = before.history.looked
  ackedAtDrop : after.history.ackedAtDrop = before.history.ackedAtDrop
  deadOnArrival : after.history.deadOnArrival = before.history.deadOnArrival

theorem signallerStep_frame {k : Nat} {action : MpmcSignalAction}
    (taken : s.signallerStep size k action = some after) : SignallerFrame s after := by
  have quiet (pc : MpmcSignalPc) : SignallerFrame s (s.signallerAt k pc) :=
    ⟨rfl, rfl, rfl, rfl, rfl, id, rfl, .inl rfl, rfl, rfl, rfl⟩
  cases action with
  | signal =>
      simp only [signallerStep, noteTerminal] at taken
      split at taken <;> cases taken
      split
      · exact ⟨rfl, rfl, rfl, rfl, rfl, fun _ => rfl, rfl, .inl rfl, rfl, rfl, rfl⟩
      · exact ⟨rfl, rfl, rfl, rfl, rfl, fun _ => rfl, rfl, .inr rfl, rfl, rfl, rfl⟩
  | tick =>
      simp only [signallerStep] at taken
      split at taken
      · cases taken
      · split at taken <;> cases taken
        · exact { quiet .idle with }
        · exact quiet _
      · split at taken <;> cases taken
        · exact { quiet .idle with }
        · exact quiet _

theorem producer_of_step {p : Nat} {action : MpmcProducerAction α}
    (taken : s.step size (.producer p action) = some after) :
    p < size.m ∧ s.producerStep size p action = some after := by
  simp only [step] at taken
  split at taken
  · exact ⟨by assumption, taken⟩
  · cases taken

theorem consumer_of_step {shard : Nat} {action : MpmcConsumerAction}
    (taken : s.step size (.consumer shard action) = some after) :
    shard < size.n ∧ s.consumerStep size shard action = some after := by
  simp only [step] at taken
  split at taken
  · exact ⟨by assumption, taken⟩
  · cases taken

/-! ### All handles together -/

inductive MpmcParty where
  | producer (p : Nat)
  | consumer (shard : Nat)
  | signaller (k : Nat)

def actor : MpmcAction α → MpmcParty
  | .producer p _ => .producer p
  | .consumer shard _ => .consumer shard
  | .signaller k _ => .signaller k

/-- The facts of one handle. -/
def PartyOk (size : MpmcSize) : MpmcParty → MpmcState α → Prop
  | .producer p => fun s => ProducerOk size s p
  | .consumer shard => fun s => ConsumerOk s shard
  | .signaller _ => fun _ => True

/-- What one handle relies on. -/
def PartyRely : MpmcParty → MpmcState α → MpmcState α → Prop
  | .producer p => ProducerRely p
  | .consumer shard => ConsumerRely shard
  | .signaller _ => fun _ _ => True

theorem ProducerFrame.rely_producer {p q : Nat} (frame : ProducerFrame p s after)
    (other : q ≠ p) : ProducerRely q s after where
  producer := frame.producers q other
  rings shard := by
    rw [frame.rings shard q other]
    exact .refl _
  acked shard := frame.acked shard q other

theorem ProducerFrame.rely_consumer {p : Nat} (frame : ProducerFrame p s after)
    (rings : RingsOk size s) (shard : Nat) : ConsumerRely shard s after where
  consumer := congrFun frame.consumers shard
  rings q := by
    by_cases same : q = p
    · rw [same]
      exact frame.grows shard (rings shard p).sound.published_le
    · rw [frame.rings shard q same]
      exact .refl _

theorem ConsumerFrame.rely_producer {shard : Nat} (frame : ConsumerFrame shard s after)
    (rings : RingsOk size s) (p : Nat) : ProducerRely p s after where
  producer := congrFun frame.producers p
  rings here := by
    by_cases same : here = shard
    · rw [same]
      exact frame.drains p (rings shard p).sound.released_le
    · rw [frame.rings here same]
      exact .refl _
  acked here := congrFun (congrFun frame.acked here) p

theorem ConsumerFrame.rely_consumer {shard other : Nat} (frame : ConsumerFrame shard s after)
    (ne : other ≠ shard) : ConsumerRely other s after where
  consumer := frame.consumers other ne
  rings p := by
    rw [frame.rings other ne]
    exact .refl _

theorem SignallerFrame.rely_producer (frame : SignallerFrame s after) (p : Nat) :
    ProducerRely p s after where
  producer := congrFun frame.producers p
  rings shard := by
    rw [frame.rings]
    exact .refl _
  acked shard := congrFun (congrFun frame.acked shard) p

theorem SignallerFrame.rely_consumer (frame : SignallerFrame s after) (shard : Nat) :
    ConsumerRely shard s after where
  consumer := congrFun frame.consumers shard
  rings p := by
    rw [frame.rings]
    exact .refl _

/-- What a step shows to every handle but the one that takes it. -/
theorem rely_of_step (rings : RingsOk size s) {action : MpmcAction α}
    (taken : s.step size action = some after) {party : MpmcParty}
    (other : party ≠ actor action) : PartyRely party s after := by
  cases action with
  | producer p action =>
      have frame := producerStep_frame (producer_of_step taken).2
      cases party with
      | producer q => exact frame.rely_producer fun same => other (congrArg _ same)
      | consumer shard => exact frame.rely_consumer rings shard
      | signaller k => trivial
  | consumer shard action =>
      have frame := consumerStep_frame (consumer_of_step taken).2
      cases party with
      | producer p => exact frame.rely_producer rings p
      | consumer here => exact frame.rely_consumer fun same => other (congrArg _ same)
      | signaller k => trivial
  | signaller k action =>
      have frame := signallerStep_frame taken
      cases party with
      | producer p => exact frame.rely_producer p
      | consumer shard => exact frame.rely_consumer shard
      | signaller k => trivial

theorem producerOk_new (size : MpmcSize) (p : Nat) :
    ProducerOk size (new size : MpmcState α) p where
  here := trivial
  written _ := rfl
  reported := (Finset.sum_eq_zero fun _ _ => rfl).symm
  acked _ := rfl

theorem consumerOk_new (size : MpmcSize) (shard : Nat) :
    ConsumerOk (new size : MpmcState α) shard where
  apart := List.nodup_nil
  each _ member := nomatch member
  defined := nofun
  idle _ _ := rfl
  callbacks _ member := nomatch member
  delivered _ := rfl

theorem invariant (reached : (apart size).Reachable s) :
    RingsOk size s ∧ (∀ p, ProducerOk size s p) ∧ ∀ shard, ConsumerOk s shard := by
  have all : RingsOk size s ∧ ∀ party, PartyOk size party s := by
    refine reached.relyGuarantee (RingsOk size) (PartyOk size) PartyRely actor
      ?base ?own ?guarantee ?stable
    case base =>
      rintro _ rfl
      refine ⟨fun _ _ => PRing.new_ok _, fun party => ?_⟩
      cases party with
      | producer p => exact producerOk_new size p
      | consumer shard => exact consumerOk_new size shard
      | signaller k => trivial
    case own =>
      rintro before action after - rings locals ⟨fresh, taken⟩
      cases action with
      | producer p action =>
          exact producer_ownStep rings (locals (.producer p)) (producer_of_step taken).2
      | consumer shard action =>
          exact consumer_ownStep rings (locals (.consumer shard)) fresh (consumer_of_step taken).2
      | signaller k action =>
          have frame := signallerStep_frame taken
          exact ⟨fun shard p => by rw [frame.rings]; exact rings shard p, trivial⟩
    case guarantee =>
      rintro before action after - rings locals ⟨fresh, taken⟩ party other
      exact rely_of_step rings taken other
    case stable =>
      rintro party before after rely - - ok
      cases party with
      | producer p => exact ProducerRely.stable rely ok
      | consumer shard => exact ConsumerRely.stable rely ok
      | signaller k => trivial
  exact ⟨all.1, fun p => all.2 (.producer p), fun shard => all.2 (.consumer shard)⟩

/-- The contract of the channel in one state: no ring holds more than it can, no slot
is misused, what consumer `shard` was handed from producer `p` followed by what is
still in their ring is what `p` placed there, everything accepted from `p` was placed
in one shard, and the teardown destroys what was not delivered. -/
structure ExactlyOnce (size : MpmcSize) (s : MpmcState α) : Prop where
  occupancy : ∀ shard p, ((s.rings shard p).head - (s.rings shard p).tail).toNat ≤
    size.ringCap.size
  notOverwrote : ∀ shard p, (s.rings shard p).lane.overwrote = false
  notMisread : ∀ shard p, (s.rings shard p).lane.misread = false
  fifo : ∀ shard p, (s.rings shard p).delivered ++
    (framesOf (s.consumers shard)).flatMap (inFlight p) ++
      (s.rings shard p).inRing size.ringCap = (s.rings shard p).lane.sent
  placedOnce : ∀ p, ((s.producers p).accepted : Multiset α) + unreported (s.producers p).pc =
    ∑ shard ∈ Finset.range size.n, ((s.rings shard p).lane.sent : Multiset α)
  teardown : (∀ p < size.m, (s.producers p).pc = .gone) →
    (∀ shard < size.n, s.consumers shard = .gone) → ∀ shard < size.n, ∀ p < size.m,
      (s.dropInner size shard p).destroyed = (s.rings shard p).inRing size.ringCap ∧
        (s.dropInner size shard p).misread = false ∧
          ∀ slot < size.ringCap.size, ((s.dropInner size shard p).cells slot).owned = none

theorem exactlyOnce_of_apart (reached : (apart size).Reachable s) : ExactlyOnce size s := by
  obtain ⟨rings, producers, consumers⟩ := invariant reached
  exact
    { occupancy := fun shard p => by
        have near := (rings shard p).near
        rw [(rings shard p).occupancy]
        omega
      notOverwrote := fun shard p => (rings shard p).sound.not_overwrote
      notMisread := fun shard p => (rings shard p).sound.not_misread
      fifo := fun shard p => by
        rw [← (consumers shard).delivered p]
        exact (rings shard p).received_append
      placedOnce := fun p => (producers p).reported
      teardown := fun producersGone consumersGone shard shardInside p pInside => by
        have written := (producers p).written shard
        simp only [producersGone p pInside, ahead, List.append_nil] at written
        have free := (consumers shard).idle p
        rw [consumersGone shard shardInside] at free
        rw [dropInner, if_pos ⟨shardInside, pInside⟩]
        exact (rings shard p).dropRing written (free (List.not_mem_nil (a := p))) }

/-! ### Cursors move forward -/

/-- No ring's tail moved back: it is on the way from where it was to the head. -/
def TailsAdvance (before after : MpmcState α) : Prop :=
  ∀ shard p, Between (before.rings shard p).tail (after.rings shard p).tail
    (after.rings shard p).head

theorem released_le_of_step (rings : RingsOk size s) {action : MpmcAction α}
    (taken : s.step size action = some after) (shard p : Nat) :
    (s.rings shard p).lane.released ≤ (after.rings shard p).lane.released ∧
      ((after.rings shard p).lane.published = (s.rings shard p).lane.published ∨
        (after.rings shard p).lane.released = (s.rings shard p).lane.released) := by
  cases action with
  | producer q action =>
      have rely := (producerStep_frame (producer_of_step taken).2).rely_consumer rings shard
      have grows := rely.rings p
      exact ⟨grows.released.ge, .inr grows.released⟩
  | consumer here action =>
      have rely := (consumerStep_frame (consumer_of_step taken).2).rely_producer rings p
      have drains := rely.rings shard
      exact ⟨drains.released, .inl drains.published⟩
  | signaller k action =>
      have same := (signallerStep_frame taken).rings
      rw [same]
      exact ⟨le_rfl, .inl rfl⟩

theorem tailsAdvance_of_apart (reached : (apart size).Reachable s) {action : MpmcAction α}
    (taken : (apart size).Step s action after) : TailsAdvance s after := by
  intro shard p
  have rings := (invariant reached).1
  have before := rings shard p
  have later := (invariant (reached.next taken)).1 shard p
  obtain ⟨released, same⟩ := released_le_of_step rings taken.2 shard p
  obtain ⟨-, near, small⟩ := before.near
  obtain ⟨ordered, nearAfter, -⟩ := later.near
  rw [before.tail, later.tail, later.head]
  refine between_ofNat released ordered ?_
  rcases same with published | same <;> omega

/-! ### Receives that do not nest -/

/-- No receive starts inside a callback, which may panic. -/
def flatAction (s : MpmcState α) : MpmcAction α → Bool
  | .consumer shard .tryRecv => (framesOf (s.consumers shard)).isEmpty
  | .consumer shard .recv => (framesOf (s.consumers shard)).isEmpty
  | .consumer shard .tryRecvBatch => (framesOf (s.consumers shard)).isEmpty
  | .consumer shard .recvBatch => (framesOf (s.consumers shard)).isEmpty
  | _ => true

/-- The runs whose callbacks do not receive. -/
def flat (size : MpmcSize) : System (MpmcState α) (MpmcAction α) :=
  (system size).guarded fun s action => s.flatAction action = true

/-- The innermost call goes on or returns; the calls around it stay as they are. -/
theorem frameTick_stack {shard : Nat} {rest : List (MpmcFrame α)} {frame : MpmcFrame α}
    (taken : s.frameTick size shard rest frame = some after) :
    after.consumers shard = .running rest ∨
      ∃ next, after.consumers shard = .running (next :: rest) := by
  unfold frameTick at taken
  cases frame with
  | undefined => cases taken
  | returned outcome =>
      cases taken
      exact .inl (consumers_consumerAt _ _ _)
  | scanHead call p tail | drainHead call p count progress tail
  | drainCallback call p count head tail | terminalShutdown call asker
  | workTail call phase p head | waitPark call | scanRead call p tail
  | drainRead call p count head tail =>
      dsimp only at taken
      split at taken <;> cases taken <;> exact .inr ⟨_, consumers_consumerAt _ _ _⟩
  | _ =>
      cases taken
      exact .inr ⟨_, consumers_consumerAt _ _ _⟩

theorem length_frames_consumerStep {shard : Nat} {action : MpmcConsumerAction}
    (flat : s.flatAction (.consumer shard action) = true)
    (short : (framesOf (s.consumers shard)).length ≤ 1)
    (taken : s.consumerStep size shard action = some after) :
    (framesOf (after.consumers shard)).length ≤ 1 := by
  cases action with
  | tick =>
      simp only [consumerStep, consumerTick] at taken
      split at taken
      · cases taken
      · rename_i frame rest pcEq
        rw [pcEq] at short
        rcases frameTick_stack taken with popped | ⟨next, same⟩
        · rw [popped]
          exact (Nat.le_succ _).trans short
        · rw [same]
          exact short
      · split at taken <;> cases taken <;> rw [consumers_consumerAt] <;> exact Nat.zero_le _
      · split at taken <;> cases taken <;> rw [consumers_consumerAt] <;> exact Nat.zero_le _
      · cases taken
  | tryRecv | recv | tryRecvBatch | recvBatch =>
      simp only [flatAction, List.isEmpty_iff] at flat
      simp only [consumerStep, call] at taken
      split at taken
      · rename_i frames pcEq
        rw [pcEq] at flat
        obtain rfl : frames = [] := flat
        split at taken <;> cases taken
        rw [consumers_consumerAt]
        exact le_rfl
      · cases taken
  | drop =>
      simp only [consumerStep] at taken
      split at taken <;> cases taken
      rw [consumers_consumerAt]
      exact Nat.zero_le _
  | panic | spin | spurious =>
      simp only [consumerStep] at taken
      split at taken
      · rename_i pcEq
        rw [pcEq] at short
        cases taken
        rw [consumers_consumerAt]
        exact short
      · cases taken

theorem length_frames_of_flat (reached : (flat size).Reachable s) (shard : Nat) :
    (framesOf (s.consumers shard)).length ≤ 1 := by
  refine reached.invariant (fun s => ∀ shard, (framesOf (s.consumers shard)).length ≤ 1)
    ?base ?preserved shard
  case base =>
    rintro _ rfl shard
    exact Nat.zero_le _
  case preserved =>
    rintro before action after - short ⟨flat, taken⟩ shard
    cases action with
    | producer p action =>
        rw [(producerStep_frame (producer_of_step taken).2).consumers]
        exact short shard
    | consumer here action =>
        by_cases same : shard = here
        · subst same
          exact length_frames_consumerStep flat (short shard) (consumer_of_step taken).2
        · rw [(consumerStep_frame (consumer_of_step taken).2).consumers shard same]
          exact short shard
    | signaller k action =>
        rw [(signallerStep_frame taken).consumers]
        exact short shard

theorem apart_of_flat (reached : (flat size).Reachable s) : (apart size).Reachable s := by
  refine reached.guarded_refine fun before action after reached _ _ => ?_
  cases action with
  | producer p action | signaller k action => rfl
  | consumer shard action =>
      cases action with
      | tick =>
          have short := length_frames_of_flat reached shard
          simp only [rereadsNothing, Bool.not_eq_true']
          cases pcEq : before.consumers shard with
          | running frames =>
              rw [pcEq] at short
              cases frames with
              | nil => rfl
              | cons frame rest =>
                  obtain rfl : rest = [] :=
                    List.eq_nil_of_length_eq_zero (Nat.le_zero.mp (Nat.le_of_succ_le_succ short))
                  cases frame <;> rfl
          | fetchSub | wakeLast p | gone => rfl
      | _ => rfl

/-! ### Receives that neither panic nor nest -/

/-- No callback panics and no receive starts inside a callback. -/
def plainAction (s : MpmcState α) : MpmcAction α → Bool
  | .consumer _ .panic => false
  | .consumer shard .tryRecv => (framesOf (s.consumers shard)).isEmpty
  | .consumer shard .recv => (framesOf (s.consumers shard)).isEmpty
  | .consumer shard .tryRecvBatch => (framesOf (s.consumers shard)).isEmpty
  | .consumer shard .recvBatch => (framesOf (s.consumers shard)).isEmpty
  | _ => true

/-- The runs whose callbacks neither panic nor receive. -/
def plain (size : MpmcSize) : System (MpmcState α) (MpmcAction α) :=
  (system size).guarded fun s action => s.plainAction action = true

theorem flat_of_plain (reached : (plain size).Reachable s) : (flat size).Reachable s := by
  refine reached.guarded_mono fun before action after _ plain => ?_
  cases action with
  | consumer shard action =>
      cases action with
      | panic => cases plain
      | _ => exact plain
  | _ => exact plain

/-- The channel delivers exactly once and in order for each producer and shard,
whatever the interleaving. -/
theorem plain_exactlyOnce (reached : (plain size).Reachable s) : ExactlyOnce size s :=
  exactlyOnce_of_apart (apart_of_flat (flat_of_plain reached))

/-- One producer and two shards of one slot each. -/
def twoShards : MpmcSize where
  ringCap := oneSlotCap
  m := 1
  m_pos := Nat.one_pos
  m_le := MpmcSize.one_le
  n := 2
  n_pos := Nat.two_pos

def producerTicks (n : Nat) : List (MpmcAction Nat) :=
  List.replicate n (.producer 0 .tick)

def consumerTicks (shard n : Nat) : List (MpmcAction Nat) :=
  List.replicate n (.consumer shard .tick)

/-- Two sends go to different shards; the first shard's consumer has received. -/
def oneReceived : List (MpmcAction Nat) :=
  [MpmcAction.producer 0 (.trySend 5)] ++ producerTicks 7 ++ [MpmcAction.producer 0 (.trySend 6)] ++
    producerTicks 7 ++ [MpmcAction.consumer 0 .tryRecvBatch] ++ consumerTicks 0 9

theorem plain_exactlyOnce_oneReceived :
    ∃ s : MpmcState Nat, (plain twoShards).Reachable s ∧
      (s.producers 0).accepted = [5, 6] ∧ (s.rings 0 0).delivered = [5] ∧
        (s.rings 1 0).lane.sent = [6] ∧ ExactlyOnce twoShards s := by
  have ran : (Transition.execute (Transition.guardedStep
      (fun s (action : MpmcAction Nat) => s.plainAction action = true)
      fun s action => s.step twoShards action) (new twoShards) oneReceived).map
        (fun s => ((s.producers 0).accepted, (s.rings 0 0).delivered, (s.rings 1 0).lane.sent)) =
          some ([5, 6], [5], [6]) := by
    rfl
  obtain ⟨s, ran, seen⟩ := Option.map_eq_some_iff.mp ran
  obtain ⟨accepted, delivered, sent⟩ := by simpa only [Prod.mk.injEq] using seen
  have reached : (plain twoShards).Reachable s := System.reachable_of_guarded_execute rfl ran
  exact ⟨s, reached, accepted, delivered, sent, plain_exactlyOnce reached⟩

end MpmcState

end ArbitroKit
