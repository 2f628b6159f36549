import ArbitroKit.MpmcDelivery

/-!
# Shutdown of the sharded channel

A blocking receive looks at every ring of its shard first and at the terminal
condition afterwards, and does not go back to the rings.  What was acknowledged
before the terminal event has been delivered exactly when none of it was
published after that look, whether the event is a signal or the last producer's
drop.
-/

namespace ArbitroKit

open SlotLane Cyclic Transition

namespace MpmcState

variable {α : Type*} {size : MpmcSize} {s after : MpmcState α} {shard : Nat}

/-! ### What a receive has looked at -/

/-- The first `n` rings of the shard were empty at their last look, and nothing has
been received from them since. -/
def Scanned (s : MpmcState α) (shard n : Nat) : Prop :=
  ∀ p < n, s.history.looked shard p = (s.rings shard p).lane.received.length

/-- What the innermost receive of the shard has seen so far. -/
def Seen (size : MpmcSize) (s : MpmcState α) (shard : Nat) : MpmcFrame α → Prop
  | .scanTail _ p => s.Scanned shard p
  | .scanHead _ p _ => s.Scanned shard p
  | .drainTail _ p _ progress => progress = false → s.Scanned shard p
  | .drainHead _ p _ progress _ => progress = false → s.Scanned shard p
  | .terminalShutdown _ asker => asker = .check → s.Scanned shard size.m
  | .terminalLive _ asker => asker = .check → s.Scanned shard size.m
  | .returned (.recv none) => s.Scanned shard size.m
  | .returned (.recvBatch none) => s.Scanned shard size.m
  | _ => True

def InnermostSeen (size : MpmcSize) (s : MpmcState α) (shard : Nat) : Prop :=
  ∀ frame, (framesOf (s.consumers shard)).head? = some frame → Seen size s shard frame

theorem scanned_zero (s : MpmcState α) (shard : Nat) : s.Scanned shard 0 :=
  fun _ none => absurd none (Nat.not_lt_zero _)

theorem Scanned.mono {few many : Nat} (scanned : s.Scanned shard many) (le : few ≤ many) :
    s.Scanned shard few :=
  fun p before => scanned p (before.trans_le le)

theorem Seen.map {frame : MpmcFrame α} (seen : Seen size s shard frame)
    (kept : ∀ n, s.Scanned shard n → after.Scanned shard n) : Seen size after shard frame := by
  cases frame with
  | scanTail call p | scanHead call p tail => exact kept p seen
  | drainTail call p count progress | drainHead call p count progress tail =>
      exact fun none => kept p (seen none)
  | terminalShutdown call asker | terminalLive call asker =>
      exact fun check => kept size.m (seen check)
  | returned outcome =>
      cases outcome with
      | recv result | recvBatch result =>
          cases result with
          | none => exact kept size.m seen
          | some value => trivial
      | _ => trivial
  | _ => trivial

theorem seen_scanAt {call : MpmcRecvCall} {p : Nat} (scanned : s.Scanned shard p) :
    Seen size s shard (scanAt size call p) := by
  unfold scanAt
  split
  · exact scanned
  · cases call with
    | tryRecv => trivial
    | recv => exact fun _ => scanned.mono (by omega)

theorem seen_batchDone {call : MpmcBatchCall} {count : Nat} (scanned : s.Scanned shard size.m) :
    Seen size s shard (batchDone call count) := by
  cases call with
  | tryRecvBatch => trivial
  | recvBatch =>
      unfold batchDone
      dsimp only
      split
      · trivial
      · exact fun _ => scanned

theorem seen_drainAt {call : MpmcBatchCall} {p count : Nat} {progress : Bool}
    (scanned : progress = false → s.Scanned shard p) :
    Seen size s shard (drainAt size call p count progress) := by
  unfold drainAt
  split
  · exact scanned
  · split
    · exact fun _ => s.scanned_zero shard
    · rename_i noProgress
      exact seen_batchDone ((scanned (by simpa using noProgress)).mono (by omega))

theorem seen_receiveAgain {call : MpmcBlocking} :
    Seen size s shard (receiveAgain size call) := by
  cases call with
  | recv => exact seen_scanAt (s.scanned_zero shard)
  | recvBatch => exact seen_drainAt fun _ => s.scanned_zero shard

theorem seen_recvWaited {call : MpmcBlocking} {phase : WaitPhase} {ready : Bool} :
    Seen size s shard (recvWaited size call phase ready) := by
  cases phase <;> cases ready
  · trivial
  · exact seen_receiveAgain
  · trivial
  · trivial

theorem seen_terminalAnswer {call : MpmcBlocking} {asker : MpmcAsker} {terminal : Bool}
    (scanned : asker = .check → s.Scanned shard size.m) :
    Seen size s shard (terminalAnswer size call asker terminal) := by
  cases asker with
  | predicate phase => exact seen_recvWaited
  | check =>
      cases terminal with
      | false => trivial
      | true => cases call <;> exact scanned rfl

theorem seen_workAt {call : MpmcBlocking} {phase : WaitPhase} {p : Nat} :
    Seen size s shard (workAt size call phase p) := by
  unfold workAt
  split
  · trivial
  · exact nofun

/-! ### Steps -/

/-- Arriving at a stack of calls. -/
theorem innermostSeen_at {moved : MpmcState α} {next : MpmcFrame α} {rest : List (MpmcFrame α)}
    (seen : Seen size moved shard next) :
    InnermostSeen size (moved.consumerAt shard (.running (next :: rest))) shard := by
  intro frame innermost
  rw [consumers_consumerAt] at innermost
  cases innermost
  exact seen.map fun _ scanned => scanned

/-- The look that finds ring `p` empty. -/
theorem Scanned.look {p : Nat} (scanned : s.Scanned shard p)
    (ok : (s.rings shard p).Ok size.ringCap) {tail : Usize}
    (received : (s.rings shard p).lane.received.length =
      (s.rings shard p).lane.released)
    (tailEq : tail = BitVec.ofNat 64 (s.rings shard p).lane.released)
    (empty : tail = (s.rings shard p).head) : (s.look shard p).Scanned shard (p + 1) := by
  intro q before
  change setEntry _ _ _ _ shard q = (s.rings shard q).lane.received.length
  rcases Nat.lt_succ_iff_lt_or_eq.mp before with earlier | rfl
  · rw [setEntry_of_ne (.inr earlier.ne)]
    exact scanned q earlier
  · rw [setEntry_self, received, eq_comm,
      ← ok.ofNat_inj le_rfl ok.near.1 le_rfl, ← ok.head, ← tailEq]
    exact empty

/-- One step of the innermost receive. -/
theorem frameTick_seen (rings : RingsOk size s) {rest : List (MpmcFrame α)} {frame : MpmcFrame α}
    (ok : FramesOk (s.rings shard) (frame :: rest)) (seen : Seen size s shard frame)
    (taken : s.frameTick size shard rest frame = some after) : InnermostSeen size after shard := by
  unfold frameTick at taken
  cases frame with
  | scanTail call p | drainTail call p count progress =>
      cases taken
      exact innermostSeen_at seen
  | scanHead call p tail =>
      obtain ⟨received, tailEq⟩ := ok.each _ List.mem_cons_self p rfl
      dsimp only at taken
      split at taken <;> cases taken
      · exact innermostSeen_at (seen_scanAt (Scanned.look seen (rings shard p) received tailEq
          (by assumption)))
      · exact innermostSeen_at trivial
  | drainHead call p count progress tail =>
      obtain ⟨received, tailEq⟩ := ok.each _ List.mem_cons_self p rfl
      dsimp only at taken
      split at taken <;> cases taken
      · exact innermostSeen_at (seen_drainAt fun none =>
          (seen none).look (rings shard p) received tailEq (by assumption))
      · exact innermostSeen_at trivial
  | scanRead call p tail | drainRead call p count head tail
  | drainCallback call p count head tail =>
      dsimp only at taken
      split at taken <;> cases taken <;> exact innermostSeen_at trivial
  | scanStore call p tail value | drainStore call p count tail | drainUnwind p tail
  | workHead call phase p | waitAnnounce call =>
      cases taken
      exact innermostSeen_at trivial
  | scanWake call p value =>
      cases taken
      exact innermostSeen_at (by cases call <;> trivial)
  | drainWake call p count =>
      cases taken
      exact innermostSeen_at (seen_drainAt nofun)
  | terminalShutdown call asker =>
      dsimp only at taken
      split at taken <;> cases taken
      · exact innermostSeen_at (seen_terminalAnswer seen)
      · exact innermostSeen_at seen
  | terminalLive call asker =>
      cases taken
      exact innermostSeen_at (seen_terminalAnswer seen)
  | workTail call phase p head =>
      dsimp only at taken
      split at taken <;> cases taken
      · exact innermostSeen_at seen_workAt
      · exact innermostSeen_at seen_recvWaited
  | waitPark call =>
      dsimp only at taken
      split at taken <;> cases taken
      exact innermostSeen_at trivial
  | waitLeave call =>
      cases taken
      exact innermostSeen_at seen_receiveAgain
  | returned outcome =>
      cases taken
      intro outer innermost
      rw [consumers_consumerAt] at innermost
      have callback := ok.callbacks outer (List.mem_of_mem_head? innermost)
      cases outer with
      | drainCallback call p count head tail => trivial
      | _ => cases callback
  | undefined => cases taken

theorem consumerStep_seen (rings : RingsOk size s) (ok : ConsumerOk s shard)
    (seen : InnermostSeen size s shard) {action : MpmcConsumerAction}
    (taken : s.consumerStep size shard action = some after) : InnermostSeen size after shard := by
  cases action with
  | tick =>
      simp only [consumerStep, consumerTick] at taken
      split at taken
      · cases taken
      · rename_i frame rest pcEq
        rw [ConsumerOk, pcEq] at ok
        exact frameTick_seen rings ok (seen frame (by rw [pcEq]; rfl)) taken
      · split at taken <;> cases taken <;> intro frame innermost <;>
          rw [consumers_consumerAt] at innermost <;> cases innermost
      · split at taken <;> cases taken <;> intro frame innermost <;>
          rw [consumers_consumerAt] at innermost <;> cases innermost
      · cases taken
  | tryRecv | recv =>
      simp only [consumerStep, call] at taken
      split at taken
      · split at taken <;> cases taken
        exact innermostSeen_at (seen_scanAt (s.scanned_zero shard))
      · cases taken
  | tryRecvBatch | recvBatch =>
      simp only [consumerStep, call] at taken
      split at taken
      · split at taken <;> cases taken
        exact innermostSeen_at (seen_drainAt fun _ => s.scanned_zero shard)
      · cases taken
  | drop =>
      simp only [consumerStep] at taken
      split at taken <;> cases taken
      intro frame innermost
      rw [consumers_consumerAt] at innermost
      cases innermost
  | panic | spin | spurious =>
      simp only [consumerStep] at taken
      split at taken <;> cases taken
      exact innermostSeen_at trivial

/-- Steps of others change neither what was looked at nor what was received. -/
theorem ConsumerRely.seen (rely : ConsumerRely shard s after)
    (looked : after.history.looked shard = s.history.looked shard)
    (seen : InnermostSeen size s shard) : InnermostSeen size after shard := by
  intro frame innermost
  rw [rely.consumer] at innermost
  refine (seen frame innermost).map fun n scanned p before => ?_
  rw [looked, (rely.rings p).received]
  exact scanned p before

theorem innermostSeen (reached : (apart size).Reachable s) (shard : Nat) :
    InnermostSeen size s shard := by
  refine reached.invariant (fun s => ∀ shard, InnermostSeen size s shard) ?base ?preserved shard
  case base =>
    rintro _ rfl shard frame innermost
    cases innermost
  case preserved =>
    rintro before action after reached seen ⟨-, taken⟩ shard
    obtain ⟨rings, -, consumers⟩ := invariant reached
    cases action with
    | producer p action =>
        have frame := producerStep_frame (producer_of_step taken).2
        exact (frame.rely_consumer rings shard).seen (congrFun frame.looked shard) (seen shard)
    | consumer here action =>
        have step := (consumer_of_step taken).2
        by_cases same : shard = here
        · subst same
          exact consumerStep_seen rings (consumers shard) (seen shard) step
        · have frame := consumerStep_frame step
          exact (frame.rely_consumer same).seen (frame.looked shard same) (seen shard)
    | signaller k action =>
        have frame := signallerStep_frame taken
        exact (frame.rely_consumer shard).seen (congrFun frame.looked shard) (seen shard)

/-! ### What was acknowledged -/

theorem ackedAtTerminal_le (reached : (system size).Reachable s) (shard p : Nat) :
    s.history.ackedAtTerminal shard p ≤ s.history.acked shard p := by
  refine reached.invariant (fun s => ∀ shard p, s.history.ackedAtTerminal shard p ≤
    s.history.acked shard p) ?base ?preserved shard p
  case base =>
    rintro _ rfl shard p
    exact le_rfl
  case preserved =>
    rintro before action after - le taken
    cases action with
    | producer p action => exact (producerStep_frame (producer_of_step taken).2).ackedAtTerminal le
    | consumer here action =>
        have frame := consumerStep_frame (consumer_of_step taken).2
        rw [frame.ackedAtTerminal, frame.acked]
        exact le
    | signaller k action =>
        have frame := signallerStep_frame taken
        rw [frame.acked]
        rcases frame.ackedAtTerminal with same | snapshot
        · rw [same]
          exact le
        · rw [snapshot]
          exact fun _ _ => le_rfl

/-- The items of producer `p`'s calls that had returned before the terminal event,
among those it placed in the shard. -/
def acknowledgedAtTerminal (s : MpmcState α) (shard p : Nat) : List α :=
  (s.rings shard p).lane.sent.take (s.history.ackedAtTerminal shard p)

theorem length_acknowledgedAtTerminal (reached : (apart size).Reachable s) (shard p : Nat) :
    (s.acknowledgedAtTerminal shard p).length = s.history.ackedAtTerminal shard p := by
  have acked := ((invariant reached).2.1 p).acked shard
  have terminal := ackedAtTerminal_le reached.of_guarded shard p
  rw [acknowledgedAtTerminal, List.length_take]
  omega

theorem scanned_of_ended {call : MpmcBlocking} {rest : List (MpmcFrame α)}
    (reached : (apart size).Reachable s)
    (ended : s.consumers shard = .running (.returned (endOfStream call) :: rest)) :
    s.Scanned shard size.m := by
  have seen := innermostSeen reached shard (.returned (endOfStream call)) (by rw [ended]; rfl)
  cases call <;> exact seen

theorem delivered_of_ended {call : MpmcBlocking} {rest : List (MpmcFrame α)}
    (reached : (apart size).Reachable s)
    (ended : s.consumers shard = .running (.returned (endOfStream call) :: rest)) (p : Nat) :
    (s.rings shard p).delivered = (s.rings shard p).lane.received := by
  have ok := (invariant reached).2.2 shard
  rw [ConsumerOk, ended] at ok
  exact ((ok.delivered_top p).trans (List.append_nil _)).symm

/-- When a receive of the shard returns `Err(Shutdown)`, the items acknowledged before
the terminal event have all been delivered if and only if each of them was already
published when the receive last looked at its ring. -/
theorem terminal_delivers_acknowledged_iff (call : MpmcBlocking) {rest : List (MpmcFrame α)}
    (reached : (apart size).Reachable s)
    (ended : s.consumers shard = .running (.returned (endOfStream call) :: rest)) :
    (∀ p < size.m, s.acknowledgedAtTerminal shard p <+: (s.rings shard p).delivered) ↔
      ∀ p < size.m, s.history.ackedAtTerminal shard p ≤ s.history.looked shard p := by
  refine forall₂_congr fun p inside => ?_
  have received : (s.rings shard p).lane.received <+: (s.rings shard p).lane.sent :=
    ⟨_, ((invariant reached).1 shard p).received_append⟩
  have acknowledged : s.acknowledgedAtTerminal shard p <+: (s.rings shard p).lane.sent :=
    List.take_prefix _ _
  rw [delivered_of_ended reached ended p, scanned_of_ended reached ended p inside,
    ← length_acknowledgedAtTerminal reached shard p]
  exact ⟨fun delivered => delivered.length_le,
    List.prefix_of_prefix_length_le acknowledged received⟩

/-- One producer and one shard of two slots. -/
def solo : MpmcSize where
  ringCap := twoSlotCap
  m := 1
  m_pos := Nat.one_pos
  m_le := MpmcSize.one_le
  n := 1
  n_pos := Nat.one_pos

/-- A send is received; then the producer is dropped and the channel found finished. -/
def quietDrop : List (MpmcAction Nat) :=
  [MpmcAction.producer 0 (.trySend 7)] ++ producerTicks 7 ++ [MpmcAction.consumer 0 .recv] ++
    consumerTicks 0 6 ++ [MpmcAction.producer 0 .drop] ++ producerTicks 3 ++
    [MpmcAction.consumer 0 .recv] ++ consumerTicks 0 4

/-- A send completes between the receive's look at the ring and the signal. -/
def sendBeforeSignal : List (MpmcAction Nat) :=
  [MpmcAction.consumer 0 .recv] ++ consumerTicks 0 2 ++ [MpmcAction.producer 0 (.trySend 7)] ++
    producerTicks 7 ++ [MpmcAction.signaller 0 .signal] ++ consumerTicks 0 1

/-- A send completes and its producer is dropped after the receive's look at the ring. -/
def sendBeforeDrop : List (MpmcAction Nat) :=
  [MpmcAction.consumer 0 .recvBatch] ++ consumerTicks 0 2 ++ [MpmcAction.producer 0 (.trySend 7)] ++
    producerTicks 7 ++ [MpmcAction.producer 0 .drop] ++ producerTicks 1 ++ consumerTicks 0 2

/-- A state of the one shard, seen through its receive, the two counts and the two
lists. -/
def observe (s : MpmcState Nat) :
    MpmcConsumerPc Nat × (Nat × Nat) × List Nat × List Nat :=
  (s.consumers 0, (s.history.ackedAtTerminal 0 0, s.history.looked 0 0),
    s.acknowledgedAtTerminal 0 0, (s.rings 0 0).delivered)

/-- The steps of `apart solo`. -/
def soloStep (s : MpmcState Nat) (action : MpmcAction Nat) : Option (MpmcState Nat) :=
  Transition.guardedStep (fun s (action : MpmcAction Nat) => s.rereadsNothing action = true)
    (fun s action => s.step solo action) s action

theorem reachable_of_soloStep {actions : List (MpmcAction Nat)} {s : MpmcState Nat}
    (ran : Transition.execute soloStep (new solo) actions = some s) : (apart solo).Reachable s :=
  System.reachable_of_guarded_execute rfl ran

theorem terminal_delivers_acknowledged_quietDrop :
    ∃ s : MpmcState Nat, (apart solo).Reachable s ∧ s.liveProducers = 0 ∧
      s.acknowledgedAtTerminal 0 0 = [7] ∧
        s.acknowledgedAtTerminal 0 0 <+: (s.rings 0 0).delivered := by
  have ran : (Transition.execute soloStep (new solo) quietDrop).map
      (fun s => (observe s, s.liveProducers)) =
        some ((.running [.returned (.recv none)], (1, 1), [7], [7]), 0) := by
    rfl
  obtain ⟨s, ran, seen⟩ := Option.map_eq_some_iff.mp ran
  obtain ⟨⟨ended, ⟨acked, looked⟩, acknowledged, -⟩, gone⟩ := by
    simpa only [observe, Prod.mk.injEq] using seen
  have reached := reachable_of_soloStep ran
  refine ⟨s, reached, gone, acknowledged, ?_⟩
  refine (terminal_delivers_acknowledged_iff .recv reached ended).mpr ?_ 0 (by decide)
  intro p inside
  obtain rfl : p = 0 := Nat.lt_one_iff.mp inside
  rw [acked, looked]

/-- The item acknowledged before the terminal event is lost, whether the event is a
signal or the drop of the last producer. -/
theorem terminal_loses_sendBeforeSignal :
    (∃ s : MpmcState Nat, (apart solo).Reachable s ∧ s.shutdown = true ∧
      s.consumers 0 = .running [.returned (endOfStream .recv)] ∧
        s.acknowledgedAtTerminal 0 0 = [7] ∧ (s.rings 0 0).delivered = []) ∧
    ∃ s : MpmcState Nat, (apart solo).Reachable s ∧ s.liveProducers = 0 ∧
      s.consumers 0 = .running [.returned (endOfStream .recvBatch)] ∧
        s.acknowledgedAtTerminal 0 0 = [7] ∧ (s.rings 0 0).delivered = [] := by
  have signalled : (Transition.execute soloStep (new solo) sendBeforeSignal).map
      (fun s => (observe s, s.shutdown)) =
        some ((.running [.returned (.recv none)], (1, 0), [7], []), true) := by
    rfl
  have gone : (Transition.execute soloStep (new solo) sendBeforeDrop).map
      (fun s => (observe s, s.liveProducers)) =
        some ((.running [.returned (.recvBatch none)], (1, 0), [7], []), 0) := by
    rfl
  constructor
  · obtain ⟨s, ran, seen⟩ := Option.map_eq_some_iff.mp signalled
    obtain ⟨⟨ended, -, acknowledged, delivered⟩, flag⟩ := by
      simpa only [observe, Prod.mk.injEq] using seen
    exact ⟨s, reachable_of_soloStep ran, flag, ended, acknowledged, delivered⟩
  · obtain ⟨s, ran, seen⟩ := Option.map_eq_some_iff.mp gone
    obtain ⟨⟨ended, -, acknowledged, delivered⟩, live⟩ := by
      simpa only [observe, Prod.mk.injEq] using seen
    exact ⟨s, reachable_of_soloStep ran, live, ended, acknowledged, delivered⟩

end MpmcState

end ArbitroKit
