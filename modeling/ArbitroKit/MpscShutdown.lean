import ArbitroKit.MpscConsumer

/-!
# Shutdown of the many-producer channel

`Err(Shutdown)` after a signal: the consumer looks at every ring first and at
the flag afterwards, without going back to the rings.  What was acknowledged
before the signal has been delivered exactly when none of it was published
after that look.
-/

namespace ArbitroKit

open Coherent SlotLane Cyclic Transition

namespace MpscState

variable {α : Type*} {size : MpscSize} {s : MpscState α}

theorem pc_of_idle {pc : ConsumerPc α} (idle : RingState.consumerActivity pc = .idle) :
    pc = .idle := by
  cases pc with
  | idle => rfl
  | recvRefresh call _ | recvClosed call _ | recvRecheck call _ | recvRead call _
  | recvRelease call _ _ | recvWake call _ => cases call <;> cases idle
  | returned outcome => cases outcome <;> cases idle
  | _ => cases idle

/-- Between its calls into a ring the consumer has handed out what it received. -/
theorem delivered_eq_received (reached : (withinCache size).Reachable s) {i : Nat}
    (idle : RingState.consumerActivity (s.rings i).consumer.pc = .idle) :
    (s.rings i).consumer.delivered = (s.rings i).shared.lane.received := by
  have received := (ring_ok reached i).2.2.received_eq
  rw [pc_of_idle idle] at received
  simpa [RingState.undelivered] using received.symm

/-- What a ring's consumer has received is the first part of what its producer has
sent, and so is what the producer's calls have accepted. -/
theorem initialPart_sent (reached : (withinCache size).Reachable s) (i : Nat) :
    (s.rings i).shared.lane.received <+: (s.rings i).shared.lane.sent ∧
      (s.rings i).producer.accepted <+: (s.rings i).shared.lane.sent := by
  obtain ⟨shared, producer, -⟩ := ring_ok reached i
  exact ⟨⟨_, shared.sound.received_append⟩, ⟨_, producer.sent_eq.symm⟩⟩

/-- The acknowledged items of producer `i` at the first signal. -/
def acknowledgedAtSignal (s : MpscState α) (i : Nat) : List α :=
  (s.rings i).producer.accepted.take (s.history.ackedAtSignal i)

theorem length_acknowledgedAtSignal (reached : (withinCache size).Reachable s) (i : Nat) :
    (s.acknowledgedAtSignal i).length = s.history.ackedAtSignal i := by
  have ok := producersOk reached
  have acked := (ok.inStep i).acked
  have snapshot := ok.ackedAtSignal i
  rw [acknowledgedAtSignal, List.length_take]
  omega

/-- When a receive returns `Err(Shutdown)` after a signal, the items acknowledged
before the signal have all been delivered if and only if each of them was already
published when the receive last looked at its ring. -/
theorem shutdown_delivers_acknowledged_iff (call : MpscBlocking)
    (reached : (withinCache size).Reachable s)
    (ended : s.consumer = .returned (endOfStream call)) :
    (∀ i < size.m, s.acknowledgedAtSignal i <+: (s.rings i).consumer.delivered) ↔
      ∀ i < size.m, s.history.ackedAtSignal i ≤ s.history.looked i := by
  have ok := consumerInStep reached
  have scanned : s.Scanned size.m := by
    have here := ok.here
    rw [ended] at here
    cases call <;> exact here.1
  refine forall₂_congr fun i inside => ?_
  have idle : RingState.consumerActivity (s.rings i).consumer.pc = .idle := by
    have activity := ok.activity i
    rwa [ended] at activity
  obtain ⟨received, accepted⟩ := initialPart_sent reached i
  have acknowledged : s.acknowledgedAtSignal i <+: (s.rings i).shared.lane.sent :=
    (List.take_prefix _ _).trans accepted
  rw [delivered_eq_received reached idle, scanned i inside,
    ← length_acknowledgedAtSignal reached i]
  exact ⟨fun delivered => delivered.length_le,
    List.prefix_of_prefix_length_le acknowledged received⟩

/-- One producer with two slots. -/
def soloSize : MpscSize where
  cap := twoSlotCap
  m := 1
  m_pos := Nat.one_pos
  m_le := MpscSize.one_le

def producerTicks (n : Nat) : List (MpscAction Nat) :=
  List.replicate n (.producer 0 .tick)

def consumerTicks (n : Nat) : List (MpscAction Nat) :=
  List.replicate n (.consumer .tick)

/-- A send is received, then the channel is shut down and found finished. -/
def quietShutdown : List (MpscAction Nat) :=
  [MpscAction.producer 0 (.trySend 7)] ++ producerTicks 8 ++ [MpscAction.consumer .recv] ++
    consumerTicks 8 ++ [MpscAction.signaller 0 .signal, .consumer .recv] ++ consumerTicks 5

/-- A send completes between the consumer's look at the ring and the signal. -/
def lateSend : List (MpscAction Nat) :=
  [MpscAction.consumer .recv] ++ consumerTicks 4 ++ [MpscAction.producer 0 (.trySend 7)] ++
    producerTicks 8 ++ [MpscAction.signaller 0 .signal] ++ consumerTicks 1

/-- One run of the channel with one producer, seen through what a receive returned,
the counts of acknowledged and looked-at items and the lists they are about. -/
def observe (s : MpscState Nat) : MpscConsumerPc Nat × (Nat × Nat) × List Nat × List Nat :=
  (s.consumer, (s.history.ackedAtSignal 0, s.history.looked 0),
    s.acknowledgedAtSignal 0, (s.rings 0).consumer.delivered)

/-- The steps a run may take if callbacks panic only within the cached head. -/
def soloStep (s : MpscState Nat) (action : MpscAction Nat) : Option (MpscState Nat) :=
  Transition.guardedStep (fun s (action : MpscAction Nat) => s.panicsWithinCache action = true)
    (fun s action => s.step soloSize action) s action

theorem reachable_of_soloStep {actions : List (MpscAction Nat)} {s : MpscState Nat}
    (ran : Transition.execute soloStep (new soloSize) actions = some s) :
    (withinCache soloSize).Reachable s :=
  System.reachable_of_guarded_execute rfl ran

theorem shutdown_delivers_acknowledged_quietShutdown :
    ∃ s : MpscState Nat, (withinCache soloSize).Reachable s ∧ s.shutdown = true ∧
      s.acknowledgedAtSignal 0 = [7] ∧
        s.acknowledgedAtSignal 0 <+: (s.rings 0).consumer.delivered := by
  have ran : (Transition.execute soloStep (new soloSize) quietShutdown).map
      (fun s => (observe s, s.shutdown)) =
        some ((.returned (.recv none), (1, 1), [7], [7]), true) := by
    rfl
  obtain ⟨s, ran, seen⟩ := Option.map_eq_some_iff.mp ran
  obtain ⟨⟨ended, ⟨acked, looked⟩, acknowledged, -⟩, signalled⟩ := by
    simpa only [observe, Prod.mk.injEq] using seen
  have reached := reachable_of_soloStep ran
  refine ⟨s, reached, signalled, acknowledged, ?_⟩
  refine (shutdown_delivers_acknowledged_iff .recv reached ended).mpr ?_ 0 (by decide)
  intro i inside
  obtain rfl : i = 0 := Nat.lt_one_iff.mp inside
  rw [acked, looked]

/-- The item acknowledged before the signal is lost: the receive has looked at the
ring before the send and finds the flag set after it. -/
theorem shutdown_loses_lateSend :
    ∃ s : MpscState Nat, (withinCache soloSize).Reachable s ∧ s.shutdown = true ∧
      s.consumer = .returned (.recv none) ∧ s.acknowledgedAtSignal 0 = [7] ∧
        (s.rings 0).consumer.delivered = [] := by
  have ran : (Transition.execute soloStep (new soloSize) lateSend).map
      (fun s => (observe s, s.shutdown)) =
        some ((.returned (.recv none), (1, 0), [7], []), true) := by
    rfl
  obtain ⟨s, ran, seen⟩ := Option.map_eq_some_iff.mp ran
  obtain ⟨⟨ended, -, acknowledged, delivered⟩, signalled⟩ := by
    simpa only [observe, Prod.mk.injEq] using seen
  exact ⟨s, reachable_of_soloStep ran, signalled, ended, acknowledged, delivered⟩

end MpscState

end ArbitroKit
