import ArbitroKit.MpmcDelivery

/-!
# Receives inside a callback

`drain_all` stores the advanced tail only when its guard goes.  A receive called
from its callback on the same consumer loads the old tail, and reads again what
the outer call has already moved out.
-/

namespace ArbitroKit

open SlotLane Cyclic Transition

namespace MpmcState

variable {α : Type*} {size : MpmcSize} {s : MpmcState α}

/-- As long as no nested receive loads the tail of a ring that is being drained
around it, everything is handed out once and in order, no slot is read twice and no
tail moves back. -/
theorem apart_exactlyOnce (reached : (apart size).Reachable s) :
    ExactlyOnce size s ∧
      ∀ action after, (apart size).Step s action after → TailsAdvance s after :=
  ⟨exactlyOnce_of_apart reached, fun _ _ taken => tailsAdvance_of_apart reached taken⟩

/-- Two producers and one shard, with rings of one slot. -/
def oneShard : MpmcSize where
  ringCap := oneSlotCap
  m := 2
  m_pos := Nat.two_pos
  m_le := MpmcSize.two_le
  n := 1
  n_pos := Nat.one_pos

/-- A send by producer `p`, run to its end. -/
def sendBy (p value : Nat) : List (MpmcAction Nat) :=
  .producer p (.trySend value) :: List.replicate 7 (.producer p .tick)

/-- While the callback runs on an item of ring 1, an item arrives in ring 0 and the
callback receives it. -/
def receiveElsewhere : List (MpmcAction Nat) :=
  sendBy 1 5 ++ [MpmcAction.consumer 0 .tryRecvBatch] ++ consumerTicks 0 5 ++ sendBy 0 6 ++
    [MpmcAction.consumer 0 .tryRecv] ++ consumerTicks 0 6 ++ consumerTicks 0 3

/-- The callback receives from the ring its item came from: that item again, and then
one that was sent in between. -/
def receiveAgainInside : List (MpmcAction Nat) :=
  sendBy 0 5 ++ [MpmcAction.consumer 0 .tryRecvBatch] ++ consumerTicks 0 3 ++
    [MpmcAction.consumer 0 .tryRecv] ++ consumerTicks 0 6 ++ sendBy 0 6 ++
    [MpmcAction.consumer 0 .tryRecv] ++ consumerTicks 0 6 ++ consumerTicks 0 1

theorem apart_exactlyOnce_receiveElsewhere :
    ∃ s : MpmcState Nat, (apart oneShard).Reachable s ∧ (s.rings 0 0).delivered = [6] ∧
      (s.rings 0 1).delivered = [5] ∧ ExactlyOnce oneShard s := by
  have ran : (Transition.execute (Transition.guardedStep
      (fun s (action : MpmcAction Nat) => s.rereadsNothing action = true)
      fun s action => s.step oneShard action) (new oneShard) receiveElsewhere).map
        (fun s => ((s.rings 0 0).delivered, (s.rings 0 1).delivered)) = some ([6], [5]) := by
    rfl
  obtain ⟨s, ran, seen⟩ := Option.map_eq_some_iff.mp ran
  obtain ⟨first, second⟩ := by simpa only [Prod.mk.injEq] using seen
  have reached : (apart oneShard).Reachable s := System.reachable_of_guarded_execute rfl ran
  exact ⟨s, reached, first, second, (apart_exactlyOnce reached).1⟩

/-- The item sent once is handed out twice, its slot is read after it was moved out,
and the outer call's guard then moves the tail back. -/
theorem reentry_receiveAgainInside :
    ∃ s after : MpmcState Nat, (system oneShard).Reachable s ∧
      s.step oneShard (.consumer 0 .tick) = some after ∧ (s.rings 0 0).lane.sent = [5, 6] ∧
        (s.rings 0 0).delivered = [5, 5, 6] ∧ (s.rings 0 0).lane.misread = true ∧
          ¬ TailsAdvance s after := by
  have ran : (Transition.execute (fun s action => s.step oneShard action) (new oneShard)
      receiveAgainInside).map (fun s => ((s.rings 0 0).lane.sent, (s.rings 0 0).delivered,
        (s.rings 0 0).lane.misread, (s.rings 0 0).tail,
          (s.step oneShard (.consumer 0 .tick)).map fun after =>
            ((after.rings 0 0).tail, (after.rings 0 0).head))) =
              some ([5, 6], [5, 5, 6], true, 2, some (1, 2)) := by
    rfl
  obtain ⟨s, ran, seen⟩ := Option.map_eq_some_iff.mp ran
  obtain ⟨sent, delivered, misread, tail, last⟩ := by simpa only [Prod.mk.injEq] using seen
  obtain ⟨after, taken, cursors⟩ := Option.map_eq_some_iff.mp last
  obtain ⟨tailAfter, headAfter⟩ := by simpa only [Prod.mk.injEq] using cursors
  refine ⟨s, after, System.reachable_of_execute rfl ran, taken, sent, delivered, misread,
    fun advance => ?_⟩
  have between := advance 0 0
  rw [tail, tailAfter, headAfter] at between
  exact absurd between (by decide)

end MpmcState

end ArbitroKit
