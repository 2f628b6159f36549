import ArbitroKit.RingConsumer
import ArbitroKit.RingProducer

/-!
# The ring's invariant over whole runs

Each handle relies on the other only to advance its own cursor, so the facts of
both handles hold together in every state of every run whose panics stay within
the cached head.
-/

namespace ArbitroKit

open Coherent SlotLane Cyclic Transition

namespace RingState

variable {α : Type*} {cap : Cap}

inductive RingParty where
  | producer
  | consumer

def actor : RingAction α → RingParty
  | .producer _ => .producer
  | .consumer _ => .consumer

/-- The facts of one handle. -/
def PartyOk (cap : Cap) : RingParty → RingState α → Prop
  | .producer => ProducerOk cap
  | .consumer => ConsumerOk

/-- What one handle relies on. -/
def PartyRely : RingParty → RingState α → RingState α → Prop
  | .producer => ProducerRely
  | .consumer => ConsumerRely

theorem ProducerRely.stable {before after : RingState α}
    (rely : ProducerRely before after) (ok : ProducerOk cap before) :
    ProducerOk cap after := by
  obtain ⟨known, fresh, facts⟩ := ok
  have sent : after.shared.lane.sent = before.shared.lane.sent := by
    rw [Lane.sent, Lane.sent, rely.written, rely.published]
  refine ⟨known, fresh, ?_⟩
  rw [rely.producer]
  exact
    { cached := facts.cached
      known_le := facts.known_le
      follows := by
        rcases rely.tail with ⟨sameTail, sameReleased⟩ | ⟨stored, later⟩
        · rw [sameTail, sameReleased]
          exact facts.follows
        · rw [stored]
          exact facts.follows.store later
      room := by rw [rely.written]; exact facts.room
      written := by rw [rely.written, sent]; exact facts.written
      reported := by rw [sent]; exact facts.reported
      here := (producerAt_iff rely.written rely.published).mpr facts.here }

theorem ConsumerRely.stable {before after : RingState α}
    (rely : ConsumerRely before after) (ok : ConsumerOk before) : ConsumerOk after := by
  obtain ⟨known, fresh, facts⟩ := ok
  refine ⟨known, fresh, ?_⟩
  rw [rely.consumer]
  exact
    { cached := facts.cached
      known_le := facts.known_le
      follows := by
        rcases rely.head with ⟨sameHead, samePublished⟩ | ⟨stored, later⟩
        · rw [sameHead, samePublished]
          exact facts.follows
        · rw [stored]
          exact facts.follows.store later
      delivered := by rw [rely.received]; exact facts.delivered
      here := by rw [rely.released, rely.received]; exact facts.here }

theorem new_ok (cap : Cap) :
    SharedOk cap (new : RingState α).shared ∧ ProducerOk cap (new : RingState α) ∧
      ConsumerOk (new : RingState α) := by
  refine ⟨⟨Lane.sound_empty, rfl, rfl⟩, ⟨0, 0, ?_⟩, ⟨0, 0, ?_⟩⟩
  · exact
      { cached := rfl
        known_le := le_rfl
        follows := follows_new 0
        room := Nat.zero_le _
        written := rfl
        reported := rfl
        here := trivial }
  · exact
      { cached := rfl
        known_le := le_rfl
        follows := follows_new 0
        delivered := rfl
        here := ⟨rfl, le_rfl⟩ }

/-- The runs whose callbacks panic only within the cached head. -/
def withinCache (cap : Cap) : System (RingState α) (RingAction α) :=
  (system cap).guarded fun s action => s.panicsWithinCache action = true

theorem invariant {s : RingState α} (reached : (withinCache cap).Reachable s) :
    SharedOk cap s.shared ∧ ProducerOk cap s ∧ ConsumerOk s := by
  have both : SharedOk cap s.shared ∧ ∀ party, PartyOk cap party s := by
    refine reached.relyGuarantee (fun s => SharedOk cap s.shared) (PartyOk cap) PartyRely
      actor ?base ?own ?guarantee ?stable
    case base =>
      rintro _ rfl
      refine ⟨(new_ok cap).1, fun party => ?_⟩
      cases party with
      | producer => exact (new_ok cap).2.1
      | consumer => exact (new_ok cap).2.2
    case own =>
      rintro before action after - shared locals ⟨within, taken⟩
      cases action with
      | producer action =>
          obtain ⟨shared, ok, -⟩ := producer_step shared (locals .producer) taken
          exact ⟨shared, ok⟩
      | consumer action =>
          obtain ⟨shared, ok, -⟩ := consumer_step shared (locals .consumer) within taken
          exact ⟨shared, ok⟩
    case guarantee =>
      rintro before action after - shared locals ⟨within, taken⟩ party other
      cases action with
      | producer action =>
          cases party with
          | producer => exact absurd rfl other
          | consumer => exact (producer_step shared (locals .producer) taken).2.2
      | consumer action =>
          cases party with
          | producer => exact (consumer_step shared (locals .consumer) within taken).2.2
          | consumer => exact absurd rfl other
    case stable =>
      rintro party before after rely - - ok
      cases party with
      | producer => exact ProducerRely.stable rely ok
      | consumer => exact ConsumerRely.stable rely ok
  exact ⟨both.1, both.2 .producer, both.2 .consumer⟩

end RingState

end ArbitroKit
