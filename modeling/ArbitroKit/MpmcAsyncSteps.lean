import ArbitroKit.MpmcAsyncRuns

/-!
# Whose steps move what

A step of one handle leaves the places of all the others, whatever it does and however it
ends; handles that there are not never leave theirs.
-/

namespace ArbitroKit

open Coherent SlotLane Cyclic Transition

namespace AsyncMpmc

open AsyncGate TaskRing

variable {α : Type*} {size : MpmcSize} {s after : AsyncMpmc α} {shard p k : Nat}

/-- A load of `tail` is at the producer's own end. -/
theorem SenderFrame.loads {index : Nat} {tail : Usize} {ring : TaskRing α}
    (loaded : (s.rings shard p).loadTail index = some (tail, ring)) :
    SenderFrame p s (s.setRing shard p ring) := by
  obtain ⟨value, -, equal⟩ := Option.map_eq_some_iff.mp loaded
  obtain ⟨-, rfl⟩ := Prod.mk.inj equal
  exact .setRing s rfl rfl rfl

theorem senderShutdown_frame {index : Nat} {next : Bool → MpmcSenderPc α}
    (stepped : s.senderShutdown p index next = some after) : SenderFrame p s after := by
  obtain ⟨set, -, rfl⟩ := Option.map_eq_some_iff.mp stepped
  exact .setSender s _

theorem senderLive_frame {index : Nat} {next : Bool → MpmcSenderPc α}
    (stepped : s.senderLive p index next = some after) : SenderFrame p s after := by
  obtain ⟨zero, -, rfl⟩ := Option.map_eq_some_iff.mp stepped
  exact .setSender s _

theorem senderWait_frame {value : α} {index : Nat} {pc : AwaitPc Nat}
    (stepped : s.senderWait size p value index pc = some after) : SenderFrame p s after := by
  cases pc with
  | check phase turn =>
      cases turn using watchCases with
      | shutdown => exact senderShutdown_frame stepped
      | live => exact senderLive_frame stepped
      | peer j =>
          obtain ⟨⟨tail, ring⟩, loaded, rfl⟩ := Option.map_eq_some_iff.mp stepped
          exact (SenderFrame.loads loaded).trans (.setSender _ _)
  | notified | poll | suspended | dropNotified next | disarm next =>
      simp only [senderWait, Option.map_eq_some_iff] at stepped
      obtain ⟨step, -, rfl⟩ := stepped
      have first : SenderFrame p s (s.setProducerWaiter p step.gate) := .setProducerWaiter s _
      exact (first.trans (.senderSees _ step.seen)).trans (.setSender _ _)

/-- Every step of producer `p` leaves to the others what is theirs. -/
theorem senderTick_frame {index : Nat} {saw : Bool}
    (stepped : s.senderTick size p index saw = some after) : SenderFrame p s after := by
  cases here : (s.senders p).pc with
  | idle | gone => simp [senderTick, here] at stepped
  | unpolled value =>
      simp only [senderTick, here, Option.some.injEq] at stepped
      subst stepped
      exact .setSender s _
  | loopShutdown value | loadShutdown call value =>
      simp only [senderTick, here] at stepped
      exact senderShutdown_frame stepped
  | loopLive value | loadLive call value =>
      simp only [senderTick, here] at stepped
      exact senderLive_frame stepped
  | waits value pc =>
      simp only [senderTick, here] at stepped
      exact senderWait_frame stepped
  | scan call items start turn =>
      simp only [senderTick, here] at stepped
      obtain ⟨⟨tail, ring⟩, loaded, rfl⟩ := Option.map_eq_some_iff.mp stepped
      exact (SenderFrame.loads loaded).trans (.setSender _ _)
  | write call j head left written =>
      simp only [senderTick, here] at stepped
      split at stepped <;> cases stepped
      · exact .setSender s _
      · rename_i value rest
        have first : SenderFrame p s
            (s.setRing j p ((s.rings j p).writeSlot (size.ringCap.slot head) value)) :=
          .setRing s rfl rfl rfl
        exact first.trans (.setSender _ _)
  | publish call j head written =>
      simp only [senderTick, here, Option.some.injEq] at stepped
      subst stepped
      have first : SenderFrame p s (s.setRing j p ((s.rings j p).storeHead head)) :=
        .setRing s rfl rfl rfl
      exact first.trans (.setSender _ _)
  | wakeConsumer j written stage =>
      simp only [senderTick, here] at stepped
      have first : SenderFrame p s
          (s.wakeConsumerBy j (p + 2) (s.rings j p).head.latest saw stage).1 :=
        .setConsumerWaiter s j _
      split at stepped <;> cases stepped
      · exact first.trans (.setSender _ _)
      · exact (first.trans (.accepts _ j _)).trans (.setSender _ _)
  | fetchSub =>
      have first : SenderFrame p s { s with liveProducers := s.liveProducers - 1 } :=
        .liveProducers s
      simp only [senderTick, here] at stepped
      split at stepped <;> cases stepped <;> exact first.trans (.setSender _ _)
  | wakeLast j stage =>
      have first : SenderFrame p s (s.wakeConsumerBy j 1 1 saw stage).1 :=
        .setConsumerWaiter s j _
      simp only [senderTick, here] at stepped
      split at stepped
      · split at stepped <;> cases stepped <;> exact first.trans (.setSender _ _)
      · cases stepped
        exact .setSender s _

theorem senderCall_frame {pc : MpmcSenderPc α} (stepped : s.senderCall p pc = some after) :
    SenderFrame p s after := by
  unfold senderCall at stepped
  split at stepped <;> cases stepped
  exact .setSender s _

theorem senderStep_frame {action : MpmcSenderAction α}
    (stepped : s.senderStep size p action = some after) : SenderFrame p s after := by
  cases action with
  | tick index saw => exact senderTick_frame stepped
  | trySend value | sendAsync value | drop | trySendBatch items => exact senderCall_frame stepped
  | cancel =>
      simp only [senderStep] at stepped
      split at stepped <;> cases stepped <;> exact .setSender s _

/-- A load of `head` is at the consumer's own end. -/
theorem ReceiverFrame.loads {index : Nat} {head : Usize} {ring : TaskRing α}
    (loaded : (s.rings shard p).loadHead index = some (head, ring)) :
    ReceiverFrame shard s (s.setRing shard p ring) := by
  obtain ⟨value, -, equal⟩ := Option.map_eq_some_iff.mp loaded
  obtain ⟨-, rfl⟩ := Prod.mk.inj equal
  exact .setRing s rfl rfl rfl

theorem receiverShutdown_frame {index : Nat} {next : Bool → MpmcReceiverPc α}
    (stepped : s.receiverShutdown shard index next = some after) :
    ReceiverFrame shard s after := by
  obtain ⟨set, -, rfl⟩ := Option.map_eq_some_iff.mp stepped
  exact .setReceiver s _

theorem receiverLive_frame {index : Nat} {next : Bool → MpmcReceiverPc α}
    (stepped : s.receiverLive shard index next = some after) : ReceiverFrame shard s after := by
  obtain ⟨zero, -, rfl⟩ := Option.map_eq_some_iff.mp stepped
  exact .setReceiver s _

theorem readSlot_frame (s : AsyncMpmc α) (shard p index : Nat) (next : α → MpmcReceiverPc α) :
    ReceiverFrame shard s (s.readSlot shard p index next) := by
  have counts := counts_read (s.rings shard p).lane index
  have first : ReceiverFrame shard s (s.setRing shard p
      { s.rings shard p with lane := ((s.rings shard p).lane.read index).2 }) :=
    .setRing s rfl counts.1 rfl
  unfold readSlot
  dsimp only
  split <;> exact first.trans (.setReceiver _ _)

theorem receiverWait_frame {index : Nat} {pc : AwaitPc Nat}
    (stepped : s.receiverWait size shard index pc = some after) :
    ReceiverFrame shard s after := by
  cases pc with
  | check phase turn =>
      change s.receiverCheck size shard phase turn index = some after at stepped
      unfold receiverCheck at stepped
      dsimp only at stepped
      split at stepped
      · obtain ⟨⟨head, ring⟩, loaded, rfl⟩ := Option.map_eq_some_iff.mp stepped
        exact (ReceiverFrame.loads loaded).trans (.setReceiver _ _)
      · split at stepped
        · exact receiverShutdown_frame stepped
        · exact receiverLive_frame stepped
  | notified | poll | suspended | dropNotified next | disarm next =>
      simp only [receiverWait, Option.map_eq_some_iff] at stepped
      obtain ⟨step, -, rfl⟩ := stepped
      have first : ReceiverFrame shard s (s.setConsumerWaiter shard step.gate) :=
        .setConsumerWaiter s _
      exact (first.trans (.receiverSees _ step.seen)).trans (.setReceiver _ _)

/-- Every step of the shard's consumer leaves to the others what is theirs. -/
theorem receiverTick_frame {index : Nat} {saw : Bool}
    (stepped : s.receiverTick size shard index saw = some after) :
    ReceiverFrame shard s after := by
  cases here : (s.receivers shard).pc with
  | idle | gone | undefined => simp [receiverTick, here] at stepped
  | unpolled =>
      simp only [receiverTick, here, Option.some.injEq] at stepped
      subst stepped
      exact .setReceiver s _
  | loopShutdown =>
      simp only [receiverTick, here] at stepped
      exact receiverShutdown_frame stepped
  | loopLive =>
      simp only [receiverTick, here] at stepped
      exact receiverLive_frame stepped
  | waits pc =>
      simp only [receiverTick, here] at stepped
      exact receiverWait_frame stepped
  | scan call p | drain p progress =>
      simp only [receiverTick, here] at stepped
      obtain ⟨⟨head, ring⟩, loaded, rfl⟩ := Option.map_eq_some_iff.mp stepped
      exact (ReceiverFrame.loads loaded).trans (.setReceiver _ _)
  | scanRead call p tail | drainRead p head tail =>
      simp only [receiverTick, here, Option.some.injEq] at stepped
      subst stepped
      exact readSlot_frame s shard p _ _
  | scanStore p tail value =>
      simp only [receiverTick, here, Option.some.injEq] at stepped
      subst stepped
      have first : ReceiverFrame shard s
          (s.setRing shard p ((s.rings shard p).storeTail (tail + 1))) :=
        .setRing s rfl rfl rfl
      exact first.trans (.setReceiver _ _)
  | drainStore p tail =>
      simp only [receiverTick, here, Option.some.injEq] at stepped
      subst stepped
      have first : ReceiverFrame shard s (s.setRing shard p ((s.rings shard p).storeTail tail)) :=
        .setRing s rfl rfl rfl
      exact first.trans (.setReceiver _ _)
  | drainCallback p head tail value =>
      simp only [receiverTick, here, Option.some.injEq] at stepped
      subst stepped
      exact (ReceiverFrame.delivers s p value).trans (.setReceiver _ _)
  | scanWake p value stage =>
      simp only [receiverTick, here] at stepped
      have first : ReceiverFrame shard s
          (s.wakeProducerBy p (shard + 2) (s.rings shard p).tail.latest saw stage).1 :=
        .setProducerWaiter s p _
      split at stepped <;> cases stepped
      · exact first.trans (.setReceiver _ _)
      · exact (first.trans (.delivers _ p value)).trans (.setReceiver _ _)
  | drainWake p stage =>
      simp only [receiverTick, here] at stepped
      have first : ReceiverFrame shard s
          (s.wakeProducerBy p (shard + 2) (s.rings shard p).tail.latest saw stage).1 :=
        .setProducerWaiter s p _
      split at stepped <;> cases stepped <;> exact first.trans (.setReceiver _ _)
  | fetchSub =>
      have first : ReceiverFrame shard s { s with liveConsumers := s.liveConsumers - 1 } :=
        .liveConsumers s
      simp only [receiverTick, here] at stepped
      split at stepped <;> cases stepped <;> exact first.trans (.setReceiver _ _)
  | wakeLast p stage =>
      have first : ReceiverFrame shard s (s.wakeProducerBy p 1 1 saw stage).1 :=
        .setProducerWaiter s p _
      simp only [receiverTick, here] at stepped
      split at stepped
      · split at stepped <;> cases stepped <;> exact first.trans (.setReceiver _ _)
      · cases stepped
        exact .setReceiver s _

theorem receiverCall_frame {pc : MpmcReceiverPc α}
    (stepped : s.receiverCall shard pc = some after) : ReceiverFrame shard s after := by
  unfold receiverCall at stepped
  split at stepped <;> cases stepped
  exact .setReceiver s _

theorem receiverStep_frame {action : MpmcReceiverAction}
    (stepped : s.receiverStep size shard action = some after) : ReceiverFrame shard s after := by
  cases action with
  | tick index saw => exact receiverTick_frame stepped
  | tryRecv | tryRecvBatch | recvAsync | drop => exact receiverCall_frame stepped
  | cancel =>
      simp only [receiverStep] at stepped
      split at stepped <;> cases stepped <;> exact .setReceiver s _

theorem signallerStep_frame {action : MpmcTaskSignalAction}
    (stepped : s.signallerStep size k action = some after) : SignallerFrame k s after := by
  cases action with
  | signal =>
      simp only [signallerStep] at stepped
      split at stepped <;> cases stepped
      exact .goes s _ _ _ _
  | tick saw =>
      simp only [signallerStep] at stepped
      split at stepped
      · cases stepped
      · split at stepped
        · split at stepped <;> cases stepped <;> exact .goes s _ _ _ _
        · cases stepped
          exact .goes s _ _ _ _
      · split at stepped
        · split at stepped <;> cases stepped <;> exact .goes s _ _ _ _
        · cases stepped
          exact .goes s _ _ _ _

def ofSender (p : Nat) : AsyncMpmcAction α → Bool
  | .sender q _ => q == p
  | .receiver _ _ => false
  | .signaller _ _ => false

def ofReceiver (shard : Nat) : AsyncMpmcAction α → Bool
  | .sender _ _ => false
  | .receiver j _ => j == shard
  | .signaller _ _ => false

def ofSignaller (k : Nat) : AsyncMpmcAction α → Bool
  | .sender _ _ => false
  | .receiver _ _ => false
  | .signaller j _ => j == k

theorem sender_of_step {action : MpmcSenderAction α}
    (stepped : s.step size (.sender p action) = some after) :
    s.senderStep size p action = some after := by
  simp only [step] at stepped
  split at stepped
  · exact stepped
  · cases stepped

theorem receiver_of_step {action : MpmcReceiverAction}
    (stepped : s.step size (.receiver shard action) = some after) :
    shard < size.n ∧ s.receiverStep size shard action = some after := by
  simp only [step] at stepped
  split at stepped
  · exact ⟨by assumption, stepped⟩
  · cases stepped

theorem sender_kept {action : AsyncMpmcAction α} (other : ofSender p action = false)
    (stepped : s.step size action = some after) : after.senders p = s.senders p := by
  cases action with
  | sender q action =>
      exact (senderStep_frame (sender_of_step stepped)).senders p
        (beq_eq_false_iff_ne.mp other).symm
  | receiver shard action => rw [(receiverStep_frame (receiver_of_step stepped).2).senders]
  | signaller k action => rw [(signallerStep_frame stepped).senders]

theorem receiver_kept {action : AsyncMpmcAction α} (other : ofReceiver shard action = false)
    (stepped : s.step size action = some after) : after.receivers shard = s.receivers shard := by
  cases action with
  | sender q action => rw [(senderStep_frame (sender_of_step stepped)).receivers]
  | receiver j action =>
      exact (receiverStep_frame (receiver_of_step stepped).2).receivers shard
        (beq_eq_false_iff_ne.mp other).symm
  | signaller k action => rw [(signallerStep_frame stepped).receivers]

theorem signaller_kept {action : AsyncMpmcAction α} (other : ofSignaller k action = false)
    (stepped : s.step size action = some after) : after.signallers k = s.signallers k := by
  cases action with
  | sender q action => rw [(senderStep_frame (sender_of_step stepped)).signallers]
  | receiver shard action => rw [(receiverStep_frame (receiver_of_step stepped).2).signallers]
  | signaller j action =>
      exact (signallerStep_frame stepped).signallers k (beq_eq_false_iff_ne.mp other).symm

/-- Handles that there are not never leave their place. -/
theorem sender_beyond (reached : (system size).Reachable s) (beyond : ¬ p < size.m) :
    (s.senders p).pc = .idle := by
  apply reached.invariant fun s => (s.senders p).pc = .idle
  · rintro - rfl
    rfl
  · intro before action after _ idle stepped
    cases action with
    | sender q action =>
        have other : ofSender p (.sender q action : AsyncMpmcAction α) = false := by
          apply beq_eq_false_iff_ne.mpr
          rintro rfl
          change before.step size (.sender q action) = some after at stepped
          simp [step, beyond] at stepped
        rw [sender_kept other stepped]
        exact idle
    | receiver shard action | signaller k action =>
        rw [sender_kept rfl stepped]
        exact idle

theorem receiver_beyond (reached : (system size).Reachable s) (beyond : ¬ shard < size.n) :
    (s.receivers shard).pc = .idle := by
  apply reached.invariant fun s => (s.receivers shard).pc = .idle
  · rintro - rfl
    rfl
  · intro before action after _ idle stepped
    cases action with
    | receiver j action =>
        have other : ofReceiver shard (.receiver j action : AsyncMpmcAction α) = false := by
          apply beq_eq_false_iff_ne.mpr
          rintro rfl
          exact beyond (receiver_of_step stepped).1
        rw [receiver_kept other stepped]
        exact idle
    | sender p action | signaller k action =>
        rw [receiver_kept rfl stepped]
        exact idle

end AsyncMpmc

end ArbitroKit
