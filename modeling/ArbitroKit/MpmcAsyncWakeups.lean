import ArbitroKit.Countdown
import ArbitroKit.MpmcAsyncDelivery
import ArbitroKit.MpmcAsyncSteps
import ArbitroKit.RingAsyncWakeups

/-!
# No task of the channel sleeps over

A task of the channel that sleeps unnotified sleeps in front of rings that are all full, or
all empty, on a channel that is not terminal, or somebody is on the way to its gate and
notifies it within a bounded number of steps of their own.
-/

namespace ArbitroKit

open Coherent SlotLane Cyclic Transition

namespace AsyncMpmc

open AsyncGate TaskRing

variable {α : Type*} {size : MpmcSize} {s after : AsyncMpmc α} {shard p k : Nat}

/-- The future of producer `p`'s `send_async` sleeps, and nothing has notified it. -/
def SenderAsleep (s : AsyncMpmc α) (p : Nat) : Prop :=
  (∃ value, (s.senders p).pc = .waits value .suspended) ∧
    (s.producerWaiters p).notify.future ≠ some .notified

/-- The future of the shard's `recv_async` sleeps, and nothing has notified it. -/
def ReceiverAsleep (s : AsyncMpmc α) (shard : Nat) : Prop :=
  (s.receivers shard).pc = .waits .suspended ∧
    (s.consumerWaiters shard).notify.future ≠ some .notified

theorem SenderHears.calm (hears : SenderHears size s p) (asleep : SenderAsleep s p) {idx : Nat}
    (inside : idx < size.n + 2) (quiet : ¬ (s.senderWatch size p).onWay idx) :
    (s.senderWatch size p).calm idx := by
  obtain ⟨⟨value, here⟩, unnotified⟩ := asleep
  rw [SenderHears, here] at hears
  exact hears.calm_of_suspended unnotified inside quiet

theorem ReceiverHears.calm (hears : ReceiverHears size s shard) (asleep : ReceiverAsleep s shard)
    {idx : Nat} (inside : idx < size.m + 2) (quiet : ¬ (s.receiverWatch shard).onWay idx) :
    (s.receiverWatch shard).calm idx := by
  rw [ReceiverHears, asleep.1] at hears
  exact hears.calm_of_suspended asleep.2 inside quiet

/-- A sleeping sender has found the shard's ring full, or the shard is about to wake it. -/
theorem Ok.full_of_asleep (ok : Ok size s) (insideShard : shard < size.n) (inside : p < size.m)
    (asleep : SenderAsleep s p) (quiet : (s.receivers shard).pc.wakes p = false) :
    (s.rings shard p).occupancy = size.ringCap.size := by
  have full := (ok.senders p inside).calm asleep (Nat.add_lt_add_right insideShard 2)
    (ne_true_of_eq_false quiet)
  have full : (s.rings shard p).lane.published =
      (s.rings shard p).lane.released + size.ringCap.size := full
  rw [(ok.links shard insideShard p inside).occupancy_eq, full, Nat.add_sub_cancel_left]

/-- A sleeping receiver has found the producer's ring empty, or the producer is about to wake
it. -/
theorem Ok.empty_of_asleep (ok : Ok size s) (insideShard : shard < size.n) (inside : p < size.m)
    (asleep : ReceiverAsleep s shard) (quiet : (s.senders p).pc.wakes shard = false) :
    (s.rings shard p).occupancy = 0 := by
  have empty := (ok.receivers shard insideShard).calm asleep (Nat.add_lt_add_right inside 2)
    (ne_true_of_eq_false quiet)
  have empty : (s.rings shard p).lane.published = (s.rings shard p).lane.released := empty
  rw [(ok.links shard insideShard p inside).occupancy_eq, empty, Nat.sub_self]

/-- No wake-up is lost among the tasks of the channel. -/
structure NobodySleepsOver (size : MpmcSize) (s : AsyncMpmc α) : Prop where
  senderRoom : ∀ p < size.m, SenderAsleep s p → ∀ shard < size.n,
    (s.receivers shard).pc.wakes p = false →
      (s.rings shard p).occupancy = size.ringCap.size
  senderOpen : ∀ p < size.m, SenderAsleep s p →
    (∀ k, (s.signallers k).forProducer p = false) → s.shutdown = false
  senderPeers : ∀ p < size.m, SenderAsleep s p →
    (∀ shard, (s.receivers shard).pc.lastFor p = false) → s.liveConsumers ≠ 0
  receiverItems : ∀ shard < size.n, ReceiverAsleep s shard → ∀ p < size.m,
    (s.senders p).pc.wakes shard = false → (s.rings shard p).occupancy = 0
  receiverOpen : ∀ shard < size.n, ReceiverAsleep s shard →
    (∀ k, (s.signallers k).forConsumer shard = false) → s.shutdown = false
  receiverPeers : ∀ shard < size.n, ReceiverAsleep s shard →
    (∀ p, (s.senders p).pc.lastFor shard = false) → s.liveProducers ≠ 0
  notBoth : ∀ p < size.m, ∀ shard < size.n, SenderAsleep s p → ¬ ReceiverAsleep s shard
  /-- A task that is away from its gate has left it disarmed and unregistered. -/
  senderDisarmed : ∀ p < size.m, waitPhase (s.senders p).pc.wait = .away →
    (s.producerWaiters p).armed = 0 ∧ (s.producerWaiters p).notify.future = none
  receiverDisarmed : ∀ shard < size.n, waitPhase (s.receivers shard).pc.wait = .away →
    (s.consumerWaiters shard).armed = 0 ∧ (s.consumerWaiters shard).notify.future = none

/-- In every state of every run, whatever was dropped on the way. -/
theorem tasks_nobodySleepsOver (reached : (system size).Reachable s) :
    NobodySleepsOver size s := by
  have ok := ok_of_reachable reached
  constructor
  case senderRoom =>
    intro p inside asleep shard insideShard quiet
    exact ok.full_of_asleep insideShard inside asleep quiet
  case senderOpen =>
    intro p inside asleep quiet
    have zero : 0 < size.n + 2 := Nat.succ_pos _
    refine (ok.senders p inside).calm asleep zero ?_
    rintro ⟨k, coming⟩
    rw [quiet k] at coming
    cases coming
  case senderPeers =>
    intro p inside asleep quiet
    have one : 1 < size.n + 2 := Nat.succ_lt_succ (Nat.succ_pos _)
    refine (ok.senders p inside).calm asleep one ?_
    rintro ⟨shard, coming⟩
    rw [quiet shard] at coming
    cases coming
  case receiverItems =>
    intro shard insideShard asleep p inside quiet
    exact ok.empty_of_asleep insideShard inside asleep quiet
  case receiverOpen =>
    intro shard insideShard asleep quiet
    have zero : 0 < size.m + 2 := Nat.succ_pos _
    refine (ok.receivers shard insideShard).calm asleep zero ?_
    rintro ⟨k, coming⟩
    rw [quiet k] at coming
    cases coming
  case receiverPeers =>
    intro shard insideShard asleep quiet
    have one : 1 < size.m + 2 := Nat.succ_lt_succ (Nat.succ_pos _)
    refine (ok.receivers shard insideShard).calm asleep one ?_
    rintro ⟨p, coming⟩
    rw [quiet p] at coming
    cases coming
  case notBoth =>
    intro p inside shard insideShard sends receives
    have full := ok.full_of_asleep insideShard inside sends (by rw [receives.1]; rfl)
    obtain ⟨value, here⟩ := sends.1
    have empty := ok.empty_of_asleep insideShard inside receives (by rw [here]; rfl)
    have positive := size.ringCap.size_pos
    omega
  case senderDisarmed =>
    intro p inside away
    have gate := (ok.senders p inside).ok
    rw [away] at gate
    exact ⟨gate.armed, gate.future⟩
  case receiverDisarmed =>
    intro shard insideShard away
    have gate := (ok.receivers shard insideShard).ok
    rw [away] at gate
    exact ⟨gate.armed, gate.future⟩

/-- A `send_async` sleeps behind two full rings, and a `try_recv` has just given back the slot
of the first, in front of its wake. -/
def sleepThenTryRecv : List (AsyncMpmcAction Nat) :=
  [AsyncMpmcAction.sender 0 (.trySend 7)] ++
    List.replicate 8 (AsyncMpmcAction.sender 0 (.tick 0 false)) ++
    [AsyncMpmcAction.sender 0 (.trySend 8)] ++
    List.replicate 8 (AsyncMpmcAction.sender 0 (.tick 0 false)) ++
    [AsyncMpmcAction.sender 0 (.sendAsync 10)] ++
    List.replicate 17 (AsyncMpmcAction.sender 0 (.tick 0 false)) ++
    [AsyncMpmcAction.receiver 0 .tryRecv] ++
    List.replicate 3 (AsyncMpmcAction.receiver 0 (.tick 1 false))

theorem sleepThenTryRecv_ran :
    ∃ s, Transition.execute (fun s action => s.step MpmcState.twoShards action)
        (new MpmcState.twoShards : AsyncMpmc Nat) sleepThenTryRecv = some s ∧
      (SenderAsleep s 0 ∧ (s.rings 0 0).occupancy = 0) ∧
        (system MpmcState.twoShards).Reachable s := by
  have ran : (Transition.execute (fun s action => s.step MpmcState.twoShards action)
      (new MpmcState.twoShards : AsyncMpmc Nat) sleepThenTryRecv).map
        (fun s => ((s.senders 0).pc, (s.producerWaiters 0).notify.future,
          (s.rings 0 0).occupancy)) =
      some (.waits 10 .suspended, some .waiting, 0) := by
    rfl
  obtain ⟨s, ran, outcome⟩ := Option.map_eq_some_iff.mp ran
  simp only [Prod.mk.injEq] at outcome
  obtain ⟨here, waiting, empty⟩ := outcome
  refine ⟨s, ran, ⟨⟨⟨10, here⟩, ?_⟩, empty⟩, System.reachable_of_execute rfl ran⟩
  rw [waiting]
  simp

theorem tasks_nobodySleepsOver_sleepThenTryRecv :
    ∃ s, Transition.execute (fun s action => s.step MpmcState.twoShards action)
        (new MpmcState.twoShards : AsyncMpmc Nat) sleepThenTryRecv = some s ∧
      (SenderAsleep s 0 ∧ (s.rings 0 0).occupancy = 0) ∧
        NobodySleepsOver MpmcState.twoShards s := by
  obtain ⟨s, ran, outcome, reached⟩ := sleepThenTryRecv_ran
  exact ⟨s, ran, outcome, tasks_nobodySleepsOver reached⟩

/-! ### How far a wake is -/

/-- A wake of the task's gate that is over has notified it. -/
theorem Ok.sender_awake (ok : Ok size s) (inside : p < size.m) (asleep : SenderAsleep s p)
    {stored : Option (Nat × Nat)} {saw : Bool} {stage : WakeStage}
    (leaves : ((s.producerWaiters p).wakeStep stored saw stage).2 = none)
    (gate : after.producerWaiters p = ((s.producerWaiters p).wakeStep stored saw stage).1) :
    ¬ SenderAsleep after p := by
  obtain ⟨⟨value, here⟩, unnotified⟩ := asleep
  have hears := (ok.senders p inside).ok
  rw [here] at hears
  rintro ⟨-, still⟩
  apply still
  rw [gate]
  exact AsyncRing.notified_of_leaves hears unnotified leaves

theorem Ok.receiver_awake (ok : Ok size s) (insideShard : shard < size.n)
    (asleep : ReceiverAsleep s shard) {stored : Option (Nat × Nat)} {saw : Bool}
    {stage : WakeStage} (leaves : ((s.consumerWaiters shard).wakeStep stored saw stage).2 = none)
    (gate : after.consumerWaiters shard =
      ((s.consumerWaiters shard).wakeStep stored saw stage).1) :
    ¬ ReceiverAsleep after shard := by
  have hears := (ok.receivers shard insideShard).ok
  rw [asleep.1] at hears
  rintro ⟨-, still⟩
  apply still
  rw [gate]
  exact AsyncRing.notified_of_leaves hears asleep.2 leaves

end AsyncMpmc

open AsyncRing (wakeRank wakeRank_lt wakeRank_le)

/-- The steps of a receiver that are left in front of the notification of producer `p`, at
most: of a wake behind a store, and of the last consumer, which goes from gate to gate. -/
def MpmcReceiverPc.rank {α : Type*} (p : Nat) : MpmcReceiverPc α → Nat
  | .scanWake _ _ stage => wakeRank stage
  | .drainWake _ stage => wakeRank stage
  | .wakeLast q stage => 3 * (p - q) + wakeRank stage
  | _ => 0

/-- The same of a sender, for the shard's consumer. -/
def MpmcSenderPc.rank {α : Type*} (shard : Nat) : MpmcSenderPc α → Nat
  | .wakeConsumer _ _ stage => wakeRank stage
  | .wakeLast j stage => 3 * (shard - j) + wakeRank stage
  | _ => 0

/-- The same of a signaller, for the shard's consumer. -/
def MpmcTaskSignalPc.consumerRank (shard : Nat) : MpmcTaskSignalPc → Nat
  | .wakeConsumer j stage => 3 * (shard - j) + wakeRank stage
  | _ => 0

/-- The same for producer `p`, whose turn comes behind all `n` consumers'. -/
def MpmcTaskSignalPc.producerRank (n p : Nat) : MpmcTaskSignalPc → Nat
  | .wakeConsumer j stage => 3 * (n - j) + 3 * (p + 1) + wakeRank stage
  | .wakeProducer q stage => 3 * (p - q) + wakeRank stage
  | .idle => 0

namespace AsyncMpmc

open AsyncGate TaskRing

variable {α : Type*} {size : MpmcSize} {s after : AsyncMpmc α} {shard p k : Nat}

/-- The shard's consumer is on its way to wake producer `p`. -/
def ReceiverDue (s : AsyncMpmc α) (shard p : Nat) : Prop :=
  (s.receivers shard).pc.wakes p = true ∨ (s.receivers shard).pc.lastFor p = true

/-- Producer `p` is on its way to wake the shard's consumer. -/
def SenderDue (s : AsyncMpmc α) (p shard : Nat) : Prop :=
  (s.senders p).pc.wakes shard = true ∨ (s.senders p).pc.lastFor shard = true

/-- The start at the next gate is nearer to the last one than any step at this gate. -/
theorem nextGate_lt {here last : Nat} (further : here < last) (stage : WakeStage) :
    3 * (last - (here + 1)) + wakeRank .probe < 3 * (last - here) + wakeRank stage := by
  have probe : wakeRank .probe = 2 := rfl
  omega

/-- A step of the consumer that is on its way brings the notification nearer. -/
theorem Ok.receiver_nearer (ok : Ok size s) (inside : p < size.m) (asleep : SenderAsleep s p)
    (due : ReceiverDue s shard p) {action : MpmcReceiverAction}
    (stepped : s.receiverStep size shard action = some after) (still : SenderAsleep after p) :
    ReceiverDue after shard p ∧
      (after.receivers shard).pc.rank p < (s.receivers shard).pc.rank p := by
  cases here : (s.receivers shard).pc with
  | scanWake q value stage | drainWake q stage =>
      obtain rfl : q = p := by
        simpa [ReceiverDue, here, MpmcReceiverPc.wakes, MpmcReceiverPc.lastFor] using due
      cases action with
      | tick index saw =>
          simp only [AsyncMpmc.receiverStep, AsyncMpmc.receiverTick, here] at stepped
          split at stepped <;> cases stepped
          · rename_i next goesOn
            rw [ReceiverDue, pc_receiverAt]
            exact ⟨.inl (decide_eq_true rfl), wakeRank_lt goesOn⟩
          · rename_i done
            refine absurd still (ok.sender_awake inside asleep done ?_)
            exact Function.update_self ..
      | _ => simp [AsyncMpmc.receiverStep, AsyncMpmc.receiverCall, here] at stepped
  | wakeLast q stage =>
      have le : q ≤ p := by
        simpa [ReceiverDue, here, MpmcReceiverPc.wakes, MpmcReceiverPc.lastFor] using due
      cases action with
      | tick index saw =>
          simp only [AsyncMpmc.receiverStep, AsyncMpmc.receiverTick, here] at stepped
          rw [if_pos (by omega)] at stepped
          split at stepped <;> cases stepped
          · rename_i next goesOn
            rw [ReceiverDue, pc_receiverAt]
            refine ⟨.inr (decide_eq_true le), ?_⟩
            exact Nat.add_lt_add_left (wakeRank_lt goesOn) _
          · rename_i done
            rcases le.eq_or_lt with rfl | further
            · refine absurd still (ok.sender_awake inside asleep done ?_)
              exact Function.update_self ..
            · rw [ReceiverDue, pc_receiverAt]
              exact ⟨.inr (decide_eq_true further), nextGate_lt further stage⟩
      | _ => simp [AsyncMpmc.receiverStep, AsyncMpmc.receiverCall, here] at stepped
  | _ => simp [ReceiverDue, here, MpmcReceiverPc.wakes, MpmcReceiverPc.lastFor] at due

/-- A step of the producer that is on its way brings the notification nearer. -/
theorem Ok.sender_nearer (ok : Ok size s) (insideShard : shard < size.n)
    (asleep : ReceiverAsleep s shard) (due : SenderDue s p shard) {action : MpmcSenderAction α}
    (stepped : s.senderStep size p action = some after) (still : ReceiverAsleep after shard) :
    SenderDue after p shard ∧ (after.senders p).pc.rank shard < (s.senders p).pc.rank shard := by
  cases here : (s.senders p).pc with
  | wakeConsumer j written stage =>
      obtain rfl : j = shard := by
        simpa [SenderDue, here, MpmcSenderPc.wakes, MpmcSenderPc.lastFor] using due
      cases action with
      | tick index saw =>
          simp only [AsyncMpmc.senderStep, AsyncMpmc.senderTick, here] at stepped
          split at stepped <;> cases stepped
          · rename_i next goesOn
            rw [SenderDue, pc_senderAt]
            exact ⟨.inl (decide_eq_true rfl), wakeRank_lt goesOn⟩
          · rename_i done
            refine absurd still (ok.receiver_awake insideShard asleep done ?_)
            exact Function.update_self ..
      | _ => simp [AsyncMpmc.senderStep, AsyncMpmc.senderCall, here] at stepped
  | wakeLast j stage =>
      have le : j ≤ shard := by
        simpa [SenderDue, here, MpmcSenderPc.wakes, MpmcSenderPc.lastFor] using due
      cases action with
      | tick index saw =>
          simp only [AsyncMpmc.senderStep, AsyncMpmc.senderTick, here] at stepped
          rw [if_pos (by omega)] at stepped
          split at stepped <;> cases stepped
          · rename_i next goesOn
            rw [SenderDue, pc_senderAt]
            refine ⟨.inr (decide_eq_true le), ?_⟩
            exact Nat.add_lt_add_left (wakeRank_lt goesOn) _
          · rename_i done
            rcases le.eq_or_lt with rfl | further
            · refine absurd still (ok.receiver_awake insideShard asleep done ?_)
              exact Function.update_self ..
            · rw [SenderDue, pc_senderAt]
              exact ⟨.inr (decide_eq_true further), nextGate_lt further stage⟩
      | _ => simp [AsyncMpmc.senderStep, AsyncMpmc.senderCall, here] at stepped
  | _ => simp [SenderDue, here, MpmcSenderPc.wakes, MpmcSenderPc.lastFor] at due

/-- A step of a signaller that is on its way to a consumer brings the notification nearer. -/
theorem Ok.signaller_nearer_consumer (ok : Ok size s) (insideShard : shard < size.n)
    (asleep : ReceiverAsleep s shard) (due : (s.signallers k).forConsumer shard = true)
    {action : MpmcTaskSignalAction} (stepped : s.signallerStep size k action = some after)
    (still : ReceiverAsleep after shard) :
    (after.signallers k).forConsumer shard = true ∧
      (after.signallers k).consumerRank shard < (s.signallers k).consumerRank shard := by
  cases here : s.signallers k with
  | idle | wakeProducer q stage =>
      rw [here] at due
      cases due
  | wakeConsumer j stage =>
      rw [here] at due
      have le : j ≤ shard := of_decide_eq_true due
      cases action with
      | signal => simp [AsyncMpmc.signallerStep, here] at stepped
      | tick saw =>
          simp only [AsyncMpmc.signallerStep, here] at stepped
          rw [if_pos (by omega)] at stepped
          split at stepped <;> cases stepped
          · rename_i next goesOn
            rw [signallers_signallerAt]
            refine ⟨decide_eq_true le, ?_⟩
            exact Nat.add_lt_add_left (wakeRank_lt goesOn) _
          · rename_i done
            rcases le.eq_or_lt with rfl | further
            · refine absurd still (ok.receiver_awake insideShard asleep done ?_)
              exact Function.update_self ..
            · rw [signallers_signallerAt]
              exact ⟨decide_eq_true further, nextGate_lt further stage⟩

/-- The same on its way to a producer. -/
theorem Ok.signaller_nearer_producer (ok : Ok size s) (inside : p < size.m)
    (asleep : SenderAsleep s p) (due : (s.signallers k).forProducer p = true)
    {action : MpmcTaskSignalAction} (stepped : s.signallerStep size k action = some after)
    (still : SenderAsleep after p) :
    (after.signallers k).forProducer p = true ∧
      (after.signallers k).producerRank size.n p < (s.signallers k).producerRank size.n p := by
  cases here : s.signallers k with
  | idle =>
      rw [here] at due
      cases due
  | wakeConsumer j stage =>
      cases action with
      | signal => simp [AsyncMpmc.signallerStep, here] at stepped
      | tick saw =>
          simp only [AsyncMpmc.signallerStep, here] at stepped
          split at stepped
          · rename_i further
            split at stepped <;> cases stepped
            · rename_i next goesOn
              rw [signallers_signallerAt]
              exact ⟨rfl, Nat.add_lt_add_left (wakeRank_lt goesOn) _⟩
            · rw [signallers_signallerAt]
              refine ⟨rfl, ?_⟩
              change 3 * (size.n - (j + 1)) + 3 * (p + 1) + 2 <
                3 * (size.n - j) + 3 * (p + 1) + wakeRank stage
              omega
          · cases stepped
            rw [signallers_signallerAt]
            refine ⟨decide_eq_true (Nat.zero_le p), ?_⟩
            change 3 * (p - 0) + 2 < 3 * (size.n - j) + 3 * (p + 1) + wakeRank stage
            omega
  | wakeProducer q stage =>
      rw [here] at due
      have le : q ≤ p := of_decide_eq_true due
      cases action with
      | signal => simp [AsyncMpmc.signallerStep, here] at stepped
      | tick saw =>
          simp only [AsyncMpmc.signallerStep, here] at stepped
          rw [if_pos (by omega)] at stepped
          split at stepped <;> cases stepped
          · rename_i next goesOn
            rw [signallers_signallerAt]
            refine ⟨decide_eq_true le, ?_⟩
            exact Nat.add_lt_add_left (wakeRank_lt goesOn) _
          · rename_i done
            rcases le.eq_or_lt with rfl | further
            · refine absurd still (ok.sender_awake inside asleep done ?_)
              exact Function.update_self ..
            · rw [signallers_signallerAt]
              exact ⟨decide_eq_true further, nextGate_lt further stage⟩

/-! ### Whoever is on the way can take its steps -/

theorem receiver_able (insideShard : shard < size.n) (due : ReceiverDue s shard p) :
    ∃ after, s.step size (.receiver shard (.tick 0 false)) = some after := by
  change ∃ after, (if shard < size.n then s.receiverTick size shard 0 false else none) = some after
  rw [if_pos insideShard]
  unfold receiverTick
  cases here : (s.receivers shard).pc with
  | scanWake q value stage | drainWake q stage =>
      dsimp only
      split <;> exact ⟨_, rfl⟩
  | wakeLast q stage =>
      dsimp only
      split
      · split <;> exact ⟨_, rfl⟩
      · exact ⟨_, rfl⟩
  | _ => simp [ReceiverDue, here, MpmcReceiverPc.wakes, MpmcReceiverPc.lastFor] at due

theorem sender_able (inside : p < size.m) (due : SenderDue s p shard) :
    ∃ after, s.step size (.sender p (.tick 0 false)) = some after := by
  change ∃ after, (if p < size.m then s.senderTick size p 0 false else none) = some after
  rw [if_pos inside]
  unfold senderTick
  cases here : (s.senders p).pc with
  | wakeConsumer j written stage =>
      dsimp only
      split <;> exact ⟨_, rfl⟩
  | wakeLast j stage =>
      dsimp only
      split
      · split <;> exact ⟨_, rfl⟩
      · exact ⟨_, rfl⟩
  | _ => simp [SenderDue, here, MpmcSenderPc.wakes, MpmcSenderPc.lastFor] at due

theorem signaller_able (busy : s.signallers k ≠ .idle) :
    ∃ after, s.step size (.signaller k (.tick false)) = some after := by
  change ∃ after, s.signallerStep size k (.tick false) = some after
  unfold signallerStep
  cases here : s.signallers k with
  | idle => exact absurd here busy
  | wakeConsumer j stage | wakeProducer q stage =>
      dsimp only
      split
      · split <;> exact ⟨_, rfl⟩
      · exact ⟨_, rfl⟩

/-! ### The countdowns -/

theorem receiver_countdown (insideShard : shard < size.n) (inside : p < size.m) :
    Countdown (fun (s : AsyncMpmc α) action => s.step size action) (ofReceiver shard)
      (Waiting (Ok size) (fun s => SenderAsleep s p) (fun s => ReceiverDue s shard p)
        fun s => (s.receivers shard).pc.rank p)
      fun s => ¬ SenderAsleep s p := by
  apply Countdown.ofRank
  · intro s action after ok stepped
    exact ok.step stepped
  · intro s action after ok asleep due isOwn stepped still
    cases action with
    | receiver j action =>
        obtain rfl := beq_iff_eq.mp isOwn
        exact ok.receiver_nearer inside asleep due (receiver_of_step stepped).2 still
    | sender q action | signaller k action => cases isOwn
  · intro s action after _ _ due isOther stepped _
    rw [ReceiverDue, receiver_kept isOther stepped]
    exact ⟨due, rfl⟩
  · intro s _ _ due
    obtain ⟨after, stepped⟩ := receiver_able insideShard due
    exact ⟨.receiver shard (.tick 0 false), after, beq_self_eq_true shard, stepped⟩

theorem sender_countdown (insideShard : shard < size.n) (inside : p < size.m) :
    Countdown (fun (s : AsyncMpmc α) action => s.step size action) (ofSender p)
      (Waiting (Ok size) (fun s => ReceiverAsleep s shard) (fun s => SenderDue s p shard)
        fun s => (s.senders p).pc.rank shard)
      fun s => ¬ ReceiverAsleep s shard := by
  apply Countdown.ofRank
  · intro s action after ok stepped
    exact ok.step stepped
  · intro s action after ok asleep due isOwn stepped still
    cases action with
    | sender q action =>
        obtain rfl := beq_iff_eq.mp isOwn
        exact ok.sender_nearer insideShard asleep due (sender_of_step stepped) still
    | receiver j action | signaller k action => cases isOwn
  · intro s action after _ _ due isOther stepped _
    rw [SenderDue, sender_kept isOther stepped]
    exact ⟨due, rfl⟩
  · intro s _ _ due
    obtain ⟨after, stepped⟩ := sender_able inside due
    exact ⟨.sender p (.tick 0 false), after, beq_self_eq_true p, stepped⟩

theorem signaller_countdown_consumer (insideShard : shard < size.n) :
    Countdown (fun (s : AsyncMpmc α) action => s.step size action) (ofSignaller k)
      (Waiting (Ok size) (fun s => ReceiverAsleep s shard)
        (fun s => (s.signallers k).forConsumer shard = true)
        fun s => (s.signallers k).consumerRank shard)
      fun s => ¬ ReceiverAsleep s shard := by
  apply Countdown.ofRank
  · intro s action after ok stepped
    exact ok.step stepped
  · intro s action after ok asleep due isOwn stepped still
    cases action with
    | signaller j action =>
        obtain rfl := beq_iff_eq.mp isOwn
        exact ok.signaller_nearer_consumer insideShard asleep due stepped still
    | sender q action | receiver j action => cases isOwn
  · intro s action after _ _ due isOther stepped _
    rw [signaller_kept isOther stepped]
    exact ⟨due, rfl⟩
  · intro s _ _ due
    have busy : s.signallers k ≠ .idle := by
      intro idle
      rw [idle] at due
      cases due
    obtain ⟨after, stepped⟩ := signaller_able busy
    exact ⟨.signaller k (.tick false), after, beq_self_eq_true k, stepped⟩

theorem signaller_countdown_producer (inside : p < size.m) :
    Countdown (fun (s : AsyncMpmc α) action => s.step size action) (ofSignaller k)
      (Waiting (Ok size) (fun s => SenderAsleep s p)
        (fun s => (s.signallers k).forProducer p = true)
        fun s => (s.signallers k).producerRank size.n p)
      fun s => ¬ SenderAsleep s p := by
  apply Countdown.ofRank
  · intro s action after ok stepped
    exact ok.step stepped
  · intro s action after ok asleep due isOwn stepped still
    cases action with
    | signaller j action =>
        obtain rfl := beq_iff_eq.mp isOwn
        exact ok.signaller_nearer_producer inside asleep due stepped still
    | sender q action | receiver j action => cases isOwn
  · intro s action after _ _ due isOther stepped _
    rw [signaller_kept isOther stepped]
    exact ⟨due, rfl⟩
  · intro s _ _ due
    have busy : s.signallers k ≠ .idle := by
      intro idle
      rw [idle] at due
      cases due
    obtain ⟨after, stepped⟩ := signaller_able busy
    exact ⟨.signaller k (.tick false), after, beq_self_eq_true k, stepped⟩

/-! ### How long a task still sleeps -/

theorem rank_of_receiverWakes {pc : MpmcReceiverPc α} (wakes : pc.wakes p = true) :
    pc.rank p ≤ 2 := by
  cases pc <;> first | exact wakeRank_le _ | cases wakes

/-- A walk over the gates from the first one on takes three steps at each. -/
theorem gates_le (here last : Nat) (stage : WakeStage) :
    3 * (last - here) + wakeRank stage ≤ 3 * last + 2 := by
  have le := wakeRank_le stage
  omega

theorem rank_of_receiverLast {pc : MpmcReceiverPc α} (last : pc.lastFor p = true) :
    pc.rank p ≤ 3 * p + 2 := by
  cases pc with
  | wakeLast q stage => exact gates_le q p stage
  | _ => cases last

theorem rank_of_senderWakes {pc : MpmcSenderPc α} (wakes : pc.wakes shard = true) :
    pc.rank shard ≤ 2 := by
  cases pc <;> first | exact wakeRank_le _ | cases wakes

theorem rank_of_senderLast {pc : MpmcSenderPc α} (last : pc.lastFor shard = true) :
    pc.rank shard ≤ 3 * shard + 2 := by
  cases pc with
  | wakeLast j stage => exact gates_le j shard stage
  | _ => cases last

theorem consumerRank_le (shard : Nat) (pc : MpmcTaskSignalPc) :
    pc.consumerRank shard ≤ 3 * shard + 2 := by
  cases pc with
  | wakeConsumer j stage => exact gates_le j shard stage
  | _ => exact Nat.zero_le _

theorem producerRank_le (n p : Nat) (pc : MpmcTaskSignalPc) :
    pc.producerRank n p ≤ 3 * n + 3 * (p + 1) + 2 := by
  cases pc with
  | idle => exact Nat.zero_le _
  | wakeConsumer j stage =>
      have le := wakeRank_le stage
      change 3 * (n - j) + 3 * (p + 1) + wakeRank stage ≤ _
      omega
  | wakeProducer q stage =>
      have le := wakeRank_le stage
      change 3 * (p - q) + wakeRank stage ≤ _
      omega

/-- What a sleeping task waits for comes about within this many steps of one other handle,
whatever the others do meanwhile.  Whoever ends the channel goes from gate to gate. -/
structure WokenWithin (size : MpmcSize) (s : AsyncMpmc α) : Prop where
  senderRoom : ∀ p < size.m, SenderAsleep s p → ∀ shard < size.n,
    (s.rings shard p).occupancy < size.ringCap.size →
      ReachedWithin (fun s action => s.step size action) (ofReceiver shard) 3
        (fun s => ¬ SenderAsleep s p) s
  senderLeft : ∀ p < size.m, SenderAsleep s p → s.liveConsumers = 0 → ∃ shard < size.n,
    ReachedWithin (fun s action => s.step size action) (ofReceiver shard) (3 * (p + 1))
      (fun s => ¬ SenderAsleep s p) s
  senderShutdown : ∀ p < size.m, SenderAsleep s p → s.shutdown = true → ∃ k,
    ReachedWithin (fun s action => s.step size action) (ofSignaller k) (3 * (size.n + p + 2))
      (fun s => ¬ SenderAsleep s p) s
  receiverItem : ∀ shard < size.n, ReceiverAsleep s shard → ∀ p < size.m,
    0 < (s.rings shard p).occupancy →
      ReachedWithin (fun s action => s.step size action) (ofSender p) 3
        (fun s => ¬ ReceiverAsleep s shard) s
  receiverLeft : ∀ shard < size.n, ReceiverAsleep s shard → s.liveProducers = 0 → ∃ p < size.m,
    ReachedWithin (fun s action => s.step size action) (ofSender p) (3 * (shard + 1))
      (fun s => ¬ ReceiverAsleep s shard) s
  receiverShutdown : ∀ shard < size.n, ReceiverAsleep s shard → s.shutdown = true → ∃ k,
    ReachedWithin (fun s action => s.step size action) (ofSignaller k) (3 * (shard + 1))
      (fun s => ¬ ReceiverAsleep s shard) s

theorem tasks_wokenWithin (reached : (system size).Reachable s) : WokenWithin size s := by
  have ok := ok_of_reachable reached
  constructor
  case senderRoom =>
    intro p inside asleep shard insideShard room
    have wakes : (s.receivers shard).pc.wakes p = true := by
      by_contra quiet
      have full := ok.full_of_asleep insideShard inside asleep (Bool.eq_false_of_not_eq_true quiet)
      omega
    exact (receiver_countdown insideShard inside).reachedWithin
      ⟨ok, asleep, .inl wakes, rank_of_receiverWakes wakes⟩
  case senderLeft =>
    intro p inside asleep none
    have one : 1 < size.n + 2 := Nat.succ_lt_succ (Nat.succ_pos _)
    obtain ⟨shard, last⟩ : ∃ shard, (s.receivers shard).pc.lastFor p = true := by
      by_contra quiet
      exact (ok.senders p inside).calm asleep one quiet none
    have insideShard : shard < size.n := by
      by_contra beyond
      rw [receiver_beyond reached beyond] at last
      cases last
    exact ⟨shard, insideShard, (receiver_countdown insideShard inside).reachedWithin
      ⟨ok, asleep, .inr last, rank_of_receiverLast last⟩⟩
  case senderShutdown =>
    intro p inside asleep set
    have zero : 0 < size.n + 2 := Nat.succ_pos _
    obtain ⟨k, coming⟩ : ∃ k, (s.signallers k).forProducer p = true := by
      by_contra quiet
      have opened : s.shutdown = false := (ok.senders p inside).calm asleep zero quiet
      rw [opened] at set
      cases set
    refine ⟨k, ((signaller_countdown_producer inside).reachedWithin
      ⟨ok, asleep, coming, producerRank_le size.n p _⟩).mono ?_⟩
    omega
  case receiverItem =>
    intro shard insideShard asleep p inside item
    have wakes : (s.senders p).pc.wakes shard = true := by
      by_contra quiet
      have empty := ok.empty_of_asleep insideShard inside asleep
        (Bool.eq_false_of_not_eq_true quiet)
      omega
    exact (sender_countdown insideShard inside).reachedWithin
      ⟨ok, asleep, .inl wakes, rank_of_senderWakes wakes⟩
  case receiverLeft =>
    intro shard insideShard asleep none
    have one : 1 < size.m + 2 := Nat.succ_lt_succ (Nat.succ_pos _)
    obtain ⟨p, last⟩ : ∃ p, (s.senders p).pc.lastFor shard = true := by
      by_contra quiet
      exact (ok.receivers shard insideShard).calm asleep one quiet none
    have inside : p < size.m := by
      by_contra beyond
      rw [sender_beyond reached beyond] at last
      cases last
    exact ⟨p, inside, (sender_countdown insideShard inside).reachedWithin
      ⟨ok, asleep, .inr last, rank_of_senderLast last⟩⟩
  case receiverShutdown =>
    intro shard insideShard asleep set
    have zero : 0 < size.m + 2 := Nat.succ_pos _
    obtain ⟨k, coming⟩ : ∃ k, (s.signallers k).forConsumer shard = true := by
      by_contra quiet
      have opened : s.shutdown = false := (ok.receivers shard insideShard).calm asleep zero quiet
      rw [opened] at set
      cases set
    exact ⟨k, (signaller_countdown_consumer insideShard).reachedWithin
      ⟨ok, asleep, coming, consumerRank_le shard _⟩⟩

theorem tasks_wokenWithin_sleepThenTryRecv :
    ∃ s, Transition.execute (fun s action => s.step MpmcState.twoShards action)
        (new MpmcState.twoShards : AsyncMpmc Nat) sleepThenTryRecv = some s ∧
      (SenderAsleep s 0 ∧ (s.rings 0 0).occupancy = 0) ∧ WokenWithin MpmcState.twoShards s := by
  obtain ⟨s, ran, outcome, reached⟩ := sleepThenTryRecv_ran
  exact ⟨s, ran, outcome, tasks_wokenWithin reached⟩

end AsyncMpmc

end ArbitroKit
