import ArbitroKit.MpmcAsyncReceiver

/-!
# Runs of the channel between tasks

`signal` keeps the invariant too: it stores `shutdown` and goes from gate to gate.  So the
invariant holds in every state of every run.
-/

namespace ArbitroKit

open Coherent SlotLane Cyclic Transition

namespace AsyncMpmc

open AsyncGate TaskRing

variable {α : Type*} {size : MpmcSize} {s after : AsyncMpmc α} {k : Nat}

/-- A step of a signaller is at `shutdown`, at the gates and in its own call. -/
structure SignallerFrame (k : Nat) (s after : AsyncMpmc α) : Prop where
  signallers : ∀ j, j ≠ k → after.signallers j = s.signallers j
  rings : after.rings = s.rings
  senders : after.senders = s.senders
  receivers : after.receivers = s.receivers
  liveProducers : after.liveProducers = s.liveProducers
  liveConsumers : after.liveConsumers = s.liveConsumers
  accepted : after.accepted = s.accepted
  delivered : after.delivered = s.delivered

/-- It stores `shutdown` or takes a step at a gate, and goes on. -/
theorem SignallerFrame.goes (s : AsyncMpmc α) (consumerWaiters producerWaiters : Nat → AsyncGate)
    (shutdown : Bool) (pc : MpmcTaskSignalPc) :
    SignallerFrame k s ({ s with
      consumerWaiters := consumerWaiters
      producerWaiters := producerWaiters
      shutdown := shutdown }.signallerAt k pc) := by
  constructor
  case signallers => exact fun j other => Function.update_of_ne other ..
  all_goals rfl

theorem signallers_signallerAt (s : AsyncMpmc α) (k : Nat) (pc : MpmcTaskSignalPc) :
    (s.signallerAt k pc).signallers k = pc := Function.update_self ..

/-- What there is to be shown of a step of a signaller. -/
theorem Ok.ofSignaller (ok : Ok size s) (frame : SignallerFrame k s after)
    (signals : ∀ j, after.signallers j ≠ .idle → after.shutdown = true)
    (senders : ∀ p < size.m, SenderHears size after p)
    (receivers : ∀ shard < size.n, ReceiverHears size after shard) : Ok size after where
  terminal :=
    { signals := signals
      lastProducer := by
        rw [frame.senders, frame.liveProducers]
        exact ok.terminal.lastProducer
      lastConsumer := by
        rw [frame.receivers, frame.liveConsumers]
        exact ok.terminal.lastConsumer }
  inside := by
    rw [frame.receivers]
    exact ok.inside
  links shard insideShard p inside := by
    rw [RingLinked, frame.rings, frame.senders, frame.receivers, frame.accepted, frame.delivered]
    exact ok.links shard insideShard p inside
  senders := senders
  receivers := receivers

/-- Whoever was on its way still is: the signaller that takes the step, or another one. -/
theorem SignallerFrame.on (frame : SignallerFrame k s after)
    (bound : MpmcTaskSignalPc → Bool)
    (own : bound (s.signallers k) = true → bound (after.signallers k) = true)
    (before : ∃ j, bound (s.signallers j) = true) :
    ∃ j, bound (after.signallers j) = true := by
  obtain ⟨j, here⟩ := before
  refine ⟨j, ?_⟩
  by_cases same : j = k
  · rw [same] at here ⊢
    exact own here
  · rw [frame.signallers j same]
    exact here

/-- What producer `p` hears when it is told of `shutdown`, or of nothing. -/
theorem SignallerFrame.senderHears (frame : SignallerFrame k s after) {p : Nat}
    (hears : SenderHears size s p) (gate : after.producerWaiters p = s.producerWaiters p)
    (told : after.shutdown = s.shutdown ∧
        ((s.signallers k).forProducer p = true → (after.signallers k).forProducer p = true) ∨
      after.shutdown = true ∧ (after.signallers k).forProducer p = true) :
    SenderHears size after p := by
  rw [SenderHears, gate, frame.senders]
  refine hears.keeps (fun idx _ => ?_) fun idx _ => ?_
  · cases idx using watchCases with
    | shutdown | live => simp only [senderWatch, frame.senders, le_rfl]
    | peer shard => simp only [senderWatch, frame.rings, le_rfl]
  · cases idx using watchCases with
    | shutdown =>
        rcases told with ⟨same, own⟩ | ⟨set, onWay⟩
        · refine .inl ⟨?_, frame.on (fun pc => pc.forProducer p) own, fun _ => ?_⟩
          · simp only [senderWatch, same]
          · simp only [senderWatch, same, imp_self]
        · refine .inr ⟨?_, k, onWay⟩
          change stores s.shutdown ≤ stores after.shutdown
          rw [set]
          exact Bool.toNat_le s.shutdown
    | live =>
        refine .inl ⟨?_, ?_, fun _ => ?_⟩
        · simp only [senderWatch, frame.liveConsumers]
        · simp only [senderWatch, frame.receivers, imp_self]
        · simp only [senderWatch, frame.liveConsumers, imp_self]
    | peer shard =>
        refine .inl ⟨?_, ?_, fun _ => ?_⟩
        · simp only [senderWatch, frame.rings]
        · simp only [senderWatch, frame.receivers, imp_self]
        · simp only [senderWatch, frame.rings, imp_self]

/-- What a shard's consumer hears when it is told of `shutdown`, or of nothing. -/
theorem SignallerFrame.receiverHears (frame : SignallerFrame k s after) {shard : Nat}
    (hears : ReceiverHears size s shard)
    (gate : after.consumerWaiters shard = s.consumerWaiters shard)
    (told : after.shutdown = s.shutdown ∧ ((s.signallers k).forConsumer shard = true →
        (after.signallers k).forConsumer shard = true) ∨
      after.shutdown = true ∧ (after.signallers k).forConsumer shard = true) :
    ReceiverHears size after shard := by
  rw [ReceiverHears, gate, frame.receivers]
  refine hears.keeps (fun idx _ => ?_) fun idx _ => ?_
  · cases idx using watchCases with
    | shutdown | live => simp only [receiverWatch, frame.receivers, le_rfl]
    | peer p => simp only [receiverWatch, frame.rings, le_rfl]
  · cases idx using watchCases with
    | shutdown =>
        rcases told with ⟨same, own⟩ | ⟨set, onWay⟩
        · refine .inl ⟨?_, frame.on (fun pc => pc.forConsumer shard) own, fun _ => ?_⟩
          · simp only [receiverWatch, same]
          · simp only [receiverWatch, same, imp_self]
        · refine .inr ⟨?_, k, onWay⟩
          change stores s.shutdown ≤ stores after.shutdown
          rw [set]
          exact Bool.toNat_le s.shutdown
    | live =>
        refine .inl ⟨?_, ?_, fun _ => ?_⟩
        · simp only [receiverWatch, frame.liveProducers]
        · simp only [receiverWatch, frame.senders, imp_self]
        · simp only [receiverWatch, frame.liveProducers, imp_self]
    | peer p =>
        refine .inl ⟨?_, ?_, fun _ => ?_⟩
        · simp only [receiverWatch, frame.rings]
        · simp only [receiverWatch, frame.senders, imp_self]
        · simp only [receiverWatch, frame.rings, imp_self]

/-- The signaller takes a step of the wake of producer `p`. -/
theorem SignallerFrame.senderWoken (frame : SignallerFrame k s after) {p : Nat} {saw : Bool}
    {stage : WakeStage} (hears : SenderHears size s p) (set : s.shutdown = true)
    (kept : after.shutdown = true)
    (gate : after.producerWaiters p = ((s.producerWaiters p).wakeStep (some (0, 1)) saw stage).1)
    (goesOn : ((s.producerWaiters p).wakeStep (some (0, 1)) saw stage).2.isSome = true →
      (after.signallers k).forProducer p = true) : SenderHears size after p := by
  rw [SenderHears, gate, frame.senders]
  have own : 1 = (s.senderWatch size p).latest 0 := by
    change 1 = stores s.shutdown
    rw [set]
    rfl
  refine hears.woken own (fun idx _ => ?_) (fun idx _ => ?_) (fun idx _ => ?_)
    (fun idx _ other => ?_) fun more => ⟨k, goesOn more⟩
  · cases idx using watchCases with
    | shutdown => simp only [senderWatch, set, kept]
    | live => simp only [senderWatch, frame.liveConsumers]
    | peer shard => simp only [senderWatch, frame.rings]
  · cases idx using watchCases with
    | shutdown | live => simp only [senderWatch, frame.senders, le_rfl]
    | peer shard => simp only [senderWatch, frame.rings, le_rfl]
  · cases idx using watchCases with
    | shutdown => simp only [senderWatch, set, kept, imp_self]
    | live => simp only [senderWatch, frame.liveConsumers, imp_self]
    | peer shard => simp only [senderWatch, frame.rings, imp_self]
  · cases idx using watchCases with
    | shutdown => exact absurd rfl other
    | live | peer shard => simp only [senderWatch, frame.receivers, imp_self]

/-- The signaller takes a step of the wake of a shard's consumer. -/
theorem SignallerFrame.receiverWoken (frame : SignallerFrame k s after) {shard : Nat} {saw : Bool}
    {stage : WakeStage} (hears : ReceiverHears size s shard) (set : s.shutdown = true)
    (kept : after.shutdown = true)
    (gate : after.consumerWaiters shard =
      ((s.consumerWaiters shard).wakeStep (some (0, 1)) saw stage).1)
    (goesOn : ((s.consumerWaiters shard).wakeStep (some (0, 1)) saw stage).2.isSome = true →
      (after.signallers k).forConsumer shard = true) : ReceiverHears size after shard := by
  rw [ReceiverHears, gate, frame.receivers]
  have own : 1 = (s.receiverWatch shard).latest 0 := by
    change 1 = stores s.shutdown
    rw [set]
    rfl
  refine hears.woken own (fun idx _ => ?_) (fun idx _ => ?_) (fun idx _ => ?_)
    (fun idx _ other => ?_) fun more => ⟨k, goesOn more⟩
  · cases idx using watchCases with
    | shutdown => simp only [receiverWatch, set, kept]
    | live => simp only [receiverWatch, frame.liveProducers]
    | peer p => simp only [receiverWatch, frame.rings]
  · cases idx using watchCases with
    | shutdown | live => simp only [receiverWatch, frame.receivers, le_rfl]
    | peer p => simp only [receiverWatch, frame.rings, le_rfl]
  · cases idx using watchCases with
    | shutdown => simp only [receiverWatch, set, kept, imp_self]
    | live => simp only [receiverWatch, frame.liveProducers, imp_self]
    | peer p => simp only [receiverWatch, frame.rings, imp_self]
  · cases idx using watchCases with
    | shutdown => exact absurd rfl other
    | live | peer p => simp only [receiverWatch, frame.senders, imp_self]

/-- A signaller goes on, and still has before it whatever gates it had. -/
theorem Ok.signallerGoes (ok : Ok size s) {pc : MpmcTaskSignalPc} (busy : s.signallers k ≠ .idle)
    (consumers : ∀ shard < size.n, (s.signallers k).forConsumer shard = true →
      pc.forConsumer shard = true)
    (producers : ∀ p < size.m, (s.signallers k).forProducer p = true →
      pc.forProducer p = true) : Ok size (s.signallerAt k pc) := by
  have frame : SignallerFrame k s (s.signallerAt k pc) := .goes s _ _ _ pc
  have now := signallers_signallerAt s k pc
  have set := ok.terminal.signals k busy
  refine ok.ofSignaller frame (fun _ _ => set) (fun p inside => ?_) fun shard insideShard => ?_
  · refine frame.senderHears (ok.senders p inside) rfl (.inl ⟨rfl, ?_⟩)
    rw [now]
    exact producers p inside
  · refine frame.receiverHears (ok.receivers shard insideShard) rfl (.inl ⟨rfl, ?_⟩)
    rw [now]
    exact consumers shard insideShard

/-- It takes a step of the wake of a shard's consumer. -/
theorem Ok.signallerWakesConsumer (ok : Ok size s) {shard : Nat} {saw : Bool} {stage : WakeStage}
    {pc : MpmcTaskSignalPc} (here : s.signallers k = .wakeConsumer shard stage)
    (goes : (∃ next, ((s.consumerWaiters shard).wakeStep (some (0, 1)) saw stage).2 = some next ∧
        pc = .wakeConsumer shard next) ∨
      ((s.consumerWaiters shard).wakeStep (some (0, 1)) saw stage).2 = none ∧
        pc = .wakeConsumer (shard + 1) .probe) :
    Ok size ((s.wakeConsumerBy shard 0 1 saw stage).1.signallerAt k pc) := by
  have frame : SignallerFrame k s
      ((s.wakeConsumerBy shard 0 1 saw stage).1.signallerAt k pc) := .goes s _ _ _ pc
  have now := signallers_signallerAt (s.wakeConsumerBy shard 0 1 saw stage).1 k pc
  have set := ok.terminal.signals k (by rw [here]; simp)
  refine ok.ofSignaller frame (fun _ _ => set) (fun p inside => ?_) fun j insideShard => ?_
  · refine frame.senderHears (ok.senders p inside) rfl (.inl ⟨rfl, fun _ => ?_⟩)
    rw [now]
    rcases goes with ⟨next, -, rfl⟩ | ⟨-, rfl⟩ <;> rfl
  · by_cases same : j = shard
    · subst same
      refine frame.receiverWoken (ok.receivers j insideShard) set set
        (Function.update_self ..) fun more => ?_
      rw [now]
      rcases goes with ⟨next, -, rfl⟩ | ⟨done, -⟩
      · exact decide_eq_true le_rfl
      · rw [done] at more
        cases more
    · refine frame.receiverHears (ok.receivers j insideShard) (Function.update_of_ne same ..)
        (.inl ⟨rfl, fun ahead => ?_⟩)
      rw [here] at ahead
      have ahead : shard ≤ j := of_decide_eq_true ahead
      rw [now]
      rcases goes with ⟨next, -, rfl⟩ | ⟨-, rfl⟩
      · exact decide_eq_true ahead
      · exact decide_eq_true (by omega)

/-- It takes a step of the wake of a producer. -/
theorem Ok.signallerWakesProducer (ok : Ok size s) {p : Nat} {saw : Bool} {stage : WakeStage}
    {pc : MpmcTaskSignalPc} (here : s.signallers k = .wakeProducer p stage)
    (goes : (∃ next, ((s.producerWaiters p).wakeStep (some (0, 1)) saw stage).2 = some next ∧
        pc = .wakeProducer p next) ∨
      ((s.producerWaiters p).wakeStep (some (0, 1)) saw stage).2 = none ∧
        pc = .wakeProducer (p + 1) .probe) :
    Ok size ((s.wakeProducerBy p 0 1 saw stage).1.signallerAt k pc) := by
  have frame : SignallerFrame k s ((s.wakeProducerBy p 0 1 saw stage).1.signallerAt k pc) :=
    .goes s _ _ _ pc
  have now := signallers_signallerAt (s.wakeProducerBy p 0 1 saw stage).1 k pc
  have set := ok.terminal.signals k (by rw [here]; simp)
  refine ok.ofSignaller frame (fun _ _ => set) (fun q inside => ?_) fun shard insideShard => ?_
  · by_cases same : q = p
    · subst same
      refine frame.senderWoken (ok.senders q inside) set set (Function.update_self ..)
        fun more => ?_
      rw [now]
      rcases goes with ⟨next, -, rfl⟩ | ⟨done, -⟩
      · exact decide_eq_true le_rfl
      · rw [done] at more
        cases more
    · refine frame.senderHears (ok.senders q inside) (Function.update_of_ne same ..)
        (.inl ⟨rfl, fun ahead => ?_⟩)
      rw [here] at ahead
      have ahead : p ≤ q := of_decide_eq_true ahead
      rw [now]
      rcases goes with ⟨next, -, rfl⟩ | ⟨-, rfl⟩
      · exact decide_eq_true ahead
      · exact decide_eq_true (by omega)
  · refine frame.receiverHears (ok.receivers shard insideShard) rfl (.inl ⟨rfl, fun never => ?_⟩)
    rw [here] at never
    cases never

/-- The store of `shutdown`; all wakes are still to come. -/
theorem Ok.signals (ok : Ok size s) :
    Ok size ({ s with shutdown := true }.signallerAt k (.wakeConsumer 0 .probe)) := by
  have frame : SignallerFrame k s
      ({ s with shutdown := true }.signallerAt k (.wakeConsumer 0 .probe)) := .goes s _ _ _ _
  have now := signallers_signallerAt { s with shutdown := true } k (.wakeConsumer 0 .probe)
  refine ok.ofSignaller frame (fun _ _ => rfl) (fun p inside => ?_) fun shard insideShard => ?_
  · exact frame.senderHears (ok.senders p inside) rfl (.inr ⟨rfl, by rw [now]; rfl⟩)
  · refine frame.receiverHears (ok.receivers shard insideShard) rfl (.inr ⟨rfl, ?_⟩)
    rw [now]
    exact decide_eq_true (Nat.zero_le shard)

/-- Every step of a signaller keeps the invariant. -/
theorem Ok.signallerStep (ok : Ok size s) {action : MpmcTaskSignalAction}
    (stepped : s.signallerStep size k action = some after) : Ok size after := by
  cases action with
  | signal =>
      simp only [AsyncMpmc.signallerStep] at stepped
      split at stepped <;> cases stepped
      exact ok.signals
  | tick saw =>
      cases here : s.signallers k with
      | idle => simp [AsyncMpmc.signallerStep, here] at stepped
      | wakeConsumer shard stage =>
          simp only [AsyncMpmc.signallerStep, here] at stepped
          split at stepped
          · split at stepped <;> cases stepped
            · rename_i next goesOn
              exact ok.signallerWakesConsumer here (.inl ⟨next, goesOn, rfl⟩)
            · rename_i done
              exact ok.signallerWakesConsumer here (.inr ⟨done, rfl⟩)
          · cases stepped
            refine ok.signallerGoes (by rw [here]; simp) (fun j insideShard ahead => ?_)
              fun p _ _ => decide_eq_true (Nat.zero_le p)
            rw [here] at ahead
            have ahead : shard ≤ j := of_decide_eq_true ahead
            omega
      | wakeProducer p stage =>
          simp only [AsyncMpmc.signallerStep, here] at stepped
          split at stepped
          · split at stepped <;> cases stepped
            · rename_i next goesOn
              exact ok.signallerWakesProducer here (.inl ⟨next, goesOn, rfl⟩)
            · rename_i done
              exact ok.signallerWakesProducer here (.inr ⟨done, rfl⟩)
          · cases stepped
            refine ok.signallerGoes (by rw [here]; simp) (fun j _ never => ?_)
              fun q inside ahead => ?_
            · rw [here] at never
              cases never
            · rw [here] at ahead
              have ahead : p ≤ q := of_decide_eq_true ahead
              omega

theorem Ok.step (ok : Ok size s) {action : AsyncMpmcAction α}
    (stepped : s.step size action = some after) : Ok size after := by
  cases action with
  | sender p action =>
      simp only [AsyncMpmc.step] at stepped
      split at stepped
      · exact ok.senderStep (by assumption) stepped
      · cases stepped
  | receiver shard action =>
      simp only [AsyncMpmc.step] at stepped
      split at stepped
      · exact ok.receiverStep (by assumption) stepped
      · cases stepped
  | signaller k action => exact ok.signallerStep stepped

/-- The invariant holds in every state of every run. -/
theorem ok_of_reachable (reached : (system size).Reachable s) : Ok size s := by
  apply reached.invariant (Ok size)
  · rintro - rfl
    exact ok_new size
  · intro before action after _ ok stepped
    exact ok.step stepped

end AsyncMpmc

end ArbitroKit
