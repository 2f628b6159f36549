import ArbitroKit.MpmcDelivery

/-!
# No party of the sharded channel is left parked

A consumer sleeps after it found every ring of its shard empty, no shutdown and a
live producer; a producer after it found its ring of every shard full, no shutdown
and a live consumer.  The scans are not atomic.  What they rely on is that whoever
makes one of these true wakes the party afterwards, so that at every point of the
scan each cause already looked at is absent, answered by a pending wake, or
followed by a party on its way to the wake.
-/

namespace ArbitroKit

open SlotLane Cyclic Transition

namespace MpmcState

variable {α : Type*} {size : MpmcSize} {s after : MpmcState α} {p shard : Nat}

/-! ### Parties on the way to a wake -/

/-- The producer has published in the shard and has not woken its consumer yet. -/
def publishing (shard : Nat) : MpmcProducerPc α → Bool
  | .wakeConsumer _ _ here => here == shard
  | .batchWake _ here _ => here == shard
  | _ => false

/-- The last producer is on its way to waking the shard's consumer. -/
def lastLeaving (shard : Nat) : MpmcProducerPc α → Bool
  | .wakeLast here => decide (here ≤ shard)
  | _ => false

/-- The consumer has taken from its ring `p` and has not woken the producer yet. -/
def taking (p : Nat) : MpmcConsumerPc α → Bool
  | .running (.scanWake _ here _ :: _) => here == p
  | .running (.drainWake _ here _ :: _) => here == p
  | _ => false

/-- The last consumer is on its way to waking producer `p`. -/
def lastDropping (p : Nat) : MpmcConsumerPc α → Bool
  | .wakeLast here => decide (here ≤ p)
  | _ => false

/-- The signal is on its way to waking the shard's consumer. -/
def signallingConsumer (shard : Nat) : MpmcSignalPc → Bool
  | .wakeConsumer here => decide (here ≤ shard)
  | _ => false

/-- The signal is on its way to waking producer `p`. -/
def signallingProducer (p : Nat) : MpmcSignalPc → Bool
  | .wakeConsumer _ => true
  | .wakeProducer here => decide (here ≤ p)
  | .idle => false

/-! ### The steps of a producer -/

/-- What the other parties see of a producer's step. -/
structure ProducerNews (size : MpmcSize) (p : Nat) (s after : MpmcState α) : Prop where
  tails : ∀ shard, (after.rings shard p).tail = (s.rings shard p).tail
  heads : ∀ shard, (after.rings shard p).head = (s.rings shard p).head ∨
    publishing shard (after.producers p).pc = true
  consumerWaiters : ∀ shard,
    (s.consumerWaiters shard).Kept (after.consumerWaiters shard)
  published : ∀ shard, publishing shard (s.producers p).pc = true →
    publishing shard (after.producers p).pc = true ∨
      after.consumerWaiters shard = (s.consumerWaiters shard).wake
  left : ∀ shard < size.n, lastLeaving shard (s.producers p).pc = true →
    lastLeaving shard (after.producers p).pc = true ∨
      after.consumerWaiters shard = (s.consumerWaiters shard).wake
  live : after.liveProducers = 0 →
    s.liveProducers = 0 ∨ ∀ shard, lastLeaving shard (after.producers p).pc = true
  producerWaiters : ∀ q, q ≠ p → after.producerWaiters q = s.producerWaiters q

/-- The call is on its way to no wake. -/
def Homebound (pc : MpmcProducerPc α) : Prop :=
  ∀ shard, publishing shard pc = false ∧ lastLeaving shard pc = false

/-- A step that stores no cursor, from a place on the way to no wake. -/
theorem producerNews_goes {moved : MpmcState α} {producer : MpmcProducer α}
    (home : Homebound (s.producers p).pc)
    (tails : ∀ shard, (moved.rings shard p).tail = (s.rings shard p).tail)
    (heads : ∀ shard, (moved.rings shard p).head = (s.rings shard p).head)
    (consumerWaiters : moved.consumerWaiters = s.consumerWaiters)
    (live : moved.liveProducers = 0 → s.liveProducers = 0 ∨ producer.pc = .wakeLast 0)
    (producerWaiters : ∀ q, q ≠ p → moved.producerWaiters q = s.producerWaiters q) :
    ProducerNews size p s (moved.setProducer p producer) where
  tails := tails
  heads shard := .inl (heads shard)
  consumerWaiters shard := .inl (congrFun consumerWaiters shard)
  published shard onWay := by
    rw [(home shard).1] at onWay
    cases onWay
  left shard _ onWay := by
    rw [(home shard).2] at onWay
    cases onWay
  live none := by
    rcases live none with none | pcEq
    · exact .inl none
    · refine .inr fun shard => ?_
      simp [setProducer, pcEq, lastLeaving]
  producerWaiters := producerWaiters

/-- A step that only moves the call on. -/
theorem producerNews_at (home : Homebound (s.producers p).pc) (producer : MpmcProducer α) :
    ProducerNews size p s (s.setProducer p producer) :=
  producerNews_goes home (fun _ => rfl) (fun _ => rfl) rfl .inl fun _ _ => rfl

theorem producerNews_write (home : Homebound (s.producers p).pc) (shard index : Nat) (value : α)
    (pc : MpmcProducerPc α) :
    ProducerNews size p s
      ((s.setRing shard p ((s.rings shard p).writeSlot index value)).producerAt p pc) := by
  have ring (here : Nat) : ∃ lane, (s.setRing shard p
      ((s.rings shard p).writeSlot index value)).rings here p =
        { s.rings here p with lane := lane } := by
    by_cases same : here = shard
    · subst same
      exact ⟨_, rings_setRing _ _ _ _⟩
    · exact ⟨_, rings_setRing_of_ne _ _ (.inl same)⟩
  refine producerNews_goes home (fun here => ?_) (fun here => ?_) rfl .inl fun _ _ => rfl
  all_goals
    obtain ⟨lane, ringEq⟩ := ring here
    rw [ringEq]

theorem producerNews_publish (home : Homebound (s.producers p).pc) (shard : Nat)
    (head : Usize) {pc : MpmcProducerPc α} (onWay : publishing shard pc = true) :
    ProducerNews size p s
      (((s.setRing shard p ((s.rings shard p).storeHead head)).notePlaced shard p).producerAt p
        pc) where
  tails here := by
    by_cases same : here = shard
    · subst same
      exact (congrArg PRing.tail (rings_setRing s here p _)).trans rfl
    · exact congrArg PRing.tail (rings_setRing_of_ne s _ (.inl same))
  heads here := by
    by_cases same : here = shard
    · subst same
      rw [producers_producerAt]
      exact .inr onWay
    · exact .inl (congrArg PRing.head (rings_setRing_of_ne s _ (.inl same)))
  consumerWaiters _ := .refl _
  published here before := by
    rw [(home here).1] at before
    cases before
  left here _ before := by
    rw [(home here).2] at before
    cases before
  live none := .inl none
  producerWaiters _ _ := rfl

theorem consumerWaiters_wakeConsumer (s : MpmcState α) (shard here : Nat) :
    (s.consumerWaiters here).Kept ((s.wakeConsumer shard).consumerWaiters here) ∧
      (here = shard → (s.wakeConsumer shard).consumerWaiters here =
        (s.consumerWaiters here).wake) := by
  by_cases same : here = shard
  · subst same
    have woken : (s.wakeConsumer here).consumerWaiters here = (s.consumerWaiters here).wake :=
      Function.update_self ..
    exact ⟨.inr woken, fun _ => woken⟩
  · exact ⟨.inl (Function.update_of_ne same ..), fun same' => absurd same' same⟩

/-- The wake after a publication. -/
theorem producerNews_wake {pc : MpmcProducerPc α}
    (here : ∀ other, publishing other (s.producers p).pc = true → other = shard)
    (never : ∀ other, lastLeaving other (s.producers p).pc = false) (values : List α) :
    ProducerNews size p s
      ((((s.wakeConsumer shard).advanceCursor size p shard).acknowledge shard p
        values).producerAt p pc) where
  tails _ := rfl
  heads _ := .inl rfl
  consumerWaiters other := (consumerWaiters_wakeConsumer s shard other).1
  published other onWay :=
    .inr ((consumerWaiters_wakeConsumer s shard other).2 (here other onWay))
  left other _ onWay := by
    rw [never other] at onWay
    cases onWay
  live none := .inl none
  producerWaiters _ _ := rfl

theorem homebound_of {pc : MpmcProducerPc α} (pcEq : (s.producers p).pc = pc)
    (home : Homebound pc) : Homebound (s.producers p).pc := by
  rw [pcEq]
  exact home

theorem waiters_noteTerminal (s : MpmcState α) :
    s.noteTerminal.consumerWaiters = s.consumerWaiters ∧
      s.noteTerminal.producerWaiters = s.producerWaiters := by
  unfold noteTerminal
  split <;> exact ⟨rfl, rfl⟩

theorem producerTick_news (taken : s.producerTick size p = some after) :
    ProducerNews size p s after := by
  unfold producerTick at taken
  cases pcEq : (s.producers p).pc with
  | idle | gone => simp [pcEq] at taken
  | sendShutdown value | sendLive value | loadShutdown call value | loadLive call value
  | waitShutdown phase value =>
      have home := homebound_of pcEq fun _ => ⟨rfl, rfl⟩
      simp only [pcEq] at taken
      split at taken <;> cases taken <;> exact producerNews_at home _
  | scan call value start k | batchScan items start k | waitIdle phase value shard =>
      have home := homebound_of pcEq fun _ => ⟨rfl, rfl⟩
      simp only [pcEq] at taken
      split at taken
      · split at taken <;> cases taken <;> exact producerNews_at home _
      · cases taken
        exact producerNews_at home _
  | waitLive phase value | returned outcome =>
      have home := homebound_of pcEq fun _ => ⟨rfl, rfl⟩
      simp only [pcEq, Option.some.injEq] at taken
      subst taken
      exact producerNews_at home _
  | write call value shard head =>
      have home := homebound_of pcEq fun _ => ⟨rfl, rfl⟩
      simp only [pcEq, Option.some.injEq] at taken
      subst taken
      exact producerNews_write home _ _ _ _
  | batchWrite items shard head left written =>
      have home := homebound_of pcEq fun _ => ⟨rfl, rfl⟩
      simp only [pcEq] at taken
      split at taken
      · cases taken
      · split at taken <;> cases taken <;> exact producerNews_write home _ _ _ _
  | publish call value shard head | batchPublish items shard head written =>
      have home := homebound_of pcEq fun _ => ⟨rfl, rfl⟩
      simp only [pcEq, Option.some.injEq] at taken
      subst taken
      exact producerNews_publish home _ _ (by simp [publishing])
  | wakeConsumer call value shard | batchWake items shard written =>
      simp only [pcEq, Option.some.injEq] at taken
      subst taken
      refine producerNews_wake (fun other onWay => ?_) (fun other => ?_) _
      · rw [pcEq] at onWay
        exact (beq_iff_eq.mp onWay).symm
      · rw [pcEq]
        rfl
  | waitAnnounce value | waitLeave value =>
      have home := homebound_of pcEq fun _ => ⟨rfl, rfl⟩
      simp only [pcEq, Option.some.injEq] at taken
      subst taken
      exact producerNews_goes home (fun _ => rfl) (fun _ => rfl) rfl .inl
        fun q ne => Function.update_of_ne ne ..
  | waitPark value =>
      have home := homebound_of pcEq fun _ => ⟨rfl, rfl⟩
      simp only [pcEq] at taken
      split at taken <;> cases taken
      exact producerNews_goes home (fun _ => rfl) (fun _ => rfl) rfl .inl
        fun q ne => Function.update_of_ne ne ..
  | fetchSub =>
      have home := homebound_of pcEq fun _ => ⟨rfl, rfl⟩
      have rings := rings_noteTerminal s
      obtain ⟨consumerWaiters, producerWaiters⟩ := waiters_noteTerminal s
      simp only [pcEq] at taken
      split at taken <;> cases taken
      · exact producerNews_goes home
          (fun shard => congrArg (fun rings => (rings shard p).tail) rings)
          (fun shard => congrArg (fun rings => (rings shard p).head) rings) consumerWaiters
          (fun _ => .inr rfl) fun q _ => congrFun producerWaiters q
      · rename_i notLast
        refine producerNews_goes home (fun _ => rfl) (fun _ => rfl) rfl (fun none => ?_)
          fun _ _ => rfl
        dsimp only at none
        exact .inl (by omega)
  | wakeLast shard =>
      simp only [pcEq] at taken
      have never (other : Nat) : publishing other (s.producers p).pc = false := by
        rw [pcEq]
        rfl
      have reaches (other : Nat) :
          lastLeaving other (s.producers p).pc = true ↔ shard ≤ other := by
        rw [pcEq]
        exact decide_eq_true_iff
      split at taken <;> cases taken
      · refine ⟨fun _ => rfl, fun _ => .inl rfl,
          fun other => (consumerWaiters_wakeConsumer s shard other).1, fun other onWay => ?_,
          fun other _ onWay => ?_, .inl, fun _ _ => rfl⟩
        · rw [never other] at onWay
          cases onWay
        · rcases ((reaches other).mp onWay).eq_or_lt with rfl | further
          · exact .inr ((consumerWaiters_wakeConsumer s shard shard).2 rfl)
          · refine .inl ?_
            rw [producers_producerAt]
            exact decide_eq_true further
      · refine ⟨fun _ => rfl, fun _ => .inl rfl, fun _ => .refl _, fun other onWay => ?_,
          fun other inside onWay => ?_, .inl, fun _ _ => rfl⟩
        · rw [never other] at onWay
          cases onWay
        · have := (reaches other).mp onWay
          omega

theorem producerStep_news {action : MpmcProducerAction α}
    (taken : s.producerStep size p action = some after) : ProducerNews size p s after := by
  cases action with
  | tick => exact producerTick_news taken
  | trySendBatch items =>
      simp only [producerStep] at taken
      split at taken
      · rename_i pcEq
        have home := homebound_of pcEq fun _ => ⟨rfl, rfl⟩
        split at taken <;> cases taken
        · exact producerNews_at home _
        · exact producerNews_at home _
      · cases taken
  | trySend value | send value | drop | spin | spurious =>
      simp only [producerStep] at taken
      split at taken
      · rename_i pcEq
        have home := homebound_of pcEq fun _ => ⟨rfl, rfl⟩
        cases taken
        exact producerNews_at home _
      · cases taken

/-! ### The steps of a consumer -/

/-- What the other parties see of a consumer's step. -/
structure ConsumerNews (size : MpmcSize) (shard : Nat) (s after : MpmcState α) : Prop where
  heads : ∀ p, (after.rings shard p).head = (s.rings shard p).head
  tails : ∀ p, (after.rings shard p).tail = (s.rings shard p).tail ∨
    taking p (after.consumers shard) = true
  producerWaiters : ∀ p, (s.producerWaiters p).Kept (after.producerWaiters p)
  took : ∀ p, taking p (s.consumers shard) = true →
    taking p (after.consumers shard) = true ∨
      after.producerWaiters p = (s.producerWaiters p).wake
  left : ∀ p < size.m, lastDropping p (s.consumers shard) = true →
    lastDropping p (after.consumers shard) = true ∨
      after.producerWaiters p = (s.producerWaiters p).wake
  live : after.liveConsumers = 0 →
    s.liveConsumers = 0 ∨ ∀ p, lastDropping p (after.consumers shard) = true
  consumerWaiters : ∀ other, other ≠ shard →
    after.consumerWaiters other = s.consumerWaiters other

/-- The consumer is on its way to no wake. -/
def ConsumerHomebound (pc : MpmcConsumerPc α) : Prop :=
  ∀ p, taking p pc = false ∧ lastDropping p pc = false

/-- A step that stores no cursor, from a place on the way to no wake. -/
theorem consumerNews_goes {moved : MpmcState α} {pc : MpmcConsumerPc α}
    (home : ConsumerHomebound (s.consumers shard))
    (heads : ∀ p, (moved.rings shard p).head = (s.rings shard p).head)
    (tails : ∀ p, (moved.rings shard p).tail = (s.rings shard p).tail)
    (producerWaiters : moved.producerWaiters = s.producerWaiters)
    (live : moved.liveConsumers = 0 → s.liveConsumers = 0 ∨ pc = .wakeLast 0)
    (consumerWaiters : ∀ other, other ≠ shard →
      moved.consumerWaiters other = s.consumerWaiters other) :
    ConsumerNews size shard s (moved.consumerAt shard pc) where
  heads := heads
  tails p := .inl (tails p)
  producerWaiters p := .inl (congrFun producerWaiters p)
  took p onWay := by
    rw [(home p).1] at onWay
    cases onWay
  left p _ onWay := by
    rw [(home p).2] at onWay
    cases onWay
  live none := by
    rcases live none with none | rfl
    · exact .inl none
    · refine .inr fun p => ?_
      rw [consumers_consumerAt]
      exact decide_eq_true (Nat.zero_le p)
  consumerWaiters := consumerWaiters

/-- A step that only moves the consumer on. -/
theorem consumerNews_at (home : ConsumerHomebound (s.consumers shard)) (pc : MpmcConsumerPc α) :
    ConsumerNews size shard s (s.consumerAt shard pc) :=
  consumerNews_goes home (fun _ => rfl) (fun _ => rfl) rfl .inl fun _ _ => rfl

/-- A step inside one ring leaves the cursors of all rings as they are. -/
theorem cursors_setRing (s : MpmcState α) (shard p : Nat) (ring : PRing α)
    (head : ring.head = (s.rings shard p).head) (tail : ring.tail = (s.rings shard p).tail)
    (q : Nat) : ((s.setRing shard p ring).rings shard q).head = (s.rings shard q).head ∧
      ((s.setRing shard p ring).rings shard q).tail = (s.rings shard q).tail := by
  by_cases same : q = p
  · subst same
    rw [rings_setRing]
    exact ⟨head, tail⟩
  · rw [rings_setRing_of_ne _ _ (.inr same)]
    exact ⟨rfl, rfl⟩

/-- A step inside one ring that stores no cursor. -/
theorem consumerNews_inRing (home : ConsumerHomebound (s.consumers shard)) {ring : PRing α}
    (head : ring.head = (s.rings shard p).head) (tail : ring.tail = (s.rings shard p).tail)
    (pc : MpmcConsumerPc α) :
    ConsumerNews size shard s ((s.setRing shard p ring).consumerAt shard pc) := by
  have cursors := cursors_setRing s shard p ring head tail
  exact consumerNews_goes home (fun q => (cursors q).1) (fun q => (cursors q).2) rfl .inl
    fun _ _ => rfl

/-- The tail is stored with the wake of the ring's producer to follow. -/
theorem consumerNews_storeTail (home : ConsumerHomebound (s.consumers shard)) (tail : Usize)
    {pc : MpmcConsumerPc α} (onWay : taking p pc = true) :
    ConsumerNews size shard s
      ((s.setRing shard p ((s.rings shard p).storeTail tail)).consumerAt shard pc) where
  heads q := by
    by_cases same : q = p
    · subst same
      exact (congrArg PRing.head (rings_setRing s shard q _)).trans rfl
    · exact congrArg PRing.head (rings_setRing_of_ne s _ (.inr same))
  tails q := by
    by_cases same : q = p
    · subst same
      rw [consumers_consumerAt]
      exact .inr onWay
    · exact .inl (congrArg PRing.tail (rings_setRing_of_ne s _ (.inr same)))
  producerWaiters _ := .refl _
  took q before := by
    rw [(home q).1] at before
    cases before
  left q _ before := by
    rw [(home q).2] at before
    cases before
  live none := .inl none
  consumerWaiters _ _ := rfl

theorem producerWaiters_wakeProducer (s : MpmcState α) (p q : Nat) :
    (s.producerWaiters q).Kept ((s.wakeProducer p).producerWaiters q) ∧
      (q = p → (s.wakeProducer p).producerWaiters q = (s.producerWaiters q).wake) := by
  by_cases same : q = p
  · subst same
    have woken : (s.wakeProducer q).producerWaiters q = (s.producerWaiters q).wake :=
      Function.update_self ..
    exact ⟨.inr woken, fun _ => woken⟩
  · exact ⟨.inl (Function.update_of_ne same ..), fun same' => absurd same' same⟩

/-- The wake after a tail was stored. -/
theorem consumerNews_wake {woken : MpmcState α} {pc : MpmcConsumerPc α}
    (here : ∀ q, taking q (s.consumers shard) = true → q = p)
    (never : ∀ q, lastDropping q (s.consumers shard) = false)
    (wakes : woken.producerWaiters = (s.wakeProducer p).producerWaiters)
    (cursors : ∀ q, (woken.rings shard q).head = (s.rings shard q).head ∧
      (woken.rings shard q).tail = (s.rings shard q).tail)
    (live : woken.liveConsumers = s.liveConsumers)
    (consumerWaiters : woken.consumerWaiters = s.consumerWaiters) :
    ConsumerNews size shard s (woken.consumerAt shard pc) where
  heads q := (cursors q).1
  tails q := .inl (cursors q).2
  producerWaiters q := by
    have kept := (producerWaiters_wakeProducer s p q).1
    rwa [← wakes] at kept
  took q onWay := by
    have woken := (producerWaiters_wakeProducer s p q).2 (here q onWay)
    rw [← wakes] at woken
    exact .inr woken
  left q _ onWay := by
    rw [never q] at onWay
    cases onWay
  live none := .inl (live ▸ none)
  consumerWaiters other _ := congrFun consumerWaiters other

/-- A call that leaves a panicking callback through its guard. -/
def unwinding : MpmcFrame α → Bool
  | .drainUnwind _ _ => true
  | _ => false

theorem consumerHomebound_of {pc : MpmcConsumerPc α} (pcEq : s.consumers shard = pc)
    (home : ConsumerHomebound pc) : ConsumerHomebound (s.consumers shard) := by
  rw [pcEq]
  exact home

theorem frameTick_news {rest : List (MpmcFrame α)} {frame : MpmcFrame α}
    (pcEq : s.consumers shard = .running (frame :: rest)) (returns : unwinding frame = false)
    (taken : s.frameTick size shard rest frame = some after) :
    ConsumerNews size shard s after := by
  unfold frameTick at taken
  cases frame with
  | scanTail call p | drainTail call p count progress | workHead call phase p
  | terminalLive call asker | returned outcome =>
      have home := consumerHomebound_of pcEq fun _ => ⟨rfl, rfl⟩
      cases taken
      exact consumerNews_at home _
  | drainCallback call p count head tail | terminalShutdown call asker
  | workTail call phase p head =>
      have home := consumerHomebound_of pcEq fun _ => ⟨rfl, rfl⟩
      dsimp only at taken
      split at taken <;> cases taken <;> exact consumerNews_at home _
  | scanHead call p tail | drainHead call p count progress tail =>
      have home := consumerHomebound_of pcEq fun _ => ⟨rfl, rfl⟩
      dsimp only at taken
      split at taken <;> cases taken <;>
        exact consumerNews_goes home (fun _ => rfl) (fun _ => rfl) rfl .inl fun _ _ => rfl
  | scanRead call p tail | drainRead call p count head tail =>
      have home := consumerHomebound_of pcEq fun _ => ⟨rfl, rfl⟩
      dsimp only at taken
      split at taken <;> cases taken <;> refine consumerNews_inRing home ?_ ?_ _ <;> rfl
  | scanStore call p tail value | drainStore call p count tail =>
      have home := consumerHomebound_of pcEq fun _ => ⟨rfl, rfl⟩
      cases taken
      exact consumerNews_storeTail home _ (beq_self_eq_true p)
  | scanWake call p value =>
      have here (q : Nat) (onWay : taking q (s.consumers shard) = true) : q = p := by
        rw [pcEq] at onWay
        exact (beq_iff_eq.mp onWay).symm
      have never (q : Nat) : lastDropping q (s.consumers shard) = false := by
        rw [pcEq]
        rfl
      cases taken
      refine consumerNews_wake here never rfl (fun q => ?_) rfl rfl
      exact cursors_setRing s shard p ((s.rings shard p).deliver value) rfl rfl q
  | drainWake call p count =>
      have here (q : Nat) (onWay : taking q (s.consumers shard) = true) : q = p := by
        rw [pcEq] at onWay
        exact (beq_iff_eq.mp onWay).symm
      have never (q : Nat) : lastDropping q (s.consumers shard) = false := by
        rw [pcEq]
        rfl
      cases taken
      exact consumerNews_wake here never rfl (fun _ => ⟨rfl, rfl⟩) rfl rfl
  | waitAnnounce call | waitLeave call =>
      have home := consumerHomebound_of pcEq fun _ => ⟨rfl, rfl⟩
      cases taken
      exact consumerNews_goes home (fun _ => rfl) (fun _ => rfl) rfl .inl
        fun other ne => Function.update_of_ne ne ..
  | waitPark call =>
      have home := consumerHomebound_of pcEq fun _ => ⟨rfl, rfl⟩
      dsimp only at taken
      split at taken <;> cases taken
      exact consumerNews_goes home (fun _ => rfl) (fun _ => rfl) rfl .inl
        fun other ne => Function.update_of_ne ne ..
  | drainUnwind p tail => cases returns
  | undefined => cases taken

/-- A handle that may start a receive is idle or in a callback. -/
theorem homebound_of_mayCall {frames : List (MpmcFrame α)} (may : mayCall frames = true) :
    ConsumerHomebound (.running frames) := by
  intro q
  unfold mayCall at may
  split at may
  · exact ⟨rfl, rfl⟩
  · exact ⟨rfl, rfl⟩
  · cases may

theorem consumerStep_news {action : MpmcConsumerAction}
    (returns : ∀ frame rest, s.consumers shard = .running (frame :: rest) →
      unwinding frame = false)
    (taken : s.consumerStep size shard action = some after) :
    ConsumerNews size shard s after := by
  cases action with
  | tick =>
      simp only [consumerStep, consumerTick] at taken
      cases pcEq : s.consumers shard with
      | running frames =>
          cases frames with
          | nil => simp [pcEq] at taken
          | cons frame rest =>
              simp only [pcEq] at taken
              exact frameTick_news pcEq (returns frame rest pcEq) taken
      | fetchSub =>
          have home := consumerHomebound_of pcEq fun _ => ⟨rfl, rfl⟩
          simp only [pcEq] at taken
          split at taken <;> cases taken
          · exact consumerNews_goes home (fun _ => rfl) (fun _ => rfl) rfl (fun _ => .inr rfl)
              fun _ _ => rfl
          · rename_i notLast
            refine consumerNews_goes home (fun _ => rfl) (fun _ => rfl) rfl (fun none => ?_)
              fun _ _ => rfl
            dsimp only at none
            exact .inl (by omega)
      | wakeLast here =>
          have never (q : Nat) : taking q (s.consumers shard) = false := by
            rw [pcEq]
            rfl
          have reaches (q : Nat) :
              lastDropping q (s.consumers shard) = true ↔ here ≤ q := by
            rw [pcEq]
            exact decide_eq_true_iff
          simp only [pcEq] at taken
          split at taken <;> cases taken
          · refine ⟨fun _ => rfl, fun _ => .inl rfl,
              fun q => (producerWaiters_wakeProducer s here q).1, fun q onWay => ?_,
              fun q _ onWay => ?_, .inl, fun _ _ => rfl⟩
            · rw [never q] at onWay
              cases onWay
            · rcases ((reaches q).mp onWay).eq_or_lt with rfl | further
              · exact .inr ((producerWaiters_wakeProducer s here here).2 rfl)
              · refine .inl ?_
                rw [consumers_consumerAt]
                exact decide_eq_true further
          · refine ⟨fun _ => rfl, fun _ => .inl rfl, fun _ => .refl _, fun q onWay => ?_,
              fun q inside onWay => ?_, .inl, fun _ _ => rfl⟩
            · rw [never q] at onWay
              cases onWay
            · have := (reaches q).mp onWay
              omega
      | gone => simp [pcEq] at taken
  | tryRecv | recv | tryRecvBatch | recvBatch =>
      simp only [consumerStep, call] at taken
      split at taken
      · rename_i frames pcEq
        split at taken <;> cases taken
        rename_i may
        exact consumerNews_at (consumerHomebound_of pcEq (homebound_of_mayCall may)) _
      · cases taken
  | drop | panic | spin | spurious =>
      simp only [consumerStep] at taken
      split at taken
      · rename_i pcEq
        have home := consumerHomebound_of pcEq fun _ => ⟨rfl, rfl⟩
        cases taken
        exact consumerNews_at home _
      · cases taken

/-! ### The steps of a signal -/

/-- What the other parties see of a signal's step. -/
structure SignalNews (size : MpmcSize) (k : Nat) (s after : MpmcState α) : Prop where
  consumerWaiters : ∀ shard,
    (s.consumerWaiters shard).Kept (after.consumerWaiters shard)
  producerWaiters : ∀ p, (s.producerWaiters p).Kept (after.producerWaiters p)
  signallers : ∀ other, other ≠ k → after.signallers other = s.signallers other
  shutdown : after.shutdown = true → s.shutdown = true ∨
    (∀ shard, signallingConsumer shard (after.signallers k) = true) ∧
      ∀ p, signallingProducer p (after.signallers k) = true
  toConsumer : ∀ shard < size.n, signallingConsumer shard (s.signallers k) = true →
    signallingConsumer shard (after.signallers k) = true ∨
      after.consumerWaiters shard = (s.consumerWaiters shard).wake
  toProducer : ∀ p < size.m, signallingProducer p (s.signallers k) = true →
    signallingProducer p (after.signallers k) = true ∨
      after.producerWaiters p = (s.producerWaiters p).wake

theorem signallers_signallerAt (s : MpmcState α) (k : Nat) (pc : MpmcSignalPc) :
    (s.signallerAt k pc).signallers k = pc := by
  simp [signallerAt]

theorem signallerStep_news {k : Nat} {action : MpmcSignalAction}
    (taken : s.signallerStep size k action = some after) : SignalNews size k s after := by
  have others {moved : MpmcState α} (same : moved.signallers = s.signallers) (pc : MpmcSignalPc)
      (other : Nat) (ne : other ≠ k) :
      (moved.signallerAt k pc).signallers other = s.signallers other := by
    simp [signallerAt, ne, same]
  cases action with
  | signal =>
      simp only [signallerStep] at taken
      split at taken
      · rename_i pcEq
        cases taken
        obtain ⟨consumerWaiters, producerWaiters⟩ := waiters_noteTerminal s
        refine ⟨fun shard => .inl (congrFun consumerWaiters shard),
          fun p => .inl (congrFun producerWaiters p), others ?_ _, fun _ => .inr ⟨fun shard => ?_,
            fun p => ?_⟩, fun shard _ onWay => ?_, fun p _ onWay => ?_⟩
        · unfold noteTerminal
          split <;> rfl
        · rw [signallers_signallerAt]
          exact decide_eq_true (Nat.zero_le shard)
        · rw [signallers_signallerAt]
          rfl
        · rw [pcEq] at onWay
          cases onWay
        · rw [pcEq] at onWay
          cases onWay
      · cases taken
  | tick =>
      simp only [signallerStep] at taken
      cases pcEq : s.signallers k with
      | idle => simp [pcEq] at taken
      | wakeConsumer here =>
          simp only [pcEq] at taken
          split at taken <;> cases taken
          · refine ⟨fun shard => (consumerWaiters_wakeConsumer s here shard).1, fun _ => .refl _,
              others rfl _, .inl, fun shard _ onWay => ?_, fun p _ _ => ?_⟩
            · rw [pcEq] at onWay
              rcases (of_decide_eq_true onWay).eq_or_lt with rfl | further
              · exact .inr ((consumerWaiters_wakeConsumer s here here).2 rfl)
              · rw [signallers_signallerAt]
                exact .inl (decide_eq_true further)
            · rw [signallers_signallerAt]
              exact .inl rfl
          · refine ⟨fun _ => .refl _, fun _ => .refl _, others rfl _, .inl,
              fun shard inside onWay => ?_, fun p _ _ => ?_⟩
            · rw [pcEq] at onWay
              have := of_decide_eq_true onWay
              omega
            · rw [signallers_signallerAt]
              exact .inl (decide_eq_true (Nat.zero_le p))
      | wakeProducer here =>
          simp only [pcEq] at taken
          split at taken <;> cases taken
          · refine ⟨fun _ => .refl _, fun p => (producerWaiters_wakeProducer s here p).1,
              others rfl _, .inl, fun shard _ onWay => ?_, fun p _ onWay => ?_⟩
            · rw [pcEq] at onWay
              cases onWay
            · rw [pcEq] at onWay
              rcases (of_decide_eq_true onWay).eq_or_lt with rfl | further
              · exact .inr ((producerWaiters_wakeProducer s here here).2 rfl)
              · rw [signallers_signallerAt]
                exact .inl (decide_eq_true further)
          · refine ⟨fun _ => .refl _, fun _ => .refl _, others rfl _, .inl,
              fun shard _ onWay => ?_, fun p inside onWay => ?_⟩
            · rw [pcEq] at onWay
              cases onWay
            · rw [pcEq] at onWay
              have := of_decide_eq_true onWay
              omega

/-! ### What a waiting consumer relies on -/

/-- Producer `p`'s ring of the shard is empty, or the consumer's wake is on its way. -/
def RingCovered (s : MpmcState α) (shard p : Nat) : Prop :=
  (s.consumerWaiters shard).Covers ((s.rings shard p).head = (s.rings shard p).tail)
    (publishing shard (s.producers p).pc = true)

/-- A loaded head is still the ring's head, or the consumer's wake is on its way. -/
def HeadCovered (s : MpmcState α) (shard p : Nat) (head : Usize) : Prop :=
  (s.consumerWaiters shard).Covers (head = (s.rings shard p).head)
    (publishing shard (s.producers p).pc = true)

/-- No shutdown is signalled, or the consumer's wake is on its way. -/
def ShutdownCovered (s : MpmcState α) (shard : Nat) : Prop :=
  (s.consumerWaiters shard).Covers (s.shutdown = false)
    (∃ k, signallingConsumer shard (s.signallers k) = true)

/-- A producer is alive, or the consumer's wake is on its way. -/
def ProducersCovered (size : MpmcSize) (s : MpmcState α) (shard : Nat) : Prop :=
  (s.consumerWaiters shard).Covers (s.liveProducers ≠ 0)
    (∃ p < size.m, lastLeaving shard (s.producers p).pc = true)

/-- The consumer has announced itself and looked at the first `seen` rings. -/
structure RingsCovered (s : MpmcState α) (shard seen : Nat) : Prop where
  announced : (s.consumerWaiters shard).announced = true
  rings : ∀ p < seen, RingCovered s shard p

/-- What the shard's consumer relies on at each point of its announced predicate; and
no callback has panicked. -/
def FrameCovered (size : MpmcSize) (s : MpmcState α) (shard : Nat) : MpmcFrame α → Prop
  | .workHead _ .announced p => RingsCovered s shard p
  | .workTail _ .announced p head => RingsCovered s shard p ∧ HeadCovered s shard p head
  | .terminalShutdown _ (.predicate .announced) => RingsCovered s shard size.m
  | .terminalLive _ (.predicate .announced) =>
      RingsCovered s shard size.m ∧ ShutdownCovered s shard
  | .waitPark _ =>
      RingsCovered s shard size.m ∧ ShutdownCovered s shard ∧ ProducersCovered size s shard
  | .drainUnwind _ _ => False
  | _ => True

/-- What the innermost call of the shard's consumer relies on. -/
def ConsumerCovered (size : MpmcSize) (s : MpmcState α) (shard : Nat) : Prop :=
  ∀ frame rest, s.consumers shard = .running (frame :: rest) → FrameCovered size s shard frame

/-- What a consumer sees of a step of another party. -/
structure ConsumerHears (size : MpmcSize) (shard : Nat) (s after : MpmcState α) : Prop where
  consumer : after.consumers shard = s.consumers shard
  kept : (s.consumerWaiters shard).Kept (after.consumerWaiters shard)
  tails : ∀ p, (after.rings shard p).tail = (s.rings shard p).tail
  heads : ∀ p, (after.rings shard p).head = (s.rings shard p).head ∨
    publishing shard (after.producers p).pc = true
  published : ∀ p, publishing shard (s.producers p).pc = true →
    publishing shard (after.producers p).pc = true ∨
      after.consumerWaiters shard = (s.consumerWaiters shard).wake
  shutdown : Waiter.Passes (s.consumerWaiters shard) (after.consumerWaiters shard)
    (s.shutdown = false) (∃ k, signallingConsumer shard (s.signallers k) = true)
    (after.shutdown = false) (∃ k, signallingConsumer shard (after.signallers k) = true)
  live : Waiter.Passes (s.consumerWaiters shard) (after.consumerWaiters shard)
    (s.liveProducers ≠ 0) (∃ p < size.m, lastLeaving shard (s.producers p).pc = true)
    (after.liveProducers ≠ 0) (∃ p < size.m, lastLeaving shard (after.producers p).pc = true)

theorem ConsumerHears.ringsCovered (hears : ConsumerHears size shard s after) {seen : Nat}
    (covered : RingsCovered s shard seen) : RingsCovered after shard seen where
  announced := hears.kept.announced.trans covered.announced
  rings p bound := by
    refine (covered.rings p bound).carried covered.announced hears.kept
      ⟨fun empty => ?_, hears.published p⟩
    rcases hears.heads p with same | onWay
    · exact .inl (by rw [same, hears.tails p, empty])
    · exact .inr onWay

theorem ConsumerHears.headCovered (hears : ConsumerHears size shard s after) {head : Usize}
    (announced : (s.consumerWaiters shard).announced = true)
    (covered : HeadCovered s shard p head) : HeadCovered after shard p head := by
  refine covered.carried announced hears.kept ⟨fun current => ?_, hears.published p⟩
  rcases hears.heads p with same | onWay
  · exact .inl (by rw [same, current])
  · exact .inr onWay

theorem FrameCovered.map {frame : MpmcFrame α} (covered : FrameCovered size s shard frame)
    (rings : ∀ seen, RingsCovered s shard seen → RingsCovered after shard seen)
    (head : ∀ p head, (s.consumerWaiters shard).announced = true →
      HeadCovered s shard p head → HeadCovered after shard p head)
    (shutdown : (s.consumerWaiters shard).announced = true →
      ShutdownCovered s shard → ShutdownCovered after shard)
    (live : (s.consumerWaiters shard).announced = true →
      ProducersCovered size s shard → ProducersCovered size after shard) :
    FrameCovered size after shard frame := by
  cases frame with
  | workHead call phase p =>
      cases phase with
      | entry => trivial
      | announced => exact rings p covered
  | workTail call phase p loaded =>
      cases phase with
      | entry => trivial
      | announced =>
          exact ⟨rings p covered.1, head p loaded covered.1.announced covered.2⟩
  | terminalShutdown call asker =>
      cases asker with
      | check => trivial
      | predicate phase =>
          cases phase with
          | entry => trivial
          | announced => exact rings size.m covered
  | terminalLive call asker =>
      cases asker with
      | check => trivial
      | predicate phase =>
          cases phase with
          | entry => trivial
          | announced => exact ⟨rings size.m covered.1, shutdown covered.1.announced covered.2⟩
  | waitPark call =>
      exact ⟨rings size.m covered.1, shutdown covered.1.announced covered.2.1,
        live covered.1.announced covered.2.2⟩
  | drainUnwind p tail => exact covered
  | _ => trivial

theorem ConsumerHears.stable (hears : ConsumerHears size shard s after)
    (covered : ConsumerCovered size s shard) : ConsumerCovered size after shard := by
  intro frame rest pcEq
  rw [hears.consumer] at pcEq
  exact (covered frame rest pcEq).map (fun _ => hears.ringsCovered)
    (fun _ _ announced => hears.headCovered announced)
    (fun announced running => running.carried announced hears.kept hears.shutdown)
    (fun announced alive => alive.carried announced hears.kept hears.live)

/-! ### What a consumer sees of the others -/

theorem consumerHears_producer {action : MpmcProducerAction α} (bound : p < size.m)
    (inside : shard < size.n) (taken : s.producerStep size p action = some after) :
    ConsumerHears size shard s after := by
  have news := producerStep_news taken
  have frame := producerStep_frame taken
  refine ⟨congrFun frame.consumers shard, news.consumerWaiters shard, fun q => ?_, fun q => ?_,
    fun q => ?_, ?_, ⟨fun alive => ?_, ?_⟩⟩
  · by_cases same : q = p
    · rw [same]
      exact news.tails shard
    · rw [frame.rings shard q same]
  · by_cases same : q = p
    · rw [same]
      exact news.heads shard
    · rw [frame.rings shard q same]
      exact .inl rfl
  · by_cases same : q = p
    · rw [same]
      exact news.published shard
    · rw [frame.producers q same]
      exact .inl
  · rw [frame.shutdown, frame.signallers]
    exact .refl _ _ _ _
  · by_cases none : after.liveProducers = 0
    · rcases news.live none with before | leaving
      · exact absurd before alive
      · exact .inr ⟨p, bound, leaving shard⟩
    · exact .inl none
  · rintro ⟨q, qBound, onWay⟩
    by_cases same : q = p
    · subst same
      rcases news.left shard inside onWay with onWay | woken
      · exact .inl ⟨q, bound, onWay⟩
      · exact .inr woken
    · exact .inl ⟨q, qBound, by rwa [frame.producers q same]⟩

theorem returns_of_covered (covered : ConsumerCovered size s shard) (frame : MpmcFrame α)
    (rest : List (MpmcFrame α)) (pcEq : s.consumers shard = .running (frame :: rest)) :
    unwinding frame = false := by
  have here := covered frame rest pcEq
  cases frame with
  | drainUnwind p tail => exact absurd here not_false
  | _ => rfl

theorem consumerHears_consumer {here : Nat} {action : MpmcConsumerAction}
    (covered : ConsumerCovered size s here) (other : shard ≠ here)
    (taken : s.consumerStep size here action = some after) :
    ConsumerHears size shard s after := by
  have news := consumerStep_news (returns_of_covered covered) taken
  have frame := consumerStep_frame taken
  have rings := frame.rings shard other
  have waiter := news.consumerWaiters shard other
  refine ⟨frame.consumers shard other, .inl waiter, fun p => by rw [rings],
    fun p => .inl (by rw [rings]), fun p => ?_, ?_, ?_⟩
  · rw [frame.producers]
    exact .inl
  · rw [frame.shutdown, frame.signallers]
    exact .refl _ _ _ _
  · rw [frame.liveProducers, frame.producers]
    exact .refl _ _ _ _

theorem consumerHears_signaller {k : Nat} {action : MpmcSignalAction} (inside : shard < size.n)
    (taken : s.signallerStep size k action = some after) : ConsumerHears size shard s after := by
  have news := signallerStep_news taken
  have frame := signallerStep_frame taken
  refine ⟨congrFun frame.consumers shard, news.consumerWaiters shard,
    fun p => by rw [frame.rings], fun p => .inl (by rw [frame.rings]), fun p => ?_,
    ⟨fun running => ?_, ?_⟩, ?_⟩
  · rw [frame.producers]
    exact .inl
  · cases shutdown : after.shutdown with
    | false => exact .inl rfl
    | true =>
        rcases news.shutdown shutdown with before | ⟨signalling, -⟩
        · rw [running] at before
          cases before
        · exact .inr ⟨k, signalling shard⟩
  · rintro ⟨other, onWay⟩
    by_cases same : other = k
    · subst same
      rcases news.toConsumer shard inside onWay with onWay | woken
      · exact .inl ⟨other, onWay⟩
      · exact .inr woken
    · exact .inl ⟨other, by rwa [news.signallers other same]⟩
  · rw [frame.liveProducers, frame.producers]
    exact .refl _ _ _ _

/-! ### The consumer's own steps -/

/-- A place at which the call relies on nothing. -/
def Unaware (frame : MpmcFrame α) : Prop :=
  ∀ (size : MpmcSize) (s : MpmcState α) (shard : Nat), FrameCovered size s shard frame

theorem unaware_scanAt (call : MpmcRecvCall) (p : Nat) :
    Unaware (scanAt size call p : MpmcFrame α) := by
  unfold scanAt
  split
  · exact fun _ _ _ => trivial
  · cases call <;> exact fun _ _ _ => trivial

theorem unaware_drainAt (call : MpmcBatchCall) (p count : Nat) (progress : Bool) :
    Unaware (drainAt size call p count progress : MpmcFrame α) := by
  unfold drainAt
  split
  · exact fun _ _ _ => trivial
  · split
    · exact fun _ _ _ => trivial
    · unfold batchDone
      cases call with
      | tryRecvBatch => exact fun _ _ _ => trivial
      | recvBatch =>
          dsimp only
          split <;> exact fun _ _ _ => trivial

theorem unaware_receiveAgain (call : MpmcBlocking) :
    Unaware (receiveAgain size call : MpmcFrame α) := by
  cases call with
  | recv => exact unaware_scanAt .recv 0
  | recvBatch => exact unaware_drainAt .recvBatch 0 0 false

theorem unaware_recvWaited_entry (call : MpmcBlocking) (ready : Bool) :
    Unaware (recvWaited size call .entry ready : MpmcFrame α) := by
  cases ready with
  | true => exact unaware_receiveAgain call
  | false => exact fun _ _ _ => trivial

theorem unaware_recvWaited_ready (call : MpmcBlocking) (phase : WaitPhase) :
    Unaware (recvWaited size call phase true : MpmcFrame α) := by
  cases phase with
  | entry => exact unaware_receiveAgain call
  | announced => exact fun _ _ _ => trivial

theorem unaware_terminalAnswer_check (call : MpmcBlocking) (terminal : Bool) :
    Unaware (terminalAnswer size call .check terminal : MpmcFrame α) := by
  cases terminal <;> exact fun _ _ _ => trivial

/-- The innermost call arrives at a place. -/
theorem consumerCovered_at {moved : MpmcState α} {next : MpmcFrame α}
    {rest : List (MpmcFrame α)} (covered : FrameCovered size moved shard next) :
    ConsumerCovered size (moved.consumerAt shard (.running (next :: rest))) shard := by
  intro frame others pcEq
  rw [consumers_consumerAt] at pcEq
  cases pcEq
  exact covered.map (fun _ rings => ⟨rings.announced, rings.rings⟩) (fun _ _ _ head => head)
    (fun _ running => running) (fun _ live => live)

theorem RingsCovered.next {seen : Nat} (covered : RingsCovered s shard seen)
    (ring : RingCovered s shard seen) : RingsCovered s shard (seen + 1) where
  announced := covered.announced
  rings p bound := by
    rcases Nat.lt_succ_iff_lt_or_eq.mp bound with before | rfl
    · exact covered.rings p before
    · exact ring

/-- The predicate goes on to the next ring, or to the terminal check. -/
theorem frameCovered_workAt (call : MpmcBlocking) {seen : Nat}
    (covered : RingsCovered s shard seen) :
    FrameCovered size s shard (workAt size call .announced seen) := by
  unfold workAt
  split
  · exact covered
  · exact ⟨covered.announced, fun p bound => covered.rings p (by omega)⟩

theorem consumerWaiters_setConsumerWaiter (s : MpmcState α) (shard : Nat) (waiter : Waiter) :
    (s.setConsumerWaiter shard waiter).consumerWaiters shard = waiter :=
  Function.update_self ..

theorem frameTick_covered {rest : List (MpmcFrame α)} {frame : MpmcFrame α}
    (short : rest = []) (covered : FrameCovered size s shard frame)
    (taken : s.frameTick size shard rest frame = some after) :
    ConsumerCovered size after shard := by
  subst short
  unfold frameTick at taken
  cases frame with
  | undefined => cases taken
  | returned outcome =>
      cases taken
      intro frame others pcEq
      rw [consumers_consumerAt] at pcEq
      cases pcEq
  | scanHead call p tail =>
      dsimp only at taken
      split at taken <;> cases taken
      · exact consumerCovered_at (unaware_scanAt _ _ _ _ _)
      · exact consumerCovered_at trivial
  | drainHead call p count progress tail =>
      dsimp only at taken
      split at taken <;> cases taken
      · exact consumerCovered_at (unaware_drainAt _ _ _ _ _ _ _)
      · exact consumerCovered_at trivial
  | drainWake call p count =>
      cases taken
      exact consumerCovered_at (unaware_drainAt _ _ _ _ _ _ _)
  | scanRead call p tail | drainRead call p count head tail
  | drainCallback call p count head tail =>
      dsimp only at taken
      split at taken <;> cases taken <;> exact consumerCovered_at trivial
  | terminalShutdown call asker =>
      dsimp only at taken
      split at taken
      · cases taken
        cases asker with
        | check => exact consumerCovered_at (unaware_terminalAnswer_check _ _ _ _ _)
        | predicate phase => exact consumerCovered_at (unaware_recvWaited_ready _ _ _ _ _)
      · rename_i running
        cases taken
        cases asker with
        | check => exact consumerCovered_at trivial
        | predicate phase =>
            cases phase with
            | entry => exact consumerCovered_at trivial
            | announced =>
                exact consumerCovered_at ⟨covered, .inl (Bool.eq_false_iff.mpr running)⟩
  | terminalLive call asker =>
      cases taken
      cases asker with
      | check => exact consumerCovered_at (unaware_terminalAnswer_check _ _ _ _ _)
      | predicate phase =>
          cases phase with
          | entry => exact consumerCovered_at (unaware_recvWaited_entry _ _ _ _ _)
          | announced =>
              by_cases none : s.liveProducers = 0
              · refine consumerCovered_at ?_
                rw [none]
                exact trivial
              · refine consumerCovered_at ?_
                rw [decide_eq_false none]
                exact ⟨covered.1, covered.2, .inl none⟩
  | workHead call phase p =>
      cases taken
      cases phase with
      | entry => exact consumerCovered_at trivial
      | announced => exact consumerCovered_at ⟨covered, .inl rfl⟩
  | workTail call phase p head =>
      dsimp only at taken
      split at taken
      · rename_i empty
        cases taken
        cases phase with
        | entry =>
            refine consumerCovered_at ?_
            unfold workAt
            split <;> trivial
        | announced =>
            have ring : RingCovered s shard p := by
              rcases covered.2 with current | coming
              · exact .inl (current.symm.trans empty)
              · exact .inr coming
            exact consumerCovered_at (frameCovered_workAt call (covered.1.next ring))
      · cases taken
        exact consumerCovered_at (unaware_recvWaited_ready _ _ _ _ _)
  | waitAnnounce call =>
      cases taken
      refine consumerCovered_at ⟨?_, fun p never => absurd never (Nat.not_lt_zero p)⟩
      rw [consumerWaiters_setConsumerWaiter]
      rfl
  | waitPark call =>
      dsimp only at taken
      split at taken <;> cases taken
      refine consumerCovered_at ⟨?_, fun p never => absurd never (Nat.not_lt_zero p)⟩
      rw [consumerWaiters_setConsumerWaiter]
      exact covered.1.announced
  | waitLeave call =>
      cases taken
      exact consumerCovered_at (unaware_receiveAgain _ _ _ _)
  | drainUnwind p tail => exact absurd covered not_false
  | _ =>
      cases taken
      exact consumerCovered_at trivial

theorem consumerStep_covered {action : MpmcConsumerAction}
    (plain : s.plainAction (.consumer shard action) = true)
    (short : (framesOf (s.consumers shard)).length ≤ 1)
    (covered : ConsumerCovered size s shard)
    (taken : s.consumerStep size shard action = some after) :
    ConsumerCovered size after shard := by
  have left {pc : MpmcConsumerPc α} (none : ∀ frames, pc ≠ .running frames)
      {moved : MpmcState α} : ConsumerCovered size (moved.consumerAt shard pc) shard := by
    intro frame rest pcEq
    rw [consumers_consumerAt] at pcEq
    exact absurd pcEq (none _)
  cases action with
  | tick =>
      simp only [consumerStep, consumerTick] at taken
      cases pcEq : s.consumers shard with
      | running frames =>
          cases frames with
          | nil => simp [pcEq] at taken
          | cons frame rest =>
              rw [pcEq] at short
              have short : rest = [] :=
                List.eq_nil_of_length_eq_zero (Nat.le_zero.mp (Nat.le_of_succ_le_succ short))
              simp only [pcEq] at taken
              exact frameTick_covered short (covered frame rest pcEq) taken
      | fetchSub =>
          simp only [pcEq] at taken
          split at taken <;> cases taken <;> exact left (by rintro _ ⟨⟩)
      | wakeLast here =>
          simp only [pcEq] at taken
          split at taken <;> cases taken <;> exact left (by rintro _ ⟨⟩)
      | gone => simp [pcEq] at taken
  | tryRecv | recv =>
      simp only [consumerStep, call] at taken
      split at taken
      · split at taken <;> cases taken
        exact consumerCovered_at (unaware_scanAt _ _ _ _ _)
      · cases taken
  | tryRecvBatch | recvBatch =>
      simp only [consumerStep, call] at taken
      split at taken
      · split at taken <;> cases taken
        exact consumerCovered_at (unaware_drainAt _ _ _ _ _ _ _)
      · cases taken
  | drop =>
      simp only [consumerStep] at taken
      split at taken <;> cases taken
      exact left (by rintro _ ⟨⟩)
  | panic => cases plain
  | spin =>
      simp only [consumerStep] at taken
      split at taken <;> cases taken
      exact consumerCovered_at trivial
  | spurious =>
      simp only [consumerStep] at taken
      split at taken
      · rename_i call rest pcEq
        cases taken
        have here := covered _ _ pcEq
        exact consumerCovered_at
          ⟨here.1.announced, fun p never => absurd never (Nat.not_lt_zero p)⟩
      · cases taken

/-! ### What a waiting producer relies on -/

/-- The producer's ring of the shard is full, or its wake is on its way. -/
def FullCovered (size : MpmcSize) (s : MpmcState α) (p shard : Nat) : Prop :=
  (s.producerWaiters p).Covers (s.full size shard p = true)
    (taking p (s.consumers shard) = true)

/-- No shutdown is signalled, or the producer's wake is on its way. -/
def SignalCovered (s : MpmcState α) (p : Nat) : Prop :=
  (s.producerWaiters p).Covers (s.shutdown = false)
    (∃ k, signallingProducer p (s.signallers k) = true)

/-- A consumer is alive, or the producer's wake is on its way. -/
def ConsumersCovered (size : MpmcSize) (s : MpmcState α) (p : Nat) : Prop :=
  (s.producerWaiters p).Covers (s.liveConsumers ≠ 0)
    (∃ shard < size.n, lastDropping p (s.consumers shard) = true)

/-- The producer has announced itself and looked at its rings of the first `seen`
shards. -/
structure FullsCovered (size : MpmcSize) (s : MpmcState α) (p seen : Nat) : Prop where
  announced : (s.producerWaiters p).announced = true
  rings : ∀ shard < seen, FullCovered size s p shard

/-- What producer `p` relies on at each point of its announced predicate. -/
def SendCovered (size : MpmcSize) (s : MpmcState α) (p : Nat) : MpmcProducerPc α → Prop
  | .waitIdle .announced _ shard => FullsCovered size s p shard
  | .waitShutdown .announced _ => FullsCovered size s p size.n
  | .waitLive .announced _ => FullsCovered size s p size.n ∧ SignalCovered s p
  | .waitPark _ => FullsCovered size s p size.n ∧ SignalCovered s p ∧ ConsumersCovered size s p
  | _ => True

/-- What producer `p` relies on where it stands. -/
def ProducerCovered (size : MpmcSize) (s : MpmcState α) (p : Nat) : Prop :=
  SendCovered size s p (s.producers p).pc

/-- What a producer sees of a step of another party. -/
structure ProducerHears (size : MpmcSize) (p : Nat) (s after : MpmcState α) : Prop where
  producer : after.producers p = s.producers p
  kept : (s.producerWaiters p).Kept (after.producerWaiters p)
  heads : ∀ shard, (after.rings shard p).head = (s.rings shard p).head
  tails : ∀ shard, (after.rings shard p).tail = (s.rings shard p).tail ∨
    taking p (after.consumers shard) = true
  took : ∀ shard, taking p (s.consumers shard) = true →
    taking p (after.consumers shard) = true ∨
      after.producerWaiters p = (s.producerWaiters p).wake
  shutdown : Waiter.Passes (s.producerWaiters p) (after.producerWaiters p)
    (s.shutdown = false) (∃ k, signallingProducer p (s.signallers k) = true)
    (after.shutdown = false) (∃ k, signallingProducer p (after.signallers k) = true)
  live : Waiter.Passes (s.producerWaiters p) (after.producerWaiters p)
    (s.liveConsumers ≠ 0) (∃ shard < size.n, lastDropping p (s.consumers shard) = true)
    (after.liveConsumers ≠ 0) (∃ shard < size.n, lastDropping p (after.consumers shard) = true)

theorem ProducerHears.fullsCovered (hears : ProducerHears size p s after) {seen : Nat}
    (covered : FullsCovered size s p seen) : FullsCovered size after p seen where
  announced := hears.kept.announced.trans covered.announced
  rings shard bound := by
    refine (covered.rings shard bound).carried covered.announced hears.kept
      ⟨fun full => ?_, hears.took shard⟩
    rcases hears.tails shard with same | onWay
    · exact .inl (by rw [MpmcState.full, hears.heads shard, same]; exact full)
    · exact .inr onWay

theorem SendCovered.map {pc : MpmcProducerPc α} (covered : SendCovered size s p pc)
    (rings : ∀ seen, FullsCovered size s p seen → FullsCovered size after p seen)
    (shutdown : (s.producerWaiters p).announced = true →
      SignalCovered s p → SignalCovered after p)
    (live : (s.producerWaiters p).announced = true →
      ConsumersCovered size s p → ConsumersCovered size after p) :
    SendCovered size after p pc := by
  cases pc with
  | waitIdle phase value shard =>
      cases phase with
      | entry => trivial
      | announced => exact rings shard covered
  | waitShutdown phase value =>
      cases phase with
      | entry => trivial
      | announced => exact rings size.n covered
  | waitLive phase value =>
      cases phase with
      | entry => trivial
      | announced => exact ⟨rings size.n covered.1, shutdown covered.1.announced covered.2⟩
  | waitPark value =>
      exact ⟨rings size.n covered.1, shutdown covered.1.announced covered.2.1,
        live covered.1.announced covered.2.2⟩
  | _ => trivial

theorem ProducerHears.stable (hears : ProducerHears size p s after)
    (covered : ProducerCovered size s p) : ProducerCovered size after p := by
  rw [ProducerCovered, hears.producer]
  exact covered.map (fun _ => hears.fullsCovered)
    (fun announced running => running.carried announced hears.kept hears.shutdown)
    (fun announced alive => alive.carried announced hears.kept hears.live)

/-! ### What a producer sees of the others -/

theorem producerHears_producer {here : Nat} {action : MpmcProducerAction α} (other : p ≠ here)
    (taken : s.producerStep size here action = some after) : ProducerHears size p s after := by
  have news := producerStep_news taken
  have frame := producerStep_frame taken
  have rings (shard : Nat) := frame.rings shard p other
  refine ⟨frame.producers p other, .inl (news.producerWaiters p other),
    fun shard => by rw [rings], fun shard => .inl (by rw [rings]), fun shard => ?_, ?_, ?_⟩
  · rw [frame.consumers]
    exact .inl
  · rw [frame.shutdown, frame.signallers]
    exact .refl _ _ _ _
  · rw [frame.liveConsumers, frame.consumers]
    exact .refl _ _ _ _

theorem producerHears_consumer {action : MpmcConsumerAction} (bound : p < size.m)
    (inside : shard < size.n)
    (returns : ∀ frame rest, s.consumers shard = .running (frame :: rest) →
      unwinding frame = false)
    (taken : s.consumerStep size shard action = some after) : ProducerHears size p s after := by
  have news := consumerStep_news returns taken
  have frame := consumerStep_frame taken
  refine ⟨congrFun frame.producers p, news.producerWaiters p, fun here => ?_, fun here => ?_,
    fun here => ?_, ?_, ⟨fun alive => ?_, ?_⟩⟩
  · by_cases same : here = shard
    · rw [same]
      exact news.heads p
    · rw [frame.rings here same]
  · by_cases same : here = shard
    · rw [same]
      exact news.tails p
    · rw [frame.rings here same]
      exact .inl rfl
  · by_cases same : here = shard
    · rw [same]
      exact news.took p
    · rw [frame.consumers here same]
      exact .inl
  · rw [frame.shutdown, frame.signallers]
    exact .refl _ _ _ _
  · by_cases none : after.liveConsumers = 0
    · rcases news.live none with before | leaving
      · exact absurd before alive
      · exact .inr ⟨shard, inside, leaving p⟩
    · exact .inl none
  · rintro ⟨here, hereInside, onWay⟩
    by_cases same : here = shard
    · subst same
      rcases news.left p bound onWay with onWay | woken
      · exact .inl ⟨here, inside, onWay⟩
      · exact .inr woken
    · exact .inl ⟨here, hereInside, by rwa [frame.consumers here same]⟩

theorem producerHears_signaller {k : Nat} {action : MpmcSignalAction} (bound : p < size.m)
    (taken : s.signallerStep size k action = some after) : ProducerHears size p s after := by
  have news := signallerStep_news taken
  have frame := signallerStep_frame taken
  refine ⟨congrFun frame.producers p, news.producerWaiters p, fun shard => by rw [frame.rings],
    fun shard => .inl (by rw [frame.rings]), fun shard => ?_, ⟨fun running => ?_, ?_⟩, ?_⟩
  · rw [frame.consumers]
    exact .inl
  · cases shutdown : after.shutdown with
    | false => exact .inl rfl
    | true =>
        rcases news.shutdown shutdown with before | ⟨-, signalling⟩
        · rw [running] at before
          cases before
        · exact .inr ⟨k, signalling p⟩
  · rintro ⟨other, onWay⟩
    by_cases same : other = k
    · subst same
      rcases news.toProducer p bound onWay with onWay | woken
      · exact .inl ⟨other, onWay⟩
      · exact .inr woken
    · exact .inl ⟨other, by rwa [news.signallers other same]⟩
  · rw [frame.liveConsumers, frame.consumers]
    exact .refl _ _ _ _

/-! ### The producer's own steps -/

/-- The call arrives at a place. -/
theorem producerCovered_at {moved : MpmcState α} {producer : MpmcProducer α}
    (covered : SendCovered size moved p producer.pc) :
    ProducerCovered size (moved.setProducer p producer) p := by
  have pcEq : ((moved.setProducer p producer).producers p).pc = producer.pc := by
    simp [setProducer]
  rw [ProducerCovered, pcEq]
  exact covered.map (fun _ rings => ⟨rings.announced, rings.rings⟩) (fun _ running => running)
    (fun _ live => live)

theorem FullsCovered.next {seen : Nat} (covered : FullsCovered size s p seen)
    (ring : FullCovered size s p seen) : FullsCovered size s p (seen + 1) where
  announced := covered.announced
  rings shard bound := by
    rcases Nat.lt_succ_iff_lt_or_eq.mp bound with before | rfl
    · exact covered.rings shard before
    · exact ring

theorem sendCovered_sendRejected (call : MpmcSendCall) (value : α) :
    SendCovered size s p (sendRejected call value) := by
  cases call <;> trivial

theorem sendCovered_sendWaited_ready (phase : WaitPhase) (value : α) :
    SendCovered size s p (sendWaited phase true value) := by
  cases phase <;> trivial

theorem producerWaiters_setProducerWaiter (s : MpmcState α) (p : Nat) (waiter : Waiter) :
    (s.setProducerWaiter p waiter).producerWaiters p = waiter :=
  Function.update_self ..

theorem producerTick_covered (covered : ProducerCovered size s p)
    (taken : s.producerTick size p = some after) : ProducerCovered size after p := by
  unfold producerTick at taken
  rw [ProducerCovered] at covered
  cases pcEq : (s.producers p).pc with
  | idle | gone => simp [pcEq] at taken
  | loadShutdown call value | loadLive call value =>
      simp only [pcEq] at taken
      split at taken <;> cases taken
      · exact producerCovered_at (sendCovered_sendRejected call value)
      · exact producerCovered_at trivial
  | scan call value start k =>
      simp only [pcEq] at taken
      split at taken
      · split at taken <;> cases taken
        · exact producerCovered_at trivial
        · exact producerCovered_at (sendCovered_sendRejected call value)
      · cases taken
        exact producerCovered_at trivial
  | batchScan items start k =>
      simp only [pcEq] at taken
      split at taken
      · split at taken <;> cases taken <;> exact producerCovered_at trivial
      · cases taken
        exact producerCovered_at trivial
  | batchWrite items shard head left written =>
      simp only [pcEq] at taken
      split at taken
      · cases taken
      · split at taken <;> cases taken <;> exact producerCovered_at trivial
  | sendShutdown value | sendLive value | fetchSub | wakeLast shard =>
      simp only [pcEq] at taken
      split at taken <;> cases taken <;> exact producerCovered_at trivial
  | waitIdle phase value shard =>
      rw [pcEq] at covered
      simp only [pcEq] at taken
      split at taken
      · rename_i full
        cases phase with
        | entry => split at taken <;> cases taken <;> exact producerCovered_at trivial
        | announced =>
            have seen := FullsCovered.next covered (.inl full)
            split at taken <;> cases taken
            · exact producerCovered_at seen
            · exact producerCovered_at
                ⟨seen.announced, fun here bound => seen.rings here (by omega)⟩
      · cases taken
        exact producerCovered_at (sendCovered_sendWaited_ready phase value)
  | waitShutdown phase value =>
      rw [pcEq] at covered
      simp only [pcEq] at taken
      split at taken
      · cases taken
        exact producerCovered_at (sendCovered_sendWaited_ready phase value)
      · rename_i running
        cases taken
        cases phase with
        | entry => exact producerCovered_at trivial
        | announced => exact producerCovered_at ⟨covered, .inl (Bool.eq_false_iff.mpr running)⟩
  | waitLive phase value =>
      rw [pcEq] at covered
      simp only [pcEq, Option.some.injEq] at taken
      subst taken
      by_cases none : s.liveConsumers = 0
      · refine producerCovered_at ?_
        rw [decide_eq_true none]
        exact sendCovered_sendWaited_ready phase value
      · refine producerCovered_at ?_
        rw [decide_eq_false none]
        cases phase with
        | entry => trivial
        | announced => exact ⟨covered.1, covered.2, .inl none⟩
  | waitAnnounce value =>
      simp only [pcEq, Option.some.injEq] at taken
      subst taken
      refine producerCovered_at ⟨?_, fun shard never => absurd never (Nat.not_lt_zero shard)⟩
      rw [producerWaiters_setProducerWaiter]
      rfl
  | waitPark value =>
      rw [pcEq] at covered
      simp only [pcEq] at taken
      split at taken <;> cases taken
      refine producerCovered_at ⟨?_, fun shard never => absurd never (Nat.not_lt_zero shard)⟩
      rw [producerWaiters_setProducerWaiter]
      exact covered.1.announced
  | _ =>
      simp only [pcEq, Option.some.injEq] at taken
      subst taken
      exact producerCovered_at trivial

theorem producerStep_covered {action : MpmcProducerAction α} (covered : ProducerCovered size s p)
    (taken : s.producerStep size p action = some after) : ProducerCovered size after p := by
  cases action with
  | tick => exact producerTick_covered covered taken
  | trySendBatch items =>
      simp only [producerStep] at taken
      split at taken
      · split at taken <;> cases taken <;> exact producerCovered_at trivial
      · cases taken
  | spurious =>
      simp only [producerStep] at taken
      split at taken
      · rename_i value pcEq
        rw [ProducerCovered, pcEq] at covered
        cases taken
        exact producerCovered_at
          ⟨covered.1.announced, fun shard never => absurd never (Nat.not_lt_zero shard)⟩
      · cases taken
  | trySend value | send value | drop | spin =>
      simp only [producerStep] at taken
      split at taken <;> cases taken
      exact producerCovered_at trivial

/-! ### Nobody is stranded -/

/-- The shard's consumer sleeps in a blocking receive with no wake pending. -/
structure ConsumerAsleep (s : MpmcState α) (shard : Nat) : Prop where
  parked : ∃ call, s.consumers shard = .running [.waitPark call]
  noWake : (s.consumerWaiters shard).token = false

/-- Producer `p` sleeps in `send` with no wake pending. -/
structure ProducerAsleep (s : MpmcState α) (p : Nat) : Prop where
  parked : ∃ value, (s.producers p).pc = .waitPark value
  noWake : (s.producerWaiters p).token = false

/-- For every cause a sleeping party waits for, a party that brought it about is still
on its way to the wake. -/
structure NobodyStranded (size : MpmcSize) (s : MpmcState α) : Prop where
  item : ∀ shard < size.n, ConsumerAsleep s shard → ∀ p < size.m,
    (s.rings shard p).head ≠ (s.rings shard p).tail →
      publishing shard (s.producers p).pc = true
  consumerShutdown : ∀ shard < size.n, ConsumerAsleep s shard → s.shutdown = true →
    ∃ k, signallingConsumer shard (s.signallers k) = true
  lastProducer : ∀ shard < size.n, ConsumerAsleep s shard → s.liveProducers = 0 →
    ∃ p < size.m, lastLeaving shard (s.producers p).pc = true
  room : ∀ p < size.m, ProducerAsleep s p → ∀ shard < size.n, s.full size shard p = false →
    taking p (s.consumers shard) = true
  producerShutdown : ∀ p < size.m, ProducerAsleep s p → s.shutdown = true →
    ∃ k, signallingProducer p (s.signallers k) = true
  lastConsumer : ∀ p < size.m, ProducerAsleep s p → s.liveConsumers = 0 →
    ∃ shard < size.n, lastDropping p (s.consumers shard) = true

/-- Every waiting party relies on what it has looked at. -/
structure AllCovered (size : MpmcSize) (s : MpmcState α) : Prop where
  consumers : ∀ shard < size.n, ConsumerCovered size s shard
  producers : ∀ p < size.m, ProducerCovered size s p

theorem AllCovered.nobodyStranded (covered : AllCovered size s) : NobodyStranded size s := by
  have consumer (shard : Nat) (inside : shard < size.n) (asleep : ConsumerAsleep s shard) :
      RingsCovered s shard size.m ∧ ShutdownCovered s shard ∧ ProducersCovered size s shard := by
    obtain ⟨call, pcEq⟩ := asleep.parked
    exact covered.consumers shard inside _ _ pcEq
  have producer (p : Nat) (bound : p < size.m) (asleep : ProducerAsleep s p) :
      FullsCovered size s p size.n ∧ SignalCovered s p ∧ ConsumersCovered size s p := by
    obtain ⟨value, pcEq⟩ := asleep.parked
    have here := covered.producers p bound
    rw [ProducerCovered, pcEq] at here
    exact here
  constructor
  · intro shard inside asleep p bound item
    have rings := (consumer shard inside asleep).1
    exact (rings.rings p bound).of_cause asleep.noWake item
  · intro shard inside asleep shutdown
    have running := (consumer shard inside asleep).2.1
    exact running.of_cause asleep.noWake (by simp [shutdown])
  · intro shard inside asleep none
    have alive := (consumer shard inside asleep).2.2
    exact alive.of_cause asleep.noWake (not_not_intro none)
  · intro p bound asleep shard inside room
    have fulls := (producer p bound asleep).1
    exact (fulls.rings shard inside).of_cause asleep.noWake (by simp [room])
  · intro p bound asleep shutdown
    have running := (producer p bound asleep).2.1
    exact running.of_cause asleep.noWake (by simp [shutdown])
  · intro p bound asleep none
    have alive := (producer p bound asleep).2.2
    exact alive.of_cause asleep.noWake (not_not_intro none)

theorem allCovered (reached : (plain size).Reachable s) : AllCovered size s := by
  refine reached.invariant (AllCovered size) ?base ?preserved
  case base =>
    rintro _ rfl
    constructor
    · rintro shard - frame rest ⟨⟩
    · intro p _
      trivial
  case preserved =>
    rintro before action after reached covered ⟨plain, taken⟩
    cases action with
    | producer p action =>
        obtain ⟨bound, taken⟩ := producer_of_step taken
        constructor
        · intro shard inside
          exact (consumerHears_producer bound inside taken).stable (covered.consumers shard inside)
        · intro q qBound
          by_cases same : q = p
          · subst same
            exact producerStep_covered (covered.producers q qBound) taken
          · exact (producerHears_producer same taken).stable (covered.producers q qBound)
    | consumer here action =>
        obtain ⟨hereInside, taken⟩ := consumer_of_step taken
        have own := covered.consumers here hereInside
        constructor
        · intro shard inside
          by_cases same : shard = here
          · subst same
            exact consumerStep_covered plain
              (length_frames_of_flat (flat_of_plain reached) shard) own taken
          · exact (consumerHears_consumer own same taken).stable
              (covered.consumers shard inside)
        · intro p bound
          exact (producerHears_consumer bound hereInside (returns_of_covered own) taken).stable
            (covered.producers p bound)
    | signaller k action =>
        constructor
        · intro shard inside
          exact (consumerHears_signaller inside taken).stable (covered.consumers shard inside)
        · intro p bound
          exact (producerHears_signaller bound taken).stable (covered.producers p bound)

/-- Whatever the interleaving, a party that sleeps with no wake pending has nothing to
go on for, or a party that changed that is still on its way to the wake. -/
theorem plain_nobodyStranded (reached : (plain size).Reachable s) : NobodyStranded size s :=
  (allCovered reached).nobodyStranded

/-- The first shard's consumer sleeps in `recv` while the producer has published and
stands in front of the wake. -/
def publishedBeforeWake : List (MpmcAction Nat) :=
  [MpmcAction.consumer 0 .recv] ++ consumerTicks 0 13 ++ [MpmcAction.producer 0 (.trySend 5)] ++
    producerTicks 5

theorem plain_nobodyStranded_publishedBeforeWake :
    ∃ s : MpmcState Nat, (plain twoShards).Reachable s ∧ ConsumerAsleep s 0 ∧
      (s.rings 0 0).head ≠ (s.rings 0 0).tail ∧ NobodyStranded twoShards s := by
  have ran : (Transition.execute (Transition.guardedStep
      (fun s (action : MpmcAction Nat) => s.plainAction action = true)
      fun s action => s.step twoShards action) (new twoShards) publishedBeforeWake).map
        (fun s => (s.consumers 0, (s.consumerWaiters 0).token, (s.rings 0 0).head,
          (s.rings 0 0).tail)) = some (.running [.waitPark .recv], false, 1, 0) := by
    rfl
  obtain ⟨s, ran, seen⟩ := Option.map_eq_some_iff.mp ran
  obtain ⟨parked, noWake, head, tail⟩ := by simpa only [Prod.mk.injEq] using seen
  have reached : (plain twoShards).Reachable s := System.reachable_of_guarded_execute rfl ran
  refine ⟨s, reached, ⟨⟨_, parked⟩, noWake⟩, ?_, plain_nobodyStranded reached⟩
  rw [head, tail]
  decide

end MpmcState

end ArbitroKit
