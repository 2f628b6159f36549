import ArbitroKit.RingDelivery

/-!
# The consumer's side of a disconnect

`Closed` is the consumer's last word: it is said only when the producer's drop
has stored `closed` and the head that the recheck reads is the final one, so
nothing can come after it.  `Empty` is said about the head that the refresh read.
-/

namespace ArbitroKit

open Coherent SlotLane Cyclic Transition

namespace RingState

variable {α : Type*} {cap : Cap} {s after : RingState α}

/-! ### Who stores `closed` -/

/-- The consumer's half is being dropped, or is gone. -/
def halfDropped : ConsumerPc α → Bool
  | .dropWakeFull => true
  | .dropWakeEmpty => true
  | .gone => true
  | _ => false

/-- The producer's half is being dropped, or is gone. -/
def producerDropped : ProducerPc α → Bool
  | .dropWakeFull => true
  | .dropWakeEmpty => true
  | .gone => true
  | _ => false

theorem closed_of_producerTick {index : Nat}
    (taken : s.producerTick cap index = some after) :
    after.shared.closed = s.shared.closed ∧ after.consumer = s.consumer := by
  unfold producerTick at taken
  cases pcEq : s.producer.pc with
  | idle | gone => simp [pcEq] at taken
  | sendRefresh call value head | waitTail phase value head =>
      simp only [pcEq] at taken
      obtain ⟨⟨tail, loadedState⟩, loaded, rfl⟩ := Option.map_eq_some_iff.mp taken
      obtain ⟨-, rfl⟩ := loadTail_eq_some loaded
      dsimp only
      split <;> exact ⟨rfl, rfl⟩
  | bulkRefresh items head =>
      simp only [pcEq] at taken
      obtain ⟨⟨tail, loadedState⟩, loaded, rfl⟩ := Option.map_eq_some_iff.mp taken
      obtain ⟨-, rfl⟩ := loadTail_eq_some loaded
      exact ⟨rfl, rfl⟩
  | bulkWrite items head left written =>
      simp only [pcEq] at taken
      split at taken
      · cases taken
      · split at taken <;> cases taken <;> exact ⟨rfl, rfl⟩
  | sendRetry value =>
      simp only [pcEq, Option.some.injEq] at taken
      subst taken
      unfold trySendStart
      dsimp only
      split <;> exact ⟨rfl, rfl⟩
  | waitPark value =>
      simp only [pcEq] at taken
      split at taken <;> cases taken
      exact ⟨rfl, rfl⟩
  | _ =>
      simp only [pcEq, Option.some.injEq] at taken
      subst taken
      exact ⟨rfl, rfl⟩

theorem closed_of_producerStep {action : ProducerAction α}
    (taken : s.producerStep cap action = some after) :
    (s.shared.closed = true → after.shared.closed = true) ∧ after.consumer = s.consumer := by
  cases action with
  | tick index =>
      obtain ⟨same, consumer⟩ := closed_of_producerTick taken
      exact ⟨fun closed => same.trans closed, consumer⟩
  | trySend value | send value =>
      simp only [producerStep] at taken
      split at taken <;> cases taken
      unfold trySendStart
      dsimp only
      split <;> exact ⟨id, rfl⟩
  | trySendBulk items =>
      simp only [producerStep] at taken
      split at taken
      · split at taken
        · cases taken
          exact ⟨id, rfl⟩
        · split at taken <;> cases taken <;> exact ⟨id, rfl⟩
      · cases taken
  | drop =>
      simp only [producerStep] at taken
      split at taken <;> cases taken
      exact ⟨fun _ => rfl, rfl⟩
  | spin | spurious =>
      simp only [producerStep] at taken
      split at taken <;> cases taken
      exact ⟨id, rfl⟩

theorem closed_of_consumerTick {index : Nat}
    (taken : s.consumerTick cap index = some after) :
    after.shared.closed = s.shared.closed := by
  unfold consumerTick at taken
  cases pcEq : s.consumer.pc with
  | idle | gone | undefined => simp [pcEq] at taken
  | recvRefresh call tail | drainLoad start | recvRecheck call tail =>
      simp only [pcEq] at taken
      obtain ⟨⟨head, loadedState⟩, loaded, rfl⟩ := Option.map_eq_some_iff.mp taken
      obtain ⟨-, rfl⟩ := loadHead_eq_some loaded
      dsimp only
      split <;> rfl
  | waitHead phase =>
      simp only [pcEq] at taken
      obtain ⟨⟨head, loadedState⟩, loaded, rfl⟩ := Option.map_eq_some_iff.mp taken
      obtain ⟨-, rfl⟩ := loadHead_eq_some loaded
      rfl
  | recvClosed call tail | drainCallback start head tail value | waitTail phase head
  | waitPark =>
      simp only [pcEq] at taken
      split at taken <;> cases taken <;> rfl
  | recvRead call tail | drainRead start head tail =>
      simp only [pcEq, Option.some.injEq] at taken
      subst taken
      unfold readSlot
      dsimp only
      split <;> rfl
  | recvRetry =>
      simp only [pcEq, Option.some.injEq] at taken
      subst taken
      unfold tryRecvStart
      dsimp only
      split <;> rfl
  | _ =>
      simp only [pcEq, Option.some.injEq] at taken
      subst taken
      rfl

theorem closed_of_consumerStep {action : ConsumerAction}
    (taken : s.consumerStep cap action = some after) (closed : s.shared.closed = true) :
    after.shared.closed = true := by
  cases action with
  | tick index => exact (closed_of_consumerTick taken).trans closed
  | tryRecv | recv =>
      simp only [consumerStep] at taken
      split at taken <;> cases taken
      all_goals
        unfold tryRecvStart
        dsimp only
        split <;> exact closed
  | drop =>
      simp only [consumerStep] at taken
      split at taken <;> cases taken
      rfl
  | drain | panic | spin | spurious =>
      simp only [consumerStep] at taken
      split at taken <;> cases taken
      exact closed

/-- The producer's drop stores no cursor and no slot. -/
theorem producerDropped_step {action : ProducerAction α}
    (dropped : producerDropped s.producer.pc = true)
    (taken : s.producerStep cap action = some after) :
    producerDropped after.producer.pc = true ∧ after.shared.head = s.shared.head ∧
      after.shared.tail = s.shared.tail ∧ after.shared.lane = s.shared.lane := by
  cases action with
  | tick index =>
      simp only [producerStep] at taken
      unfold producerTick at taken
      cases pcEq : s.producer.pc with
      | dropWakeFull | dropWakeEmpty =>
          simp only [pcEq, Option.some.injEq] at taken
          subst taken
          exact ⟨rfl, rfl, rfl, rfl⟩
      | gone => simp [pcEq] at taken
      | _ => simp [pcEq, producerDropped] at dropped
  | _ =>
      simp only [producerStep] at taken
      split at taken
      · rename_i pcEq
        simp [pcEq, producerDropped] at dropped
      · cases taken

/-- Only a drop stores `closed`. -/
theorem closedOnlyByProducer {action : ProducerAction α}
    (taken : s.producerStep cap action = some after) :
    after.shared.closed = s.shared.closed ∨ producerDropped after.producer.pc = true := by
  cases action with
  | tick index => exact .inl (closed_of_producerTick taken).1
  | trySend value | send value =>
      simp only [producerStep] at taken
      split at taken <;> cases taken
      unfold trySendStart
      dsimp only
      split <;> exact .inl rfl
  | trySendBulk items =>
      simp only [producerStep] at taken
      split at taken
      · split at taken
        · cases taken
          exact .inl rfl
        · split at taken <;> cases taken <;> exact .inl rfl
      · cases taken
  | drop =>
      simp only [producerStep] at taken
      split at taken <;> cases taken
      exact .inr rfl
  | spin | spurious =>
      simp only [producerStep] at taken
      split at taken <;> cases taken
      exact .inl rfl

/-! ### How a receive that finds nothing comes to its answer -/

/-- What a receive tells its caller is that the ring is closed for good. -/
def saidClosed : ConsumerPc α → Bool
  | .returned (.tryRecv (.error .closed)) => true
  | .returned (.recv none) => true
  | _ => false

/-- What a `try_recv` tells its caller is that there is nothing right now. -/
def saidEmpty : ConsumerPc α → Bool
  | .returned (.tryRecv (.error .empty)) => true
  | _ => false

/-- The receive has found nothing and is about to look at `closed` or has looked. -/
def deciding : ConsumerPc α → Bool
  | .recvClosed _ _ => true
  | .recvRecheck _ _ => true
  | pc => saidClosed pc || saidEmpty pc

theorem deciding_of_saidClosed {pc : ConsumerPc α} (said : saidClosed pc = true) :
    deciding pc = true := by
  revert said
  unfold deciding
  split <;> simp_all

theorem deciding_of_saidEmpty {pc : ConsumerPc α} (said : saidEmpty pc = true) :
    deciding pc = true := by
  revert said
  unfold deciding
  split <;> simp_all

/-- The steps of a receive that finds nothing. -/
inductive Decides (s : RingState α) : ConsumerAction → RingState α → Prop
  | refreshed (call : RecvCall) (tail : Usize) (index : Nat)
      (here : s.consumer.pc = .recvRefresh call tail)
      (read : s.shared.head.load s.consumer.headView index = some tail) :
      Decides s (.tick index)
        { s with consumer :=
          { s.consumer with headView := index, cachedHead := tail, pc := .recvClosed call tail } }
  | sawClosed (call : RecvCall) (tail : Usize) (index : Nat)
      (here : s.consumer.pc = .recvClosed call tail) (closed : s.shared.closed = true) :
      Decides s (.tick index) (s.seeHead.consumerAt (.recvRecheck call tail))
  | sawOpen (call : RecvCall) (tail : Usize) (index : Nat)
      (here : s.consumer.pc = .recvClosed call tail) (alive : s.shared.closed = false) :
      Decides s (.tick index) (s.consumerAt (recvFailed call .empty))
  | rechecked (call : RecvCall) (tail : Usize) (index : Nat)
      (here : s.consumer.pc = .recvRecheck call tail)
      (read : s.shared.head.load s.consumer.headView index = some tail) :
      Decides s (.tick index)
        { s with consumer :=
          { s.consumer with
            headView := index, cachedHead := tail, pc := recvFailed call .closed } }

theorem deciding_tryRecvStart (s : RingState α) (call : RecvCall) :
    deciding (s.tryRecvStart call).consumer.pc = false := by
  unfold tryRecvStart
  dsimp only
  split <;> rfl

theorem deciding_readSlot (s : RingState α) (index : Nat) {next : α → ConsumerPc α}
    (further : ∀ value, deciding (next value) = false) :
    deciding (s.readSlot index next).consumer.pc = false := by
  unfold readSlot
  dsimp only
  split
  · exact further _
  · rfl

/-- No other step leads to such a place. -/
theorem decides_of_consumerTick {index : Nat}
    (taken : s.consumerTick cap index = some after) :
    deciding after.consumer.pc = false ∨ Decides s (.tick index) after := by
  unfold consumerTick at taken
  cases pcEq : s.consumer.pc with
  | idle | gone | undefined => simp [pcEq] at taken
  | recvRefresh call tail =>
      simp only [pcEq] at taken
      obtain ⟨⟨head, loadedState⟩, loaded, rfl⟩ := Option.map_eq_some_iff.mp taken
      obtain ⟨read, rfl⟩ := loadHead_eq_some loaded
      dsimp only
      split
      · rename_i same
        subst same
        exact .inr (.refreshed call head index pcEq read)
      · exact .inl rfl
  | recvClosed call tail =>
      simp only [pcEq] at taken
      split at taken
      · rename_i closed
        cases taken
        exact .inr (.sawClosed call tail index pcEq closed)
      · rename_i alive
        cases taken
        exact .inr (.sawOpen call tail index pcEq (eq_false_of_ne_true alive))
  | recvRecheck call tail =>
      simp only [pcEq] at taken
      obtain ⟨⟨head, loadedState⟩, loaded, rfl⟩ := Option.map_eq_some_iff.mp taken
      obtain ⟨read, rfl⟩ := loadHead_eq_some loaded
      dsimp only
      split
      · rename_i same
        subst same
        exact .inr (.rechecked call head index pcEq read)
      · exact .inl rfl
  | drainLoad start =>
      simp only [pcEq] at taken
      obtain ⟨⟨head, loadedState⟩, loaded, rfl⟩ := Option.map_eq_some_iff.mp taken
      dsimp only
      split <;> exact .inl rfl
  | waitHead phase =>
      simp only [pcEq] at taken
      obtain ⟨⟨head, loadedState⟩, loaded, rfl⟩ := Option.map_eq_some_iff.mp taken
      exact .inl rfl
  | recvRead call tail =>
      simp only [pcEq, Option.some.injEq] at taken
      subst taken
      exact .inl (deciding_readSlot s _ fun _ => rfl)
  | drainRead start head tail =>
      simp only [pcEq, Option.some.injEq] at taken
      subst taken
      exact .inl (deciding_readSlot s _ fun _ => rfl)
  | drainCallback start head tail value | waitPark =>
      simp only [pcEq] at taken
      split at taken <;> cases taken <;> exact .inl rfl
  | waitTail phase head =>
      simp only [pcEq] at taken
      split at taken <;> cases taken
      · exact .inl rfl
      · cases phase <;> exact .inl rfl
  | waitClosed phase =>
      simp only [pcEq, Option.some.injEq] at taken
      subst taken
      cases phase <;> cases closed : s.shared.closed <;> exact .inl rfl
  | recvRetry =>
      simp only [pcEq, Option.some.injEq] at taken
      subst taken
      exact .inl (deciding_tryRecvStart s .recv)
  | recvWake call value =>
      simp only [pcEq, Option.some.injEq] at taken
      subst taken
      cases call <;> exact .inl rfl
  | _ =>
      simp only [pcEq, Option.some.injEq] at taken
      subst taken
      exact .inl rfl

theorem decides_of_consumerStep {action : ConsumerAction}
    (taken : s.consumerStep cap action = some after) :
    deciding after.consumer.pc = false ∨ Decides s action after := by
  cases action with
  | tick index => exact decides_of_consumerTick taken
  | tryRecv | recv =>
      simp only [consumerStep] at taken
      split at taken <;> cases taken
      exact .inl (deciding_tryRecvStart s _)
  | _ =>
      simp only [consumerStep] at taken
      split at taken <;> cases taken
      exact .inl rfl

/-! ### The disconnect -/

/-- Only the consumer's own drop stores `closed` on its side. -/
theorem closedOnlyByConsumer {action : ConsumerAction}
    (taken : s.consumerStep cap action = some after) :
    after.shared.closed = s.shared.closed ∨ halfDropped after.consumer.pc = true := by
  cases action with
  | tick index => exact .inl (closed_of_consumerTick taken)
  | tryRecv | recv =>
      simp only [consumerStep] at taken
      split at taken <;> cases taken
      all_goals
        unfold tryRecvStart
        dsimp only
        split <;> exact .inl rfl
  | drop =>
      simp only [consumerStep] at taken
      split at taken <;> cases taken
      exact .inr rfl
  | _ =>
      simp only [consumerStep] at taken
      split at taken <;> cases taken
      exact .inl rfl

/-- The consumer's drop stores no cursor. -/
theorem halfDropped_step {action : ConsumerAction}
    (dropped : halfDropped s.consumer.pc = true)
    (taken : s.consumerStep cap action = some after) :
    halfDropped after.consumer.pc = true ∧ after.shared.head = s.shared.head ∧
      after.shared.tail = s.shared.tail ∧ after.producer = s.producer := by
  cases action with
  | tick index =>
      simp only [consumerStep] at taken
      unfold consumerTick at taken
      cases pcEq : s.consumer.pc with
      | dropWakeFull | dropWakeEmpty =>
          simp only [pcEq, Option.some.injEq] at taken
          subst taken
          exact ⟨rfl, rfl, rfl, rfl⟩
      | gone => simp [pcEq] at taken
      | _ => simp [pcEq, halfDropped] at dropped
  | _ =>
      simp only [consumerStep] at taken
      split at taken
      · rename_i pcEq
        simp [pcEq, halfDropped] at dropped
      · cases taken

/-- Where the consumer can be once it has been told that the ring is closed. -/
def settled : ConsumerPc α → Bool
  | .idle => true
  | .recvRefresh _ _ => true
  | .recvClosed _ _ => true
  | .recvRecheck _ _ => true
  | .drainLoad _ => true
  | .returned (.drain consumed) => consumed == 0
  | pc => saidClosed pc || halfDropped pc

/-- The producer is gone for good and nothing is left in the ring. -/
structure Finished (s : RingState α) : Prop where
  dropped : producerDropped s.producer.pc = true
  closed : s.shared.closed = true
  drained : s.shared.lane.published = s.shared.lane.released
  settled : settled s.consumer.pc = true

/-- What holds of the two handles around `closed`. -/
structure Disconnect (s : RingState α) : Prop where
  closedBy : s.shared.closed = true →
    producerDropped s.producer.pc = true ∨ halfDropped s.consumer.pc = true
  rechecks : ∀ call tail, s.consumer.pc = .recvRecheck call tail →
    s.shared.closed = true ∧ s.consumer.headView = s.shared.head.latest
  said : saidClosed s.consumer.pc = true → Finished s

theorem Finished.producer_step {action : ProducerAction α} (finished : Finished s)
    (taken : s.producerStep cap action = some after) : Finished after := by
  obtain ⟨closed, consumer⟩ := closed_of_producerStep taken
  obtain ⟨dropped, -, -, lane⟩ := producerDropped_step finished.dropped taken
  constructor
  · exact dropped
  · exact closed finished.closed
  · rw [lane]
    exact finished.drained
  · rw [consumer]
    exact finished.settled

/-- Every count the consumer knows of a finished ring is the number of released values. -/
theorem ConsumerFacts.known_eq {known fresh : Nat}
    (facts : ConsumerFacts s.shared s.consumer known fresh)
    (drained : s.shared.lane.published = s.shared.lane.released)
    (le : s.shared.lane.released ≤ known) :
    known = s.shared.lane.released ∧ fresh = s.shared.lane.released := by
  have known_le := facts.known_le
  have fresh_le := facts.fresh_le
  omega

theorem Finished.tryRecvStart (finished : Finished s) (shared : SharedOk cap s.shared)
    {known fresh : Nat} (facts : ConsumerFacts s.shared s.consumer known fresh)
    (le : s.shared.lane.released ≤ known) (call : RecvCall) :
    Finished (s.tryRecvStart call) := by
  have same : s.consumer.cachedHead = s.shared.tail.current := by
    rw [facts.cached, shared.tail, (facts.known_eq finished.drained le).1]
  have start : s.tryRecvStart call =
      s.consumerAt (.recvRefresh call s.shared.tail.current) := by
    unfold RingState.tryRecvStart
    exact if_pos same
  rw [start]
  exact ⟨finished.dropped, finished.closed, finished.drained, rfl⟩

/-- A load of `head` on a finished ring shows nothing new. -/
theorem Finished.load (finished : Finished s) {known fresh : Nat}
    (facts : ConsumerFacts s.shared s.consumer known fresh)
    (le : s.shared.lane.released ≤ known) {index : Nat} {head : Usize}
    (read : s.shared.head.load s.consumer.headView index = some head) :
    head = BitVec.ofNat 64 s.shared.lane.released := by
  obtain ⟨count, fresh_le, le_published, rfl, -⟩ := facts.load read
  have known_le := facts.known_le
  have drained := finished.drained
  congr 1
  omega

theorem Finished.consumer_tick (finished : Finished s) (consumer : ConsumerOk s)
    {index : Nat} (taken : s.consumerTick cap index = some after) : Finished after := by
  obtain ⟨known, fresh, facts⟩ := consumer
  have here := facts.here
  have settled := finished.settled
  unfold consumerTick at taken
  cases pcEq : s.consumer.pc with
  | idle | gone => simp [pcEq] at taken
  | recvRefresh call tail | recvRecheck call tail =>
      simp only [pcEq] at taken here
      obtain ⟨⟨head, loadedState⟩, loaded, rfl⟩ := Option.map_eq_some_iff.mp taken
      obtain ⟨read, rfl⟩ := loadHead_eq_some loaded
      obtain ⟨allReleased, releasedLe, rfl⟩ := here
      obtain rfl := finished.load facts releasedLe read
      dsimp only
      rw [if_pos rfl]
      cases call <;> exact ⟨finished.dropped, finished.closed, finished.drained, rfl⟩
  | recvClosed call tail =>
      simp only [pcEq, finished.closed, if_true, Option.some.injEq] at taken
      subst taken
      exact ⟨finished.dropped, finished.closed, finished.drained, rfl⟩
  | drainLoad start =>
      simp only [pcEq] at taken here
      obtain ⟨⟨head, loadedState⟩, loaded, rfl⟩ := Option.map_eq_some_iff.mp taken
      obtain ⟨read, rfl⟩ := loadHead_eq_some loaded
      obtain ⟨allReleased, releasedLe, rfl⟩ := here
      obtain rfl := finished.load facts releasedLe read
      dsimp only
      rw [if_pos rfl]
      exact ⟨finished.dropped, finished.closed, finished.drained, rfl⟩
  | dropWakeFull | dropWakeEmpty | returned outcome =>
      simp only [pcEq, Option.some.injEq] at taken
      subst taken
      exact ⟨finished.dropped, finished.closed, finished.drained, rfl⟩
  | _ => simp [pcEq, RingState.settled, saidClosed, halfDropped] at settled

/-- A finished ring stays finished. -/
theorem Finished.consumer_step (finished : Finished s) (shared : SharedOk cap s.shared)
    (consumer : ConsumerOk s) {action : ConsumerAction}
    (taken : s.consumerStep cap action = some after) : Finished after := by
  have settled := finished.settled
  cases action with
  | tick index => exact finished.consumer_tick consumer taken
  | tryRecv | recv =>
      simp only [consumerStep] at taken
      split at taken
      · rename_i pcEq
        cases taken
        obtain ⟨known, fresh, facts⟩ := consumer
        have here := facts.here
        rw [pcEq] at here
        exact finished.tryRecvStart shared facts here.2 _
      · cases taken
  | drain | drop =>
      simp only [consumerStep] at taken
      split at taken <;> cases taken
      first
        | exact ⟨finished.dropped, finished.closed, finished.drained, rfl⟩
        | exact ⟨finished.dropped, rfl, finished.drained, rfl⟩
  | panic | spin | spurious =>
      simp only [consumerStep] at taken
      split at taken
      · rename_i pcEq
        simp [pcEq, RingState.settled, saidClosed, halfDropped] at settled
      · cases taken

theorem Disconnect.producer_step {action : ProducerAction α} (ok : Disconnect s)
    (taken : s.producerStep cap action = some after) : Disconnect after := by
  obtain ⟨closed, consumer⟩ := closed_of_producerStep taken
  constructor
  · intro closedAfter
    rw [consumer]
    rcases closedOnlyByProducer taken with same | dropped
    · rw [same] at closedAfter
      rcases ok.closedBy closedAfter with dropped | left
      · exact .inl (producerDropped_step dropped taken).1
      · exact .inr left
    · exact .inl dropped
  · intro call tail here
    rw [consumer] at here ⊢
    obtain ⟨closedBefore, seen⟩ := ok.rechecks call tail here
    have dropped : producerDropped s.producer.pc = true := by
      apply (ok.closedBy closedBefore).resolve_right
      simp [here, halfDropped]
    rw [(producerDropped_step dropped taken).2.1]
    exact ⟨closed closedBefore, seen⟩
  · intro said
    rw [consumer] at said
    exact (ok.said said).producer_step taken

/-- The recheck reads the final head: what it finds empty is empty for good. -/
theorem Disconnect.finishes (ok : Disconnect s) (shared : SharedOk cap s.shared)
    (consumer : ConsumerOk s) {call : RecvCall} {tail : Usize} {index : Nat}
    (here : s.consumer.pc = .recvRecheck call tail)
    (read : s.shared.head.load s.consumer.headView index = some tail) :
    Finished
      { s with consumer :=
        { s.consumer with
          headView := index, cachedHead := tail, pc := recvFailed call .closed } } := by
  obtain ⟨closed, seen⟩ := ok.rechecks call tail here
  obtain ⟨known, fresh, facts⟩ := consumer
  have at_tail := facts.here
  rw [here] at at_tail
  obtain ⟨-, releasedLe, tailEq⟩ := at_tail
  have known_le := facts.known_le.trans facts.fresh_le
  rw [seen] at read
  have final : BitVec.ofNat 64 s.shared.lane.published =
      BitVec.ofNat 64 s.shared.lane.released := by
    rw [← shared.head, ← tailEq]
    exact (Location.load_from_latest read).symm
  constructor
  · apply (ok.closedBy closed).resolve_right
    simp [here, halfDropped]
  · exact closed
  · exact (shared.ofNat_inj le_rfl (releasedLe.trans known_le) le_rfl).mp final
  · cases call <;> rfl

theorem Disconnect.consumer_step {action : ConsumerAction} (ok : Disconnect s)
    (shared : SharedOk cap s.shared) (consumer : ConsumerOk s)
    (producer : after.producer = s.producer)
    (taken : s.consumerStep cap action = some after) : Disconnect after := by
  constructor
  · intro closedAfter
    rw [producer]
    rcases closedOnlyByConsumer taken with same | left
    · rw [same] at closedAfter
      rcases ok.closedBy closedAfter with dropped | left
      · exact .inl dropped
      · exact .inr (halfDropped_step left taken).1
    · exact .inr left
  · intro call tail here
    rcases decides_of_consumerStep taken with elsewhere | decides
    · rw [here] at elsewhere
      cases elsewhere
    · cases decides with
      | refreshed _ _ _ _ _ => cases here
      | sawClosed _ _ _ _ closed => exact ⟨closed, rfl⟩
      | sawOpen call' _ _ _ _ => cases call' <;> cases here
      | rechecked call' _ _ _ _ => cases call' <;> cases here
  · intro said
    rcases decides_of_consumerStep taken with elsewhere | decides
    · rw [deciding_of_saidClosed said] at elsewhere
      cases elsewhere
    · cases decides with
      | refreshed _ _ _ _ _ => cases said
      | sawClosed _ _ _ _ _ => cases said
      | sawOpen call _ _ _ _ => cases call <;> cases said
      | rechecked _ _ _ here read => exact ok.finishes shared consumer here read

theorem disconnect_of_withinCache (reached : (withinCache cap).Reachable s) :
    Disconnect s := by
  apply reached.invariant Disconnect
  · rintro _ rfl
    exact ⟨fun closed => (by cases closed), fun _ _ here => (by cases here),
      fun said => (by cases said)⟩
  · intro before action after reached ok taken
    obtain ⟨shared, -, consumer⟩ := invariant reached
    obtain ⟨within, taken⟩ := taken
    cases action with
    | producer action => exact ok.producer_step taken
    | consumer action =>
        obtain ⟨-, -, rely⟩ := RingState.consumer_step shared consumer within taken
        exact ok.consumer_step shared consumer rely.producer taken

/-- On a finished ring everything the producer had accepted has been delivered. -/
theorem Finished.complete (finished : Finished s) (shared : SharedOk cap s.shared)
    (producer : ProducerOk cap s) (consumer : ConsumerOk s)
    (said : saidClosed s.consumer.pc = true) :
    s.consumer.delivered = s.producer.accepted := by
  have received := consumer.received_eq
  have sent := producer.sent_eq
  have none_unreported : unreported s.producer.pc = [] := by
    have dropped := finished.dropped
    unfold producerDropped at dropped
    split at dropped <;> simp_all [unreported]
  have none_undelivered : undelivered s.consumer.pc = [] := by
    unfold saidClosed at said
    split at said <;> simp_all [undelivered, handedOut]
  rw [none_undelivered, List.append_nil] at received
  rw [none_unreported, List.append_nil] at sent
  rw [← received, ← sent, shared.sound.received_eq, Lane.sent]
  have released_le := shared.sound.released_le
  have received_le := shared.sound.received_le
  have drained := finished.drained
  congr 1
  omega

/-! ### What the refresh saw -/

/-- What the ring was when a receive last refreshed its cached head: the word it read,
whether that was the newest one, the values published and delivered, the flag. -/
structure Refresh (α : Type*) where
  head : Usize
  newest : Bool
  published : List α
  delivered : List α
  closed : Bool

/-- A ring together with a record of the consumer's last refresh. -/
structure Watched (α : Type*) where
  ring : RingState α
  refresh : Option (Refresh α)

/-- The refresh a step makes, if it makes one. -/
def refreshOf (before after : RingState α) : RingAction α → Option (Refresh α)
  | .consumer (.tick index) =>
      match before.consumer.pc with
      | .recvRefresh _ _ =>
          some
            { head := after.consumer.cachedHead
              newest := index == before.shared.head.latest
              published := before.shared.lane.sent
              delivered := before.consumer.delivered
              closed := before.shared.closed }
      | _ => none
  | _ => none

def watchedStep (cap : Cap) (w : Watched α) (action : RingAction α) : Option (Watched α) :=
  (w.ring.step cap action).map fun after =>
    ⟨after, (refreshOf w.ring after action).or w.refresh⟩

/-- The runs of the ring, watched, whose callbacks panic only within the cached head. -/
def watched (cap : Cap) : System (Watched α) (RingAction α) :=
  (System.ofFunction (fun w => w = ⟨new, none⟩) (watchedStep cap)).guarded
    fun w action => w.ring.panicsWithinCache action = true

/-- `Empty` is in order: the producer was not closed at the refresh, and the head it
read, if it was the newest one, ended with the last value delivered. -/
def EmptyInOrder (refresh : Option (Refresh α)) : Prop :=
  ∃ seen, refresh = some seen ∧ seen.closed = false ∧
    seen.head = BitVec.ofNat 64 seen.delivered.length ∧
      (seen.newest = true → seen.delivered = seen.published)

/-- The same while `closed` has not been looked at. -/
def Refreshed (closed : Bool) (refresh : Option (Refresh α)) : Prop :=
  ∃ seen, refresh = some seen ∧ (seen.closed = true → closed = true) ∧
    seen.head = BitVec.ofNat 64 seen.delivered.length ∧
      (seen.newest = true → seen.delivered = seen.published)

theorem Refreshed.inOrder {refresh : Option (Refresh α)}
    (refreshed : Refreshed false refresh) : EmptyInOrder refresh := by
  obtain ⟨seen, rfl, closes, head, newest⟩ := refreshed
  refine ⟨seen, rfl, ?_, head, newest⟩
  by_contra closed
  cases closes (Bool.eq_true_of_not_eq_false closed)

theorem Refreshed.mono {refresh : Option (Refresh α)} {first last : Bool}
    (refreshed : Refreshed first refresh) (grows : first = true → last = true) :
    Refreshed last refresh := by
  obtain ⟨seen, rfl, closed, facts⟩ := refreshed
  exact ⟨seen, rfl, fun was => grows (closed was), facts⟩

structure WatchedOk (w : Watched α) : Prop where
  refreshed : ∀ call tail, w.ring.consumer.pc = .recvClosed call tail →
    Refreshed w.ring.shared.closed w.refresh
  empty : saidEmpty w.ring.consumer.pc = true → EmptyInOrder w.refresh

theorem ring_of_watched {w : Watched α} (reached : (watched cap).Reachable w) :
    (withinCache cap).Reachable w.ring := by
  apply reached.project Watched.ring
  · rintro _ rfl
    rfl
  · rintro before action after - ⟨within, taken⟩
    obtain ⟨ring, moved, rfl⟩ := Option.map_eq_some_iff.mp taken
    exact .inr ⟨action, within, moved⟩

/-- A refresh that finds nothing has read the head of what was delivered. -/
theorem refreshed_of_read (shared : SharedOk cap s.shared) (consumer : ConsumerOk s)
    {call : RecvCall} {tail : Usize} {index : Nat}
    (here : s.consumer.pc = .recvRefresh call tail)
    (read : s.shared.head.load s.consumer.headView index = some tail) :
    tail = BitVec.ofNat 64 s.consumer.delivered.length ∧
      (index = s.shared.head.latest → s.consumer.delivered = s.shared.lane.sent) := by
  have received := consumer.received_eq
  rw [here] at received
  simp only [undelivered, List.append_nil] at received
  obtain ⟨known, fresh, facts⟩ := consumer
  have at_tail := facts.here
  rw [here] at at_tail
  obtain ⟨allReleased, releasedLe, tailEq⟩ := at_tail
  have known_le := facts.known_le.trans facts.fresh_le
  constructor
  · rw [tailEq, ← received, allReleased]
  · intro newest
    subst newest
    rw [Location.load_latest _ facts.follows.view_le, Option.some.injEq, shared.head,
      tailEq] at read
    have drained : s.shared.lane.published = s.shared.lane.released :=
      (shared.ofNat_inj le_rfl (releasedLe.trans known_le) le_rfl).mp read
    rw [← received, shared.sound.received_eq, Lane.sent, allReleased, drained]

theorem watchedOk {w : Watched α} (reached : (watched cap).Reachable w) : WatchedOk w := by
  apply reached.invariant WatchedOk
  · rintro _ rfl
    exact ⟨fun _ _ here => (by cases here), fun said => (by cases said)⟩
  · rintro before action after reached ok ⟨within, taken⟩
    obtain ⟨shared, -, consumer⟩ := invariant (ring_of_watched reached)
    obtain ⟨ring, moved, rfl⟩ := Option.map_eq_some_iff.mp taken
    cases action with
    | producer action =>
        obtain ⟨closed, same⟩ := closed_of_producerStep moved
        constructor
        · intro call tail here
          rw [same] at here
          exact (ok.refreshed call tail here).mono closed
        · intro said
          rw [same] at said
          exact ok.empty said
    | consumer action =>
        rcases decides_of_consumerStep moved with elsewhere | decides
        · constructor
          · intro call tail here
            rw [here] at elsewhere
            cases elsewhere
          · intro said
            rw [deciding_of_saidEmpty said] at elsewhere
            cases elsewhere
        · cases decides with
          | refreshed call tail index here read =>
              obtain ⟨head, newest⟩ := refreshed_of_read shared consumer here read
              constructor
              · intro _ _ _
                simp only [refreshOf, here, Option.some_or]
                refine ⟨_, rfl, fun was => was, head, fun isNewest => ?_⟩
                exact newest (beq_iff_eq.mp isNewest)
              · intro said
                cases said
          | sawClosed call tail index here closed =>
              exact ⟨fun _ _ there => (by cases there), fun said => (by cases said)⟩
          | sawOpen call tail index here alive =>
              have refreshed := ok.refreshed call tail here
              rw [alive] at refreshed
              constructor
              · intro _ _ there
                cases call <;> cases there
              · intro _
                simpa [refreshOf, here] using refreshed.inOrder
          | rechecked call tail index here read =>
              constructor
              · intro _ _ there
                cases call <;> cases there
              · intro said
                cases call <;> cases said

/-- What a disconnect promises the consumer: `Closed` only when everything accepted has
been delivered, from then on nothing else, and `Empty` only about a ring that had
nothing to give and was not closed. -/
structure FinalDisconnect (cap : Cap) (w : Watched α) : Prop where
  complete : saidClosed w.ring.consumer.pc = true →
    producerDropped w.ring.producer.pc = true ∧
      w.ring.consumer.delivered = w.ring.producer.accepted
  final : saidClosed w.ring.consumer.pc = true →
    ∀ later, (watched cap).Leads w later →
      (∀ result, later.ring.consumer.pc = .returned (.tryRecv result) →
        result = .error .closed) ∧
      ∀ result, later.ring.consumer.pc = .returned (.recv result) → result = none
  empty : saidEmpty w.ring.consumer.pc = true → EmptyInOrder w.refresh
  /-- The `try_recv` inside `recv` comes out empty the same way. -/
  emptyWithin : ∀ call tail, w.ring.consumer.pc = .recvClosed call tail →
    w.ring.shared.closed = false → EmptyInOrder w.refresh

theorem finished_of_leads {first last : Watched α} (reached : (watched cap).Reachable first)
    (finished : Finished first.ring) (leads : (watched cap).Leads first last) :
    Finished last.ring := by
  have both : (watched cap).Reachable last ∧ Finished last.ring := by
    apply leads.invariant fun w => (watched cap).Reachable w ∧ Finished w.ring
    · exact ⟨reached, finished⟩
    · rintro before action after ⟨reached, finished⟩ taken
      refine ⟨reached.next taken, ?_⟩
      obtain ⟨shared, -, consumer⟩ := invariant (ring_of_watched reached)
      obtain ⟨ring, moved, rfl⟩ := Option.map_eq_some_iff.mp taken.2
      cases action with
      | producer action => exact finished.producer_step moved
      | consumer action => exact finished.consumer_step shared consumer moved
  exact both.2

/-- The consumer's side of a disconnect loses nothing and is final. -/
theorem disconnect_final {w : Watched α} (reached : (watched cap).Reachable w) :
    FinalDisconnect cap w := by
  have ring := ring_of_watched reached
  obtain ⟨shared, producer, consumer⟩ := invariant ring
  have disconnect := disconnect_of_withinCache ring
  have ok := watchedOk reached
  constructor
  · intro said
    have finished := disconnect.said said
    exact ⟨finished.dropped, finished.complete shared producer consumer said⟩
  · intro said later leads
    have settled := (finished_of_leads reached (disconnect.said said) leads).settled
    constructor
    · intro result here
      rw [here] at settled
      match result with
      | .error .closed => rfl
      | .error .empty => cases settled
      | .ok value => cases settled
    · intro result here
      rw [here] at settled
      match result with
      | none => rfl
      | some value => cases settled
  · exact ok.empty
  · intro call tail here alive
    have refreshed := ok.refreshed call tail here
    rw [alive] at refreshed
    exact refreshed.inOrder

/-- One slot: the refresh misses the only item, the producer goes, the recheck finds the
item, and the next `try_recv` is told that the ring is closed. -/
def dropBehindRefresh : List (RingAction Nat) :=
  [.producer (.trySend 5), .producer (.tick 0), .consumer .tryRecv, .producer (.tick 0),
    .consumer (.tick 0), .producer (.tick 0), .producer (.tick 0), .producer .drop,
    .consumer (.tick 0), .consumer (.tick 1), .consumer (.tick 0), .consumer (.tick 0),
    .consumer (.tick 0), .consumer (.tick 0), .consumer .tryRecv, .consumer (.tick 1),
    .consumer (.tick 0), .consumer (.tick 1)]

theorem disconnect_final_dropBehindRefresh :
    ∃ w, Transition.execute (Transition.guardedStep
        (fun (w : Watched Nat) action => w.ring.panicsWithinCache action = true)
        (watchedStep oneSlotCap)) ⟨new, none⟩ dropBehindRefresh = some w ∧
      (saidClosed w.ring.consumer.pc = true ∧ w.ring.consumer.delivered = [5]) ∧
        FinalDisconnect oneSlotCap w := by
  have ran : (Transition.execute (Transition.guardedStep
      (fun (w : Watched Nat) action => w.ring.panicsWithinCache action = true)
      (watchedStep oneSlotCap)) ⟨new, none⟩ dropBehindRefresh).any
        (fun w => saidClosed w.ring.consumer.pc = true ∧ w.ring.consumer.delivered = [5]) =
          true := by
    decide
  obtain ⟨w, ran, outcome⟩ := Option.any_eq_true _ _ |>.mp ran
  exact ⟨w, ran, of_decide_eq_true outcome,
    disconnect_final (System.reachable_of_guarded_execute rfl ran)⟩

end RingState

end ArbitroKit
