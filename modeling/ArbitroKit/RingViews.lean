import ArbitroKit.MpscAsync
import ArbitroKit.MpscConsumer
import ArbitroKit.RingDelivery

/-!
# What a ring's calls show to a channel's futures

The futures of a channel look into a ring through `try_send`, `try_recv` and `drain`.
For one step inside such a call this module says what the other side of the channel can
see of it, whether it owes that side a wake, and what a call that has found nothing has
seen.
-/

namespace ArbitroKit

open Coherent SlotLane Cyclic Transition

namespace RingState

variable {α : Type*} {cap : Cap} {s after : RingState α}

/-! ### What the gates hand over -/

theorem ProducerOk.seeTail (ok : ProducerOk cap s) {seen : Nat}
    (le : seen ≤ s.shared.tail.latest) : ProducerOk cap (s.seeTail seen) := by
  obtain ⟨known, fresh, facts⟩ := ok
  obtain ⟨tail, loaded⟩ := Location.exists_load (le_max_left s.producer.tailView seen)
    (max_le facts.follows.view_le le)
  obtain ⟨count, -, -, -, seen, -⟩ := facts.load loaded
  exact ⟨known, count, seen⟩

theorem ConsumerOk.seeHeadUpTo (ok : ConsumerOk s) {seen : Nat}
    (le : seen ≤ s.shared.head.latest) : ConsumerOk (s.seeHeadUpTo seen) := by
  obtain ⟨known, fresh, facts⟩ := ok
  obtain ⟨head, loaded⟩ := Location.exists_load (le_max_left s.consumer.headView seen)
    (max_le facts.follows.view_le le)
  obtain ⟨count, le, -, -, goto⟩ := facts.load loaded
  exact ⟨known, count, (goto s.consumer.pc rfl).1 (facts.here.fresh_mono le)⟩

/-! ### Producer -/

/-- Inside `try_send` of `value`, or back from it. -/
def InTrySend (value : α) : ProducerPc α → Prop
  | .sendRefresh .trySend sent _ => sent = value
  | .sendClosed .trySend sent => sent = value
  | .sendWrite .trySend sent _ => sent = value
  | .sendPublish .trySend sent _ => sent = value
  | .sendWake .trySend sent => sent = value
  | .returned (.trySend (.ok ())) accepted => accepted = [value]
  | .returned (.trySend (.error (.full sent))) accepted => sent = value ∧ accepted = []
  | .returned (.trySend (.error (.closed sent))) accepted => sent = value ∧ accepted = []
  | _ => False

/-- The call has found the ring full. -/
def sawFull : ProducerPc α → Bool
  | .sendClosed _ _ => true
  | .returned (.trySend (.error _)) _ => true
  | _ => false

/-- What the channel's consumer can see of a step of the ring's producer: a store of
`head`, for which a wake is still owed. -/
structure ProducerShows (cap : Cap) (before after : RingState α) : Prop where
  tail : after.shared.tail = before.shared.tail
  view_le : before.producer.tailView ≤ after.producer.tailView
  head : after.shared.head = before.shared.head ∧
      after.shared.lane.published = before.shared.lane.published ∨
    before.shared.head.latest ≤ after.shared.head.latest ∧ unreported after.producer.pc ≠ []
  owes : unreported before.producer.pc ≠ [] → unreported after.producer.pc ≠ []
  full : sawFull after.producer.pc = true →
    sawFull before.producer.pc = true ∧ after.shared.lane = before.shared.lane ∨
      (after.shared.tail.latest ≤ after.producer.tailView →
        after.shared.lane.published = after.shared.lane.released + cap.size)

/-- A step that touches no cursor and no slot. -/
theorem ProducerShows.quiet (shared : after.shared.head = s.shared.head ∧
      after.shared.tail = s.shared.tail ∧ after.shared.lane = s.shared.lane)
    (view : after.producer.tailView = s.producer.tailView)
    (owes : unreported s.producer.pc ≠ [] → unreported after.producer.pc ≠ [])
    (full : sawFull after.producer.pc = true → sawFull s.producer.pc = true) :
    ProducerShows cap s after where
  tail := shared.2.1
  view_le := view.ge
  head := .inl ⟨shared.1, by rw [shared.2.2]⟩
  owes := owes
  full saw := .inl ⟨full saw, shared.2.2⟩

theorem trySend_shows {value : α} (taken : s.producerStep cap (.trySend value) = some after) :
    InTrySend value after.producer.pc ∧ after.producer.accepted = s.producer.accepted ∧
      ProducerShows cap s after := by
  simp only [producerStep] at taken
  split at taken
  · rename_i idle
    cases taken
    refine ⟨?_, accepted_trySendStart _ _, ?_⟩
    all_goals
      unfold trySendStart
      dsimp only
      split
    · exact rfl
    · exact rfl
    · exact .quiet ⟨rfl, rfl, rfl⟩ rfl (by simp [idle, unreported]) (by simp [producerAt, sawFull])
    · exact .quiet ⟨rfl, rfl, rfl⟩ rfl (by simp [idle, unreported]) (by simp [producerAt, sawFull])
  · cases taken

/-- A step of `try_send` before it returns. -/
theorem inTrySend_tick {value : α} {index : Nat} (shared : SharedOk cap s.shared)
    (ok : ProducerOk cap s) (inside : InTrySend value s.producer.pc)
    (notReturned : ∀ outcome accepted, s.producer.pc ≠ .returned outcome accepted)
    (taken : s.producerStep cap (.tick index) = some after) :
    InTrySend value after.producer.pc ∧ after.producer.accepted = s.producer.accepted ∧
      ProducerShows cap s after := by
  change s.producerTick cap index = some after at taken
  have here := ok.choose_spec.choose_spec.here
  unfold producerTick at taken
  cases pcEq : s.producer.pc with
  | sendRefresh call sent head =>
      cases call with
      | send => simp [pcEq, InTrySend] at inside
      | trySend =>
          simp only [pcEq] at taken here inside
          obtain ⟨⟨tail, loadedState⟩, loaded, rfl⟩ := Option.map_eq_some_iff.mp taken
          obtain ⟨read, rfl⟩ := loadTail_eq_some loaded
          have view_le := (Location.load_eq_some read).1
          dsimp only
          split
          · rename_i full
            refine ⟨inside, rfl, rfl, view_le, .inl ⟨rfl, rfl⟩, by simp [pcEq, unreported], ?_⟩
            refine fun _ => .inr fun newest => ?_
            rw [Location.current_of_load read newest, shared.tail, here] at full
            obtain ⟨ordered, near, -⟩ := shared.near
            exact (isFull_iff cap _ _ ordered near).mp full
          · exact ⟨inside, rfl, rfl, view_le, .inl ⟨rfl, rfl⟩, by simp [pcEq, unreported],
              by simp [producerAt, sawFull]⟩
  | sendClosed call sent =>
      cases call with
      | send => simp [pcEq, InTrySend] at inside
      | trySend =>
          simp only [pcEq, Option.some.injEq] at taken inside
          subst taken
          have shows {pc : ProducerPc α} : ProducerShows cap s (s.producerAt pc) :=
            .quiet ⟨rfl, rfl, rfl⟩ rfl (by simp [pcEq, unreported]) fun _ => by rw [pcEq]; rfl
          cases s.shared.closed <;> exact ⟨⟨inside, rfl⟩, rfl, shows⟩
  | sendWrite call sent head =>
      cases call with
      | send => simp [pcEq, InTrySend] at inside
      | trySend =>
          simp only [pcEq, Option.some.injEq] at taken inside
          subst taken
          exact ⟨inside, rfl, rfl, le_rfl, .inl ⟨rfl, rfl⟩, by simp [pcEq, unreported],
            by simp [producerAt, sawFull]⟩
  | sendPublish call sent head =>
      cases call with
      | send => simp [pcEq, InTrySend] at inside
      | trySend =>
          simp only [pcEq, Option.some.injEq] at taken inside
          subst taken
          have later : s.shared.head.latest ≤ (s.shared.head.store (head + 1)).latest := by
            simp [Location.latest, Location.store, Location.history]
          exact ⟨inside, rfl, rfl, le_rfl, .inr ⟨later, by simp [producerAt, unreported]⟩,
            by simp [pcEq, unreported], by simp [producerAt, sawFull]⟩
  | sendWake call sent =>
      cases call with
      | send => simp [pcEq, InTrySend] at inside
      | trySend =>
          simp only [pcEq, Option.some.injEq] at taken inside
          subst taken inside
          exact ⟨rfl, rfl, .quiet ⟨rfl, rfl, rfl⟩ rfl
            (by simp [producerAt, sendAccepted, unreported])
            (by simp [producerAt, sendAccepted, sawFull])⟩
  | returned outcome accepted => exact absurd pcEq (notReturned outcome accepted)
  | _ => simp [pcEq, InTrySend] at inside

theorem producer_of_closing {pc : ProducerPc α} (closing : producerActivity pc = .closing) :
    pc = .dropWakeFull ∨ pc = .dropWakeEmpty := by
  cases pc with
  | dropWakeFull => exact .inl rfl
  | dropWakeEmpty => exact .inr rfl
  | sendRefresh call | sendClosed call | sendWrite call | sendPublish call | sendWake call =>
      cases call <;> cases closing
  | returned outcome => cases outcome <;> cases closing
  | _ => cases closing

/-- The ring handle's drop shows nothing. -/
theorem producerDrop_shows (taken : s.producerStep cap .drop = some after) :
    producerActivity after.producer.pc = .closing ∧
      after.producer.accepted = s.producer.accepted ∧ ProducerShows cap s after := by
  simp only [producerStep] at taken
  split at taken
  · rename_i idle
    cases taken
    exact ⟨rfl, rfl, .quiet ⟨rfl, rfl, rfl⟩ rfl (by simp [idle, unreported])
      (by simp [producerAt, sawFull])⟩
  · cases taken

theorem producerClosing_shows {index : Nat} (closing : producerActivity s.producer.pc = .closing)
    (taken : s.producerStep cap (.tick index) = some after) :
    (producerActivity after.producer.pc = .closing ∨ after.producer.pc = .gone) ∧
      after.producer.accepted = s.producer.accepted ∧ ProducerShows cap s after := by
  change s.producerTick cap index = some after at taken
  unfold producerTick at taken
  rcases producer_of_closing closing with pcEq | pcEq
  · simp only [pcEq, Option.some.injEq] at taken
    subst taken
    exact ⟨.inl rfl, rfl, .quiet ⟨rfl, rfl, rfl⟩ rfl (by simp [pcEq, unreported])
      (by simp [producerAt, sawFull])⟩
  · simp only [pcEq, Option.some.injEq] at taken
    subst taken
    exact ⟨.inr rfl, rfl, .quiet ⟨rfl, rfl, rfl⟩ rfl (by simp [pcEq, unreported])
      (by simp [producerAt, sawFull])⟩

/-! ### Consumer -/

/-- Inside `try_recv`, or back from it. -/
def InTryRecv : ConsumerPc α → Prop
  | .recvRefresh .tryRecv _ => True
  | .recvClosed .tryRecv _ => True
  | .recvRecheck .tryRecv _ => True
  | .recvRead .tryRecv _ => True
  | .recvRelease .tryRecv _ _ => True
  | .recvWake .tryRecv _ => True
  | .returned (.tryRecv _) => True
  | _ => False

/-- Inside `drain`, or back from it, without a panic. -/
def InDrain : ConsumerPc α → Prop
  | .drainLoad _ => True
  | .drainRead _ _ _ => True
  | .drainCallback _ _ _ _ => True
  | .drainCommit _ _ _ => True
  | .drainWake _ _ => True
  | .returned (.drain _) => True
  | _ => False

/-- The call has found the ring empty. -/
def sawEmpty : ConsumerPc α → Bool
  | .recvClosed _ _ => true
  | .recvRecheck _ _ => true
  | .returned (.tryRecv (.error _)) => true
  | .returned (.drain n) => decide (n = 0)
  | _ => false

/-- The call has given slots back, and its caller has not woken their producer. -/
def owesWake : ConsumerPc α → Bool
  | .recvWake _ _ => true
  | .drainWake _ _ => true
  | .returned (.tryRecv (.ok _)) => true
  | .returned (.drain n) => decide (0 < n)
  | _ => false

/-- The value on which the callback of `drain` is being called. -/
def calledBack : ConsumerPc α → List α
  | .drainCallback _ _ _ value => [value]
  | _ => []

/-- The call of `drain` has called its callback on nothing. -/
def untouched : ConsumerPc α → Bool
  | .drainLoad _ => true
  | .returned (.drain n) => decide (n = 0)
  | _ => false

/-- What a channel's producer can see of a step of the ring's consumer: a store of
`tail`, for which a wake is still owed. -/
structure ConsumerShows (before after : RingState α) : Prop where
  head : after.shared.head = before.shared.head
  view_le : before.consumer.headView ≤ after.consumer.headView
  tail : after.shared.tail = before.shared.tail ∧
      after.shared.lane.released = before.shared.lane.released ∨
    before.shared.tail.latest ≤ after.shared.tail.latest ∧
      owesWake after.consumer.pc = true
  owes : owesWake before.consumer.pc = true → owesWake after.consumer.pc = true
  empty : sawEmpty after.consumer.pc = true →
    sawEmpty before.consumer.pc = true ∧ after.shared.lane = before.shared.lane ∨
      (after.shared.head.latest ≤ after.consumer.headView →
        after.shared.lane.published = after.shared.lane.released)

/-- A step that touches no cursor and no slot. -/
theorem ConsumerShows.quiet (shared : after.shared.head = s.shared.head ∧
      after.shared.tail = s.shared.tail ∧ after.shared.lane = s.shared.lane)
    (view : s.consumer.headView ≤ after.consumer.headView)
    (owes : owesWake s.consumer.pc = true → owesWake after.consumer.pc = true)
    (empty : sawEmpty after.consumer.pc = true → sawEmpty s.consumer.pc = true) :
    ConsumerShows s after where
  head := shared.1
  view_le := view
  tail := .inl ⟨shared.2.1, by rw [shared.2.2]⟩
  owes := owes
  empty saw := .inl ⟨empty saw, shared.2.2⟩

@[simp]
theorem delivered_readSlot {index : Nat} {next : α → ConsumerPc α} :
    (s.readSlot index next).consumer.delivered = s.consumer.delivered := by
  unfold RingState.readSlot
  dsimp only
  split <;> rfl

/-- A read that keeps the consumer's facts has found a value. -/
theorem ConsumerOk.read_value {index : Nat} {next : α → ConsumerPc α}
    (ok : ConsumerOk (s.readSlot index next)) :
    ∃ value, (s.readSlot index next).consumer.pc = next value := by
  have defined : (s.readSlot index next).consumer.pc ≠ .undefined := by
    intro undefined
    have here := ok.choose_spec.choose_spec.here
    rw [undefined] at here
    exact here
  unfold RingState.readSlot at defined ⊢
  dsimp only at defined ⊢
  split at defined
  · rename_i value read
    exact ⟨value, rfl⟩
  · exact absurd rfl defined

/-- Reading a slot shows nothing. -/
theorem ConsumerShows.readSlot {index : Nat} {next : α → ConsumerPc α}
    (owes : owesWake s.consumer.pc = false)
    (empty : ∀ value, sawEmpty (next value) = false) :
    ConsumerShows s (s.readSlot index next) := by
  have received : (s.readSlot index next).shared.lane.released = s.shared.lane.released := by
    unfold RingState.readSlot Lane.read
    cases s.shared.lane.cells index <;> rfl
  have quiet : sawEmpty (s.readSlot index next).consumer.pc = false := by
    unfold RingState.readSlot
    dsimp only
    split
    · exact empty _
    · rfl
  refine ⟨?_, ?_, .inl ⟨?_, received⟩, by simp [owes], by simp [quiet]⟩
  all_goals
    unfold RingState.readSlot
    dsimp only
    split <;> rfl

/-- The newest `head` is the count of what was published. -/
theorem SharedOk.published_of_newest (shared : SharedOk cap s.shared) {index : Nat}
    (loaded : s.shared.head.load s.consumer.headView index =
      some (BitVec.ofNat 64 s.shared.lane.released))
    (newest : s.shared.head.latest ≤ index) :
    s.shared.lane.published = s.shared.lane.released := by
  have same := Location.current_of_load loaded newest
  rw [shared.head] at same
  exact (shared.ofNat_inj le_rfl shared.near.1 le_rfl).mp same.symm

theorem tryRecv_shows (taken : s.consumerStep cap .tryRecv = some after) :
    InTryRecv after.consumer.pc ∧ after.consumer.delivered = s.consumer.delivered ∧
      ConsumerShows s after := by
  simp only [consumerStep] at taken
  split at taken
  · rename_i idle
    cases taken
    unfold tryRecvStart
    dsimp only
    split
    all_goals
      exact ⟨trivial, rfl, .quiet ⟨rfl, rfl, rfl⟩ le_rfl (by simp [idle, owesWake])
        (by simp [consumerAt, sawEmpty])⟩
  · cases taken

/-- A step of `try_recv` before it returns. -/
theorem inTryRecv_tick {index : Nat} (shared : SharedOk cap s.shared) (ok : ConsumerOk s)
    (inside : InTryRecv s.consumer.pc)
    (notReturned : ∀ outcome, s.consumer.pc ≠ .returned outcome)
    (taken : s.consumerStep cap (.tick index) = some after) :
    InTryRecv after.consumer.pc ∧ after.consumer.delivered = s.consumer.delivered ∧
      ConsumerShows s after := by
  have okAfter : ConsumerOk after := (consumer_step shared ok rfl taken).2.1
  change s.consumerTick cap index = some after at taken
  have here := ok.choose_spec.choose_spec.here
  unfold consumerTick at taken
  cases pcEq : s.consumer.pc with
  | recvRefresh call tail | recvRecheck call tail =>
      cases call with
      | recv => simp [pcEq, InTryRecv] at inside
      | tryRecv =>
          simp only [pcEq] at taken here
          obtain ⟨-, -, rfl⟩ := here
          obtain ⟨⟨head, loadedState⟩, loaded, rfl⟩ := Option.map_eq_some_iff.mp taken
          obtain ⟨read, rfl⟩ := loadHead_eq_some loaded
          have view_le := (Location.load_eq_some read).1
          dsimp only
          split
          · rename_i equal
            rw [equal] at read
            exact ⟨trivial, rfl, rfl, view_le, .inl ⟨rfl, rfl⟩, by simp [pcEq, owesWake],
              fun _ => .inr fun newest => shared.published_of_newest read newest⟩
          · exact ⟨trivial, rfl, .quiet ⟨rfl, rfl, rfl⟩ view_le (by simp [pcEq, owesWake])
              (by simp [consumerAt, sawEmpty])⟩
  | recvClosed call tail =>
      cases call with
      | recv => simp [pcEq, InTryRecv] at inside
      | tryRecv =>
          simp only [pcEq] at taken
          split at taken <;> cases taken
          · have view_le := ok.choose_spec.choose_spec.follows.view_le
            exact ⟨trivial, rfl, .quiet ⟨rfl, rfl, rfl⟩ view_le (by simp [pcEq, owesWake])
              fun _ => by rw [pcEq]; rfl⟩
          · exact ⟨trivial, rfl, .quiet ⟨rfl, rfl, rfl⟩ le_rfl (by simp [pcEq, owesWake])
              fun _ => by rw [pcEq]; rfl⟩
  | recvRead call tail =>
      cases call with
      | recv => simp [pcEq, InTryRecv] at inside
      | tryRecv =>
          simp only [pcEq, Option.some.injEq] at taken
          subst taken
          obtain ⟨value, pcAfter⟩ := okAfter.read_value
          exact ⟨by rw [pcAfter]; trivial, delivered_readSlot,
            .readSlot (by rw [pcEq]; rfl) fun _ => rfl⟩
  | recvRelease call tail value =>
      cases call with
      | recv => simp [pcEq, InTryRecv] at inside
      | tryRecv =>
          simp only [pcEq, Option.some.injEq] at taken
          subst taken
          have later : s.shared.tail.latest ≤ (s.shared.tail.store (tail + 1)).latest := by
            simp [Location.latest, Location.store, Location.history]
          exact ⟨trivial, rfl, rfl, le_rfl, .inr ⟨later, rfl⟩, fun _ => rfl,
            by simp [consumerAt, sawEmpty]⟩
  | recvWake call value =>
      cases call with
      | recv => simp [pcEq, InTryRecv] at inside
      | tryRecv =>
          simp only [pcEq, Option.some.injEq] at taken
          subst taken
          exact ⟨trivial, rfl, .quiet ⟨rfl, rfl, rfl⟩ le_rfl (fun _ => rfl)
            (by simp [consumerAt, recvDelivered, sawEmpty])⟩
  | returned outcome => exact absurd pcEq (notReturned outcome)
  | _ => simp [pcEq, InTryRecv] at inside

theorem drain_shows (taken : s.consumerStep cap .drain = some after) :
    (InDrain after.consumer.pc ∧ untouched after.consumer.pc = true) ∧
      after.consumer.delivered = s.consumer.delivered ∧ ConsumerShows s after := by
  simp only [consumerStep] at taken
  split at taken
  · rename_i idle
    cases taken
    exact ⟨⟨trivial, rfl⟩, rfl, .quiet ⟨rfl, rfl, rfl⟩ le_rfl (by simp [idle, owesWake])
      (by simp [consumerAt, sawEmpty])⟩
  · cases taken

/-- A step of `drain` before it returns. -/
theorem inDrain_tick {index : Nat} (shared : SharedOk cap s.shared) (ok : ConsumerOk s)
    (inside : InDrain s.consumer.pc)
    (notReturned : ∀ outcome, s.consumer.pc ≠ .returned outcome)
    (taken : s.consumerStep cap (.tick index) = some after) :
    InDrain after.consumer.pc ∧
      after.consumer.delivered = s.consumer.delivered ++ calledBack s.consumer.pc ∧
      (untouched after.consumer.pc = true →
        untouched s.consumer.pc = true ∧ calledBack s.consumer.pc = []) ∧
      ConsumerShows s after := by
  have okAfter : ConsumerOk after := (consumer_step shared ok rfl taken).2.1
  change s.consumerTick cap index = some after at taken
  have here := ok.choose_spec.choose_spec.here
  unfold consumerTick at taken
  cases pcEq : s.consumer.pc with
  | drainLoad start =>
      simp only [pcEq] at taken here
      obtain ⟨-, -, rfl⟩ := here
      obtain ⟨⟨head, loadedState⟩, loaded, rfl⟩ := Option.map_eq_some_iff.mp taken
      obtain ⟨read, rfl⟩ := loadHead_eq_some loaded
      have view_le := (Location.load_eq_some read).1
      dsimp only
      split
      · rename_i equal
        rw [← equal] at read
        exact ⟨trivial, (List.append_nil _).symm, fun _ => ⟨rfl, rfl⟩, rfl, view_le,
          .inl ⟨rfl, rfl⟩, by simp [pcEq, owesWake],
          fun _ => .inr fun newest => shared.published_of_newest read newest⟩
      · exact ⟨trivial, (List.append_nil _).symm, fun _ => ⟨rfl, rfl⟩,
          .quiet ⟨rfl, rfl, rfl⟩ view_le (by simp [pcEq, owesWake])
            (by simp [consumerAt, sawEmpty])⟩
  | drainRead start head tail =>
      simp only [pcEq, Option.some.injEq] at taken
      subst taken
      obtain ⟨value, pcAfter⟩ := okAfter.read_value
      refine ⟨by rw [pcAfter]; trivial, ?_, ?_, .readSlot (by rw [pcEq]; rfl) fun _ => rfl⟩
      · rw [delivered_readSlot]
        exact (List.append_nil _).symm
      · rw [pcAfter]
        exact fun called => absurd called Bool.false_ne_true
  | drainCallback start head tail value =>
      simp only [pcEq] at taken
      split at taken <;> cases taken
      all_goals
        exact ⟨trivial, rfl, by simp [consumerAt, untouched],
          .quiet ⟨rfl, rfl, rfl⟩ le_rfl (by simp [pcEq, owesWake])
            (by simp [consumerAt, sawEmpty])⟩
  | drainCommit start head tail =>
      simp only [pcEq, Option.some.injEq] at taken
      subst taken
      have later : s.shared.tail.latest ≤ (s.shared.tail.store tail).latest := by
        simp [Location.latest, Location.store, Location.history]
      exact ⟨trivial, (List.append_nil _).symm, by simp [consumerAt, untouched], rfl, le_rfl,
        .inr ⟨later, rfl⟩, fun _ => rfl, by simp [consumerAt, sawEmpty]⟩
  | drainWake head consumed =>
      simp only [pcEq, Option.some.injEq] at taken here
      subst taken
      have positive : 0 < consumed := here.1
      have notZero : consumed ≠ 0 := positive.ne'
      exact ⟨trivial, (List.append_nil _).symm, by simp [consumerAt, untouched, notZero],
        .quiet ⟨rfl, rfl, rfl⟩ le_rfl (fun _ => decide_eq_true positive)
          (by simp [consumerAt, sawEmpty, notZero])⟩
  | returned outcome => exact absurd pcEq (notReturned outcome)
  | _ => simp [pcEq, InDrain] at inside

theorem consumer_of_closing {pc : ConsumerPc α} (closing : consumerActivity pc = .closing) :
    pc = .dropWakeFull ∨ pc = .dropWakeEmpty := by
  cases pc with
  | dropWakeFull => exact .inl rfl
  | dropWakeEmpty => exact .inr rfl
  | recvRefresh call | recvClosed call | recvRecheck call | recvRead call | recvRelease call
  | recvWake call => cases call <;> cases closing
  | returned outcome => cases outcome <;> cases closing
  | _ => cases closing

/-- The ring handle's drop shows nothing. -/
theorem consumerDrop_shows (taken : s.consumerStep cap .drop = some after) :
    consumerActivity after.consumer.pc = .closing ∧
      after.consumer.delivered = s.consumer.delivered ∧ ConsumerShows s after := by
  simp only [consumerStep] at taken
  split at taken
  · rename_i idle
    cases taken
    exact ⟨rfl, rfl, .quiet ⟨rfl, rfl, rfl⟩ le_rfl (by simp [idle, owesWake])
      (by simp [consumerAt, sawEmpty])⟩
  · cases taken

theorem consumerClosing_shows {index : Nat} (closing : consumerActivity s.consumer.pc = .closing)
    (taken : s.consumerStep cap (.tick index) = some after) :
    (consumerActivity after.consumer.pc = .closing ∨ after.consumer.pc = .gone) ∧
      after.consumer.delivered = s.consumer.delivered ∧ ConsumerShows s after := by
  change s.consumerTick cap index = some after at taken
  unfold consumerTick at taken
  rcases consumer_of_closing closing with pcEq | pcEq
  · simp only [pcEq, Option.some.injEq] at taken
    subst taken
    exact ⟨.inl rfl, rfl, .quiet ⟨rfl, rfl, rfl⟩ le_rfl (by simp [pcEq, owesWake])
      (by simp [consumerAt, sawEmpty])⟩
  · simp only [pcEq, Option.some.injEq] at taken
    subst taken
    exact ⟨.inr rfl, rfl, .quiet ⟨rfl, rfl, rfl⟩ le_rfl (by simp [pcEq, owesWake])
      (by simp [consumerAt, sawEmpty])⟩

end RingState

end ArbitroKit
