import ArbitroKit.RingFacts

/-!
# Steps of the ring's consumer

Every step of the consumer keeps the shared invariant and the consumer's facts,
and shows the producer nothing but a released count that may have grown.  The
one exception is a callback that panics beyond the cached head: the unwinding
call then leaves a cached head behind the cursor it publishes.
-/

namespace ArbitroKit

open Coherent SlotLane Cyclic

namespace RingState

variable {α : Type*}

section Consumer

variable {ring : Ring α} {consumer : Consumer α} {known fresh : Nat}

theorem ConsumerFacts.fresh_le (facts : ConsumerFacts ring consumer known fresh) :
    fresh ≤ ring.lane.published :=
  facts.follows.le

theorem ConsumerAt.fresh_mono {released received later : Nat} {pc : ConsumerPc α}
    (here : ConsumerAt released received known fresh pc) (le : fresh ≤ later) :
    ConsumerAt released received known later pc := by
  cases pc with
  | drainRead start head tail | drainCallback start head tail value =>
      simp only [ConsumerAt] at here ⊢
      grind
  | drainCommit start head tail | drainWake head consumed =>
      simp only [ConsumerAt] at here ⊢
      grind
  | _ => exact here

/-- Going somewhere else with nothing read or handed out in between. -/
theorem ConsumerFacts.goto (facts : ConsumerFacts ring consumer known fresh)
    {pc : ConsumerPc α} (sameUndelivered : undelivered pc = undelivered consumer.pc)
    (here : ConsumerAt ring.lane.released ring.lane.received.length known fresh pc) :
    ConsumerFacts ring { consumer with pc := pc } known fresh where
  cached := facts.cached
  known_le := facts.known_le
  follows := facts.follows
  delivered := by rw [sameUndelivered]; exact facts.delivered
  here := here

/-- A load of `head` gives a count from the last one seen up to the true one;
the call goes on with it, and may keep it as the cached head. -/
theorem ConsumerFacts.load (facts : ConsumerFacts ring consumer known fresh)
    {index : Nat} {head : Usize}
    (loaded : ring.head.load consumer.headView index = some head) :
    ∃ count, fresh ≤ count ∧ count ≤ ring.lane.published ∧
      head = BitVec.ofNat 64 count ∧
        ∀ pc : ConsumerPc α, undelivered pc = undelivered consumer.pc →
          (ConsumerAt ring.lane.released ring.lane.received.length known count pc →
            ConsumerFacts ring { consumer with headView := index, pc := pc }
              known count) ∧
          (ConsumerAt ring.lane.released ring.lane.received.length count count pc →
            ConsumerFacts ring
              { consumer with headView := index, cachedHead := head, pc := pc }
              count count) := by
  obtain ⟨count, le, lePublished, rfl, follows⟩ := facts.follows.load loaded
  refine ⟨count, le, lePublished, rfl, fun pc same => ⟨fun here => ?_, fun here => ?_⟩⟩
  · exact
      { cached := facts.cached
        known_le := facts.known_le.trans le
        follows := follows
        delivered := by rw [same]; exact facts.delivered
        here := here }
  · exact
      { cached := rfl
        known_le := le_rfl
        follows := follows
        delivered := by rw [same]; exact facts.delivered
        here := here }

end Consumer

theorem loadHead_eq_some {s after : RingState α} {index : Nat} {head : Usize}
    (loaded : s.loadHead index = some (head, after)) :
    s.shared.head.load s.consumer.headView index = some head ∧
      after = { s with consumer := { s.consumer with headView := index } } := by
  obtain ⟨value, present, equal⟩ := Option.map_eq_some_iff.mp loaded
  obtain ⟨rfl, rfl⟩ := Prod.mk.inj equal
  exact ⟨present, rfl⟩

theorem ProducerRely.sameQueue {before after : RingState α}
    (producer : after.producer = before.producer)
    (tail : after.shared.tail = before.shared.tail)
    (lane : after.shared.lane = before.shared.lane) : ProducerRely before after where
  producer := producer
  written := by rw [lane]
  published := by rw [lane]
  tail := .inl ⟨tail, by rw [lane]⟩

/-- A consumer step that touches no cursor and no slot. -/
theorem consumer_quiet {cap : Cap} {before after : RingState α} {known fresh : Nat}
    (shared : SharedOk cap before.shared)
    (head : after.shared.head = before.shared.head)
    (tail : after.shared.tail = before.shared.tail)
    (lane : after.shared.lane = before.shared.lane)
    (producer : after.producer = before.producer)
    (facts : ConsumerFacts before.shared after.consumer known fresh) :
    SharedOk cap after.shared ∧ ConsumerOk after ∧ ProducerRely before after := by
  refine ⟨shared.sameQueue head tail lane, ⟨known, fresh, ?_⟩, .sameQueue producer tail lane⟩
  exact
    { cached := facts.cached
      known_le := facts.known_le
      follows := by rw [head, lane]; exact facts.follows
      delivered := by rw [lane]; exact facts.delivered
      here := by rw [lane]; exact facts.here }

section ConsumerSteps

variable {cap : Cap} {s after : RingState α} {known fresh : Nat}

theorem consumer_tryRecvStart (shared : SharedOk cap s.shared)
    (facts : ConsumerFacts s.shared s.consumer known fresh) (call : RecvCall)
    (allDelivered : undelivered s.consumer.pc = [])
    (between : s.shared.lane.received.length = s.shared.lane.released ∧
      s.shared.lane.released ≤ known) :
    let after := s.tryRecvStart call
    SharedOk cap after.shared ∧ ConsumerOk after ∧ ProducerRely s after := by
  obtain ⟨allReleased, releasedLe⟩ := between
  unfold tryRecvStart
  dsimp only
  split
  · exact consumer_quiet shared rfl rfl rfl rfl
      (facts.goto (by rw [allDelivered]; rfl) ⟨allReleased, releasedLe, shared.tail⟩)
  · rename_i different
    rw [facts.cached, shared.tail] at different
    have apart : known ≠ s.shared.lane.released := fun equal => different (by rw [equal])
    exact consumer_quiet shared rfl rfl rfl rfl
      (facts.goto (by rw [allDelivered]; rfl)
        ⟨allReleased, by omega, shared.tail⟩)

/-- Reading the next slot below a count the consumer was given. -/
theorem consumer_readSlot (shared : SharedOk cap s.shared)
    (facts : ConsumerFacts s.shared s.consumer known fresh)
    {tail : Usize} {next : α → ConsumerPc α}
    (tailEq : tail = BitVec.ofNat 64 s.shared.lane.received.length)
    (available : s.shared.lane.received.length < fresh)
    (allDelivered : undelivered s.consumer.pc = [])
    (nextUndelivered : ∀ value, undelivered (next value) = [value])
    (here : ∀ value, ConsumerAt s.shared.lane.released
      (s.shared.lane.received.length + 1) known fresh (next value)) :
    let after := s.readSlot (cap.slot tail) next
    SharedOk cap after.shared ∧ ConsumerOk after ∧ ProducerRely s after := by
  subst tailEq
  have published : s.shared.lane.received.length < s.shared.lane.published :=
    available.trans_le facts.fresh_le
  obtain ⟨value, present⟩ := shared.sound.exists_next published
  have sound := shared.sound.read published
  rw [shared.sound.read_eq present] at sound
  simp only [readSlot, Capacity.slot_ofNat, shared.sound.read_eq present, consumerAt]
  refine ⟨⟨sound, shared.head, shared.tail⟩, ⟨known, fresh, ?_⟩,
    ⟨rfl, rfl, rfl, .inl ⟨rfl, rfl⟩⟩⟩
  exact
    { cached := facts.cached
      known_le := facts.known_le
      follows := facts.follows
      delivered := by
        have delivered := facts.delivered
        rw [allDelivered, List.append_nil] at delivered
        rw [nextUndelivered, ← delivered]
      here := by
        rw [List.length_append, List.length_singleton]
        exact here _ }

/-- The Release store that gives every slot read so far back. -/
theorem consumer_storeTail (shared : SharedOk cap s.shared)
    (facts : ConsumerFacts s.shared s.consumer known fresh)
    {tail : Usize} {pc : ConsumerPc α}
    (tailEq : tail = BitVec.ofNat 64 s.shared.lane.received.length)
    (sameUndelivered : undelivered pc = undelivered s.consumer.pc)
    (here : ConsumerAt s.shared.lane.received.length s.shared.lane.received.length
      known fresh pc) :
    let after := (s.storeTail tail).consumerAt pc
    SharedOk cap after.shared ∧ ConsumerOk after ∧ ProducerRely s after := by
  subst tailEq
  refine ⟨⟨shared.sound.release, shared.head, rfl⟩, ⟨known, fresh, ?_⟩,
    ⟨rfl, rfl, rfl, .inr ⟨rfl, shared.sound.released_le⟩⟩⟩
  exact
    { cached := facts.cached
      known_le := facts.known_le
      follows := facts.follows
      delivered := by
        change s.shared.lane.received = s.consumer.delivered ++ undelivered pc
        rw [sameUndelivered]
        exact facts.delivered
      here := here }

/-- What the callback was given has been delivered. -/
theorem ConsumerFacts.deliver {ring : Ring α} {consumer : Consumer α}
    (facts : ConsumerFacts ring consumer known fresh) {pc : ConsumerPc α}
    (noneUndelivered : undelivered pc = [])
    (here : ConsumerAt ring.lane.released ring.lane.received.length known fresh pc) :
    ConsumerFacts ring
      { consumer with
        pc := pc, delivered := consumer.delivered ++ undelivered consumer.pc }
      known fresh where
  cached := facts.cached
  known_le := facts.known_le
  follows := facts.follows
  delivered := by rw [noneUndelivered, List.append_nil]; exact facts.delivered
  here := here

/-- Two counts of the queue are the same word only if they are the same. -/
theorem SharedOk.ofNat_inj (shared : SharedOk cap s.shared) {first last : Nat}
    (released : s.shared.lane.released ≤ first) (le : first ≤ last)
    (published : last ≤ s.shared.lane.published) :
    BitVec.ofNat 64 last = BitVec.ofNat 64 first ↔ last = first := by
  have published_le := shared.sound.published_le
  have bounded := shared.sound.bounded
  have small := cap.size_lt
  exact ofNat_inj_of_near le (by omega)

theorem consumer_tick (shared : SharedOk cap s.shared)
    (facts : ConsumerFacts s.shared s.consumer known fresh) {index : Nat}
    (taken : s.consumerTick cap index = some after) :
    SharedOk cap after.shared ∧ ConsumerOk after ∧ ProducerRely s after := by
  have here := facts.here
  have known_le := facts.known_le
  have fresh_le := facts.fresh_le
  unfold consumerTick at taken
  cases pcEq : s.consumer.pc with
  | idle => simp [pcEq] at taken
  | recvRefresh call tail =>
      simp only [pcEq] at taken here
      obtain ⟨allReleased, releasedLe, rfl⟩ := here
      obtain ⟨⟨head, loadedState⟩, loaded, rfl⟩ := Option.map_eq_some_iff.mp taken
      obtain ⟨read, rfl⟩ := loadHead_eq_some loaded
      obtain ⟨count, le, lePublished, rfl, goto⟩ := facts.load read
      have same := shared.ofNat_inj le_rfl (by omega) lePublished
      dsimp only
      split
      · exact consumer_quiet shared rfl rfl rfl rfl
          ((goto _ (by simp [pcEq, undelivered])).2 ⟨allReleased, by omega, rfl⟩)
      · exact consumer_quiet shared rfl rfl rfl rfl
          ((goto _ (by simp [pcEq, undelivered])).2 ⟨allReleased, by grind, rfl⟩)
  | recvClosed call tail =>
      simp only [pcEq] at taken here
      obtain ⟨allReleased, releasedLe, rfl⟩ := here
      split at taken
      · cases taken
        obtain ⟨count, -, -, -, goto⟩ :=
          facts.load (Location.load_latest _ facts.follows.view_le)
        exact consumer_quiet shared rfl rfl rfl rfl
          ((goto _ (by simp [pcEq, undelivered])).1 ⟨allReleased, releasedLe, rfl⟩)
      · cases taken
        refine consumer_quiet shared rfl rfl rfl rfl (facts.goto ?_ ?_)
        all_goals
          cases call <;>
            simp [pcEq, recvFailed, undelivered, handedOut, ConsumerAt, allReleased,
              releasedLe]
  | recvRecheck call tail =>
      simp only [pcEq] at taken here
      obtain ⟨allReleased, releasedLe, rfl⟩ := here
      obtain ⟨⟨head, loadedState⟩, loaded, rfl⟩ := Option.map_eq_some_iff.mp taken
      obtain ⟨read, rfl⟩ := loadHead_eq_some loaded
      obtain ⟨count, le, lePublished, rfl, goto⟩ := facts.load read
      have same := shared.ofNat_inj le_rfl (by omega) lePublished
      have releasedLeCount : s.shared.lane.released ≤ count := by omega
      dsimp only
      split
      · refine consumer_quiet shared rfl rfl rfl rfl ((goto _ ?_).2 ?_)
        all_goals
          cases call <;>
            simp [pcEq, recvFailed, undelivered, handedOut, ConsumerAt, allReleased,
              releasedLeCount]
      · exact consumer_quiet shared rfl rfl rfl rfl
          ((goto _ (by simp [pcEq, undelivered])).2 ⟨allReleased, by grind, rfl⟩)
  | recvRead call tail =>
      simp only [pcEq, Option.some.injEq] at taken here
      subst taken
      obtain ⟨allReleased, available, tailEq⟩ := here
      refine consumer_readSlot shared facts (by rw [tailEq, allReleased]) (by omega)
        (by simp [pcEq, undelivered]) (fun _ => rfl) fun _ => ?_
      exact ⟨by rw [allReleased], available, tailEq⟩
  | recvRelease call tail value =>
      simp only [pcEq, Option.some.injEq] at taken here
      subst taken
      obtain ⟨oneRead, available, rfl⟩ := here
      refine consumer_storeTail shared facts (by rw [oneRead, ofNat_add_one])
        (by simp [pcEq, undelivered]) ⟨rfl, by omega⟩
  | recvWake call value =>
      simp only [pcEq, Option.some.injEq] at taken here
      subst taken
      refine consumer_quiet shared rfl rfl rfl rfl (facts.goto ?_ ?_)
      · cases call <;> simp [pcEq, recvDelivered, undelivered, handedOut]
      · cases call <;> exact here
  | drainLoad start =>
      simp only [pcEq] at taken here
      obtain ⟨allReleased, releasedLe, rfl⟩ := here
      obtain ⟨⟨head, loadedState⟩, loaded, rfl⟩ := Option.map_eq_some_iff.mp taken
      obtain ⟨read, rfl⟩ := loadHead_eq_some loaded
      obtain ⟨count, le, lePublished, rfl, goto⟩ := facts.load read
      have same := shared.ofNat_inj le_rfl (by omega) lePublished
      dsimp only
      split
      · exact consumer_quiet shared rfl rfl rfl rfl
          ((goto _ (by simp [pcEq, undelivered, handedOut])).1 ⟨allReleased, releasedLe⟩)
      · exact consumer_quiet shared rfl rfl rfl rfl
          ((goto _ (by simp [pcEq, undelivered])).1
            ⟨releasedLe, rfl, by rw [allReleased], count, rfl, by grind, le_rfl⟩)
  | drainRead start head tail =>
      simp only [pcEq, Option.some.injEq] at taken here
      subst taken
      obtain ⟨releasedLe, startEq, tailEq, last, headEq, before, lastLe⟩ := here
      have released_le := shared.sound.released_le
      refine consumer_readSlot shared facts tailEq (by omega)
        (by simp [pcEq, undelivered]) (fun _ => rfl) fun _ => ?_
      exact ⟨releasedLe, startEq, by omega, by rw [tailEq, ofNat_add_one],
        last, headEq, by omega, lastLe⟩
  | drainCallback start head tail value =>
      simp only [pcEq] at taken here
      obtain ⟨releasedLe, startEq, started, rfl, last, rfl, before, lastLe⟩ := here
      have same := shared.ofNat_inj started.le before (by omega)
      have handed : [value] = undelivered s.consumer.pc := by simp [pcEq, undelivered]
      rw [handed] at taken
      split at taken
      · rename_i reached
        cases taken
        refine consumer_quiet shared rfl rfl rfl rfl (facts.deliver rfl
          ⟨startEq, started, rfl, reached.symm, ?_⟩)
        omega
      · cases taken
        exact consumer_quiet shared rfl rfl rfl rfl
          (facts.deliver rfl ⟨releasedLe, startEq, rfl, last, rfl, by grind, lastLe⟩)
  | drainCommit start head tail =>
      simp only [pcEq, Option.some.injEq] at taken here
      subst taken
      obtain ⟨rfl, some, rfl, headEq, receivedLe⟩ := here
      have published_le := shared.sound.published_le
      have bounded := shared.sound.bounded
      have small := cap.size_lt
      have consumed : (BitVec.ofNat 64 s.shared.lane.received.length -
          BitVec.ofNat 64 s.shared.lane.released).toNat =
            s.shared.lane.received.length - s.shared.lane.released :=
        toNat_sub_ofNat some.le (by omega)
      exact consumer_storeTail shared facts rfl (by simp [pcEq, undelivered])
        ⟨by omega, rfl, headEq, receivedLe⟩
  | drainWake head consumed =>
      simp only [pcEq, Option.some.injEq] at taken here
      subst taken
      obtain ⟨-, allReleased, headEq, releasedLe⟩ := here
      have facts : ConsumerFacts s.shared
          { s.consumer with cachedHead := head, pc := .returned (.drain consumed) }
          s.shared.lane.released fresh :=
        { cached := headEq
          known_le := releasedLe
          follows := facts.follows
          delivered := by
            simpa [pcEq, undelivered, handedOut] using facts.delivered
          here := ⟨allReleased, le_rfl⟩ }
      exact consumer_quiet shared rfl rfl rfl rfl facts
  | drainUnwind start tail =>
      simp only [pcEq, Option.some.injEq] at taken here
      subst taken
      exact consumer_storeTail shared facts here.1
        (by simp [pcEq, undelivered, handedOut]) ⟨rfl, here.2⟩
  | recvRetry =>
      simp only [pcEq, Option.some.injEq] at taken here
      subst taken
      exact consumer_tryRecvStart shared facts .recv (by simp [pcEq, undelivered]) here
  | waitHead phase =>
      simp only [pcEq] at taken here
      obtain ⟨⟨head, loadedState⟩, loaded, rfl⟩ := Option.map_eq_some_iff.mp taken
      obtain ⟨read, rfl⟩ := loadHead_eq_some loaded
      obtain ⟨count, le, lePublished, rfl, goto⟩ := facts.load read
      exact consumer_quiet shared rfl rfl rfl rfl
        ((goto _ (by simp [pcEq, undelivered])).1 here)
  | waitTail phase head =>
      simp only [pcEq] at taken here
      split at taken
      · cases taken
        exact consumer_quiet shared rfl rfl rfl rfl
          (facts.goto (by simp [pcEq, undelivered]) here)
      · cases taken
        refine consumer_quiet shared rfl rfl rfl rfl (facts.goto ?_ ?_)
        · cases phase <;> simp [pcEq, recvWaited, undelivered]
        · cases phase <;> exact here
  | waitClosed phase =>
      simp only [pcEq, Option.some.injEq] at taken here
      subst taken
      refine consumer_quiet shared rfl rfl rfl rfl (facts.goto ?_ ?_)
      · cases phase <;> cases s.shared.closed <;> simp [pcEq, recvWaited, undelivered]
      · cases phase <;> cases s.shared.closed <;> exact here
  | waitAnnounce | waitLeave | dropWakeFull | dropWakeEmpty =>
      simp only [pcEq, Option.some.injEq] at taken here
      subst taken
      exact consumer_quiet shared rfl rfl rfl rfl
        (facts.goto (by simp [pcEq, undelivered]) here)
  | waitPark =>
      simp only [pcEq] at taken here
      split at taken
      · cases taken
        exact consumer_quiet shared rfl rfl rfl rfl
          (facts.goto (by simp [pcEq, undelivered]) here)
      · cases taken
  | gone => simp [pcEq] at taken
  | returned outcome =>
      simp only [pcEq, Option.some.injEq] at taken here
      subst taken
      have handed : handedOut outcome = undelivered s.consumer.pc := by
        simp [pcEq, undelivered]
      rw [handed]
      exact consumer_quiet shared rfl rfl rfl rfl (facts.deliver rfl here)
  | undefined => simp [pcEq] at taken

/-- A panic hands the value to the callback and unwinds into the guard. -/
theorem panic_eq_some (cap : Cap) {before panicked : RingState α}
    (taken : before.step cap (.consumer .panic) = some panicked) :
    ∃ start head tail value, before.consumer.pc = .drainCallback start head tail value ∧
      panicked = (before.deliver [value]).consumerAt (.drainUnwind start tail) := by
  simp only [step, consumerStep] at taken
  split at taken
  · rename_i start head tail value pcEq
    cases taken
    exact ⟨start, head, tail, value, pcEq, rfl⟩
  · cases taken

/-- Entering a call and dropping the handle are no different, and neither is a
panic that stays within the cached head. -/
theorem consumer_step (shared : SharedOk cap s.shared) (consumer : ConsumerOk s)
    {action : ConsumerAction} (withinCache : s.panicsWithinCache (.consumer action) = true)
    (taken : s.consumerStep cap action = some after) :
    SharedOk cap after.shared ∧ ConsumerOk after ∧ ProducerRely s after := by
  obtain ⟨known, fresh, facts⟩ := consumer
  have here := facts.here
  cases action with
  | tick index => exact consumer_tick shared facts taken
  | tryRecv | recv =>
      simp only [consumerStep] at taken
      split at taken
      · rename_i pcEq
        cases taken
        rw [pcEq] at here
        exact consumer_tryRecvStart shared facts _ (by simp [pcEq, undelivered]) here
      · cases taken
  | drain =>
      simp only [consumerStep] at taken
      split at taken
      · rename_i pcEq
        cases taken
        rw [pcEq] at here
        exact consumer_quiet shared rfl rfl rfl rfl
          (facts.goto (by simp [pcEq, undelivered]) ⟨here.1, here.2, shared.tail⟩)
      · cases taken
  | drop | spin | spurious =>
      simp only [consumerStep] at taken
      split at taken
      · rename_i pcEq
        cases taken
        rw [pcEq] at here
        exact consumer_quiet shared rfl rfl rfl rfl
          (facts.goto (by simp [pcEq, undelivered]) here)
      · cases taken
  | panic =>
      simp only [consumerStep] at taken
      split at taken
      · rename_i start head tail value pcEq
        cases taken
        simp only [pcEq] at here
        simp only [panicsWithinCache, pcEq, decide_eq_true_eq, facts.cached] at withinCache
        obtain ⟨releasedLe, rfl, started, rfl, last, rfl, before, lastLe⟩ := here
        have fresh_le := facts.fresh_le
        have known_le := facts.known_le
        have published_le := shared.sound.published_le
        have bounded := shared.sound.bounded
        have small := cap.size_lt
        rw [toNat_sub_ofNat started.le (by omega), toNat_sub_ofNat releasedLe (by omega)]
          at withinCache
        have handed : [value] = undelivered s.consumer.pc := by simp [pcEq, undelivered]
        rw [handed]
        exact consumer_quiet shared rfl rfl rfl rfl (facts.deliver rfl ⟨rfl, by omega⟩)
      · cases taken

end ConsumerSteps

end RingState

end ArbitroKit
