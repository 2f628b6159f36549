import ArbitroKit.RingFacts

/-!
# Steps of the ring's producer

Every step of the producer keeps the shared invariant and the producer's facts,
and shows the consumer nothing but a published count that may have grown.
-/

namespace ArbitroKit

open Coherent SlotLane Cyclic

namespace RingState

variable {α : Type*}

section Producer

variable {cap : Cap} {ring : Ring α} {producer : Producer α} {known fresh : Nat}

theorem ProducerFacts.fresh_le (facts : ProducerFacts cap ring producer known fresh) :
    fresh ≤ ring.lane.released :=
  facts.follows.le

/-- Going somewhere else with nothing written or reported in between. -/
theorem ProducerFacts.goto (facts : ProducerFacts cap ring producer known fresh)
    {pc : ProducerPc α} (sameAhead : ahead pc = ahead producer.pc)
    (sameUnreported : unreported pc = unreported producer.pc)
    (here : ProducerAt cap ring.lane known pc) :
    ProducerFacts cap ring { producer with pc := pc } known fresh where
  cached := facts.cached
  known_le := facts.known_le
  follows := facts.follows
  room := facts.room
  written := by rw [sameAhead]; exact facts.written
  reported := by rw [sameUnreported]; exact facts.reported
  here := here

/-- A load of `tail` gives a count from the last one seen up to the true one. -/
theorem ProducerFacts.load (facts : ProducerFacts cap ring producer known fresh)
    {index : Nat} {tail : Usize}
    (loaded : ring.tail.load producer.tailView index = some tail) :
    ∃ count, fresh ≤ count ∧ count ≤ ring.lane.released ∧
      tail = BitVec.ofNat 64 count ∧
        ProducerFacts cap ring { producer with tailView := index } known count ∧
          ProducerFacts cap ring
            { producer with tailView := index, cachedTail := tail } count count := by
  obtain ⟨count, le, leReleased, rfl, follows⟩ := facts.follows.load loaded
  have known_le := facts.known_le
  have room := facts.room
  refine ⟨count, le, leReleased, rfl, ?_, ?_⟩
  · exact { facts with known_le := known_le.trans le, follows := follows }
  · refine
      { facts with
        cached := rfl
        known_le := le_rfl
        follows := follows
        room := by omega
        here := ?_ }
    have here := facts.here
    cases pcEq : producer.pc <;> rw [pcEq] at here <;>
      simp only [ProducerAt] at here ⊢ <;> grind

/-- Room according to a count known to the producer is room in the lane. -/
theorem ProducerFacts.room_of_lt (facts : ProducerFacts cap ring producer known fresh)
    (room : ring.lane.written.length < known + cap.size) :
    ring.lane.written.length < ring.lane.released + cap.size := by
  have known_le := facts.known_le
  have fresh_le := facts.fresh_le
  omega

end Producer

theorem loadTail_eq_some {s after : RingState α} {index : Nat} {tail : Usize}
    (loaded : s.loadTail index = some (tail, after)) :
    s.shared.tail.load s.producer.tailView index = some tail ∧
      after = { s with producer := { s.producer with tailView := index } } := by
  obtain ⟨value, present, equal⟩ := Option.map_eq_some_iff.mp loaded
  obtain ⟨rfl, rfl⟩ := Prod.mk.inj equal
  exact ⟨present, rfl⟩

theorem ConsumerRely.sameQueue {before after : RingState α}
    (consumer : after.consumer = before.consumer)
    (head : after.shared.head = before.shared.head)
    (lane : after.shared.lane = before.shared.lane) : ConsumerRely before after where
  consumer := consumer
  received := by rw [lane]
  released := by rw [lane]
  head := .inl ⟨head, by rw [lane]⟩

/-- A producer step that touches no cursor and no slot. -/
theorem producer_quiet {cap : Cap} {before after : RingState α} {known fresh : Nat}
    (shared : SharedOk cap before.shared)
    (head : after.shared.head = before.shared.head)
    (tail : after.shared.tail = before.shared.tail)
    (lane : after.shared.lane = before.shared.lane)
    (consumer : after.consumer = before.consumer)
    (facts : ProducerFacts cap before.shared after.producer known fresh) :
    SharedOk cap after.shared ∧ ProducerOk cap after ∧ ConsumerRely before after := by
  refine ⟨shared.sameQueue head tail lane, ⟨known, fresh, ?_⟩, .sameQueue consumer head lane⟩
  exact
    { cached := facts.cached
      known_le := facts.known_le
      follows := by rw [tail, lane]; exact facts.follows
      room := by rw [lane]; exact facts.room
      written := by rw [lane]; exact facts.written
      reported := by rw [lane]; exact facts.reported
      here := by rw [lane]; exact facts.here }

section ProducerSteps

variable {cap : Cap} {s after : RingState α} {known fresh : Nat}

theorem producer_trySendStart (shared : SharedOk cap s.shared)
    (facts : ProducerFacts cap s.shared s.producer known fresh)
    (call : SendCall) (value : α)
    (nothingAhead : ahead s.producer.pc = [])
    (allReported : unreported s.producer.pc = []) :
    let after := s.trySendStart cap call value
    SharedOk cap after.shared ∧ ProducerOk cap after ∧ ConsumerRely s after := by
  have written : s.shared.lane.written.length = s.shared.lane.published := by
    rw [facts.written, nothingAhead, List.append_nil, shared.sound.length_sent]
  have room := facts.room
  have known_le := facts.known_le.trans facts.fresh_le
  have released_le := shared.sound.released_le.trans shared.sound.received_le
  have full := isFull_iff cap s.shared.lane.published known
    (by omega) (by omega)
  rw [← shared.head, ← facts.cached] at full
  unfold trySendStart
  dsimp only
  split
  · exact producer_quiet shared rfl rfl rfl rfl
      (facts.goto (by rw [nothingAhead]; rfl) (by rw [allReported]; rfl) shared.head)
  · refine producer_quiet shared rfl rfl rfl rfl
      (facts.goto (by rw [nothingAhead]; rfl) (by rw [allReported]; rfl)
        ⟨shared.head, ?_⟩)
    grind

/-- Writing the next slot. -/
theorem producer_writeSlot (shared : SharedOk cap s.shared)
    (facts : ProducerFacts cap s.shared s.producer known fresh)
    {head : Usize} {value : α} {pc : ProducerPc α}
    (headEq : head = BitVec.ofNat 64 s.shared.lane.written.length)
    (room : s.shared.lane.written.length < known + cap.size)
    (nextAhead : ahead pc = ahead s.producer.pc ++ [value])
    (sameUnreported : unreported pc = unreported s.producer.pc)
    (here : ProducerAt cap (s.shared.lane.write
      (s.shared.lane.written.length % cap.size) value) known pc) :
    let after := (s.writeSlot (cap.slot head) value).producerAt pc
    SharedOk cap after.shared ∧ ProducerOk cap after ∧ ConsumerRely s after := by
  subst headEq
  have sound := shared.sound.write (facts.room_of_lt room) value
  rw [Capacity.slot_ofNat]
  refine ⟨⟨sound, shared.head, shared.tail⟩, ⟨known, fresh, ?_⟩,
    ⟨rfl, rfl, rfl, .inl ⟨rfl, rfl⟩⟩⟩
  exact
    { cached := facts.cached
      known_le := facts.known_le
      follows := facts.follows
      room := by
        simp only [writeSlot, producerAt, Lane.write, List.length_append,
          List.length_singleton]
        omega
      written := by
        change s.shared.lane.written ++ [value] = Lane.sent (Lane.write _ _ _) ++ ahead pc
        rw [shared.sound.sent_write, nextAhead, ← List.append_assoc, ← facts.written]
      reported := by
        change Lane.sent (Lane.write _ _ _) = s.producer.accepted ++ unreported pc
        rw [shared.sound.sent_write, sameUnreported]
        exact facts.reported
      here := here }

/-- The Release store that publishes everything written. -/
theorem producer_storeHead (shared : SharedOk cap s.shared)
    (facts : ProducerFacts cap s.shared s.producer known fresh)
    {head : Usize} {pc : ProducerPc α}
    (headEq : head = BitVec.ofNat 64 s.shared.lane.written.length)
    (noneAhead : ahead pc = [])
    (allReported : unreported s.producer.pc = [])
    (nextUnreported : unreported pc = ahead s.producer.pc)
    (here : ProducerAt cap s.shared.lane.publish known pc) :
    let after := (s.storeHead head).producerAt pc
    SharedOk cap after.shared ∧ ProducerOk cap after ∧ ConsumerRely s after := by
  subst headEq
  refine ⟨⟨shared.sound.publish, rfl, shared.tail⟩, ⟨known, fresh, ?_⟩,
    ⟨rfl, rfl, rfl, .inr ⟨rfl, shared.sound.published_le⟩⟩⟩
  exact
    { cached := facts.cached
      known_le := facts.known_le
      follows := facts.follows
      room := facts.room
      written := by
        change s.shared.lane.written = Lane.sent (Lane.publish _) ++ ahead pc
        rw [Lane.sent_publish, noneAhead, List.append_nil]
      reported := by
        change Lane.sent (Lane.publish _) = s.producer.accepted ++ unreported pc
        have reported := facts.reported
        rw [allReported, List.append_nil] at reported
        rw [Lane.sent_publish, nextUnreported, ← reported]
        exact facts.written
      here := here }

theorem bulkStart_at {ring : Ring α} {producer : Producer α} (shared : SharedOk cap ring)
    (facts : ProducerFacts cap ring producer known fresh)
    {items : List α} (nonempty : items ≠ [])
    (nothingAhead : ahead producer.pc = []) :
    ahead (bulkStart cap items (BitVec.ofNat 64 ring.lane.published)
      (BitVec.ofNat 64 known)) = [] ∧
    unreported (bulkStart cap items (BitVec.ofNat 64 ring.lane.published)
      (BitVec.ofNat 64 known)) = [] ∧
    ProducerAt cap ring.lane known
      (bulkStart cap items (BitVec.ofNat 64 ring.lane.published)
        (BitVec.ofNat 64 known)) := by
  have written : ring.lane.written.length = ring.lane.published := by
    rw [facts.written, nothingAhead, List.append_nil, shared.sound.length_sent]
  have room := facts.room
  have known_le := facts.known_le.trans facts.fresh_le
  have released_le := shared.sound.released_le.trans shared.sound.received_le
  have small := cap.size_lt
  have count : 0 < items.length := List.length_pos_iff.mpr nonempty
  have used : (BitVec.ofNat 64 ring.lane.published - BitVec.ofNat 64 known).toNat =
      ring.lane.published - known :=
    toNat_sub_ofNat (by omega) (by omega)
  unfold bulkStart
  rw [used]
  dsimp only
  split
  · exact ⟨rfl, rfl, rfl⟩
  · refine ⟨rfl, rfl, by rw [written], ?_, ?_, ?_⟩ <;> omega

/-- A producer step keeps the lane sound and its own facts, and shows the
consumer nothing but a growing published count. -/
theorem producer_tick (shared : SharedOk cap s.shared)
    (facts : ProducerFacts cap s.shared s.producer known fresh) {index : Nat}
    (taken : s.producerTick cap index = some after) :
    SharedOk cap after.shared ∧ ProducerOk cap after ∧ ConsumerRely s after := by
  have here := facts.here
  have known_le := facts.known_le.trans facts.fresh_le
  have released_le := shared.sound.released_le.trans shared.sound.received_le
  have writtenLength : s.shared.lane.written.length =
      s.shared.lane.published + (ahead s.producer.pc).length := by
    rw [facts.written, List.length_append, shared.sound.length_sent]
  have room := facts.room
  unfold producerTick at taken
  cases pcEq : s.producer.pc with
  | idle => simp [pcEq] at taken
  | sendRefresh call value head =>
      simp only [pcEq] at taken here
      obtain ⟨⟨tail, loadedState⟩, loaded, rfl⟩ := Option.map_eq_some_iff.mp taken
      obtain ⟨read, rfl⟩ := loadTail_eq_some loaded
      obtain ⟨count, le, leReleased, rfl, -, facts⟩ := facts.load read
      dsimp only
      have room := facts.room
      have full := isFull_iff cap s.shared.lane.published count
        (by omega) (by simp [pcEq, ahead] at writtenLength; omega)
      rw [here]
      split
      · exact producer_quiet shared rfl rfl rfl rfl
          (facts.goto (by simp [pcEq, ahead]) (by simp [pcEq, unreported]) trivial)
      · refine producer_quiet shared rfl rfl rfl rfl
          (facts.goto (by simp [pcEq, ahead]) (by simp [pcEq, unreported])
            ⟨rfl, ?_⟩)
        simp [pcEq, ahead] at writtenLength
        grind
  | sendClosed call value =>
      simp only [pcEq, Option.some.injEq] at taken
      subst taken
      refine producer_quiet shared rfl rfl rfl rfl (facts.goto ?_ ?_ ?_)
      all_goals
        cases call <;> cases s.shared.closed <;>
          simp [pcEq, sendRejected, ahead, unreported, ProducerAt, acceptedCount]
  | sendWrite call value head =>
      simp only [pcEq, Option.some.injEq] at taken here
      subst taken
      simp [pcEq, ahead] at writtenLength
      obtain ⟨headEq, available⟩ := here
      refine producer_writeSlot shared facts (headEq.trans (by rw [writtenLength]))
        (by omega) (by simp [pcEq, ahead]) (by simp [pcEq, unreported]) headEq
  | sendPublish call value head =>
      simp only [pcEq, Option.some.injEq] at taken here
      subst taken
      simp [pcEq, ahead] at writtenLength
      refine producer_storeHead shared facts ?_ rfl (by simp [pcEq, unreported])
        (by simp [pcEq, ahead, unreported]) trivial
      rw [here, writtenLength, ofNat_add_one]
  | sendWake call value =>
      simp only [pcEq, Option.some.injEq] at taken
      subst taken
      refine producer_quiet shared rfl rfl rfl rfl (facts.goto ?_ ?_ ?_)
      all_goals
        cases call <;>
          simp [pcEq, sendAccepted, ahead, unreported, ProducerAt, acceptedCount]
  | bulkRefresh items head =>
      simp only [pcEq] at taken here
      obtain ⟨⟨tail, loadedState⟩, loaded, rfl⟩ := Option.map_eq_some_iff.mp taken
      obtain ⟨read, rfl⟩ := loadTail_eq_some loaded
      obtain ⟨count, le, leReleased, rfl, -, facts⟩ := facts.load read
      dsimp only
      obtain ⟨rfl, nonempty⟩ := here
      obtain ⟨noneAhead, reported, here⟩ :=
        bulkStart_at shared facts nonempty (by simp [pcEq, ahead])
      exact producer_quiet shared rfl rfl rfl rfl
        (facts.goto (by simpa [pcEq, ahead] using noneAhead)
          (by simpa [pcEq, unreported] using reported) here)
  | bulkWrite items head left written =>
      simp only [pcEq] at taken here
      obtain ⟨headEq, enough, positive, leftLe⟩ := here
      cases lastEq : items.getLast? with
      | none => simp [lastEq] at taken
      | some value =>
          simp only [lastEq] at taken
          split at taken
          · cases taken
            refine producer_writeSlot shared facts headEq (by omega)
              (by simp [pcEq, ahead]) (by simp [pcEq, unreported]) ?_
            simp only [ProducerAt, Lane.write, List.length_append, List.length_singleton]
            rw [headEq, ofNat_add_one]
          · cases taken
            refine producer_writeSlot shared facts headEq (by omega)
              (by simp [pcEq, ahead]) (by simp [pcEq, unreported]) ?_
            simp only [ProducerAt, Lane.write, List.length_append, List.length_singleton,
              List.length_dropLast]
            refine ⟨by rw [headEq, ofNat_add_one], ?_, ?_, ?_⟩ <;> omega
  | bulkPublish items head written =>
      simp only [pcEq, Option.some.injEq] at taken here
      subst taken
      exact producer_storeHead shared facts here rfl (by simp [pcEq, unreported])
        (by simp [pcEq, ahead, unreported]) trivial
  | bulkWake items written =>
      simp only [pcEq, Option.some.injEq] at taken
      subst taken
      exact producer_quiet shared rfl rfl rfl rfl
        (facts.goto (by simp [pcEq, ahead]) (by simp [pcEq, unreported]) rfl)
  | sendRetry value =>
      simp only [pcEq, Option.some.injEq] at taken
      subst taken
      exact producer_trySendStart shared facts .send value (by simp [pcEq, ahead])
        (by simp [pcEq, unreported])
  | waitHead phase value =>
      simp only [pcEq, Option.some.injEq] at taken
      subst taken
      exact producer_quiet shared rfl rfl rfl rfl
        (facts.goto (by simp [pcEq, ahead]) (by simp [pcEq, unreported]) trivial)
  | waitTail phase value head =>
      simp only [pcEq] at taken
      obtain ⟨⟨tail, loadedState⟩, loaded, rfl⟩ := Option.map_eq_some_iff.mp taken
      obtain ⟨read, rfl⟩ := loadTail_eq_some loaded
      obtain ⟨count, le, leReleased, rfl, facts, -⟩ := facts.load read
      dsimp only
      split
      · exact producer_quiet shared rfl rfl rfl rfl
          (facts.goto (by simp [pcEq, ahead]) (by simp [pcEq, unreported]) trivial)
      · refine producer_quiet shared rfl rfl rfl rfl (facts.goto ?_ ?_ ?_)
        all_goals cases phase <;> simp [pcEq, sendWaited, ahead, unreported, ProducerAt]
  | waitClosed phase value =>
      simp only [pcEq, Option.some.injEq] at taken
      subst taken
      refine producer_quiet shared rfl rfl rfl rfl (facts.goto ?_ ?_ ?_)
      all_goals
        cases phase <;> cases s.shared.closed <;>
          simp [pcEq, sendWaited, ahead, unreported, ProducerAt]
  | waitAnnounce value =>
      simp only [pcEq, Option.some.injEq] at taken
      subst taken
      exact producer_quiet shared rfl rfl rfl rfl
        (facts.goto (by simp [pcEq, ahead]) (by simp [pcEq, unreported]) trivial)
  | waitPark value =>
      simp only [pcEq] at taken
      split at taken
      · cases taken
        exact producer_quiet shared rfl rfl rfl rfl
          (facts.goto (by simp [pcEq, ahead]) (by simp [pcEq, unreported]) trivial)
      · cases taken
  | waitLeave value =>
      simp only [pcEq, Option.some.injEq] at taken
      subst taken
      exact producer_quiet shared rfl rfl rfl rfl
        (facts.goto (by simp [pcEq, ahead]) (by simp [pcEq, unreported]) trivial)
  | dropWakeFull =>
      simp only [pcEq, Option.some.injEq] at taken
      subst taken
      exact producer_quiet shared rfl rfl rfl rfl
        (facts.goto (by simp [pcEq, ahead]) (by simp [pcEq, unreported]) trivial)
  | dropWakeEmpty =>
      simp only [pcEq, Option.some.injEq] at taken
      subst taken
      exact producer_quiet shared rfl rfl rfl rfl
        (facts.goto (by simp [pcEq, ahead]) (by simp [pcEq, unreported]) trivial)
  | gone => simp [pcEq] at taken
  | returned outcome accepted =>
      simp only [pcEq, Option.some.injEq] at taken
      subst taken
      have facts : ProducerFacts cap s.shared
          { s.producer with pc := .idle, accepted := s.producer.accepted ++ accepted }
          known fresh :=
        { cached := facts.cached
          known_le := facts.known_le
          follows := facts.follows
          room := facts.room
          written := by simpa [pcEq, ahead] using facts.written
          reported := by simpa [pcEq, unreported] using facts.reported
          here := trivial }
      exact producer_quiet shared rfl rfl rfl rfl facts

/-- Entering a call and dropping the handle are no different. -/
theorem producer_step (shared : SharedOk cap s.shared)
    (producer : ProducerOk cap s) {action : ProducerAction α}
    (taken : s.producerStep cap action = some after) :
    SharedOk cap after.shared ∧ ProducerOk cap after ∧ ConsumerRely s after := by
  obtain ⟨known, fresh, facts⟩ := producer
  cases action with
  | tick index => exact producer_tick shared facts taken
  | trySend value | send value =>
      simp only [producerStep] at taken
      split at taken
      · rename_i pcEq
        cases taken
        exact producer_trySendStart shared facts _ value (by simp [pcEq, ahead])
          (by simp [pcEq, unreported])
      · cases taken
  | trySendBulk items =>
      simp only [producerStep] at taken
      split at taken
      · rename_i pcEq
        have goto {pc : ProducerPc α} (noneAhead : ahead pc = [])
            (reported : unreported pc = []) (here : ProducerAt cap s.shared.lane known pc) :
            SharedOk cap (s.producerAt pc).shared ∧ ProducerOk cap (s.producerAt pc) ∧
              ConsumerRely s (s.producerAt pc) :=
          producer_quiet shared rfl rfl rfl rfl
            (facts.goto (by rw [noneAhead, pcEq]; rfl) (by rw [reported, pcEq]; rfl) here)
        split at taken
        · cases taken
          exact goto rfl rfl rfl
        · rename_i notEmpty
          have nonempty : items ≠ [] := by simpa using notEmpty
          split at taken
          · cases taken
            exact goto rfl rfl ⟨shared.head, nonempty⟩
          · cases taken
            rw [shared.head, facts.cached]
            obtain ⟨noneAhead, reported, here⟩ :=
              bulkStart_at shared facts nonempty (by rw [pcEq]; rfl)
            exact goto noneAhead reported here
      · cases taken
  | drop =>
      simp only [producerStep] at taken
      split at taken
      · rename_i pcEq
        cases taken
        exact producer_quiet shared rfl rfl rfl rfl
          (facts.goto (by rw [pcEq]; rfl) (by rw [pcEq]; rfl) trivial)
      · cases taken
  | spin | spurious =>
      simp only [producerStep] at taken
      split at taken
      · rename_i pcEq
        cases taken
        exact producer_quiet shared rfl rfl rfl rfl
          (facts.goto (by rw [pcEq]; rfl) (by rw [pcEq]; rfl) trivial)
      · cases taken

end ProducerSteps

end RingState

end ArbitroKit
