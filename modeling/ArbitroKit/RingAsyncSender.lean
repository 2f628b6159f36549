import ArbitroKit.RingAsyncLink

/-!
# Steps of the ring's sending task

Every step of the producer handle and of a `send_async` future keeps the link: its calls
with the wakes inside them, its loads of the predicate, its notification, and its drop.
-/

namespace ArbitroKit

open Coherent SlotLane Cyclic Transition

namespace AsyncRing

open AsyncGate RingState

variable {α : Type*} {cap : Cap} {s after : AsyncRing α}

/-- What a step inside the producer's call can be. -/
inductive ProducerTicks (cap : Cap) (s : AsyncRing α) (index : Nat) (saw : Bool) :
    AsyncRing α → Prop
  | silent {ring : RingState α} (silent : producerWakes s.ring.producer.pc = none)
      (ticked : s.ring.producerTick cap index = some ring) :
      ProducerTicks cap s index saw (s.setRing ring)
  | inWake {which : RingGate} {stage : WakeStage}
      (wakes : producerWakes s.ring.producer.pc = some which)
      (goes : ((s.gate which).wakeStep (s.producerStored which) saw s.sendStage).2 = some stage) :
      ProducerTicks cap s index saw
        { s.setGate which
            ((s.gate which).wakeStep (s.producerStored which) saw s.sendStage).1 with
          sendStage := stage }
  | woken {which : RingGate} {ring : RingState α}
      (wakes : producerWakes s.ring.producer.pc = some which)
      (leaves : ((s.gate which).wakeStep (s.producerStored which) saw s.sendStage).2 = none)
      (ticked : s.ring.producerTick cap index = some ring) :
      ProducerTicks cap s index saw
        { (s.setGate which
            ((s.gate which).wakeStep (s.producerStored which) saw s.sendStage).1).setRing ring with
          sendStage := .probe }

theorem producerTicks_of {index : Nat} {saw : Bool}
    (taken : s.producerTick cap index saw = some after) :
    ProducerTicks cap s index saw after := by
  unfold AsyncRing.producerTick at taken
  split at taken
  · obtain ⟨ring, ticked, rfl⟩ := Option.map_eq_some_iff.mp taken
    exact .silent (by assumption) ticked
  · dsimp only at taken
    split at taken
    · cases taken
      exact .inWake (by assumption) (by assumption)
    · obtain ⟨ring, ticked, rfl⟩ := Option.map_eq_some_iff.mp taken
      exact .woken (by assumption) (by assumption) ticked

/-- The step leaves both tasks' places alone, and the ring goes on unless a wake does. -/
theorem ProducerTicks.frame {index : Nat} {saw : Bool}
    (ticks : ProducerTicks cap s index saw after) :
    after.sender = s.sender ∧ after.receiver = s.receiver ∧ after.recvStage = s.recvStage ∧
      (after.ring = s.ring ∨ s.ring.producerTick cap index = some after.ring) := by
  cases ticks with
  | silent silent ticked => exact ⟨rfl, rfl, rfl, .inr ticked⟩
  | @inWake which stage wakes goes => cases which <;> exact ⟨rfl, rfl, rfl, .inl rfl⟩
  | @woken which ring wakes leaves ticked => cases which <;> exact ⟨rfl, rfl, rfl, .inr ticked⟩

namespace LinkOk

/-- A step of the ring's producer, with what a wake of it has done to the gates. -/
theorem senderMoves (ok : LinkOk cap s) {ring : RingState α} {notFull notEmpty : AsyncGate}
    {pc : RingSenderPc α} {onWay : Prop} (stage : WakeStage)
    (kept : SharedOk cap ring.shared ∧ ProducerOk cap ring ∧ ConsumerRely s.ring ring)
    (moves : ProducerMoves s.ring ring) (sends : notFull.Ok .away)
    (tails : Heard notFull .away 0 s.ring.shared.tail.latest s.ring.producer.tailView
      (consumerDue s.ring.consumer.pc = true))
    (receives : notEmpty.Ok s.receiver.phase)
    (heads : Listens notEmpty s.receiver.phase 0 s.ring.shared.head.latest
      s.ring.consumer.headView onWay s.receiver.Found
      (RingCheck.Calm (s.ring.shared.lane.published = s.ring.shared.lane.released)
        (s.ring.shared.closed = true) s.receiver.looked))
    (stays : onWay → producerDue ring.producer.pc = true) (away : pc.phase = .away)
    (check : ∀ published, pc.CheckAt published) (here : pc.RingAt ring.producer.pc) :
    LinkOk cap ⟨ring, notFull, notEmpty, pc, s.receiver, stage, s.recvStage⟩ := by
  obtain ⟨shared, producer, rely⟩ := kept
  have consumer : ConsumerOk ring := rely.stable ok.consumer
  have released := rely.released
  have head := rely.head
  obtain ⟨ringShared, ringProducer, ringConsumer⟩ := ring
  obtain rfl : ringConsumer = s.ring.consumer := rely.consumer
  exact
    { shared := shared
      producer := producer
      consumer := consumer
      sends := by
        change notFull.Ok pc.phase
        rw [away]
        exact sends
      senderAt := here
      senderCheck := check _
      tails := by
        refine .leaves ?_ (RingSenderPc.not_found away)
        change Heard notFull pc.phase 0 ringShared.tail.latest ringProducer.tailView _
        rw [away, show ringShared.tail = s.ring.shared.tail from moves.tail]
        exact tails.sees moves.view_le
      receives := receives
      receiverAt := ok.receiverAt
      receiverCheck := by
        rcases head with ⟨same, -⟩ | ⟨stored, -⟩
        · change s.receiver.CheckAt ringShared.head _
          rw [show ringShared.head = s.ring.shared.head from same]
          exact ok.receiverCheck
        · change s.receiver.CheckAt ringShared.head _
          rw [show ringShared.head = _ from stored]
          exact ok.receiverCheck.store _
      heads := by
        rcases moves.shows with ⟨head, published, closed⟩ | ⟨later, due⟩
        · change Listens notEmpty _ 0 ringShared.head.latest _ _ _ (RingCheck.Calm
            (ringShared.lane.published = ringShared.lane.released) (ringShared.closed = true) _)
          rw [show ringShared.head = _ from head, show ringShared.lane.published = _ from published,
            show ringShared.lane.released = _ from released,
            show ringShared.closed = _ from closed]
          exact heads.comes stays
        · exact heads.stores later due }

/-- A step of the producer's call, or into it. -/
theorem senderCall (ok : LinkOk cap s) {ring : RingState α} {pc : RingSenderPc α}
    (kept : SharedOk cap ring.shared ∧ ProducerOk cap ring ∧ ConsumerRely s.ring ring)
    (moves : ProducerMoves s.ring ring)
    (silent : producerDue s.ring.producer.pc = false) (outside : s.sender.phase = .away)
    (away : pc.phase = .away) (check : ∀ published, pc.CheckAt published)
    (here : pc.RingAt ring.producer.pc) :
    LinkOk cap ((s.setRing ring).senderAt pc) := by
  have sends := ok.sends
  have tails := ok.tails.toHeard
  rw [outside] at sends tails
  apply ok.senderMoves s.sendStage kept moves sends tails ok.receives ok.heads ?_ away check here
  rw [silent]
  exact fun never => absurd never Bool.false_ne_true

/-- A step of `wake` inside the producer's call. -/
theorem producerWake (ok : LinkOk cap s) (outside : s.sender.phase = .away) {ring : RingState α}
    {pc : RingSenderPc α} {saw : Bool} {which : RingGate} (stage : WakeStage)
    (kept : SharedOk cap ring.shared ∧ ProducerOk cap ring ∧ ConsumerRely s.ring ring)
    (moves : ProducerMoves s.ring ring)
    (stays : ((s.gate which).wakeStep (s.producerStored which) saw s.sendStage).2.isSome = true ∨
      which = .notFull → producerDue ring.producer.pc = true)
    (away : pc.phase = .away) (check : ∀ published, pc.CheckAt published)
    (here : pc.RingAt ring.producer.pc) :
    LinkOk cap
      { ((s.setGate which
          ((s.gate which).wakeStep (s.producerStored which) saw s.sendStage).1).setRing ring) with
        sender := pc, sendStage := stage } := by
  have sends := ok.sends
  have tails := ok.tails.toHeard
  rw [outside] at sends tails
  cases which with
  | notEmpty =>
      have heads := ok.heads.ownWakeStep ok.receives saw s.sendStage
      exact ok.senderMoves stage kept moves sends tails (ok.receives.wakeStep _ saw s.sendStage)
        heads (fun goes => stays (.inl goes)) away check here
  | notFull =>
      have own : ∀ count, (none : Option (Nat × Nat)) = some (0, count) →
          count = s.ring.shared.tail.latest := by
        intro count never
        cases never
      exact ok.senderMoves stage kept moves (sends.wakeStep none saw s.sendStage)
        (tails.wakeStep own saw s.sendStage) ok.receives ok.heads (fun _ => stays (.inr rfl))
        away check here

/-- A step inside the producer's call, behind which the task may go on elsewhere. -/
theorem producerTick (ok : LinkOk cap s) (outside : s.sender.phase = .away) {index : Nat}
    {saw : Bool} (ticks : ProducerTicks cap s index saw after) {pc : RingSenderPc α}
    (away : pc.phase = .away) (check : ∀ published, pc.CheckAt published)
    (here : pc.RingAt after.ring.producer.pc) : LinkOk cap (after.senderAt pc) := by
  have kept {ring : RingState α} (ticked : s.ring.producerTick cap index = some ring) :=
    producer_step ok.shared ok.producer (show s.ring.producerStep cap (.tick index) = _ from ticked)
  cases ticks with
  | silent silent ticked =>
      exact ok.senderCall (kept ticked) (producerMoves_tick silent ticked)
        (producerDue_of_silent silent) outside away check here
  | @inWake which stage wakes goes =>
      have same : ConsumerRely s.ring s.ring := ⟨rfl, rfl, rfl, .inl ⟨rfl, rfl⟩⟩
      have stays := producerDue_of_wakes wakes
      cases which <;>
        exact ok.producerWake outside stage ⟨ok.shared, ok.producer, same⟩
          (.quiet rfl rfl rfl rfl le_rfl) (fun _ => stays) away check here
  | @woken which ring wakes leaves ticked =>
      obtain ⟨moves, -, -, -, closes⟩ := producerWake_tick wakes ticked
      refine ok.producerWake outside .probe (kept ticked) moves ?_ away check ?_
      · rintro (goes | full)
        · rw [leaves] at goes
          cases goes
        · exact closes full
      · exact here

/-- A step of the sender's wait. -/
theorem senderWaits (ok : LinkOk cap s) {notFull : AsyncGate} {view : Nat} {pc : RingSenderPc α}
    (known : ProducerOk cap
      { s.ring with producer := { s.ring.producer with tailView := view } })
    (sends : notFull.Ok pc.phase) (here : pc.RingAt s.ring.producer.pc)
    (check : pc.CheckAt s.ring.shared.lane.published)
    (tails : Listens notFull pc.phase 0 s.ring.shared.tail.latest view
      (consumerDue s.ring.consumer.pc = true) pc.Found
      (RingCheck.Calm (s.ring.shared.lane.published = s.ring.shared.lane.released + cap.size)
        (s.ring.shared.closed = true) pc.looked)) :
    LinkOk cap
      { s with
        ring := { s.ring with producer := { s.ring.producer with tailView := view } }
        notFull := notFull
        sender := pc } where
  shared := ok.shared
  producer := known
  consumer := ok.consumer
  sends := sends
  senderAt := here
  senderCheck := check
  tails := tails
  receives := ok.receives
  receiverAt := ok.receiverAt
  receiverCheck := ok.receiverCheck
  heads := ok.heads

/-- A step that leaves ring and gates alone, with no wait on either side of it. -/
theorem senderGoes (ok : LinkOk cap s) (outside : s.sender.phase = .away) {pc : RingSenderPc α}
    (away : pc.phase = .away) (here : pc.RingAt s.ring.producer.pc)
    (check : ∀ published, pc.CheckAt published) : LinkOk cap (s.senderAt pc) := by
  have sends := ok.sends
  have heard := ok.tails.toHeard
  rw [outside, ← away] at sends heard
  exact ok.senderWaits ok.producer sends here (check _)
    (.leaves heard (RingSenderPc.not_found away))

/-- A load of the predicate of `send_async`. -/
theorem sendCheck (ok : LinkOk cap s) {value : α} {phase : WaitPhase} {rest : RingCheck}
    {index : Nat} (waiting : s.sender = .waits value (.check phase rest))
    (taken : s.sendCheck cap value phase index rest = some after) : LinkOk cap after := by
  have sends := ok.sends
  have tails := ok.tails
  have idle := ok.senderAt
  have check := ok.senderCheck
  rw [waiting] at sends idle check
  rw [TailListens, waiting] at tails
  have loads {later : RingCheck} (sends : s.notFull.Ok (AwaitPc.check phase rest).phase) :
      s.notFull.Ok (AwaitPc.check phase later).phase := by
    rwa [AwaitPc.phase_check phase rest later]
  cases rest with
  | head =>
      cases taken
      exact ok.senderWaits ok.producer (loads sends) idle ok.shared.head
        (AwaitPc.listens_loads tails le_rfl fun never => never.elim)
  | tail head =>
      obtain ⟨⟨tail, loadedState⟩, loaded, rfl⟩ := Option.map_eq_some_iff.mp taken
      obtain ⟨read, rfl⟩ := loadTail_eq_some loaded
      have seen := (Location.load_eq_some read).1
      obtain ⟨known, fresh, facts⟩ := ok.producer
      obtain ⟨count, -, -, -, view, -⟩ := facts.load read
      change LinkOk cap (AsyncRing.senderAt _ (if _ then _ else _))
      split
      · rename_i full
        refine ok.senderWaits ⟨known, count, view⟩ (loads sends) idle trivial
          (AwaitPc.listens_loads tails seen fun _ => .inr fun newest => ?_)
        rw [Location.current_of_load read newest, ok.shared.tail, show head = _ from check] at full
        obtain ⟨ordered, near, -⟩ := ok.shared.near
        exact (isFull_iff cap _ _ ordered near).mp full
      · have answered := AwaitPc.listens_answered true
          (tails.sees seen) fun never => by cases never
        refine ok.senderWaits ⟨known, count, view⟩ ?_ (RingSenderPc.ringAt_sendWaited idle) ?_ ?_
        · rw [RingSenderPc.phase_sendWaited]
          exact AwaitPc.ok_answered sends
        · cases phase <;> trivial
        · rw [RingSenderPc.phase_sendWaited, RingSenderPc.found_sendWaited,
            RingSenderPc.looked_sendWaited]
          exact answered
  | closed =>
      cases taken
      refine ok.senderWaits ok.producer ?_ (RingSenderPc.ringAt_sendWaited idle) ?_ ?_
      · rw [RingSenderPc.phase_sendWaited]
        exact AwaitPc.ok_answered sends
      · cases phase <;> cases s.ring.shared.closed <;> trivial
      · rw [RingSenderPc.phase_sendWaited, RingSenderPc.found_sendWaited,
          RingSenderPc.looked_sendWaited]
        refine AwaitPc.listens_answered _ tails fun unclosed _ => ⟨trivial, fun full => ⟨full, ?_⟩⟩
        rw [unclosed]
        exact Bool.false_ne_true

/-- A step of the notification of `send_async`. -/
theorem sendTicks (ok : LinkOk cap s) {value : α} {pc : AwaitPc RingCheck}
    {step : Awaited RingCheck} (waiting : s.sender = .waits value pc)
    (ticks : pc.tick s.notFull .head = some step) :
    LinkOk cap
      { s with
        ring := s.ring.seeTail (step.seen 0)
        notFull := step.gate
        sender := sendWaited value step.next } := by
  have sends := ok.sends
  have tails := ok.tails
  have idle := ok.senderAt
  rw [waiting] at sends idle
  rw [TailListens, waiting] at tails
  have known : ProducerOk cap (s.ring.seeTail (step.seen 0)) :=
    ok.producer.seeTail (AwaitPc.seen_le_tick tails.toHeard ticks)
  have listens := AwaitPc.listens_tick sends tails id ticks
  refine ok.senderWaits known ?_ (RingSenderPc.ringAt_sendWaited idle) ?_ ?_
  · rw [RingSenderPc.phase_sendWaited]
    exact AwaitPc.ok_tick sends ticks
  · cases AwaitPc.tick_steps ticks with
    | disarm next => cases next <;> trivial
    | _ => trivial
  · rw [RingSenderPc.phase_sendWaited, RingSenderPc.found_sendWaited,
      RingSenderPc.looked_sendWaited]
    exact listens

theorem sendWait (ok : LinkOk cap s) {value : α} {pc : AwaitPc RingCheck} {index : Nat}
    (waiting : s.sender = .waits value pc) (taken : s.sendWait cap value index pc = some after) :
    LinkOk cap after := by
  cases pc with
  | check phase rest => exact ok.sendCheck waiting taken
  | notified | poll | suspended | dropNotified next | disarm next =>
      simp only [AsyncRing.sendWait] at taken
      obtain ⟨step, ticks, rfl⟩ := Option.map_eq_some_iff.mp taken
      exact ok.sendTicks waiting ticks

/-- The future of `send_async` is dropped. -/
theorem sendCancel (ok : LinkOk cap s) (taken : s.senderStep cap .cancel = some after) :
    LinkOk cap after := by
  simp only [senderStep] at taken
  split at taken
  · rename_i value unpolled
    have idle := ok.senderAt
    rw [unpolled] at idle
    cases taken
    exact ok.senderGoes (by rw [unpolled]; rfl) rfl idle fun _ => trivial
  · rename_i value suspended
    have sends := ok.sends
    have tails := ok.tails
    have idle := ok.senderAt
    rw [suspended] at sends idle
    rw [TailListens, suspended] at tails
    cases taken
    exact ok.senderWaits ok.producer (sends.cancel rfl) idle trivial
      (AwaitPc.listens_cancel tails.toHeard id)
  · cases taken

/-- A call of the idle producer handle. -/
theorem producerCall (ok : LinkOk cap s) {call : ProducerAction α} {pc : RingSenderPc α}
    (taken : s.producerCall cap call pc = some after) (away : pc.phase = .away)
    (check : ∀ published, pc.CheckAt published)
    (here : ∀ ring, s.ring.producerStep cap call = some ring → pc.RingAt ring.producer.pc) :
    LinkOk cap after := by
  unfold AsyncRing.producerCall at taken
  split at taken
  · rename_i idle
    have ringIdle := ok.senderAt
    rw [idle] at ringIdle
    obtain ⟨ring, called, rfl⟩ := Option.map_eq_some_iff.mp taken
    refine ok.senderCall (producer_step ok.shared ok.producer called)
      (producerMoves_call ringIdle called) ?_ (by rw [idle]; rfl) away check (here ring called)
    rw [show s.ring.producer.pc = .idle from ringIdle]
    rfl
  · cases taken

/-- The ring's producer is back from a call. -/
theorem idle_of_returned {ring after : RingState α} {index : Nat} {outcome : ProducerOutcome α}
    {accepted : List α} (returned : ring.producer.pc = .returned outcome accepted)
    (taken : ring.producerTick cap index = some after) : after.producer.pc = .idle := by
  simp only [RingState.producerTick, returned, Option.some.injEq] at taken
  rw [← taken]

/-- A call that has returned makes no wake. -/
theorem returned_ticks {index : Nat} {saw : Bool} {outcome : ProducerOutcome α}
    {accepted : List α} (returned : s.ring.producer.pc = .returned outcome accepted)
    (ticks : ProducerTicks cap s index saw after) : after.ring.producer.pc = .idle := by
  cases ticks with
  | silent silent ticked => exact idle_of_returned returned ticked
  | inWake wakes | woken wakes =>
      rw [returned] at wakes
      cases wakes

/-- What `try_send` returns is a result of `try_send`. -/
theorem notReturned_of_inTrySend {value : α} {pc : ProducerPc α} (inside : InTrySend value pc)
    (notReturned : ∀ result accepted, pc ≠ .returned (.trySend result) accepted)
    (outcome : ProducerOutcome α) (accepted : List α) : pc ≠ .returned outcome accepted := by
  rintro rfl
  cases outcome with
  | trySend result => exact notReturned result accepted rfl
  | send result | trySendBulk taken items => exact inside.elim

/-- Every step of the sender's side keeps the link. -/
theorem senderTick (ok : LinkOk cap s) {index : Nat} {saw : Bool}
    (taken : s.senderTick cap index saw = some after) : LinkOk cap after := by
  have here := ok.senderAt
  unfold AsyncRing.senderTick at taken
  cases pcEq : s.sender with
  | idle | gone => simp [pcEq] at taken
  | inCall =>
      have outside : s.sender.phase = .away := by rw [pcEq]; rfl
      simp only [pcEq] at taken
      split at taken
      · rename_i outcome accepted returned
        obtain ⟨next, ticked, rfl⟩ := Option.map_eq_some_iff.mp taken
        have ticks := producerTicks_of ticked
        exact ok.producerTick outside ticks rfl (fun _ => trivial) (returned_ticks returned ticks)
      · have ticks := producerTicks_of taken
        have stays : LinkOk cap (after.senderAt .inCall) :=
          ok.producerTick outside ticks rfl (fun _ => trivial) trivial
        rwa [show after.senderAt .inCall = after by
          rw [AsyncRing.senderAt, ← pcEq, ← ticks.frame.1]] at stays
  | unpolled value =>
      rw [pcEq] at here
      simp only [pcEq, Option.some.injEq] at taken
      subst taken
      exact ok.senderGoes (by rw [pcEq]; rfl) rfl here fun _ => trivial
  | enterTrySend value =>
      rw [pcEq] at here
      simp only [pcEq] at taken
      obtain ⟨ring, called, rfl⟩ := Option.map_eq_some_iff.mp taken
      refine ok.senderCall (producer_step ok.shared ok.producer called)
        (producerMoves_call here called) ?_ (by rw [pcEq]; rfl) rfl (fun _ => trivial)
        (trySend_shows called).1
      rw [show s.ring.producer.pc = .idle from here]
      rfl
  | inTrySend value =>
      have outside : s.sender.phase = .away := by rw [pcEq]; rfl
      rw [pcEq] at here
      simp only [pcEq] at taken
      split at taken
      · rename_i result accepted returned
        obtain ⟨next, ticked, rfl⟩ := Option.map_eq_some_iff.mp taken
        have ticks := producerTicks_of ticked
        have idle := returned_ticks returned ticks
        rcases result with (refused | refused) | - <;>
          exact ok.producerTick outside ticks rfl (fun _ => trivial) idle
      · rename_i notReturned
        have ticks := producerTicks_of taken
        have inside : InTrySend value after.ring.producer.pc := by
          rcases ticks.frame.2.2.2 with same | ticked
          · rw [same]
            exact here
          · exact (inTrySend_tick ok.shared ok.producer here
              (notReturned_of_inTrySend here notReturned) ticked).1
        have stays : LinkOk cap (after.senderAt (.inTrySend value)) :=
          ok.producerTick outside ticks rfl (fun _ => trivial) inside
        rwa [show after.senderAt (.inTrySend value) = after by
          rw [AsyncRing.senderAt, ← pcEq, ← ticks.frame.1]] at stays
  | waits value pc =>
      simp only [pcEq] at taken
      exact ok.sendWait pcEq taken
  | inClose =>
      have outside : s.sender.phase = .away := by rw [pcEq]; rfl
      rw [pcEq] at here
      simp only [pcEq] at taken
      split at taken
      · rename_i gone
        cases taken
        exact ok.senderGoes outside rfl gone fun _ => trivial
      · rename_i notGone
        have ticks := producerTicks_of taken
        have closing : producerActivity after.ring.producer.pc = .closing ∨
            after.ring.producer.pc = .gone := by
          rcases ticks.frame.2.2.2 with same | ticked
          · rw [same]
            exact here
          · exact (producerClosing_shows (here.resolve_right notGone) ticked).1
        have stays : LinkOk cap (after.senderAt .inClose) :=
          ok.producerTick outside ticks rfl (fun _ => trivial) closing
        rwa [show after.senderAt .inClose = after by
          rw [AsyncRing.senderAt, ← pcEq, ← ticks.frame.1]] at stays

theorem senderStep (ok : LinkOk cap s) {action : RingSenderAction α}
    (taken : s.senderStep cap action = some after) : LinkOk cap after := by
  cases action with
  | tick index saw => exact ok.senderTick taken
  | cancel => exact ok.sendCancel taken
  | trySend value | trySendBulk items =>
      exact ok.producerCall taken rfl (fun _ => trivial) fun _ _ => trivial
  | drop =>
      exact ok.producerCall taken rfl (fun _ => trivial) fun _ dropped =>
        .inl (producerDrop_shows dropped).1
  | sendAsync value =>
      have here := ok.senderAt
      simp only [AsyncRing.senderStep] at taken
      split at taken
      · rename_i idle
        rw [idle] at here
        cases taken
        exact ok.senderGoes (by rw [idle]; rfl) rfl here fun _ => trivial
      · cases taken

end LinkOk

end AsyncRing

end ArbitroKit
