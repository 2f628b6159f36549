import ArbitroKit.RingAsyncSender

/-!
# Steps of the ring's receiving task

Every step of the consumer handle and of a `recv_async` future keeps the link, and so does
every run of both sides.
-/

namespace ArbitroKit

open Coherent SlotLane Cyclic Transition

namespace AsyncRing

open AsyncGate RingState

variable {α : Type*} {cap : Cap} {s after : AsyncRing α}

/-- What a step inside the consumer's call can be. -/
inductive ConsumerTicks (cap : Cap) (s : AsyncRing α) (index : Nat) (saw : Bool) :
    AsyncRing α → Prop
  | silent {ring : RingState α} (silent : consumerWakes s.ring.consumer.pc = none)
      (ticked : s.ring.consumerTick cap index = some ring) :
      ConsumerTicks cap s index saw (s.setRing ring)
  | inWake {which : RingGate} {stage : WakeStage}
      (wakes : consumerWakes s.ring.consumer.pc = some which)
      (goes : ((s.gate which).wakeStep (s.consumerStored which) saw s.recvStage).2 = some stage) :
      ConsumerTicks cap s index saw
        { s.setGate which
            ((s.gate which).wakeStep (s.consumerStored which) saw s.recvStage).1 with
          recvStage := stage }
  | woken {which : RingGate} {ring : RingState α}
      (wakes : consumerWakes s.ring.consumer.pc = some which)
      (leaves : ((s.gate which).wakeStep (s.consumerStored which) saw s.recvStage).2 = none)
      (ticked : s.ring.consumerTick cap index = some ring) :
      ConsumerTicks cap s index saw
        { (s.setGate which
            ((s.gate which).wakeStep (s.consumerStored which) saw s.recvStage).1).setRing ring with
          recvStage := .probe }

theorem consumerTicks_of {index : Nat} {saw : Bool}
    (taken : s.consumerTick cap index saw = some after) :
    ConsumerTicks cap s index saw after := by
  unfold AsyncRing.consumerTick at taken
  split at taken
  · obtain ⟨ring, ticked, rfl⟩ := Option.map_eq_some_iff.mp taken
    exact .silent (by assumption) ticked
  · dsimp only at taken
    split at taken
    · cases taken
      exact .inWake (by assumption) (by assumption)
    · obtain ⟨ring, ticked, rfl⟩ := Option.map_eq_some_iff.mp taken
      exact .woken (by assumption) (by assumption) ticked

/-- The step leaves both tasks' places alone, and the ring goes on unless a wake does. -/
theorem ConsumerTicks.frame {index : Nat} {saw : Bool}
    (ticks : ConsumerTicks cap s index saw after) :
    after.sender = s.sender ∧ after.receiver = s.receiver ∧ after.sendStage = s.sendStage ∧
      (after.ring = s.ring ∨ s.ring.consumerTick cap index = some after.ring) := by
  cases ticks with
  | silent silent ticked => exact ⟨rfl, rfl, rfl, .inr ticked⟩
  | @inWake which stage wakes goes => cases which <;> exact ⟨rfl, rfl, rfl, .inl rfl⟩
  | @woken which ring wakes leaves ticked => cases which <;> exact ⟨rfl, rfl, rfl, .inr ticked⟩

namespace LinkOk

/-- A step of the ring's consumer, with what a wake of it has done to the gates. -/
theorem receiverMoves (ok : LinkOk cap s) {ring : RingState α} {notFull notEmpty : AsyncGate}
    {pc : RingReceiverPc} {onWay : Prop} (stage : WakeStage)
    (kept : SharedOk cap ring.shared ∧ ConsumerOk ring ∧ ProducerRely s.ring ring)
    (moves : ConsumerMoves s.ring ring) (receives : notEmpty.Ok .away)
    (heads : Heard notEmpty .away 0 s.ring.shared.head.latest s.ring.consumer.headView
      (producerDue s.ring.producer.pc = true))
    (sends : notFull.Ok s.sender.phase)
    (tails : Listens notFull s.sender.phase 0 s.ring.shared.tail.latest
      s.ring.producer.tailView onWay s.sender.Found
      (RingCheck.Calm (s.ring.shared.lane.published = s.ring.shared.lane.released + cap.size)
        (s.ring.shared.closed = true) s.sender.looked))
    (stays : onWay → consumerDue ring.consumer.pc = true) (away : pc.phase = .away)
    (check : ∀ head view, pc.CheckAt head view) (here : pc.RingAt ring.consumer.pc) :
    LinkOk cap ⟨ring, notFull, notEmpty, s.sender, pc, s.sendStage, stage⟩ := by
  obtain ⟨shared, consumer, rely⟩ := kept
  have producer : ProducerOk cap ring := rely.stable ok.producer
  have published := rely.published
  obtain ⟨ringShared, ringProducer, ringConsumer⟩ := ring
  obtain rfl : ringProducer = s.ring.producer := rely.producer
  exact
    { shared := shared
      producer := producer
      consumer := consumer
      sends := sends
      senderAt := ok.senderAt
      senderCheck := by
        change s.sender.CheckAt ringShared.lane.published
        rw [show ringShared.lane.published = _ from published]
        exact ok.senderCheck
      tails := by
        rcases moves.shows with ⟨tail, released, closed⟩ | ⟨later, due⟩
        · change Listens notFull _ 0 ringShared.tail.latest _ _ _ (RingCheck.Calm
            (ringShared.lane.published = ringShared.lane.released + cap.size)
            (ringShared.closed = true) _)
          rw [show ringShared.tail = _ from tail, show ringShared.lane.published = _ from published,
            show ringShared.lane.released = _ from released,
            show ringShared.closed = _ from closed]
          exact tails.comes stays
        · exact tails.stores later due
      receives := by
        change notEmpty.Ok pc.phase
        rw [away]
        exact receives
      receiverAt := here
      receiverCheck := check _ _
      heads := by
        refine .leaves ?_ (RingReceiverPc.not_found away)
        change Heard notEmpty pc.phase 0 ringShared.head.latest ringConsumer.headView _
        rw [away, show ringShared.head = s.ring.shared.head from moves.head]
        exact heads.sees moves.view_le }

/-- A step of the consumer's call, or into it. -/
theorem receiverCall (ok : LinkOk cap s) {ring : RingState α} {pc : RingReceiverPc}
    (kept : SharedOk cap ring.shared ∧ ConsumerOk ring ∧ ProducerRely s.ring ring)
    (moves : ConsumerMoves s.ring ring)
    (silent : consumerDue s.ring.consumer.pc = false) (outside : s.receiver.phase = .away)
    (away : pc.phase = .away) (check : ∀ head view, pc.CheckAt head view)
    (here : pc.RingAt ring.consumer.pc) :
    LinkOk cap ((s.setRing ring).receiverAt pc) := by
  have receives := ok.receives
  have heads := ok.heads.toHeard
  rw [outside] at receives heads
  apply ok.receiverMoves s.recvStage kept moves receives heads ok.sends ok.tails ?_ away check here
  rw [silent]
  exact fun never => absurd never Bool.false_ne_true

/-- A step of `wake` inside the consumer's call. -/
theorem consumerWake (ok : LinkOk cap s) (outside : s.receiver.phase = .away)
    {ring : RingState α} {pc : RingReceiverPc} {saw : Bool} {which : RingGate}
    (stage : WakeStage) (wakes : consumerWakes s.ring.consumer.pc = some which)
    (kept : SharedOk cap ring.shared ∧ ConsumerOk ring ∧ ProducerRely s.ring ring)
    (moves : ConsumerMoves s.ring ring)
    (stays : ((s.gate which).wakeStep (s.consumerStored which) saw s.recvStage).2.isSome = true →
      which = .notFull → consumerDue ring.consumer.pc = true)
    (away : pc.phase = .away) (check : ∀ head view, pc.CheckAt head view)
    (here : pc.RingAt ring.consumer.pc) :
    LinkOk cap
      { ((s.setGate which
          ((s.gate which).wakeStep (s.consumerStored which) saw s.recvStage).1).setRing ring) with
        receiver := pc, recvStage := stage } := by
  have receives := ok.receives
  have heads := ok.heads.toHeard
  rw [outside] at receives heads
  cases which with
  | notFull =>
      have tails := ok.tails.ownWakeStep ok.sends saw s.recvStage
      exact ok.receiverMoves stage kept moves receives heads
        (ok.sends.wakeStep _ saw s.recvStage) tails (fun goes => stays goes rfl) away check here
  | notEmpty =>
      have own : ∀ count, (none : Option (Nat × Nat)) = some (0, count) →
          count = s.ring.shared.head.latest := by
        intro count never
        cases never
      refine ok.receiverMoves stage kept moves (receives.wakeStep none saw s.recvStage)
        (heads.wakeStep own saw s.recvStage) ok.sends ok.tails (fun due => ?_) away check here
      rw [consumerDue_iff, wakes] at due
      cases due

/-- A step inside the consumer's call, behind which the task may go on elsewhere. -/
theorem consumerTick (ok : LinkOk cap s) (outside : s.receiver.phase = .away) {index : Nat}
    {saw : Bool} (ticks : ConsumerTicks cap s index saw after) {pc : RingReceiverPc}
    (away : pc.phase = .away) (check : ∀ head view, pc.CheckAt head view)
    (here : pc.RingAt after.ring.consumer.pc) : LinkOk cap (after.receiverAt pc) := by
  have kept {ring : RingState α} (ticked : s.ring.consumerTick cap index = some ring) :=
    consumer_step ok.shared ok.consumer rfl
      (show s.ring.consumerStep cap (.tick index) = _ from ticked)
  cases ticks with
  | silent silent ticked =>
      refine ok.receiverCall (kept ticked)
        (consumerMoves_tick ok.consumer silent ok.receiverAt.calm ticked) ?_ outside away check here
      apply Bool.eq_false_of_not_eq_true
      rw [consumerDue_iff, silent]
      simp
  | @inWake which stage wakes goes =>
      have same : ProducerRely s.ring s.ring := ⟨rfl, rfl, rfl, .inl ⟨rfl, rfl⟩⟩
      have stays (full : which = .notFull) : consumerDue s.ring.consumer.pc = true := by
        rw [consumerDue_iff, wakes, full]
      cases which <;>
        exact ok.consumerWake outside stage wakes ⟨ok.shared, ok.consumer, same⟩
          (.quiet ok.receiverAt.calm rfl rfl rfl rfl le_rfl) (fun _ => stays) away check here
  | @woken which ring wakes leaves ticked =>
      obtain ⟨moves, -⟩ := consumerWake_tick wakes ticked
      refine ok.consumerWake outside .probe wakes (kept ticked) moves ?_ away check here
      intro goes
      rw [leaves] at goes
      cases goes

/-- A step of the receiver's wait. -/
theorem receiverWaits (ok : LinkOk cap s) {notEmpty : AsyncGate} {view : Nat}
    {pc : RingReceiverPc}
    (known : ConsumerOk { s.ring with consumer := { s.ring.consumer with headView := view } })
    (receives : notEmpty.Ok pc.phase) (here : pc.RingAt s.ring.consumer.pc)
    (check : pc.CheckAt s.ring.shared.head view)
    (heads : Listens notEmpty pc.phase 0 s.ring.shared.head.latest view
      (producerDue s.ring.producer.pc = true) pc.Found
      (RingCheck.Calm (s.ring.shared.lane.published = s.ring.shared.lane.released)
        (s.ring.shared.closed = true) pc.looked)) :
    LinkOk cap
      { s with
        ring := { s.ring with consumer := { s.ring.consumer with headView := view } }
        notEmpty := notEmpty
        receiver := pc } where
  shared := ok.shared
  producer := ok.producer
  consumer := known
  sends := ok.sends
  senderAt := ok.senderAt
  senderCheck := ok.senderCheck
  tails := ok.tails
  receives := receives
  receiverAt := here
  receiverCheck := check
  heads := heads

/-- A step that leaves ring and gates alone, with no wait on either side of it. -/
theorem receiverGoes (ok : LinkOk cap s) (outside : s.receiver.phase = .away)
    {pc : RingReceiverPc} (away : pc.phase = .away) (here : pc.RingAt s.ring.consumer.pc)
    (check : ∀ head view, pc.CheckAt head view) : LinkOk cap (s.receiverAt pc) := by
  have receives := ok.receives
  have heard := ok.heads.toHeard
  rw [outside, ← away] at receives heard
  exact ok.receiverWaits ok.consumer receives here (check _ _)
    (.leaves heard (RingReceiverPc.not_found away))

/-- A load of the predicate of `recv_async`. -/
theorem recvCheck (ok : LinkOk cap s) {phase : WaitPhase} {rest : RingCheck} {index : Nat}
    (waiting : s.receiver = .waits (.check phase rest))
    (taken : s.recvCheck phase index rest = some after) : LinkOk cap after := by
  have receives := ok.receives
  have heads := ok.heads
  have idle := ok.receiverAt
  have check := ok.receiverCheck
  rw [waiting] at receives idle check
  rw [HeadListens, waiting] at heads
  have loads {later : RingCheck} (receives : s.notEmpty.Ok (AwaitPc.check phase rest).phase) :
      s.notEmpty.Ok (AwaitPc.check phase later).phase := by
    rwa [AwaitPc.phase_check phase rest later]
  cases rest with
  | head =>
      obtain ⟨⟨head, loadedState⟩, loaded, rfl⟩ := Option.map_eq_some_iff.mp taken
      obtain ⟨read, rfl⟩ := loadHead_eq_some loaded
      have seen := (Location.load_eq_some read).1
      have again : s.ring.shared.head.load index index = some head := by
        rw [Location.load, if_pos le_rfl]
        exact (Location.load_eq_some read).2
      have known := ok.consumer.seeHeadUpTo (Location.le_latest_of_load read)
      rw [seeHeadUpTo, max_eq_right seen] at known
      exact ok.receiverWaits known (loads receives) idle again
        (AwaitPc.listens_loads heads seen fun never => never.elim)
  | tail head =>
      simp only [AsyncRing.recvCheck, Option.some.injEq] at taken
      subst taken
      split
      · rename_i equal
        refine ok.receiverWaits ok.consumer (loads receives) idle trivial
          (AwaitPc.listens_loads heads le_rfl fun _ => .inr fun newest => ?_)
        have read : s.ring.shared.head.load s.ring.consumer.headView s.ring.consumer.headView =
            some head := check
        rw [equal, ok.shared.tail] at read
        exact ok.shared.published_of_newest read newest
      · have answered := AwaitPc.listens_answered true heads fun never => by cases never
        refine ok.receiverWaits ok.consumer ?_ (RingReceiverPc.ringAt_recvWaited idle) ?_ ?_
        · rw [RingReceiverPc.phase_recvWaited]
          exact AwaitPc.ok_answered receives
        · cases phase <;> trivial
        · rw [RingReceiverPc.phase_recvWaited, RingReceiverPc.found_recvWaited,
            RingReceiverPc.looked_recvWaited]
          exact answered
  | closed =>
      cases taken
      refine ok.receiverWaits ok.consumer ?_ (RingReceiverPc.ringAt_recvWaited idle) ?_ ?_
      · rw [RingReceiverPc.phase_recvWaited]
        exact AwaitPc.ok_answered receives
      · cases phase <;> cases s.ring.shared.closed <;> trivial
      · rw [RingReceiverPc.phase_recvWaited, RingReceiverPc.found_recvWaited,
          RingReceiverPc.looked_recvWaited]
        refine AwaitPc.listens_answered _ heads fun unclosed _ =>
          ⟨trivial, fun empty => ⟨empty, ?_⟩⟩
        rw [unclosed]
        exact Bool.false_ne_true

/-- A step of the notification of `recv_async`. -/
theorem recvTicks (ok : LinkOk cap s) {pc : AwaitPc RingCheck} {step : Awaited RingCheck}
    (waiting : s.receiver = .waits pc) (ticks : pc.tick s.notEmpty .head = some step) :
    LinkOk cap
      { s with
        ring := s.ring.seeHeadUpTo (step.seen 0)
        notEmpty := step.gate
        receiver := recvWaited step.next } := by
  have receives := ok.receives
  have heads := ok.heads
  have idle := ok.receiverAt
  rw [waiting] at receives idle
  rw [HeadListens, waiting] at heads
  have known : ConsumerOk (s.ring.seeHeadUpTo (step.seen 0)) :=
    ok.consumer.seeHeadUpTo (AwaitPc.seen_le_tick heads.toHeard ticks)
  have listens := AwaitPc.listens_tick receives heads id ticks
  refine ok.receiverWaits known ?_ (RingReceiverPc.ringAt_recvWaited idle) ?_ ?_
  · rw [RingReceiverPc.phase_recvWaited]
    exact AwaitPc.ok_tick receives ticks
  · cases AwaitPc.tick_steps ticks with
    | disarm next => cases next <;> trivial
    | _ => trivial
  · rw [RingReceiverPc.phase_recvWaited, RingReceiverPc.found_recvWaited,
      RingReceiverPc.looked_recvWaited]
    exact listens

theorem recvWait (ok : LinkOk cap s) {pc : AwaitPc RingCheck} {index : Nat}
    (waiting : s.receiver = .waits pc) (taken : s.recvWait index pc = some after) :
    LinkOk cap after := by
  cases pc with
  | check phase rest => exact ok.recvCheck waiting taken
  | notified | poll | suspended | dropNotified next | disarm next =>
      simp only [AsyncRing.recvWait] at taken
      obtain ⟨step, ticks, rfl⟩ := Option.map_eq_some_iff.mp taken
      exact ok.recvTicks waiting ticks

/-- The future of `recv_async` is dropped. -/
theorem recvCancel (ok : LinkOk cap s) (taken : s.receiverStep cap .cancel = some after) :
    LinkOk cap after := by
  simp only [receiverStep] at taken
  split at taken
  · rename_i unpolled
    have idle := ok.receiverAt
    rw [unpolled] at idle
    cases taken
    exact ok.receiverGoes (by rw [unpolled]; rfl) rfl idle fun _ _ => trivial
  · rename_i suspended
    have receives := ok.receives
    have heads := ok.heads
    have idle := ok.receiverAt
    rw [suspended] at receives idle
    rw [HeadListens, suspended] at heads
    cases taken
    exact ok.receiverWaits ok.consumer (receives.cancel rfl) idle trivial
      (AwaitPc.listens_cancel heads.toHeard id)
  · cases taken

/-- A call of the idle consumer handle. -/
theorem consumerCall (ok : LinkOk cap s) {call : ConsumerAction} {pc : RingReceiverPc}
    (taken : s.consumerCall cap call pc = some after) (calm : call ≠ .panic)
    (away : pc.phase = .away) (check : ∀ head view, pc.CheckAt head view)
    (here : ∀ ring, s.ring.consumerStep cap call = some ring → ConsumerMoves s.ring ring →
      pc.RingAt ring.consumer.pc) :
    LinkOk cap after := by
  unfold AsyncRing.consumerCall at taken
  split at taken
  · rename_i idle
    have ringIdle := ok.receiverAt
    rw [idle] at ringIdle
    obtain ⟨ring, called, rfl⟩ := Option.map_eq_some_iff.mp taken
    have within : s.ring.panicsWithinCache (.consumer call) = true := by
      cases call <;> first | rfl | exact absurd rfl calm
    have moves := consumerMoves_call ringIdle called
    refine ok.receiverCall (consumer_step ok.shared ok.consumer within called) moves ?_
      (by rw [idle]; rfl) away check (here ring called moves)
    rw [show s.ring.consumer.pc = .idle from ringIdle]
    rfl
  · cases taken

/-- A call that has returned makes no wake. -/
theorem outcome_ticks {index : Nat} {saw : Bool} {outcome : ConsumerOutcome α}
    (returned : s.ring.consumer.pc = .returned outcome)
    (ticks : ConsumerTicks cap s index saw after) : after.ring.consumer.pc = .idle := by
  cases ticks with
  | silent silent ticked =>
      simp only [RingState.consumerTick, returned, Option.some.injEq] at ticked
      rw [← ticked]
      rfl
  | inWake wakes | woken wakes =>
      rw [returned] at wakes
      cases wakes

/-- No callback of the call panics. -/
theorem calm_ticks (ok : LinkOk cap s) {index : Nat} {saw : Bool}
    (ticks : ConsumerTicks cap s index saw after) : unwinds after.ring.consumer.pc = false := by
  cases ticks with
  | silent silent ticked =>
      exact (consumerMoves_tick ok.consumer silent ok.receiverAt.calm ticked).calm
  | @inWake which => cases which <;> exact ok.receiverAt.calm
  | @woken which ring wakes leaves ticked =>
      cases which <;> exact (consumerWake_tick wakes ticked).1.calm

/-- What `try_recv` returns is a result of `try_recv`. -/
theorem notReturned_of_inTryRecv {pc : ConsumerPc α} (inside : InTryRecv pc)
    (notReturned : ∀ result, pc ≠ .returned (.tryRecv result))
    (outcome : ConsumerOutcome α) : pc ≠ .returned outcome := by
  rintro rfl
  cases outcome with
  | tryRecv result => exact notReturned result rfl
  | recv result | drain consumed | panicked => exact inside.elim

/-- Every step of the receiver's side keeps the link. -/
theorem receiverTick (ok : LinkOk cap s) {index : Nat} {saw : Bool}
    (taken : s.receiverTick cap index saw = some after) : LinkOk cap after := by
  have here := ok.receiverAt
  unfold AsyncRing.receiverTick at taken
  cases pcEq : s.receiver with
  | idle | gone => simp [pcEq] at taken
  | inCall =>
      have outside : s.receiver.phase = .away := by rw [pcEq]; rfl
      simp only [pcEq] at taken
      split at taken
      · rename_i outcome returned
        obtain ⟨next, ticked, rfl⟩ := Option.map_eq_some_iff.mp taken
        have ticks := consumerTicks_of ticked
        exact ok.consumerTick outside ticks rfl (fun _ _ => trivial) (outcome_ticks returned ticks)
      · have ticks := consumerTicks_of taken
        have stays : LinkOk cap (after.receiverAt .inCall) :=
          ok.consumerTick outside ticks rfl (fun _ _ => trivial) (ok.calm_ticks ticks)
        rwa [show after.receiverAt .inCall = after by
          rw [AsyncRing.receiverAt, ← pcEq, ← ticks.frame.2.1]] at stays
  | unpolled =>
      rw [pcEq] at here
      simp only [pcEq, Option.some.injEq] at taken
      subst taken
      exact ok.receiverGoes (by rw [pcEq]; rfl) rfl here fun _ _ => trivial
  | enterTryRecv =>
      rw [pcEq] at here
      simp only [pcEq] at taken
      obtain ⟨ring, called, rfl⟩ := Option.map_eq_some_iff.mp taken
      refine ok.receiverCall (consumer_step ok.shared ok.consumer rfl called)
        (consumerMoves_call here called) ?_ (by rw [pcEq]; rfl) rfl (fun _ _ => trivial)
        (tryRecv_shows called).1
      rw [show s.ring.consumer.pc = .idle from here]
      rfl
  | inTryRecv =>
      have outside : s.receiver.phase = .away := by rw [pcEq]; rfl
      rw [pcEq] at here
      simp only [pcEq] at taken
      split at taken
      · rename_i result returned
        obtain ⟨next, ticked, rfl⟩ := Option.map_eq_some_iff.mp taken
        have ticks := consumerTicks_of ticked
        have idle := outcome_ticks returned ticks
        rcases result with (- | -) | value <;>
          exact ok.consumerTick outside ticks rfl (fun _ _ => trivial) idle
      · rename_i notReturned
        have ticks := consumerTicks_of taken
        have inside : InTryRecv after.ring.consumer.pc := by
          rcases ticks.frame.2.2.2 with same | ticked
          · rw [same]
            exact here
          · exact (inTryRecv_tick ok.shared ok.consumer here
              (notReturned_of_inTryRecv here notReturned) ticked).1
        have stays : LinkOk cap (after.receiverAt .inTryRecv) :=
          ok.consumerTick outside ticks rfl (fun _ _ => trivial) inside
        rwa [show after.receiverAt .inTryRecv = after by
          rw [AsyncRing.receiverAt, ← pcEq, ← ticks.frame.2.1]] at stays
  | waits pc =>
      simp only [pcEq] at taken
      exact ok.recvWait pcEq taken
  | inClose =>
      have outside : s.receiver.phase = .away := by rw [pcEq]; rfl
      rw [pcEq] at here
      simp only [pcEq] at taken
      split at taken
      · rename_i gone
        cases taken
        exact ok.receiverGoes outside rfl gone fun _ _ => trivial
      · rename_i notGone
        have ticks := consumerTicks_of taken
        have closing : consumerActivity after.ring.consumer.pc = .closing ∨
            after.ring.consumer.pc = .gone := by
          rcases ticks.frame.2.2.2 with same | ticked
          · rw [same]
            exact here
          · exact (consumerClosing_shows (here.resolve_right notGone) ticked).1
        have stays : LinkOk cap (after.receiverAt .inClose) :=
          ok.consumerTick outside ticks rfl (fun _ _ => trivial) closing
        rwa [show after.receiverAt .inClose = after by
          rw [AsyncRing.receiverAt, ← pcEq, ← ticks.frame.2.1]] at stays

theorem receiverStep (ok : LinkOk cap s) {action : RingReceiverAction}
    (taken : s.receiverStep cap action = some after) : LinkOk cap after := by
  cases action with
  | tick index saw => exact ok.receiverTick taken
  | cancel => exact ok.recvCancel taken
  | tryRecv | drain =>
      exact ok.consumerCall taken (by simp) rfl (fun _ _ => trivial) fun _ _ moves => moves.calm
  | drop =>
      exact ok.consumerCall taken (by simp) rfl (fun _ _ => trivial) fun _ dropped _ =>
        .inl (consumerDrop_shows dropped).1
  | recvAsync =>
      have here := ok.receiverAt
      simp only [AsyncRing.receiverStep] at taken
      split at taken
      · rename_i idle
        rw [idle] at here
        cases taken
        exact ok.receiverGoes (by rw [idle]; rfl) rfl here fun _ _ => trivial
      · cases taken

theorem step (ok : LinkOk cap s) {action : AsyncRingAction α}
    (taken : s.step cap action = some after) : LinkOk cap after := by
  cases action with
  | sender action => exact ok.senderStep taken
  | receiver action => exact ok.receiverStep taken

end LinkOk

/-- The link holds in every state of every run. -/
theorem linkOk (reached : (system cap).Reachable s) : LinkOk cap s := by
  apply reached.invariant (LinkOk cap)
  · rintro - rfl
    exact linkOk_new cap
  · intro before action after _ ok taken
    exact ok.step taken

end AsyncRing

end ArbitroKit
