import ArbitroKit.MpscAsyncLink

/-!
# The sending futures keep every link

What a step of one producer's task does to its own link, and that every other link only
sees a wake of the fan-in gate.
-/

namespace ArbitroKit

open Coherent SlotLane Cyclic Transition

namespace AsyncMpsc

variable {α : Type*} {size : MpscSize} {s after : AsyncMpsc α} {i idx : Nat}

/-- The link of producer `idx`. -/
def link (s : AsyncMpsc α) (idx : Nat) : AsyncLink α where
  ring := s.rings idx
  sender := s.senders idx
  producerWaiter := s.producerWaiters idx
  faninWaiter := s.faninWaiter
  receiver := s.receiver
  enqueued := s.history.enqueued idx
  handed := s.history.handed idx
  called := s.history.called idx

@[simp]
theorem link_senderAt (s : AsyncMpsc α) (i : Nat) (pc : AsyncSenderPc α) :
    (s.senderAt i pc).link i = { s.link i with sender := pc } := by
  simp [link, senderAt]

@[simp]
theorem link_setRing (s : AsyncMpsc α) (i : Nat) (ring : RingState α) :
    (s.setRing i ring).link i = { s.link i with ring := ring } := by
  simp [link, setRing]

@[simp]
theorem link_setProducerWaiter (s : AsyncMpsc α) (i : Nat) (gate : AsyncGate) :
    (s.setProducerWaiter i gate).link i = { s.link i with producerWaiter := gate } := by
  simp [link, setProducerWaiter]

@[simp]
theorem link_seeTail (s : AsyncMpsc α) (i seen : Nat) :
    (s.seeTail i seen).link i = { s.link i with ring := (s.rings i).seeTail seen } := by
  simp [seeTail]

@[simp]
theorem link_sendCompleted (s : AsyncMpsc α) (i : Nat) (sent : Option α) :
    (s.sendCompleted i sent).link i =
      { s.link i with enqueued := s.history.enqueued i ++ sent.toList } := by
  simp [link, sendCompleted]

section Others

variable (other : idx ≠ i)

include other

theorem link_senderAt_of_ne (s : AsyncMpsc α) (pc : AsyncSenderPc α) :
    (s.senderAt i pc).link idx = s.link idx := by
  simp [link, senderAt, other]

theorem link_setRing_of_ne (s : AsyncMpsc α) (ring : RingState α) :
    (s.setRing i ring).link idx = s.link idx := by
  simp [link, setRing, other]

theorem link_setProducerWaiter_of_ne (s : AsyncMpsc α) (gate : AsyncGate) :
    (s.setProducerWaiter i gate).link idx = s.link idx := by
  simp [link, setProducerWaiter, other]

theorem link_seeTail_of_ne (s : AsyncMpsc α) (seen : Nat) :
    (s.seeTail i seen).link idx = s.link idx :=
  link_setRing_of_ne other s _

theorem link_sendCompleted_of_ne (s : AsyncMpsc α) (sent : Option α) :
    (s.sendCompleted i sent).link idx = s.link idx := by
  simp [link, sendCompleted, other]

end Others

/-- A step of producer `i`'s ring half. -/
theorem ringProducer_eq_some {action : ProducerAction α}
    (taken : s.ringProducer size i action = some after) :
    ∃ ring, (s.rings i).producerStep size.cap action = some ring ∧ after = s.setRing i ring := by
  obtain ⟨ring, moved, rfl⟩ := Option.map_eq_some_iff.mp taken
  exact ⟨ring, moved, rfl⟩

/-! ### The producer's own link -/

/-- One poll of a sender that has found its ring full. -/
theorem pollSender_ok {value : α} {pending : AsyncMpsc α → Option (AsyncMpsc α)}
    (ok : (s.link i).Ok size.cap i) (looks : (s.senders i).phase.looks = true)
    (idle : (s.rings i).producer.pc = .idle) (reporting : (s.senders i).reporting = [])
    (wakes : (s.senders i).wakes = false)
    (waiting : ∀ after, (s.producerWaiters i).poll.1 = false →
      pending (s.setProducerWaiter i (s.producerWaiters i).poll.2) = some after →
        (after.link i).Ok size.cap i)
    (taken : s.pollSender i value pending = some after) : (after.link i).Ok size.cap i := by
  unfold pollSender at taken
  dsimp only at taken
  split at taken
  · rename_i ready
    cases taken
    have le : (s.producerWaiters i).poll.2.delivered i ≤ (s.rings i).shared.tail.latest := by
      unfold AsyncGate.delivered
      split
      · exact Nat.zero_le _
      · exact ok.tails.noted_le
    have seen := ok.tails.toHeard.finishes
    rw [link_senderAt, link_seeTail, link_setProducerWaiter]
    refine ok.senderTurns rfl (ok.producer.seeTail le) ?_ seen idle rfl ?_ wakes rfl
    · exact ok.sends.finishes looks ready
    · have accepted := ok.accepted
      rw [show (s.link i).sender.reporting = [] from reporting] at accepted
      exact accepted
  · rename_i notReady
    exact waiting after (Bool.eq_false_of_not_eq_true notReady) taken

/-- `try_send` comes back to the loop. -/
theorem trySendReturned_ok {value : α} {result : Except (TrySendError α) Unit}
    {accepted : List α} {index : Nat} (ok : (s.link i).Ok size.cap i)
    (senderEq : s.senders i = .inTrySend value)
    (returned : (s.rings i).producer.pc = .returned (.trySend result) accepted)
    (taken : s.ringProducer size i (.tick index) = some after) :
    ((after.senderAt i (trySendReturned value result)).link i).Ok size.cap i := by
  obtain ⟨ring, moved, rfl⟩ := ringProducer_eq_some taken
  have known := (RingState.producer_step ok.shared ok.producer moved).2.1
  have ringEq : ring = { s.rings i with producer := { (s.rings i).producer with
      pc := .idle, accepted := (s.rings i).producer.accepted ++ accepted } } := by
    change (s.rings i).producerTick size.cap index = some ring at moved
    simpa [RingState.producerTick, returned] using moved.symm
  subst ringEq
  have sender : (s.link i).sender = .inTrySend value := senderEq
  have here := ok.senderAt
  have before := ok.accepted
  rw [sender] at here before
  rw [show (s.link i).ring.producer.pc = _ from returned] at here
  have enqueued : (s.rings i).producer.accepted = s.history.enqueued i :=
    before.trans (List.append_nil _)
  rw [link_senderAt, link_setRing]
  cases result with
  | ok _ =>
      obtain rfl : accepted = [value] := here
      refine ok.senderReturns sender known rfl rfl (.inl rfl) rfl ?_
        (fun _ => rfl) fun never => ?_
      · rw [enqueued]
        rfl
      · cases never
  | error error =>
      have quiet (due : (s.link i).SenderDue) (none : accepted = []) : False := by
        rcases due with inRing | wakes
        · rw [show (s.link i).ring.producer.pc = _ from returned] at inRing
          exact inRing none
        · rw [sender] at wakes
          cases wakes
      cases error with
      | full sent =>
          obtain ⟨rfl, rfl⟩ := here
          refine ok.senderReturns sender known rfl rfl (.inl rfl) rfl ?_
            (fun due => (quiet due rfl).elim) fun _ => .inl ?_
          · rw [enqueued]
            rfl
          · rw [show (s.link i).ring.producer.pc = _ from returned]
            rfl
      | closed sent =>
          obtain ⟨rfl, rfl⟩ := here
          refine ok.senderReturns sender known rfl rfl (.inr ⟨rfl, rfl⟩) rfl ?_
            (fun due => (quiet due rfl).elim) fun never => ?_
          · rw [enqueued]
            rfl
          · cases never

/-- The next step of producer `i`'s task keeps its link. -/
theorem senderTick_own {index : Nat} {saw : Bool} (ok : (s.link i).Ok size.cap i)
    (taken : s.senderTick size i index saw = some after) : (after.link i).Ok size.cap i := by
  have here : (s.senders i).RingAt (s.rings i).producer.pc := ok.senderAt
  have sends : (s.producerWaiters i).Ok (s.senders i).phase := ok.sends
  have accepted : (s.rings i).producer.accepted =
    s.history.enqueued i ++ (s.senders i).reporting := ok.accepted
  have heard : AsyncGate.Heard (s.producerWaiters i) (s.senders i).phase i
    (s.rings i).shared.tail.latest (s.rings i).producer.tailView ((s.link i).ReceiverDue i) :=
    ok.tails.toHeard
  unfold senderTick at taken
  cases senderEq : s.senders i with
  | idle | gone => simp [senderEq] at taken
  | unpolled value =>
      simp only [senderEq, Option.some.injEq] at taken here
      subst taken
      rw [link_senderAt]
      exact ok.senderGoes senderEq (.inl rfl) here rfl (Bool.false_le _) (Bool.false_le _)
  | notified value =>
      simp only [senderEq, Option.some.injEq] at taken here sends accepted heard
      subst taken
      rw [link_senderAt, link_seeTail, link_setProducerWaiter]
      exact ok.senderTurns senderEq (ok.producer.seeTail heard.probed_le) sends.arm
        (heard.arm sends) here rfl accepted rfl rfl
  | loadShutdown value =>
      simp only [senderEq] at taken here
      split at taken <;> cases taken <;> rw [link_senderAt]
      · exact ok.senderGoes senderEq (.inr ⟨rfl, rfl⟩) here rfl (Bool.false_le _)
          (Bool.false_le _)
      · exact ok.senderGoes senderEq (.inl rfl) here rfl (Bool.false_le _) (Bool.false_le _)
  | enterTrySend value =>
      simp only [senderEq] at taken accepted
      obtain ⟨entered, entering, rfl⟩ := Option.map_eq_some_iff.mp taken
      obtain ⟨ring, moved, rfl⟩ := ringProducer_eq_some entering
      obtain ⟨inside, same, shows⟩ := RingState.trySend_shows moved
      rw [link_senderAt, link_setRing]
      exact ok.senderRing senderEq (RingState.producer_step ok.shared ok.producer moved) shows rfl
        inside (same.trans accepted) rfl rfl
  | inTrySend value =>
      simp only [senderEq] at taken here accepted
      split at taken
      · rename_i result values returned
        obtain ⟨ticked, moved, rfl⟩ := Option.map_eq_some_iff.mp taken
        exact trySendReturned_ok ok senderEq returned moved
      · rename_i notReturned
        obtain ⟨ring, moved, rfl⟩ := ringProducer_eq_some taken
        have running (outcome : ProducerOutcome α) (values : List α) :
            (s.rings i).producer.pc ≠ .returned outcome values := by
          intro returned
          rw [returned] at here
          cases outcome with
          | trySend result => exact notReturned result values returned
          | _ => cases here
        obtain ⟨inside, same, shows⟩ := RingState.inTrySend_tick ok.shared ok.producer here running
          moved
        rw [link_setRing, show s.link i = { s.link i with sender := .inTrySend value } by
          rw [← senderEq]; rfl]
        exact ok.senderRing senderEq (RingState.producer_step ok.shared ok.producer moved) shows rfl
          inside (same.trans accepted) rfl rfl
  | wakeFanin value stage =>
      simp only [senderEq] at taken here
      unfold wakeFaninBy at taken
      dsimp only at taken
      split at taken
      · cases taken
        rw [link_senderAt]
        exact ok.senderWakes senderEq saw stage here (.inl rfl) rfl rfl rfl fun _ => rfl
      · rename_i leaves
        cases taken
        rw [link_senderAt]
        refine ok.senderWakes senderEq saw stage here (.inr ⟨rfl, rfl⟩) rfl rfl rfl fun coming => ?_
        exact absurd (coming.symm.trans (congrArg Option.isSome leaves)) (by decide)
  | poll value =>
      simp only [senderEq] at taken here
      refine pollSender_ok ok (by rw [senderEq]; rfl) here (by rw [senderEq]; rfl)
        (by rw [senderEq]; rfl) (fun after pending suspends => ?_) taken
      cases suspends
      rw [link_senderAt, link_setProducerWaiter]
      exact ok.senderAwaits senderEq pending
  | suspended value =>
      simp only [senderEq] at taken here
      refine pollSender_ok ok (by rw [senderEq]; rfl) here (by rw [senderEq]; rfl)
        (by rw [senderEq]; rfl) (fun after pending stays => ?_) taken
      cases stays
  | dropNotified next =>
      simp only [senderEq, Option.some.injEq] at taken here sends accepted heard
      subst taken
      rw [link_senderAt, link_setProducerWaiter]
      have reporting : (AsyncSenderPc.disarm next).reporting =
          (AsyncSenderPc.dropNotified next).reporting := by
        cases next <;> rfl
      rw [← reporting] at accepted
      exact ok.senderTurns senderEq ok.producer sends.dropNotified heard.dropNotified here rfl
        accepted rfl rfl
  | disarm next =>
      simp only [senderEq] at taken here sends accepted heard
      cases next with
      | again value =>
          cases taken
          rw [link_senderAt, link_setProducerWaiter]
          exact ok.senderTurns senderEq ok.producer sends.disarm heard.disarm here rfl accepted
            rfl rfl
      | finished sent =>
          cases taken
          rw [link_senderAt, link_sendCompleted, link_setProducerWaiter]
          refine ok.senderTurns senderEq ok.producer sends.disarm heard.disarm here rfl ?_ rfl rfl
          exact accepted.trans (List.append_nil _).symm
  | enterClose =>
      simp only [senderEq] at taken accepted
      obtain ⟨entered, entering, rfl⟩ := Option.map_eq_some_iff.mp taken
      obtain ⟨ring, moved, rfl⟩ := ringProducer_eq_some entering
      obtain ⟨closing, same, shows⟩ := RingState.producerDrop_shows moved
      rw [link_senderAt, link_setRing]
      exact ok.senderRing senderEq (RingState.producer_step ok.shared ok.producer moved) shows rfl
        (.inl closing) (same.trans accepted) rfl rfl
  | inClose =>
      simp only [senderEq] at taken here accepted
      split at taken
      · rename_i gone
        cases taken
        rw [link_senderAt]
        exact ok.senderGoes senderEq (.inl rfl) gone rfl (Bool.false_le _) (Bool.false_le _)
      · rename_i notGone
        obtain ⟨ring, moved, rfl⟩ := ringProducer_eq_some taken
        have closing := here.resolve_right notGone
        obtain ⟨closes, same, shows⟩ := RingState.producerClosing_shows closing moved
        rw [link_setRing, show s.link i = { s.link i with sender := .inClose } by
          rw [← senderEq]; rfl]
        exact ok.senderRing senderEq (RingState.producer_step ok.shared ok.producer moved) shows rfl
          closes (same.trans accepted) rfl rfl
  | fetchSub =>
      simp only [senderEq] at taken here accepted
      split at taken <;> cases taken <;> rw [link_senderAt]
      all_goals
        exact ok.senderGoes senderEq (.inl rfl) here rfl (Bool.false_le _) (Bool.false_le _)
  | wakeLast stage =>
      simp only [senderEq] at taken here
      unfold wakeFaninBy at taken
      have own (count : Nat) (stored : some (i, (s.rings i).shared.head.latest) = some (i, count)) :
          count = (s.link i).ring.shared.head.latest :=
        (Prod.mk.inj (Option.some.inj stored)).2.symm
      have woken := ok.faninWakes own saw stage
      dsimp only at taken
      split at taken <;> cases taken <;> rw [link_senderAt]
      all_goals
        exact woken.senderGoes senderEq (.inl rfl) here rfl (Bool.false_le _) (Bool.false_le _)

/-! ### The links of the other producers -/

/-- Another link sees at most a step of the fan-in gate. -/
def OnlyWakes (s after : AsyncMpsc α) (i idx : Nat) : Prop :=
  after.link idx = s.link idx ∨ ∃ count saw stage, after.link idx =
    { s.link idx with faninWaiter := (s.faninWaiter.wakeStep (some (i, count)) saw stage).1 }

section Others

variable (other : idx ≠ i)

include other

theorem OnlyWakes.senderAt (only : OnlyWakes s after i idx) (pc : AsyncSenderPc α) :
    OnlyWakes s (after.senderAt i pc) i idx := by
  unfold OnlyWakes
  rw [link_senderAt_of_ne other]
  exact only

theorem onlyWakes_ringProducer {action : ProducerAction α}
    (taken : s.ringProducer size i action = some after) : OnlyWakes s after i idx := by
  obtain ⟨ring, -, rfl⟩ := ringProducer_eq_some taken
  exact .inl (link_setRing_of_ne other s ring)

theorem onlyWakes_pollSender {value : α} {pending : AsyncMpsc α → Option (AsyncMpsc α)}
    (waiting : ∀ polled after, pending polled = some after → OnlyWakes polled after i idx)
    (taken : s.pollSender i value pending = some after) : OnlyWakes s after i idx := by
  unfold pollSender at taken
  dsimp only at taken
  have polled := link_setProducerWaiter_of_ne other s (s.producerWaiters i).poll.2
  split at taken
  · cases taken
    refine OnlyWakes.senderAt other (.inl ?_) _
    rw [link_seeTail_of_ne other, polled]
  · have only := waiting _ _ taken
    unfold OnlyWakes at only
    rw [polled] at only
    exact only

omit other in
theorem onlyWakes_wakeFaninBy (saw : Bool) (stage : WakeStage) :
    OnlyWakes s (s.wakeFaninBy i saw stage).1 i idx :=
  .inr ⟨(s.rings i).shared.head.latest, saw, stage, rfl⟩

theorem senderTick_others {index : Nat} {saw : Bool}
    (taken : s.senderTick size i index saw = some after) : OnlyWakes s after i idx := by
  have here : OnlyWakes s s i idx := .inl rfl
  unfold senderTick at taken
  cases senderEq : s.senders i with
  | idle | gone => simp [senderEq] at taken
  | unpolled value =>
      simp only [senderEq, Option.some.injEq] at taken
      subst taken
      exact here.senderAt other _
  | notified value =>
      simp only [senderEq, Option.some.injEq] at taken
      subst taken
      refine OnlyWakes.senderAt other (.inl ?_) _
      rw [link_seeTail_of_ne other, link_setProducerWaiter_of_ne other]
  | loadShutdown value =>
      simp only [senderEq] at taken
      split at taken <;> cases taken <;> exact here.senderAt other _
  | enterTrySend value | enterClose =>
      simp only [senderEq] at taken
      obtain ⟨entered, entering, rfl⟩ := Option.map_eq_some_iff.mp taken
      exact (onlyWakes_ringProducer other entering).senderAt other _
  | inTrySend value =>
      simp only [senderEq] at taken
      split at taken
      · obtain ⟨ticked, ticking, rfl⟩ := Option.map_eq_some_iff.mp taken
        exact (onlyWakes_ringProducer other ticking).senderAt other _
      · exact onlyWakes_ringProducer other taken
  | wakeFanin value stage | wakeLast stage =>
      simp only [senderEq] at taken
      have woken : OnlyWakes s (s.wakeFaninBy i saw stage).1 i idx :=
        onlyWakes_wakeFaninBy saw stage
      split at taken <;> cases taken <;> exact woken.senderAt other _
  | poll value =>
      simp only [senderEq] at taken
      refine onlyWakes_pollSender other (fun polled after suspends => ?_) taken
      cases suspends
      exact OnlyWakes.senderAt other (.inl rfl) _
  | suspended value =>
      simp only [senderEq] at taken
      refine onlyWakes_pollSender other (fun polled after stays => ?_) taken
      cases stays
  | dropNotified next =>
      simp only [senderEq, Option.some.injEq] at taken
      subst taken
      exact OnlyWakes.senderAt other (.inl (link_setProducerWaiter_of_ne other s _)) _
  | disarm next =>
      simp only [senderEq] at taken
      cases next with
      | again value =>
          cases taken
          exact OnlyWakes.senderAt other (.inl (link_setProducerWaiter_of_ne other s _)) _
      | finished sent =>
          cases taken
          refine OnlyWakes.senderAt other (.inl ?_) _
          rw [link_sendCompleted_of_ne other, link_setProducerWaiter_of_ne other]
  | inClose =>
      simp only [senderEq] at taken
      split at taken
      · cases taken
        exact here.senderAt other _
      · exact onlyWakes_ringProducer other taken
  | fetchSub =>
      simp only [senderEq] at taken
      split at taken <;> cases taken <;> exact OnlyWakes.senderAt other (.inl rfl) _

end Others

/-- Every link of the channel is in order. -/
def LinksOk (size : MpscSize) (s : AsyncMpsc α) : Prop :=
  ∀ idx < size.m, (s.link idx).Ok size.cap idx

/-- What a step of producer `i` gives its own link and shows the others. -/
theorem LinksOk.of_sender (links : LinksOk size s) (own : (after.link i).Ok size.cap i)
    (others : ∀ idx, idx ≠ i → OnlyWakes s after i idx) : LinksOk size after := by
  intro idx inside
  by_cases same : idx = i
  · rw [same]
    exact own
  · rcases others idx same with quiet | ⟨count, saw, stage, woken⟩
    · rw [quiet]
      exact links idx inside
    · rw [woken]
      refine (links idx inside).faninWakes (fun stored recorded => ?_) saw stage
      exact absurd (Prod.mk.inj (Option.some.inj recorded)).1.symm same

/-- A sender between two steps of its task goes somewhere else. -/
theorem LinksOk.senderGoes (links : LinksOk size s) (inside : i < size.m)
    {was pc : AsyncSenderPc α} (senderEq : s.senders i = was) (goes : was.phase.Goes pc.phase)
    (ringAt : pc.RingAt = was.RingAt) (reporting : pc.reporting = was.reporting)
    (wakes : was.wakes ≤ pc.wakes) (waits : pc.waits ≤ was.waits) :
    LinksOk size (s.senderAt i pc) := by
  subst senderEq
  refine links.of_sender ?_ fun idx other => OnlyWakes.senderAt other (.inl rfl) _
  have here := (links i inside).senderAt
  rw [link_senderAt]
  refine (links i inside).senderGoes rfl goes ?_ reporting wakes waits
  rw [ringAt]
  exact here

theorem senderStep_linksOk {action : AsyncSenderAction α} (links : LinksOk size s)
    (inside : i < size.m) (taken : s.senderStep size i action = some after) :
    LinksOk size after := by
  cases action with
  | tick index saw =>
      exact links.of_sender (senderTick_own (links i inside) taken) fun idx other =>
        senderTick_others other taken
  | sendAsyncSend value =>
      simp only [senderStep] at taken
      split at taken
      · rename_i senderEq
        cases taken
        exact links.senderGoes inside senderEq (.inl rfl) rfl rfl (Bool.false_le _)
          (Bool.false_le _)
      · cases taken
  | cancel =>
      simp only [senderStep] at taken
      split at taken
      · rename_i value senderEq
        cases taken
        exact links.senderGoes inside senderEq (.inl rfl) rfl rfl (Bool.false_le _)
          (Bool.false_le _)
      · rename_i value senderEq
        cases taken
        exact links.senderGoes inside senderEq (.inr ⟨rfl, rfl⟩) rfl rfl (Bool.false_le _)
          (Bool.false_le _)
      · cases taken
  | drop =>
      simp only [senderStep] at taken
      split at taken
      · rename_i senderEq
        cases taken
        exact links.senderGoes inside senderEq (.inl rfl) rfl rfl (Bool.false_le _)
          (Bool.false_le _)
      · cases taken

end AsyncMpsc

end ArbitroKit
