import ArbitroKit.MpscAsyncSender

/-!
# The receive futures keep every link

Each step of the receiving task is a step inside one ring or one gate; for the links of
the other rings it only goes on.
-/

namespace ArbitroKit

open Coherent SlotLane Cyclic Transition

namespace AsyncMpsc

variable {α : Type*} {size : MpscSize} {s after : AsyncMpsc α} {idx : Nat}

@[simp]
theorem link_receiverAt (s : AsyncMpsc α) (next : AsyncReceiverPc α) :
    (s.receiverAt next).link idx = { s.link idx with receiver := next } :=
  rfl

@[simp]
theorem link_noteCallback (s : AsyncMpsc α) (idx : Nat) :
    (s.noteCallback idx).link idx = { s.link idx with
      called := s.history.called idx ++
        RingState.calledBack (s.rings idx).consumer.pc } := by
  unfold noteCallback
  cases pcEq : (s.rings idx).consumer.pc <;> simp [link, RingState.calledBack]

theorem link_noteCallback_of_ne {j : Nat} (other : idx ≠ j) (s : AsyncMpsc α) :
    (s.noteCallback j).link idx = s.link idx := by
  unfold noteCallback
  split
  · simp [link, other]
  · rfl

@[simp]
theorem rings_noteCallback (s : AsyncMpsc α) (j : Nat) : (s.noteCallback j).rings = s.rings := by
  unfold noteCallback
  split <;> rfl

theorem ringConsumer_eq_some {j : Nat} {action : ConsumerAction}
    (taken : s.ringConsumer size j action = some after) :
    ∃ ring, (s.rings j).consumerStep size.cap action = some ring ∧ after = s.setRing j ring := by
  obtain ⟨ring, moved, rfl⟩ := Option.map_eq_some_iff.mp taken
  exact ⟨ring, moved, rfl⟩

/-! ### Where the loops go -/

theorem lookFrom_recv : lookFrom size .recvAsyncSend = (.enterTryRecv 0 : AsyncReceiverPc α) :=
  if_pos size.m_pos

theorem lookFrom_recvBatch :
    lookFrom size .recvBatchAsyncSend = (.enterDrain 0 0 false : AsyncReceiverPc α) :=
  if_pos size.m_pos

section Loops

variable {n total : Nat} {round : Bool} {future : ReceiveFuture}

theorem phase_scanAt : (scanAt size n : AsyncReceiverPc α).phase = .armed := by
  unfold scanAt
  split <;> rfl

theorem ringAt_scanAt : (scanAt size n : AsyncReceiverPc α).RingAt idx .idle := by
  unfold scanAt
  split <;> exact rfl

theorem passed_scanAt (inside : idx < size.m)
    (passed : (scanAt size n : AsyncReceiverPc α).passed idx = true) : idx < n := by
  unfold scanAt at passed
  split at passed
  · exact of_decide_eq_true passed
  · omega

theorem goes_roundAt :
    GatePhase.Goes .armed (roundAt size n total round : AsyncReceiverPc α).phase := by
  unfold roundAt
  split
  · exact .inl rfl
  · split
    · exact .inl rfl
    · split
      · exact .inr ⟨rfl, rfl⟩
      · exact .inl rfl

theorem ringAt_roundAt : (roundAt size n total round : AsyncReceiverPc α).RingAt idx .idle := by
  unfold roundAt
  split <;> [skip; split <;> [skip; split]] <;> exact rfl

theorem passed_roundAt (inside : idx < size.m)
    (passed : (roundAt size n total round : AsyncReceiverPc α).passed idx = true) :
    total = 0 ∧ idx < n := by
  unfold roundAt at passed
  split at passed
  · exact of_decide_eq_true passed
  · split at passed
    · have never := (of_decide_eq_true passed).2
      omega
    · split at passed
      · cases passed
      · omega

theorem calledAt_roundAt {called : List α} (none : total = 0 → called = []) :
    (roundAt size n total round : AsyncReceiverPc α).CalledAt idx .idle called := by
  unfold roundAt
  split
  · exact none
  · split
    · exact none
    · split
      · trivial
      · exact none (by omega)

theorem goes_emptyAt :
    GatePhase.Goes .armed (emptyAt size future n : AsyncReceiverPc α).phase := by
  unfold emptyAt
  split
  · exact .inl rfl
  · exact .inr ⟨rfl, rfl⟩

theorem ringAt_emptyAt : (emptyAt size future n : AsyncReceiverPc α).RingAt idx .idle := by
  unfold emptyAt
  split <;> exact rfl

@[simp]
theorem inHand_scanAt : (scanAt size n : AsyncReceiverPc α).inHand idx = [] := by
  unfold scanAt
  split <;> rfl

@[simp]
theorem inHand_roundAt : (roundAt size n total round : AsyncReceiverPc α).inHand idx = [] := by
  unfold roundAt
  split <;> [skip; split <;> [skip; split]] <;> rfl

@[simp]
theorem inHand_emptyAt : (emptyAt size future n : AsyncReceiverPc α).inHand idx = [] := by
  unfold emptyAt
  split <;> rfl

theorem calledAt_scanAt {called : List α} (none : called = []) :
    (scanAt size n : AsyncReceiverPc α).CalledAt idx .idle called := by
  unfold scanAt
  split <;> exact none

theorem calledAt_emptyAt {called : List α} (none : called = []) :
    (emptyAt size future n : AsyncReceiverPc α).CalledAt idx .idle called := by
  unfold emptyAt
  split <;> exact none

end Loops

/-! ### Steps inside one ring -/

section Steps

variable {j index : Nat} {saw : Bool}

/-- The receiver's step inside ring `j`, on the link of another ring. -/
theorem receiver_others (ok : (s.link idx).Ok size.cap idx) {mid : AsyncMpsc α}
    (same : mid.link idx = s.link idx) {stood next : AsyncReceiverPc α}
    (receiverEq : s.receiver = stood) (goes : stood.phase.Goes next.phase)
    (here : stood.RingAt idx (s.rings idx).consumer.pc →
      next.RingAt idx (s.rings idx).consumer.pc)
    (inHand : next.inHand idx = stood.inHand idx)
    (called : stood.CalledAt idx (s.rings idx).consumer.pc (s.history.called idx) →
      next.CalledAt idx (s.rings idx).consumer.pc (s.history.called idx))
    (wakes : stood.wakes idx ≤ next.wakes idx) (passed : next.passed idx ≤ stood.passed idx) :
    ((mid.receiverAt next).link idx).Ok size.cap idx := by
  subst receiverEq
  rw [link_receiverAt, same]
  exact ok.receiverGoes rfl goes (here ok.receiverAt) inHand (called ok.called) wakes passed

theorem enterTryRecv_link (ok : (s.link idx).Ok size.cap idx)
    (receiverEq : s.receiver = .enterTryRecv j)
    (taken : s.receiverTick size index saw = some after) : (after.link idx).Ok size.cap idx := by
  simp only [receiverTick, receiverEq] at taken
  obtain ⟨entered, entering, rfl⟩ := Option.map_eq_some_iff.mp taken
  obtain ⟨ring, moved, rfl⟩ := ringConsumer_eq_some entering
  by_cases own : idx = j
  · subst own
    obtain ⟨inside, same, shows⟩ := RingState.tryRecv_shows moved
    obtain ⟨-, -, delivered, called, -⟩ := ok.standing receiverEq
    rw [link_receiverAt, link_setRing]
    exact ok.receiverRing receiverEq (RingState.consumer_step ok.shared ok.consumer rfl moved)
      shows rfl (AsyncReceiverPc.ringAt_inTryRecv.mpr inside) (same.trans delivered) called rfl
      (decide_eq_false (lt_irrefl idx))
  · exact receiver_others ok (link_setRing_of_ne own s ring) receiverEq (.inl rfl)
      (AsyncReceiverPc.ringAt_inTryRecv_of_ne own).mpr rfl id le_rfl le_rfl

/-- Where the scan of `recv_async_send` goes with what `try_recv` returned. -/
def behindTryRecv (size : MpscSize) (j : Nat) : Except TryRecvError α → AsyncReceiverPc α
  | .ok value => .wakeProducer j value .probe
  | .error _ => scanAt size (j + 1)

theorem inTryRecv_returns (ok : (s.link idx).Ok size.cap idx) (inside : idx < size.m)
    (receiverEq : s.receiver = .inTryRecv j) {result : Except TryRecvError α}
    (returned : (s.rings j).consumer.pc = .returned (.tryRecv result))
    (taken : s.ringConsumer size j (.tick index) = some after) :
    ((after.receiverAt (behindTryRecv size j result)).link idx).Ok size.cap idx := by
  obtain ⟨ring, moved, rfl⟩ := ringConsumer_eq_some taken
  by_cases own : idx = j
  · subst own
    have known := (RingState.consumer_step ok.shared ok.consumer rfl moved).2.1
    have ringEq : ring = { s.rings idx with consumer := { (s.rings idx).consumer with
        pc := .idle
        delivered := (s.rings idx).consumer.delivered ++
          RingState.handedOut (.tryRecv result) } } := by
      change (s.rings idx).consumerTick size.cap index = some ring at moved
      simpa [RingState.consumerTick, returned, RingState.deliver, RingState.consumerAt]
        using moved.symm
    subst ringEq
    have called : s.history.called idx = [] := by
      obtain ⟨-, -, -, called, -⟩ := ok.standing receiverEq
      exact called
    have delivered : (s.rings idx).consumer.delivered = s.history.handed idx := by
      have delivered := ok.delivered
      rw [show (s.link idx).receiver = _ from receiverEq,
        show (s.link idx).called = [] from called] at delivered
      exact delivered.trans (List.append_nil _)
    rw [link_receiverAt, link_setRing]
    cases result with
    | ok value =>
        refine ok.receiverReturns receiverEq known rfl rfl (.inl rfl) rfl ?_ called (fun _ => ?_)
          fun never => ?_
        · change (s.rings idx).consumer.delivered ++ [value] =
            s.history.handed idx ++ (s.history.called idx ++ if idx = idx then [value] else [])
          rw [delivered, called, if_pos rfl, List.nil_append]
        · exact decide_eq_true rfl
        · cases never
    | error error =>
        refine ok.receiverReturns receiverEq known rfl rfl (.inl phase_scanAt) ringAt_scanAt ?_
          (calledAt_scanAt called) (fun due => ?_) fun _ => .inl ?_
        · change (s.rings idx).consumer.delivered ++ [] =
            s.history.handed idx ++ (s.history.called idx ++ (scanAt size (idx + 1)).inHand idx)
          rw [delivered, called, inHand_scanAt, List.nil_append]
        · rcases due with owes | wakes
          · rw [show (s.link idx).ring.consumer.pc = _ from returned] at owes
            cases owes
          · rw [show (s.link idx).receiver = _ from receiverEq] at wakes
            cases wakes
        · rw [show (s.link idx).ring.consumer.pc = _ from returned]
          rfl
  · have idle (here : (AsyncReceiverPc.inTryRecv j).RingAt idx (s.rings idx).consumer.pc) :
        (s.rings idx).consumer.pc = .idle :=
      (AsyncReceiverPc.ringAt_inTryRecv_of_ne own).mp here
    cases result with
    | ok value =>
        refine receiver_others ok (link_setRing_of_ne own s ring) receiverEq (.inl rfl) idle ?_ id
          (Bool.false_le _) (Bool.false_le _)
        exact if_neg (Ne.symm own)
    | error error =>
        obtain ⟨-, here, -, -, -⟩ := ok.standing receiverEq
        refine receiver_others ok (link_setRing_of_ne own s ring) receiverEq (.inl phase_scanAt)
          (fun before => ?_) inHand_scanAt (fun called => ?_) (Bool.false_le _) fun passed => ?_
        · rw [idle before]
          exact ringAt_scanAt
        · rw [idle here]
          exact calledAt_scanAt called
        · have before := passed_scanAt inside passed
          exact decide_eq_true (by omega)

theorem inTryRecv_link (ok : (s.link idx).Ok size.cap idx) (inside : idx < size.m)
    (receiverEq : s.receiver = .inTryRecv j)
    (taken : s.receiverTick size index saw = some after) : (after.link idx).Ok size.cap idx := by
  simp only [receiverTick, receiverEq] at taken
  split at taken
  · rename_i result returned
    obtain ⟨ticked, ticking, rfl⟩ := Option.map_eq_some_iff.mp taken
    have goes := inTryRecv_returns ok inside receiverEq returned ticking
    cases result <;> exact goes
  · rename_i notReturned
    obtain ⟨ring, moved, rfl⟩ := ringConsumer_eq_some taken
    by_cases own : idx = j
    · subst own
      obtain ⟨-, here, delivered, called, -⟩ := ok.standing receiverEq
      have inTryRecv := AsyncReceiverPc.ringAt_inTryRecv.mp here
      have running (outcome : ConsumerOutcome α) :
          (s.rings idx).consumer.pc ≠ .returned outcome := by
        intro returned
        rw [show (s.link idx).ring.consumer.pc = _ from returned] at inTryRecv
        cases outcome with
        | tryRecv result => exact notReturned result returned
        | _ => cases inTryRecv
      obtain ⟨stays, same, shows⟩ :=
        RingState.inTryRecv_tick ok.shared ok.consumer inTryRecv running moved
      rw [link_setRing, show s.link idx = { s.link idx with receiver := .inTryRecv idx } by
        rw [← receiverEq]; rfl]
      exact ok.receiverRing receiverEq (RingState.consumer_step ok.shared ok.consumer rfl moved)
        shows rfl (AsyncReceiverPc.ringAt_inTryRecv.mpr stays) (same.trans delivered) called rfl
        (decide_eq_false (lt_irrefl idx))
    · rw [link_setRing_of_ne own]
      exact ok

theorem wakeProducer_link (ok : (s.link idx).Ok size.cap idx) {value : α} {stage : WakeStage}
    (receiverEq : s.receiver = .wakeProducer j value stage)
    (taken : s.receiverTick size index saw = some after) : (after.link idx).Ok size.cap idx := by
  simp only [receiverTick, receiverEq, wakeProducerBy] at taken
  obtain ⟨-, here, -, called, -⟩ := ok.standing receiverEq
  by_cases own : idx = j
  · subst own
    split at taken
    · cases taken
      rw [link_receiverAt, link_setProducerWaiter]
      exact ok.receiverWakes receiverEq saw stage here (.inl rfl) rfl rfl called rfl fun _ =>
        decide_eq_true rfl
    · rename_i leaves
      cases taken
      rw [link_receiverAt, link_setProducerWaiter]
      refine ok.receiverWakes receiverEq saw stage here (.inr ⟨rfl, rfl⟩) rfl rfl called rfl
        fun coming => ?_
      exact absurd (coming.symm.trans (congrArg Option.isSome leaves)) (by decide)
  · have notOwn (next : AsyncReceiverPc α) :
        (AsyncReceiverPc.wakeProducer j value stage).wakes idx ≤ next.wakes idx := by
      rw [show (AsyncReceiverPc.wakeProducer j value stage).wakes idx = false from
        decide_eq_false (Ne.symm own)]
      exact Bool.false_le _
    split at taken <;> cases taken
    · exact receiver_others ok (link_setProducerWaiter_of_ne own s _) receiverEq (.inl rfl) id rfl
        id (notOwn _) le_rfl
    · exact receiver_others ok (link_setProducerWaiter_of_ne own s _) receiverEq
        (.inr ⟨rfl, rfl⟩) id rfl id (notOwn _) le_rfl

theorem enterDrain_link (ok : (s.link idx).Ok size.cap idx) {total : Nat} {round : Bool}
    (receiverEq : s.receiver = .enterDrain j total round)
    (taken : s.receiverTick size index saw = some after) : (after.link idx).Ok size.cap idx := by
  simp only [receiverTick, receiverEq] at taken
  obtain ⟨entered, entering, rfl⟩ := Option.map_eq_some_iff.mp taken
  obtain ⟨ring, moved, rfl⟩ := ringConsumer_eq_some entering
  by_cases own : idx = j
  · subst own
    obtain ⟨⟨inside, -⟩, same, shows⟩ := RingState.drain_shows moved
    obtain ⟨-, -, delivered, called, -⟩ := ok.standing receiverEq
    rw [link_receiverAt, link_setRing]
    exact ok.receiverRing receiverEq (RingState.consumer_step ok.shared ok.consumer rfl moved)
      shows rfl (AsyncReceiverPc.ringAt_inDrain.mpr inside) (same.trans delivered)
      (fun none _ => called none) rfl (decide_eq_false fun never => lt_irrefl idx never.2)
  · exact receiver_others ok (link_setRing_of_ne own s ring) receiverEq (.inl rfl)
      (AsyncReceiverPc.ringAt_inDrain_of_ne own).mpr rfl (fun called none _ => called none)
      le_rfl le_rfl

/-- Where the round of `recv_batch_async_send` goes with what `drain` returned. -/
def behindDrain (size : MpscSize) (j total : Nat) (round : Bool) (n : Nat) : AsyncReceiverPc α :=
  if 0 < n then .batchWakeProducer j (total + n) .probe else roundAt size (j + 1) total round

theorem inDrain_returns (ok : (s.link idx).Ok size.cap idx) (inside : idx < size.m)
    {total n : Nat} {round : Bool} (receiverEq : s.receiver = .inDrain j total round)
    (returned : (s.rings j).consumer.pc = .returned (.drain n))
    (taken : s.ringConsumer size j (.tick index) = some after) :
    ((after.receiverAt (behindDrain size j total round n)).link idx).Ok size.cap idx := by
  obtain ⟨ring, moved, rfl⟩ := ringConsumer_eq_some taken
  obtain ⟨-, -, -, called, -⟩ := ok.standing receiverEq
  unfold behindDrain
  by_cases own : idx = j
  · subst own
    have known := (RingState.consumer_step ok.shared ok.consumer rfl moved).2.1
    have ringEq : ring = { s.rings idx with consumer := { (s.rings idx).consumer with
        pc := .idle
        delivered := (s.rings idx).consumer.delivered ++ [] } } := by
      change (s.rings idx).consumerTick size.cap index = some ring at moved
      simpa [RingState.consumerTick, returned, RingState.deliver, RingState.consumerAt,
        RingState.handedOut] using moved.symm
    subst ringEq
    have delivered : (s.rings idx).consumer.delivered ++ [] =
        s.history.handed idx ++ (s.history.called idx ++ []) := by
      obtain ⟨-, -, delivered, -, -⟩ := ok.standing receiverEq
      exact (List.append_nil _).trans delivered
    rw [link_receiverAt, link_setRing]
    split
    · rename_i some
      refine ok.receiverReturns receiverEq known rfl rfl (.inl rfl) rfl delivered
        (Nat.add_pos_right total some) (fun _ => ?_) fun never => ?_
      · exact decide_eq_true rfl
      · cases never
    · rename_i none
      obtain rfl : n = 0 := by omega
      have untouched (empty : total = 0) : s.history.called idx = [] := by
        refine called empty fun _ => ?_
        rw [show (s.link idx).ring.consumer.pc = _ from returned]
        rfl
      refine ok.receiverReturns receiverEq known rfl rfl goes_roundAt ringAt_roundAt
        (by rw [inHand_roundAt]; exact delivered) (calledAt_roundAt untouched) (fun due => ?_)
        fun _ => .inl ?_
      · rcases due with owes | wakes
        · rw [show (s.link idx).ring.consumer.pc = _ from returned] at owes
          cases owes
        · rw [show (s.link idx).receiver = _ from receiverEq] at wakes
          cases wakes
      · rw [show (s.link idx).ring.consumer.pc = _ from returned]
        rfl
  · have idle (here : (AsyncReceiverPc.inDrain j total round).RingAt idx
        (s.rings idx).consumer.pc) : (s.rings idx).consumer.pc = .idle :=
      (AsyncReceiverPc.ringAt_inDrain_of_ne own).mp here
    split
    · rename_i some
      exact receiver_others ok (link_setRing_of_ne own s ring) receiverEq (.inl rfl) idle rfl
        (fun _ => Nat.add_pos_right total some) (Bool.false_le _) (Bool.false_le _)
    · have here := ok.receiverAt
      rw [show (s.link idx).receiver = _ from receiverEq] at here
      refine receiver_others ok (link_setRing_of_ne own s ring) receiverEq goes_roundAt
        (fun _ => ?_) inHand_roundAt (fun _ => ?_) (Bool.false_le _) fun passed => ?_
      · rw [idle here]
        exact ringAt_roundAt
      · rw [idle here]
        exact calledAt_roundAt fun none => called none fun same => absurd same.symm own
      · obtain ⟨none, before⟩ := passed_roundAt inside passed
        exact decide_eq_true ⟨none, by omega⟩

theorem inDrain_link (ok : (s.link idx).Ok size.cap idx) (inside : idx < size.m) {total : Nat}
    {round : Bool} (receiverEq : s.receiver = .inDrain j total round)
    (taken : s.receiverTick size index saw = some after) : (after.link idx).Ok size.cap idx := by
  simp only [receiverTick, receiverEq] at taken
  split at taken
  · rename_i n returned
    obtain ⟨ticked, ticking, rfl⟩ := Option.map_eq_some_iff.mp taken
    have goes := inDrain_returns ok inside receiverEq returned ticking
    unfold behindDrain at goes
    split at goes <;> rename_i some <;> simp only [some, if_true, if_false] <;> exact goes
  · rename_i notReturned
    obtain ⟨ring, moved, rfl⟩ := ringConsumer_eq_some taken
    rw [rings_noteCallback] at moved
    by_cases own : idx = j
    · subst own
      obtain ⟨-, here, delivered, called, -⟩ := ok.standing receiverEq
      have inDrain := AsyncReceiverPc.ringAt_inDrain.mp here
      have running (outcome : ConsumerOutcome α) :
          (s.rings idx).consumer.pc ≠ .returned outcome := by
        intro returned
        rw [show (s.link idx).ring.consumer.pc = _ from returned] at inDrain
        cases outcome with
        | drain n => exact notReturned n returned
        | _ => cases inDrain
      obtain ⟨stays, same, untouched, shows⟩ :=
        RingState.inDrain_tick ok.shared ok.consumer inDrain running moved
      rw [link_setRing, link_noteCallback,
        show s.link idx = { s.link idx with receiver := .inDrain idx total round } by
          rw [← receiverEq]; rfl]
      refine ok.receiverRing receiverEq (RingState.consumer_step ok.shared ok.consumer rfl moved)
        shows rfl (AsyncReceiverPc.ringAt_inDrain.mpr stays) ?_ (fun none still => ?_) rfl
        (decide_eq_false fun never => lt_irrefl idx never.2)
      · change ring.consumer.delivered = s.history.handed idx ++
          (s.history.called idx ++ RingState.calledBack (s.rings idx).consumer.pc ++ [])
        rw [same, show (s.link idx).ring.consumer.delivered =
          s.history.handed idx ++ (s.history.called idx ++ []) from delivered]
        simp only [List.append_nil, List.append_assoc]
        rfl
      · obtain ⟨before, nothing⟩ := untouched (still rfl)
        rw [show s.history.called idx = [] from called none fun _ => before,
          show RingState.calledBack (s.rings idx).consumer.pc = [] from nothing]
        rfl
    · rw [link_setRing_of_ne own, link_noteCallback_of_ne own]
      exact ok

theorem batchWakeProducer_link (ok : (s.link idx).Ok size.cap idx) (inside : idx < size.m)
    {total : Nat} {stage : WakeStage} (receiverEq : s.receiver = .batchWakeProducer j total stage)
    (taken : s.receiverTick size index saw = some after) : (after.link idx).Ok size.cap idx := by
  simp only [receiverTick, receiverEq, wakeProducerBy] at taken
  obtain ⟨-, here, -, some, -⟩ := ok.standing receiverEq
  have positive : 0 < total := some
  have later : (roundAt size (j + 1) total true : AsyncReceiverPc α).passed idx = false := by
    refine Bool.eq_false_of_not_eq_true fun passed => ?_
    exact absurd (passed_roundAt inside passed).1 positive.ne'
  have called {list : List α} :
      (roundAt size (j + 1) total true : AsyncReceiverPc α).CalledAt idx .idle list :=
    calledAt_roundAt fun none => absurd none positive.ne'
  by_cases own : idx = j
  · subst own
    split at taken
    · cases taken
      rw [link_receiverAt, link_setProducerWaiter]
      exact ok.receiverWakes receiverEq saw stage here (.inl rfl) rfl rfl positive rfl fun _ =>
        decide_eq_true rfl
    · rename_i leaves
      cases taken
      rw [link_receiverAt, link_setProducerWaiter]
      refine ok.receiverWakes receiverEq saw stage here goes_roundAt ringAt_roundAt
        inHand_roundAt called later fun coming => ?_
      exact absurd (coming.symm.trans (congrArg Option.isSome leaves)) (by decide)
  · have notOwn (next : AsyncReceiverPc α) :
        (AsyncReceiverPc.batchWakeProducer j total stage : AsyncReceiverPc α).wakes idx ≤
          next.wakes idx := by
      rw [show (AsyncReceiverPc.batchWakeProducer j total stage : AsyncReceiverPc α).wakes idx =
        false from decide_eq_false (Ne.symm own)]
      exact Bool.false_le _
    have idle : (s.rings idx).consumer.pc = .idle := here
    split at taken <;> cases taken
    · exact receiver_others ok (link_setProducerWaiter_of_ne own s _) receiverEq (.inl rfl) id rfl
        id (notOwn _) le_rfl
    · refine receiver_others ok (link_setProducerWaiter_of_ne own s _) receiverEq goes_roundAt
        (fun _ => ?_) inHand_roundAt (fun _ => ?_) (notOwn _) (by rw [later]; exact le_rfl)
      · rw [idle]
        exact ringAt_roundAt
      · rw [idle]
        exact called

/-- The receiver's steps that touch no gate and no store. -/
theorem check_link (ok : (s.link idx).Ok size.cap idx) {stood next : AsyncReceiverPc α}
    (receiverEq : s.receiver = stood) (stands : stood.passed idx = true)
    (idle : stood.RingAt idx (s.rings idx).consumer.pc → (s.rings idx).consumer.pc = .idle)
    (untouched : stood.CalledAt idx (s.rings idx).consumer.pc (s.history.called idx) →
      s.history.called idx = [])
    (goes : stood.phase.Goes next.phase) (here : next.RingAt idx .idle)
    (standing : stood.inHand idx = []) (inHand : next.inHand idx = [])
    (called : s.history.called idx = [] → next.CalledAt idx .idle (s.history.called idx))
    (wakes : stood.wakes idx ≤ next.wakes idx) :
    ((s.receiverAt next).link idx).Ok size.cap idx := by
  refine receiver_others ok rfl receiverEq goes (fun before => ?_) (inHand.trans standing.symm)
    (fun before => ?_) wakes (by rw [stands]; exact Bool.le_true _)
  · rw [idle before]
    exact here
  · have ring := idle (by rw [← receiverEq]; exact ok.receiverAt)
    rw [ring]
    exact called (untouched before)

theorem loadShutdown_link (ok : (s.link idx).Ok size.cap idx) {future : ReceiveFuture}
    (receiverEq : s.receiver = .loadShutdown future)
    (taken : s.receiverTick size index saw = some after) : (after.link idx).Ok size.cap idx := by
  simp only [receiverTick, receiverEq] at taken
  split at taken <;> cases taken
  · exact check_link ok receiverEq rfl id id (.inr ⟨rfl, rfl⟩) rfl rfl rfl id (Bool.false_le _)
  · exact check_link ok receiverEq rfl id id (.inl rfl) rfl rfl rfl id (Bool.false_le _)

theorem loadLive_link (ok : (s.link idx).Ok size.cap idx) {future : ReceiveFuture}
    (receiverEq : s.receiver = .loadLive future)
    (taken : s.receiverTick size index saw = some after) : (after.link idx).Ok size.cap idx := by
  simp only [receiverTick, receiverEq] at taken
  split at taken <;> cases taken
  · exact check_link ok receiverEq rfl id id goes_emptyAt ringAt_emptyAt rfl inHand_emptyAt
      calledAt_emptyAt (Bool.false_le _)
  · exact check_link ok receiverEq rfl id id (.inl rfl) rfl rfl rfl id (Bool.false_le _)

theorem emptyTail_link (ok : (s.link idx).Ok size.cap idx) {future : ReceiveFuture}
    {head : Usize} (receiverEq : s.receiver = .emptyTail future j head)
    (taken : s.receiverTick size index saw = some after) : (after.link idx).Ok size.cap idx := by
  simp only [receiverTick, receiverEq] at taken
  split at taken <;> cases taken
  · exact check_link ok receiverEq rfl id id goes_emptyAt ringAt_emptyAt rfl inHand_emptyAt
      calledAt_emptyAt (Bool.false_le _)
  · exact check_link ok receiverEq rfl id id (.inl rfl) rfl rfl rfl id (Bool.false_le _)

theorem emptyHead_link (ok : (s.link idx).Ok size.cap idx) {future : ReceiveFuture}
    (receiverEq : s.receiver = .emptyHead future j)
    (taken : s.receiverTick size index saw = some after) : (after.link idx).Ok size.cap idx := by
  simp only [receiverTick, receiverEq] at taken
  obtain ⟨⟨head, ring⟩, loaded, rfl⟩ := Option.map_eq_some_iff.mp taken
  by_cases own : idx = j
  · subst own
    obtain ⟨read, rfl⟩ := RingState.loadHead_eq_some loaded
    obtain ⟨known, fresh, facts⟩ := ok.consumer
    obtain ⟨count, le, -, -, goto⟩ := facts.load read
    have seen := (goto (s.rings idx).consumer.pc rfl).1 (facts.here.fresh_mono le)
    have loads := ok.receiverLoads ⟨known, count, seen⟩ (Location.load_eq_some read).1
    obtain ⟨-, here, -, called, -⟩ := ok.standing receiverEq
    rw [link_receiverAt, link_setRing]
    exact loads.receiverGoes receiverEq (.inl rfl) here rfl called (Bool.false_le _) le_rfl
  · exact receiver_others ok (link_setRing_of_ne own s ring) receiverEq (.inl rfl) id rfl id
      (Bool.false_le _) le_rfl

/-! ### Steps of the fan-in gate -/

theorem link_receiveCompleted (s : AsyncMpsc α) (outcome : ReceiveOutcome α) :
    (s.receiveCompleted outcome).link idx = { s.link idx with
      handed := (s.receiveCompleted outcome).history.handed idx
      called := (s.receiveCompleted outcome).history.called idx } := by
  cases outcome <;> rfl

/-- A future that completes has handed over what it held, and nothing else. -/
theorem receiveCompleted_hands {outcome : ReceiveOutcome α}
    (called : (AsyncReceiverPc.disarm (.finished outcome)).CalledAt idx .idle
      (s.history.called idx)) :
    s.history.handed idx ++ (s.history.called idx ++
        (AsyncReceiverPc.disarm (.finished outcome)).inHand idx) =
      (s.receiveCompleted outcome).history.handed idx ∧
    (s.receiveCompleted outcome).history.called idx = [] := by
  cases outcome with
  | recv j value =>
      have none : s.history.called idx = [] := called
      refine ⟨?_, none⟩
      change _ = Function.update s.history.handed j (s.history.handed j ++ [value]) idx
      rw [none, List.nil_append]
      by_cases own : j = idx
      · subst own
        rw [Function.update_self, AsyncReceiverPc.inHand, if_pos rfl]
      · rw [Function.update_of_ne (Ne.symm own), AsyncReceiverPc.inHand, if_neg own,
          List.append_nil]
  | recvBatch total => exact ⟨congrArg _ (List.append_nil _), rfl⟩
  | shutdown | dropped =>
      have none : s.history.called idx = [] := called
      refine ⟨?_, none⟩
      rw [none]
      exact List.append_nil _

theorem notified_link (ok : (s.link idx).Ok size.cap idx) {future : ReceiveFuture}
    (receiverEq : s.receiver = .notified future)
    (taken : s.receiverTick size index saw = some after) : (after.link idx).Ok size.cap idx := by
  simp only [receiverTick, receiverEq, Option.some.injEq] at taken
  subst taken
  obtain ⟨receives, here, delivered, called, heard⟩ := ok.standing receiverEq
  have known := ok.consumer.seeHeadUpTo heard.probed_le
  cases future with
  | recvAsyncSend =>
      rw [lookFrom_recv]
      exact ok.receiverTurns receiverEq known receives.arm (heard.arm receives) here rfl delivered
        called rfl (decide_eq_false (Nat.not_lt_zero idx))
  | recvBatchAsyncSend =>
      have passed :
          (AsyncReceiverPc.enterDrain 0 0 false : AsyncReceiverPc α).passed idx = false := by
        simp [AsyncReceiverPc.passed]
      rw [lookFrom_recvBatch]
      exact ok.receiverTurns receiverEq known receives.arm (heard.arm receives) here rfl delivered
        (fun _ => called) rfl passed

/-- One poll of a receiver that has found nothing. -/
theorem pollReceiver_link (ok : (s.link idx).Ok size.cap idx) {future : ReceiveFuture}
    {stood : AsyncReceiverPc α} {pending : AsyncMpsc α → Option (AsyncMpsc α)}
    (receiverEq : s.receiver = stood) (looks : stood.phase.looks = true)
    (idle : (s.rings idx).consumer.pc = .idle) (called : s.history.called idx = [])
    (inHand : stood.inHand idx = []) (wakes : stood.wakes idx = false)
    (waiting : ∀ after, s.faninWaiter.poll.1 = false →
      pending (s.setFaninWaiter s.faninWaiter.poll.2) = some after →
        (after.link idx).Ok size.cap idx)
    (taken : s.pollReceiver future pending = some after) : (after.link idx).Ok size.cap idx := by
  unfold pollReceiver at taken
  dsimp only at taken
  split at taken
  · rename_i ready
    cases taken
    have le : s.faninWaiter.poll.2.delivered idx ≤ (s.rings idx).shared.head.latest := by
      unfold AsyncGate.delivered
      split
      · exact Nat.zero_le _
      · exact ok.heads.noted_le
    obtain ⟨receives, -, delivered, -, -⟩ := ok.standing receiverEq
    rw [inHand] at delivered
    exact ok.receiverTurns receiverEq (ok.consumer.seeHeadUpTo le)
      (receives.finishes looks ready) ok.heads.toHeard.finishes idle rfl delivered called wakes rfl
  · rename_i notReady
    exact waiting after (Bool.eq_false_of_not_eq_true notReady) taken

theorem poll_link (ok : (s.link idx).Ok size.cap idx) {future : ReceiveFuture}
    (receiverEq : s.receiver = .poll future)
    (taken : s.receiverTick size index saw = some after) : (after.link idx).Ok size.cap idx := by
  simp only [receiverTick, receiverEq] at taken
  obtain ⟨-, here, -, called, -⟩ := ok.standing receiverEq
  refine pollReceiver_link ok receiverEq rfl here called rfl rfl
    (fun after pending suspends => ?_) taken
  cases suspends
  exact ok.receiverAwaits receiverEq pending

theorem suspended_link (ok : (s.link idx).Ok size.cap idx) {future : ReceiveFuture}
    (receiverEq : s.receiver = .suspended future)
    (taken : s.receiverTick size index saw = some after) : (after.link idx).Ok size.cap idx := by
  simp only [receiverTick, receiverEq] at taken
  obtain ⟨-, here, -, called, -⟩ := ok.standing receiverEq
  refine pollReceiver_link ok receiverEq rfl here called rfl rfl
    (fun after pending stays => ?_) taken
  cases stays

theorem dropNotified_link (ok : (s.link idx).Ok size.cap idx) {next : AfterReceive α}
    (receiverEq : s.receiver = .dropNotified next)
    (taken : s.receiverTick size index saw = some after) : (after.link idx).Ok size.cap idx := by
  simp only [receiverTick, receiverEq, Option.some.injEq] at taken
  subst taken
  obtain ⟨receives, here, delivered, called, heard⟩ := ok.standing receiverEq
  have idle : (s.rings idx).consumer.pc = .idle := here
  rw [show (s.link idx).ring.consumer.pc = _ from idle] at called
  have inHand : (AsyncReceiverPc.disarm next).inHand idx =
      (AsyncReceiverPc.dropNotified next).inHand idx := by
    cases next with
    | again future => rfl
    | finished outcome => cases outcome <;> rfl
  have calledAfter : (AsyncReceiverPc.disarm next).CalledAt idx .idle (s.history.called idx) := by
    cases next with
    | again future => exact called
    | finished outcome => cases outcome <;> exact called
  rw [← inHand] at delivered
  exact ok.receiverTurns receiverEq ok.consumer receives.dropNotified heard.dropNotified idle rfl
    delivered calledAfter rfl rfl

theorem disarm_link (ok : (s.link idx).Ok size.cap idx) {next : AfterReceive α}
    (receiverEq : s.receiver = .disarm next)
    (taken : s.receiverTick size index saw = some after) : (after.link idx).Ok size.cap idx := by
  simp only [receiverTick, receiverEq] at taken
  obtain ⟨receives, here, delivered, called, heard⟩ := ok.standing receiverEq
  have idle : (s.rings idx).consumer.pc = .idle := here
  rw [show (s.link idx).ring.consumer.pc = _ from idle] at called
  cases next with
  | again future =>
      cases taken
      exact ok.receiverTurns receiverEq ok.consumer receives.disarm heard.disarm idle rfl
        delivered called rfl rfl
  | finished outcome =>
      cases taken
      obtain ⟨hands, none⟩ := receiveCompleted_hands
        (s := s.setFaninWaiter s.faninWaiter.disarm) called
      rw [link_receiverAt, link_receiveCompleted]
      refine ok.receiverTurns receiverEq ok.consumer receives.disarm heard.disarm idle rfl ?_
        none rfl rfl
      rw [none]
      exact (delivered.trans hands).trans (List.append_nil _).symm

/-! ### Steps of the handle's drop -/

theorem enterClose_link (ok : (s.link idx).Ok size.cap idx) (inside : idx < size.m)
    (receiverEq : s.receiver = .enterClose j)
    (taken : s.receiverTick size index saw = some after) : (after.link idx).Ok size.cap idx := by
  simp only [receiverTick, receiverEq] at taken
  obtain ⟨-, here, delivered, called, -⟩ := ok.standing receiverEq
  split at taken
  · obtain ⟨entered, entering, rfl⟩ := Option.map_eq_some_iff.mp taken
    obtain ⟨ring, moved, rfl⟩ := ringConsumer_eq_some entering
    by_cases own : idx = j
    · subst own
      obtain ⟨closing, same, shows⟩ := RingState.consumerDrop_shows moved
      rw [link_receiverAt, link_setRing]
      exact ok.receiverRing receiverEq (RingState.consumer_step ok.shared ok.consumer rfl moved)
        shows rfl (AsyncReceiverPc.ringAt_inClose.mpr (.inl closing)) (same.trans delivered)
        called rfl rfl
    · exact receiver_others ok (link_setRing_of_ne own s ring) receiverEq (.inl rfl)
        (AsyncReceiverPc.ringAt_inClose_of_ne own).mpr rfl id (Bool.false_le _) le_rfl
  · rename_i beyond
    cases taken
    refine receiver_others ok rfl receiverEq (.inl rfl) (fun before => ?_) rfl id
      (Bool.false_le _) le_rfl
    rw [AsyncReceiverPc.RingAt, if_pos (by omega)] at before
    exact before

theorem inClose_link (ok : (s.link idx).Ok size.cap idx) (receiverEq : s.receiver = .inClose j)
    (taken : s.receiverTick size index saw = some after) : (after.link idx).Ok size.cap idx := by
  simp only [receiverTick, receiverEq] at taken
  obtain ⟨-, here, delivered, called, -⟩ := ok.standing receiverEq
  split at taken
  · rename_i gone
    cases taken
    refine receiver_others ok rfl receiverEq (.inl rfl) (fun before => ?_) rfl id
      (Bool.false_le _) le_rfl
    by_cases own : idx = j
    · subst own
      rw [AsyncReceiverPc.RingAt, if_pos (Nat.lt_succ_self idx)]
      exact gone
    · rw [AsyncReceiverPc.ringAt_enterClose_succ own]
      exact (AsyncReceiverPc.ringAt_inClose_of_ne own).mp before
  · rename_i notGone
    obtain ⟨ring, moved, rfl⟩ := ringConsumer_eq_some taken
    by_cases own : idx = j
    · subst own
      have closing := (AsyncReceiverPc.ringAt_inClose.mp here).resolve_right notGone
      obtain ⟨closes, same, shows⟩ := RingState.consumerClosing_shows closing moved
      rw [link_setRing, show s.link idx = { s.link idx with receiver := .inClose idx } by
        rw [← receiverEq]; rfl]
      exact ok.receiverRing receiverEq (RingState.consumer_step ok.shared ok.consumer rfl moved)
        shows rfl (AsyncReceiverPc.ringAt_inClose.mpr closes) (same.trans delivered) called rfl rfl
    · rw [link_setRing_of_ne own]
      exact ok

end Steps

/-- The next step of the receiving task keeps every link. -/
theorem receiverTick_link {index : Nat} {saw : Bool} (ok : (s.link idx).Ok size.cap idx)
    (inside : idx < size.m) (taken : s.receiverTick size index saw = some after) :
    (after.link idx).Ok size.cap idx := by
  cases receiverEq : s.receiver with
  | idle | gone => simp [receiverTick, receiverEq] at taken
  | unpolled future =>
      simp only [receiverTick, receiverEq, Option.some.injEq] at taken
      subst taken
      exact receiver_others ok rfl receiverEq (.inl rfl) id rfl id (Bool.false_le _) le_rfl
  | notified future => exact notified_link ok receiverEq taken
  | enterTryRecv j => exact enterTryRecv_link ok receiverEq taken
  | inTryRecv j => exact inTryRecv_link ok inside receiverEq taken
  | wakeProducer j value stage => exact wakeProducer_link ok receiverEq taken
  | enterDrain j total round => exact enterDrain_link ok receiverEq taken
  | inDrain j total round => exact inDrain_link ok inside receiverEq taken
  | batchWakeProducer j total stage => exact batchWakeProducer_link ok inside receiverEq taken
  | loadShutdown future => exact loadShutdown_link ok receiverEq taken
  | loadLive future => exact loadLive_link ok receiverEq taken
  | emptyHead future j => exact emptyHead_link ok receiverEq taken
  | emptyTail future j head => exact emptyTail_link ok receiverEq taken
  | poll future => exact poll_link ok receiverEq taken
  | suspended future => exact suspended_link ok receiverEq taken
  | dropNotified next => exact dropNotified_link ok receiverEq taken
  | disarm next => exact disarm_link ok receiverEq taken
  | enterClose j => exact enterClose_link ok inside receiverEq taken
  | inClose j => exact inClose_link ok receiverEq taken

theorem receiverStep_linksOk {action : AsyncReceiverAction} (links : LinksOk size s)
    (taken : s.receiverStep size action = some after) : LinksOk size after := by
  intro idx inside
  have ok := links idx inside
  cases action with
  | tick index saw => exact receiverTick_link ok inside taken
  | receive future =>
      simp only [receiverStep] at taken
      split at taken
      · rename_i receiverEq
        cases taken
        exact receiver_others ok rfl receiverEq (.inl rfl) id rfl id (Bool.false_le _) le_rfl
      · cases taken
  | cancel =>
      simp only [receiverStep] at taken
      split at taken
      · rename_i future receiverEq
        cases taken
        exact receiver_others ok rfl receiverEq (.inl rfl) id rfl id (Bool.false_le _) le_rfl
      · rename_i future receiverEq
        cases taken
        exact receiver_others ok rfl receiverEq (.inr ⟨rfl, rfl⟩) id rfl id (Bool.false_le _)
          (Bool.false_le _)
      · cases taken
  | drop =>
      simp only [receiverStep] at taken
      split at taken
      · rename_i receiverEq
        cases taken
        refine receiver_others ok rfl receiverEq (.inl rfl) (fun before => ?_) rfl id
          (Bool.false_le _) le_rfl
        rw [AsyncReceiverPc.RingAt, if_neg (Nat.not_lt_zero idx)]
        exact before
      · cases taken

/-! ### Shutdown -/

theorem signallerStep_linksOk {k : Nat} {action : AsyncSignalAction} (links : LinksOk size s)
    (taken : s.signallerStep size k action = some after) : LinksOk size after := by
  intro idx inside
  have ok := links idx inside
  have nothing {count latest : Nat} (stored : (none : Option (Nat × Nat)) = some (idx, count)) :
      count = latest :=
    absurd stored (Option.some_ne_none _).symm
  cases action with
  | signal =>
      simp only [signallerStep] at taken
      split at taken <;> cases taken
      exact ok
  | tick saw =>
      simp only [signallerStep] at taken
      split at taken
      · cases taken
      · rename_i stage signallerEq
        have woken := ok.faninWakes (fun _ => nothing) saw stage
        split at taken <;> cases taken <;> exact woken
      · rename_i j stage signallerEq
        split at taken
        · by_cases own : idx = j
          · subst own
            have woken := ok.producerWakes (fun _ => nothing) saw stage
            rw [← show (s.setProducerWaiter idx _).link idx = _ from
              link_setProducerWaiter s idx _] at woken
            split at taken <;> cases taken <;> exact woken
          · rw [← link_setProducerWaiter_of_ne own s
              ((s.producerWaiters j).wakeStep none saw stage).1] at ok
            split at taken <;> cases taken <;> exact ok
        · cases taken
          exact ok

/-- Every link is in order, whatever the schedule. -/
theorem linksOk {s : AsyncMpsc α} (reached : (system size).Reachable s) : LinksOk size s := by
  refine reached.invariant (LinksOk size) ?_ ?_
  · rintro _ rfl idx -
    exact AsyncLink.ok_new
  · rintro before action after - links taken
    cases action with
    | sender i action =>
        change (if i < size.m then before.senderStep size i action else none) = some after at taken
        split at taken
        · exact senderStep_linksOk links (by assumption) taken
        · cases taken
    | receiver action => exact receiverStep_linksOk links taken
    | signaller k action => exact signallerStep_linksOk links taken

end AsyncMpsc

end ArbitroKit
