import ArbitroKit.MpscAsyncReceiver

/-!
# Dropping the channel's futures loses nothing

What a future has done when it can be dropped, where every item is meanwhile, and that
no future stays suspended over something to do.
-/

namespace ArbitroKit

open Coherent SlotLane Cyclic Transition

/-- No poll of the producer's future is running. -/
def AsyncSenderPc.rests {α : Type*} : AsyncSenderPc α → Bool
  | .idle => true
  | .unpolled _ => true
  | .suspended _ => true
  | .enterClose => true
  | .inClose => true
  | .fetchSub => true
  | .wakeLast _ => true
  | .gone => true
  | _ => false

/-- No poll of the receive future is running. -/
def AsyncReceiverPc.rests {α : Type*} : AsyncReceiverPc α → Bool
  | .idle => true
  | .unpolled _ => true
  | .suspended _ => true
  | .enterClose _ => true
  | .inClose _ => true
  | .gone => true
  | _ => false

namespace AsyncLink

open RingState

variable {α : Type*} {cap : Cap} {idx : Nat} {link : AsyncLink α}

/-- The value in the ring of a send future that has not completed. -/
def pending (link : AsyncLink α) : List α :=
  link.sender.reporting ++ unreported link.ring.producer.pc

/-- The values out of the ring that a receive future still has to hand over. -/
def taken (idx : Nat) (link : AsyncLink α) : List α :=
  link.called ++ link.receiver.inHand idx ++ undelivered link.ring.consumer.pc

theorem Ok.sent_eq (ok : Ok cap idx link) :
    link.ring.shared.lane.sent = link.enqueued ++ link.pending := by
  rw [ok.producer.sent_eq, ok.accepted, pending, List.append_assoc]

theorem Ok.received_eq (ok : Ok cap idx link) :
    link.ring.shared.lane.received = link.handed ++ link.taken idx := by
  rw [ok.consumer.received_eq, ok.delivered, taken, List.append_assoc]

theorem Ok.conserved (ok : Ok cap idx link) :
    link.handed ++ link.taken idx ++ inRing cap link.ring.shared =
      link.enqueued ++ link.pending := by
  rw [← ok.received_eq, ← ok.sent_eq]
  exact ok.shared.received_append

/-- Between two polls the ring has nothing of a send future. -/
theorem Ok.written_eq (ok : Ok cap idx link) (rests : link.sender.rests = true) :
    link.pending = [] ∧ link.ring.shared.lane.written = link.enqueued := by
  have outside (value : α) : link.sender ≠ .inTrySend value := by
    intro inside
    rw [inside] at rests
    cases rests
  have quiet : unreported link.ring.producer.pc = [] ∧ ahead link.ring.producer.pc = [] := by
    rcases ok.senderAt.quiet outside with pcEq | pcEq | pcEq | pcEq <;> rw [pcEq] <;>
      exact ⟨rfl, rfl⟩
  have reporting : link.sender.reporting = [] := by
    cases senderEq : link.sender <;> rw [senderEq] at rests <;> first | rfl | cases rests
  have pending : link.pending = [] := by
    rw [AsyncLink.pending, reporting, quiet.1]
    rfl
  refine ⟨pending, ?_⟩
  obtain ⟨known, fresh, facts⟩ := ok.producer
  rw [facts.written, quiet.2, List.append_nil, ok.sent_eq, pending, List.append_nil]

/-- Between two polls a receive future has nothing of the ring. -/
theorem Ok.received_handed (ok : Ok cap idx link) (rests : link.receiver.rests = true) :
    link.taken idx = [] ∧ link.called = [] := by
  have called := ok.called
  have none : link.called = [] := by
    cases receiverEq : link.receiver <;> rw [receiverEq] at rests called <;>
      first | exact called | cases rests
  have outside : link.receiver.inRing = false := by
    cases receiverEq : link.receiver <;> rw [receiverEq] at rests <;> first | rfl | cases rests
  have quiet : undelivered link.ring.consumer.pc = [] := by
    rcases ok.receiverAt.quiet outside with pcEq | pcEq | pcEq | pcEq <;> rw [pcEq] <;> rfl
  have inHand : link.receiver.inHand idx = [] := by
    cases receiverEq : link.receiver <;> rw [receiverEq] at rests <;> first | rfl | cases rests
  refine ⟨?_, none⟩
  rw [taken, none, inHand, quiet]
  rfl

/-- A suspended receiver that nothing has notified has an empty ring behind every sender
whose wake has returned. -/
theorem Ok.empty_of_suspended (ok : Ok cap idx link) {future : ReceiveFuture}
    (receiverEq : link.receiver = .suspended future)
    (unnotified : link.faninWaiter.notify.future ≠ some .notified) (quiet : ¬ link.SenderDue) :
    link.ring.shared.head.current = link.ring.shared.tail.current := by
  have receives := ok.receives
  have heads := ok.heads
  unfold ConsumerListens at heads
  rw [receiverEq] at receives heads
  have passed : link.receiver.passed idx = true := by
    rw [receiverEq]
    rfl
  have empty := heads.calm_of_suspended receives (.inr passed) unnotified quiet
  rw [ok.shared.head, ok.shared.tail, empty]

/-- A suspended sender that nothing has notified has a full ring once the receiver's wake
has returned. -/
theorem Ok.full_of_suspended (ok : Ok cap idx link) {value : α}
    (senderEq : link.sender = .suspended value)
    (unnotified : link.producerWaiter.notify.future ≠ some .notified)
    (quiet : ¬ link.ReceiverDue idx) :
    isFull cap link.ring.shared.head.current link.ring.shared.tail.current = true := by
  have sends := ok.sends
  have tails := ok.tails
  unfold ProducerListens at tails
  rw [senderEq] at sends tails
  have waits : link.sender.waits = true := by
    rw [senderEq]
    rfl
  have full := tails.calm_of_suspended sends (.inr waits) unnotified quiet
  obtain ⟨ordered, near, -⟩ := ok.shared.near
  rw [ok.shared.head, ok.shared.tail]
  exact (isFull_iff cap _ _ ordered near).mpr full

end AsyncLink

namespace AsyncMpsc

open RingState

variable {α : Type*} {size : MpscSize} {s : AsyncMpsc α}

/-- The contract of the three futures in one state. -/
structure CancelSafe (size : MpscSize) (s : AsyncMpsc α) : Prop where
  /-- A send future dropped before it has completed has enqueued nothing: the ring holds
  what completed futures have put there. -/
  sendDropped : ∀ i after, s.step size (.sender i .cancel) = some after →
    (s.rings i).shared.lane.written = s.history.enqueued i ∧ after.rings = s.rings ∧
      after.history = s.history
  /-- A receive future dropped before it has completed has removed no item and called the
  callback on none. -/
  receiveDropped : ∀ after, s.step size (.receiver .cancel) = some after →
    (∀ idx < size.m, (s.rings idx).shared.lane.received = s.history.handed idx ∧
      (s.rings idx).consumer.delivered = s.history.handed idx ∧
        s.history.called idx = []) ∧ after.rings = s.rings ∧ after.history = s.history
  /-- Every item is handed over once and in order, in the hands of the running future, or
  in its ring. -/
  conserved : ∀ idx < size.m, s.history.handed idx ++ (s.link idx).taken idx ++
      inRing size.cap (s.rings idx).shared = s.history.enqueued idx ++ (s.link idx).pending
  /-- Between two polls of its ends, a ring holds what has not been handed over. -/
  settled : ∀ idx < size.m, (s.senders idx).rests = true → s.receiver.rests = true →
    s.history.handed idx ++ inRing size.cap (s.rings idx).shared = s.history.enqueued idx
  receiverAwake : ∀ future, s.receiver = .suspended future →
    s.faninWaiter.notify.future ≠ some .notified → ∀ idx < size.m, ¬ (s.link idx).SenderDue →
      (s.rings idx).shared.head.current = (s.rings idx).shared.tail.current
  senderAwake : ∀ i < size.m, ∀ value, s.senders i = .suspended value →
    (s.producerWaiters i).notify.future ≠ some .notified → ¬ (s.link i).ReceiverDue i →
      isFull size.cap (s.rings i).shared.head.current (s.rings i).shared.tail.current = true

/-- Between two polls the receiver has handed over all that it has removed. -/
theorem LinksOk.received_eq (links : LinksOk size s) (rests : s.receiver.rests = true)
    {idx : Nat} (inside : idx < size.m) :
    (s.rings idx).shared.lane.received = s.history.handed idx ∧
      (s.rings idx).consumer.delivered = s.history.handed idx ∧ s.history.called idx = [] := by
  obtain ⟨taken, called⟩ := (links idx inside).received_handed rests
  have received := (links idx inside).received_eq
  have delivered := (links idx inside).consumer.received_eq
  rw [taken, List.append_nil] at received
  have nothing : undelivered (s.rings idx).consumer.pc = [] :=
    (List.append_eq_nil_iff.mp taken).2
  rw [show undelivered (s.link idx).ring.consumer.pc = [] from nothing, List.append_nil]
    at delivered
  exact ⟨received, delivered.symm.trans received, called⟩

/-- The futures can be dropped at any await, and lose nothing. -/
theorem futures_cancelSafe (reached : (system size).Reachable s) : CancelSafe size s := by
  have links := linksOk reached
  exact
    { sendDropped := by
        intro i after taken
        change (if i < size.m then s.senderStep size i .cancel else none) = some after at taken
        split at taken
        · rename_i inside
          simp only [senderStep] at taken
          split at taken
          · rename_i value senderEq
            cases taken
            exact ⟨((links i inside).written_eq (congrArg _ senderEq)).2, rfl, rfl⟩
          · rename_i value senderEq
            cases taken
            exact ⟨((links i inside).written_eq (congrArg _ senderEq)).2, rfl, rfl⟩
          · cases taken
        · cases taken
      receiveDropped := by
        intro after taken
        change s.receiverStep size .cancel = some after at taken
        simp only [receiverStep] at taken
        split at taken
        · rename_i future receiverEq
          cases taken
          exact ⟨fun idx inside => links.received_eq (congrArg _ receiverEq) inside, rfl, rfl⟩
        · rename_i future receiverEq
          cases taken
          exact ⟨fun idx inside => links.received_eq (congrArg _ receiverEq) inside, rfl, rfl⟩
        · cases taken
      conserved := fun idx inside => (links idx inside).conserved
      settled := by
        intro idx inside sender receiver
        have conserved := (links idx inside).conserved
        rw [((links idx inside).written_eq sender).1,
          ((links idx inside).received_handed receiver).1, List.append_nil,
          List.append_nil] at conserved
        exact conserved
      receiverAwake := fun future receiverEq unnotified idx inside quiet =>
        (links idx inside).empty_of_suspended receiverEq unnotified quiet
      senderAwake := fun i inside value senderEq unnotified quiet =>
        (links i inside).full_of_suspended senderEq unnotified quiet }

/-- Two producers and rings of one slot. -/
def pairSize : MpscSize where
  cap := oneSlotCap
  m := 2
  m_pos := Nat.two_pos
  m_le := MpscSize.two_le

/-- `n` steps of the first producer's task, and of the receiver's with the loads of
`head` reading the store at `index`. -/
def sends (n : Nat) : List (AsyncAction Nat) := List.replicate n (.sender 0 (.tick 0 true))

def receives (n index : Nat) : List (AsyncAction Nat) :=
  List.replicate n (.receiver (.tick index true))

/-- A receive is dropped when a send has notified it; a second send finds the ring full
and is dropped; then a batch takes the item. -/
def droppedTwice : List (AsyncAction Nat) :=
  [AsyncAction.receiver (.receive .recvAsyncSend)] ++ receives 13 0 ++
    [AsyncAction.sender 0 (.sendAsyncSend 5)] ++ sends 12 ++ [AsyncAction.receiver .cancel] ++
    receives 2 0 ++ [AsyncAction.sender 0 (.sendAsyncSend 6)] ++ sends 8 ++
    [AsyncAction.sender 0 .cancel] ++ sends 2 ++
    [AsyncAction.receiver (.receive .recvBatchAsyncSend)] ++ receives 11 1 ++ receives 3 0 ++
    receives 3 1 ++ receives 5 0

theorem futures_cancelSafe_droppedTwice :
    ∃ s : AsyncMpsc Nat, (system pairSize).Reachable s ∧
      (s.history.enqueued 0, s.history.handed 0) = ([5], [5]) ∧ CancelSafe pairSize s := by
  have ran : (Transition.execute (fun s action => s.step pairSize action) (new pairSize)
      droppedTwice).map (fun s => (s.history.enqueued 0, s.history.handed 0)) =
        some ([5], [5]) := by
    rfl
  obtain ⟨s, ran, seen⟩ := Option.map_eq_some_iff.mp ran
  have reached : (system pairSize).Reachable s := System.reachable_of_execute rfl ran
  exact ⟨s, reached, seen, futures_cancelSafe reached⟩

end AsyncMpsc

end ArbitroKit
