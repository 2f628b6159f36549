import ArbitroKit.Countdown
import ArbitroKit.OneShotCancel

/-!
# How long a send and a receive of the one-shot take

The sender's handle is let go in a bounded number of its own steps, whatever the others
do, and from then on the receive future completes in a bounded number of its task's.
-/

namespace ArbitroKit

open Coherent SlotLane Transition

namespace OneShot

variable {α : Type*} {s after : OneShot α}

theorem senderStep_latest {action : SenderAction α} (taken : s.senderStep action = some after) :
    s.state.latest ≤ after.state.latest := by
  cases action with
  | send value | drop =>
      simp only [senderStep] at taken
      split at taken <;> cases taken
      exact le_rfl
  | tick index =>
      change s.senderTick index = some after at taken
      unfold senderTick at taken
      split at taken
      · cases taken
      · obtain ⟨state, loaded, rfl⟩ := Option.map_eq_some_iff.mp taken
        split <;> exact le_rfl
      · cases taken
        exact le_rfl
      · cases taken
        exact le_rfl
      · cases taken
        exact Location.latest_le_store s.state .full
      · cases taken
        exact le_rfl
      · obtain ⟨result, exchanged, rfl⟩ := Option.map_eq_some_iff.mp taken
        cases result with
        | ok state => exact Location.latest_le_compareExchange exchanged
        | error state => exact le_rfl
      · cases taken
        exact le_rfl
      · cases taken

theorem callTick_latest {id index : Nat} (taken : s.callTick id index = some after) :
    s.state.latest ≤ after.state.latest := by
  obtain ⟨pc, present, taken⟩ := Option.bind_eq_some_iff.mp taken
  cases pc with
  | exchange =>
      obtain ⟨result, exchanged, rfl⟩ := Option.map_eq_some_iff.mp taken
      cases result with
      | ok state => exact Location.latest_le_compareExchange exchanged
      | error state =>
          dsimp only
          cases takeFailed state <;> exact le_rfl
  | read =>
      simp only [Option.some.injEq] at taken
      subst taken
      unfold readSlot
      split <;> exact le_rfl
  | returned result => cases taken

/-- The receiver has seen nothing that is not there. -/
theorem receiverTick_view {index : Nat} (seen : s.view ≤ s.state.latest)
    (taken : s.receiverTick index = some after) : after.view ≤ after.state.latest := by
  unfold receiverTick at taken
  cases pcEq : s.receiver with
  | shared | expectFailed | returned result | gone => simp [pcEq] at taken
  | recvExchange | lastExchange =>
      simp only [pcEq] at taken
      obtain ⟨result, exchanged, rfl⟩ := Option.map_eq_some_iff.mp taken
      cases result with
      | ok state => exact seen.trans (Location.latest_le_compareExchange exchanged)
      | error state =>
          dsimp only
          cases takeFailed state <;> exact seen
  | recvRead | lastRead =>
      simp only [pcEq, Option.some.injEq] at taken
      subst taken
      unfold readSlot
      split <;> exact seen
  | waitLoad phase =>
      simp only [pcEq] at taken
      obtain ⟨state, loaded, rfl⟩ := Option.map_eq_some_iff.mp taken
      exact Location.le_latest_of_load loaded
  | waitAnnounce | waitLeave =>
      simp only [pcEq, Option.some.injEq] at taken
      subst taken
      exact seen
  | waitPark =>
      simp only [pcEq] at taken
      split at taken <;> cases taken
      exact seen
  | dropExchange =>
      simp only [pcEq] at taken
      obtain ⟨result, exchanged, rfl⟩ := Option.map_eq_some_iff.mp taken
      cases result with
      | ok state => exact seen.trans (Location.latest_le_compareExchange exchanged)
      | error state => exact seen

theorem dropInner_state (s : OneShot α) : s.dropInner.state = s.state := by
  unfold dropInner
  split
  · split <;> rfl
  · rfl

/-- Whatever can be seen lies in the history. -/
theorem Stage.stored_le_latest (stage : Stage s) : s.stored ≤ s.state.latest := by
  unfold stored
  split
  · exact Nat.zero_le _
  · rename_i moved
    by_contra fresh
    have alone : s.state.earlier = [] := by
      rw [Location.latest] at fresh
      exact List.length_eq_zero_iff.mp (by omega)
    have starts := stage.path_moves.2
    rw [Location.history, alone] at starts
    exact moved (by simpa using starts)

end OneShot

namespace OneShotAsync

variable {α : Type*} {s after : OneShotAsync α}

/-! ### How long a send and a receive take -/

/-- The task has seen nothing that is not there. -/
theorem view_le (reached : system.Reachable s) : s.shot.view ≤ s.shot.state.latest := by
  apply reached.invariant fun s => s.shot.view ≤ s.shot.state.latest
  · rintro _ rfl
    exact le_rfl
  · intro before action after reached seen taken
    have ok := taskOk reached
    have hears := ok.hears
    have published := ok.owner.stage.stored_le_latest
    change before.step action = some after at taken
    cases action with
    | sender action saw =>
        change before.senderStep action saw = some after at taken
        unfold senderStep at taken
        split at taken
        · cases action with
          | send value | drop => cases taken
          | tick index =>
              cases taken
              unfold wakeTick
              dsimp only
              split <;> exact seen
        · obtain ⟨shot, moved, rfl⟩ := Option.map_eq_some_iff.mp taken
          have view := (OneShot.senderStep_stores moved).2.1
          exact view.le.trans (seen.trans (OneShot.senderStep_latest moved))
    | tryRecv =>
        obtain ⟨shot, moved, rfl⟩ := Option.map_eq_some_iff.mp taken
        simp only [OneShot.step] at moved
        split at moved <;> cases moved
        exact seen
    | call id index =>
        obtain ⟨shot, moved, rfl⟩ := Option.map_eq_some_iff.mp taken
        have view := (OneShot.callTick_keeps moved).2.2.2
        exact view.le.trans (seen.trans (OneShot.callTick_latest moved))
    | dropInner =>
        obtain ⟨shot, moved, rfl⟩ := Option.map_eq_some_iff.mp taken
        simp only [OneShot.step] at moved
        split at moved
        · split at moved <;> cases moved
          change before.shot.dropInner.view ≤ before.shot.dropInner.state.latest
          rw [before.shot.dropInner_keeps.2.2, before.shot.dropInner_state]
          exact seen
        · cases moved
    | receiver action =>
        cases receiverStep_moves taken with
        | call which moved =>
            obtain ⟨-, rfl | rfl⟩ := OneShot.receiverStep_call which moved <;> exact seen
        | beside here moved | look here moved => exact OneShot.receiverTick_view seen moved
        | arm here =>
            have heard := hears (by rw [here]; rfl)
            exact max_le seen (heard.probed_le.trans published)
        | ready here looks ready =>
            have heard := hears (by rw [here]; rfl)
            refine max_le seen (le_trans ?_ (heard.noted_le.trans published))
            unfold AsyncGate.delivered
            split
            · exact Nat.zero_le _
            · exact le_rfl
        | _ => exact seen

def ofSender : OneShotAsyncAction α → Bool
  | .sender _ _ => true
  | _ => false

def ofReceiver : OneShotAsyncAction α → Bool
  | .receiver _ => true
  | _ => false

/-- How many steps of its `wake` the sender has left, the last one apart. -/
def stageRank : WakeStage → Nat
  | .probe => 2
  | .fetchAdd => 1
  | .notifyOne => 0

/-- How many steps the sender has left, the last one apart. -/
def sendRank (s : OneShotAsync α) : Nat :=
  match s.shot.sender with
  | .ready => 6
  | .sendLoad _ => 5
  | .sendDiscard _ => 0
  | .sendWrite _ => 4
  | .sendStore _ => 3
  | .sendWake => stageRank s.stage
  | .dropExchange => 3
  | .dropWake => stageRank s.stage
  | .gone => 0

theorem stageRank_le (stage : WakeStage) : stageRank stage ≤ 2 := by
  cases stage <;> decide

theorem sendRank_le (s : OneShotAsync α) : s.sendRank ≤ 6 := by
  have stage := stageRank_le s.stage
  unfold sendRank
  split <;> omega

theorem keeps_sender {action : OneShotAsyncAction α} (other : ofSender action = false)
    (taken : s.step action = some after) :
    after.shot.sender = s.shot.sender ∧ after.stage = s.stage := by
  cases action with
  | sender action saw => cases other
  | tryRecv =>
      obtain ⟨shot, moved, rfl⟩ := Option.map_eq_some_iff.mp taken
      simp only [OneShot.step] at moved
      split at moved <;> cases moved
      exact ⟨rfl, rfl⟩
  | call id index =>
      obtain ⟨shot, moved, rfl⟩ := Option.map_eq_some_iff.mp taken
      exact ⟨(OneShot.callTick_keeps moved).2.1, rfl⟩
  | dropInner =>
      obtain ⟨shot, moved, rfl⟩ := Option.map_eq_some_iff.mp taken
      simp only [OneShot.step] at moved
      split at moved
      · split at moved <;> cases moved
        exact ⟨s.shot.dropInner_keeps.2.1, rfl⟩
      · cases moved
  | receiver action =>
      cases receiverStep_moves taken with
      | call which moved =>
          obtain ⟨-, rfl | rfl⟩ := OneShot.receiverStep_call which moved <;> exact ⟨rfl, rfl⟩
      | beside here moved | look here moved =>
          exact ⟨(OneShot.receiverTick_keeps moved).1, rfl⟩
      | _ => exact ⟨rfl, rfl⟩

/-- A step of the wake is its last, or the next one is nearer to that. -/
theorem wakeTick_rank (s : OneShotAsync α) (saw : Bool) :
    (s.wakeTick saw).shot.sender = .gone ∨
      (s.wakeTick saw).shot.sender = s.shot.sender ∧
        stageRank (s.wakeTick saw).stage < stageRank s.stage := by
  unfold wakeTick
  cases s.stage with
  | probe =>
      cases saw with
      | true => exact .inr ⟨rfl, Nat.two_pos⟩
      | false => exact .inr ⟨rfl, Nat.one_lt_two⟩
  | fetchAdd =>
      cases armed : decide (s.gate.armed ≠ 0) with
      | true =>
          rw [AsyncGate.wakeStep, if_pos (of_decide_eq_true armed)]
          exact .inr ⟨rfl, Nat.one_pos⟩
      | false =>
          rw [AsyncGate.wakeStep, if_neg (of_decide_eq_false armed)]
          exact .inl rfl
  | notifyOne => exact .inl rfl

/-- Every step of the sender brings it nearer to letting go. -/
theorem sendRank_step {action : SenderAction α} {saw : Bool}
    (taken : s.senderStep action saw = some after) (still : after.shot.sender ≠ .gone) :
    after.sendRank < s.sendRank := by
  unfold senderStep at taken
  split at taken
  · rename_i isWaking
    cases action with
    | send value | drop => cases taken
    | tick index =>
        cases taken
        obtain ⟨same, less⟩ := (s.wakeTick_rank saw).resolve_left still
        unfold sendRank
        rw [same]
        rcases waking_iff.mp isWaking with pcEq | pcEq <;> rw [pcEq] <;> exact less
  · rename_i notWaking
    obtain ⟨shot, moved, rfl⟩ := Option.map_eq_some_iff.mp taken
    have stage := stageRank_le s.stage
    change shot.sender ≠ .gone at still
    change sendRank (s.shotAt shot) < s.sendRank
    unfold sendRank
    cases action with
    | send value =>
        simp only [OneShot.senderStep] at moved
        split at moved <;> cases moved
        rename_i pcEq
        rw [pcEq]
        exact Nat.lt_succ_self 5
    | drop =>
        simp only [OneShot.senderStep] at moved
        split at moved <;> cases moved
        rename_i pcEq
        rw [pcEq]
        exact (by decide : 3 < 6)
    | tick index =>
        change s.shot.senderTick index = some shot at moved
        unfold OneShot.senderTick at moved
        cases pcEq : s.shot.sender with
        | ready | gone => simp [pcEq] at moved
        | sendLoad value =>
            simp only [pcEq] at moved
            obtain ⟨state, loaded, rfl⟩ := Option.map_eq_some_iff.mp moved
            by_cases dropped : state = SlotState.rxDropped
            · rw [if_pos dropped]
              exact Nat.succ_pos 4
            · rw [if_neg dropped]
              exact Nat.lt_succ_self 4
        | sendWrite value =>
            simp only [pcEq, Option.some.injEq] at moved
            subst moved
            exact Nat.lt_succ_self 3
        | sendStore value =>
            simp only [pcEq, Option.some.injEq] at moved
            subst moved
            exact Nat.lt_succ_of_le stage
        | sendDiscard value =>
            simp only [pcEq, Option.some.injEq] at moved
            subst moved
            exact absurd rfl still
        | sendWake | dropWake =>
            rw [pcEq] at notWaking
            exact absurd rfl notWaking
        | dropExchange =>
            simp only [pcEq] at moved
            obtain ⟨result, exchanged, rfl⟩ := Option.map_eq_some_iff.mp moved
            cases result with
            | ok state => exact Nat.lt_succ_of_le stage
            | error state => exact absurd rfl still

/-- A sender that has not let go has a step to take. -/
theorem send_able (s : OneShotAsync α) (holding : s.shot.sender ≠ .gone) :
    ∃ action after, ofSender action = true ∧ s.step action = some after := by
  have tick (index : Nat)
      (taken : ∃ after, s.senderStep (.tick index) false = some after) :
      ∃ action after, ofSender action = true ∧ s.step action = some after := by
    obtain ⟨after, taken⟩ := taken
    exact ⟨.sender (.tick index) false, after, rfl, taken⟩
  cases pcEq : s.shot.sender with
  | gone => exact absurd pcEq holding
  | ready =>
      refine ⟨.sender .drop false, s.shotAt (s.shot.senderAt .dropExchange), rfl, ?_⟩
      change s.senderStep .drop false = _
      unfold senderStep
      rw [pcEq]
      change (s.shot.senderStep .drop).map s.shotAt = _
      rw [OneShot.senderStep, pcEq]
      rfl
  | sendWake | dropWake =>
      apply tick 0
      rw [senderStep, pcEq]
      exact ⟨_, rfl⟩
  | sendLoad value =>
      apply tick s.shot.state.latest
      have newest : s.shot.state.load 0 s.shot.state.latest = some s.shot.state.current :=
        Location.load_latest _ (Nat.zero_le _)
      rw [senderStep, pcEq]
      simp only [waking, OneShot.senderStep, OneShot.senderTick, pcEq, newest]
      exact ⟨_, rfl⟩
  | dropExchange =>
      apply tick s.shot.state.latest
      obtain ⟨result, exchanged⟩ :=
        s.shot.state.exists_compareExchange (Nat.zero_le _) SlotState.empty SlotState.closed
      rw [senderStep, pcEq]
      simp only [waking, OneShot.senderStep, OneShot.senderTick, pcEq, exchanged]
      exact ⟨_, rfl⟩
  | sendDiscard value | sendWrite value | sendStore value =>
      apply tick 0
      rw [senderStep, pcEq]
      simp only [waking, OneShot.senderStep, OneShot.senderTick, pcEq]
      exact ⟨_, rfl⟩

/-- The sender's handle is let go within seven of its own steps. -/
theorem send_countdown :
    Countdown step (ofSender (α := α))
      (Waiting (fun _ => True) (fun s => s.shot.sender ≠ .gone) (fun _ => True) sendRank)
      fun s => ¬ s.shot.sender ≠ .gone := by
  apply Countdown.ofRank
  · intro _ _ _ _ _
    trivial
  · intro s action after _ _ _ isOwn taken still
    cases action with
    | sender action saw => exact ⟨trivial, sendRank_step taken still⟩
    | _ => cases isOwn
  · intro s action after _ _ _ isOther taken _
    obtain ⟨sender, stage⟩ := keeps_sender isOther taken
    refine ⟨trivial, ?_⟩
    rw [sendRank, sendRank, sender, stage]
  · intro s _ holding _
    exact s.send_able holding

/-- How many steps the receive has left behind the sender's last one, by where it stands,
where its notification does, and how much of the state it has seen. -/
def receiveRank (wait : GatePhase) (view : Nat) : ReceiverPc α → Nat
  | .recvExchange => 10
  | .recvRead => 1
  | .waitLoad .entry => if view = 0 then 9 else 3
  | .waitLoad .announced => 7
  | .waitAnnounce => 8
  | .waitPark =>
      match wait with
      | .dropNotified => 5
      | .disarm => 4
      | _ => 6
  | .waitLeave =>
      match wait with
      | .disarm => 3
      | _ => 4
  | .lastExchange => 2
  | .lastRead => 1
  | .dropExchange => 1
  | _ => 0

def receiveRankOf (s : OneShotAsync α) : Nat := receiveRank s.wait s.shot.view s.shot.receiver

theorem receiveRank_le (wait : GatePhase) (view : Nat) (pc : ReceiverPc α) :
    receiveRank wait view pc ≤ 10 := by
  unfold receiveRank
  split <;> try split
  all_goals decide

/-- A wait over a state with the sender's store behind it. -/
structure Completing (s : OneShotAsync α) : Prop where
  reached : system.Reachable s
  gone : s.shot.sender = .gone

/-- Past the sender's last step, a poll behind the look finds the notification. -/
theorem Completing.ready (completing : Completing s) (here : s.shot.receiver = .waitPark)
    (looks : s.wait.looks = true) : s.gate.poll.1 = true := by
  have ok := taskOk completing.reached
  have stored := ok.owner.stored_of_sender (.inr (.inr completing.gone))
  have quiet : ¬ waking s.shot.sender = true := by
    rw [completing.gone]
    exact Bool.false_ne_true
  have covers := (ok.hears (by rw [here]; rfl)).covered ⟨here, looks⟩
  have released : s.gate.notify.released = true := by
    rcases covers with calm | released | coming
    · rw [stored] at calm
      cases calm
    · exact released
    · exact absurd coming quiet
  have future := ok.gate.future
  change s.gate.notify.poll.1 = true
  cases wait : s.wait with
  | armed =>
      rw [wait] at future
      have created : s.gate.notify.future = some .created := future
      rw [Notify.released, created] at released
      have permit : s.gate.notify.permit = true := by simpa using released
      rw [Notify.poll, created]
      simp only [permit, if_true]
  | suspended =>
      rw [wait] at future
      rcases future with waiting | notified
      · rw [waiting] at released
        cases released
      · rw [Notify.poll, notified]
  | _ =>
      rw [wait] at looks
      cases looks

/-- The same away from the gate. -/
theorem receiveRank_beside {index : Nat} {shot : OneShot α} (ok : TaskOk s)
    (here : besideGate s.shot.receiver = true)
    (moved : s.shot.receiverTick index = some shot)
    (still : OneShot.receiverDone shot.receiver = false) :
    shot.receiver ≠ .shared ∧
      receiveRank .away shot.view shot.receiver <
        receiveRank .away s.shot.view s.shot.receiver := by
  have holding := (OneShot.receiverTick_keeps moved).2.2.1
  unfold OneShot.receiverTick at moved
  cases pcEq : s.shot.receiver with
  | shared | expectFailed | returned result | gone => simp [pcEq] at moved
  | waitAnnounce | waitPark | waitLeave =>
      rw [pcEq] at here
      cases here
  | recvExchange =>
      simp only [pcEq] at moved
      obtain ⟨result, exchanged, rfl⟩ := Option.map_eq_some_iff.mp moved
      cases result with
      | ok state => exact ⟨by simp [OneShot.receiverAt], (by decide : 1 < 10)⟩
      | error state =>
          dsimp only at still ⊢
          cases failed : OneShot.takeFailed state with
          | some error =>
              rw [failed] at still
              cases still
          | none =>
              refine ⟨by simp [OneShot.receiverAt], ?_⟩
              change (if s.shot.view = 0 then 9 else 3) < 10
              split <;> decide
  | lastExchange =>
      simp only [pcEq] at moved
      obtain ⟨result, exchanged, rfl⟩ := Option.map_eq_some_iff.mp moved
      cases result with
      | ok state => exact ⟨by simp [OneShot.receiverAt], Nat.one_lt_two⟩
      | error state =>
          dsimp only at still
          cases failed : OneShot.takeFailed state <;> rw [failed] at still <;> cases still
  | recvRead | lastRead =>
      simp only [pcEq, Option.some.injEq] at moved
      subst moved
      obtain ⟨value, slot, -⟩ := ok.owner.stage.read (by rw [pcEq]; rfl)
      simp only [OneShot.readSlot, slot] at still
      cases still
  | waitLoad phase =>
      cases phase with
      | announced =>
          rw [pcEq] at here
          cases here
      | entry =>
          simp only [pcEq] at moved
          obtain ⟨state, loaded, rfl⟩ := Option.map_eq_some_iff.mp moved
          cases ready : decide (state ≠ SlotState.empty) with
          | true =>
              refine ⟨by simp [OneShot.receiverAt, OneShot.waited], ?_⟩
              change 2 < if s.shot.view = 0 then 9 else 3
              split <;> decide
          | false =>
              have empty : state = .empty := by simpa using ready
              subst empty
              have zero := ok.owner.zero_of_load_empty holding loaded
              have seen := (Location.load_eq_some loaded).1
              refine ⟨by simp [OneShot.receiverAt, OneShot.waited], ?_⟩
              change 8 < if s.shot.view = 0 then 9 else 3
              rw [if_pos (by omega)]
              decide
  | dropExchange =>
      simp only [pcEq] at moved
      obtain ⟨result, exchanged, rfl⟩ := Option.map_eq_some_iff.mp moved
      cases result <;> cases still

/-- Past the sender's last step, the task's own steps bring the receive nearer to its end. -/
theorem receiveRank_step (completing : Completing s) (owned : s.shot.receiver ≠ .shared)
    (moves : ReceiverMoves s after) (still : OneShot.receiverDone after.shot.receiver = false) :
    after.shot.receiver ≠ .shared ∧ after.receiveRankOf < s.receiveRankOf := by
  have ok := taskOk completing.reached
  have awaited := ok.awaited
  unfold receiveRankOf
  cases moves with
  | call which moved => exact absurd (OneShot.receiverStep_call which moved).1 owned
  | beside here moved =>
      rw [ok.away (.inl here)]
      have away : ∀ shot : OneShot α, (s.shotAt shot).wait = s.wait := fun _ => rfl
      rw [away, ok.away (.inl here)]
      exact receiveRank_beside ok here moved still
  | @look index shot here moved =>
      have fits := ok.fits
      rw [here] at fits
      obtain ⟨wait, -⟩ := fits
      unfold OneShot.receiverTick at moved
      simp only [here] at moved
      obtain ⟨state, loaded, rfl⟩ := Option.map_eq_some_iff.mp moved
      change _ ∧ receiveRank s.wait index (OneShot.waited .announced _) < _
      rw [here, wait]
      cases decide (state ≠ SlotState.empty) with
      | true => exact ⟨by simp [shotAt, OneShot.receiverAt, OneShot.waited], (by decide : 4 < 7)⟩
      | false => exact ⟨by simp [shotAt, OneShot.receiverAt, OneShot.waited], Nat.lt_succ_self 6⟩
  | arm here =>
      rw [here]
      exact ⟨by simp [receiverAt, shotAt, OneShot.receiverAt], Nat.lt_succ_self 7⟩
  | ready here looks ready =>
      refine ⟨owned, ?_⟩
      change receiveRank .dropNotified _ s.shot.receiver < _
      rw [here]
      cases wait : s.wait <;> rw [wait] at looks <;>
        first | exact Nat.lt_succ_self 5 | cases looks
  | pending here armed pending =>
      rw [completing.ready here (by rw [armed]; rfl)] at pending
      cases pending
  | dropNotified here =>
      refine ⟨owned, ?_⟩
      change receiveRank .disarm _ s.shot.receiver < _
      rcases here with ⟨here, wait⟩ | ⟨here, wait⟩ <;> rw [here, wait]
      · exact Nat.lt_succ_self 3
      · exact Nat.lt_succ_self 4
  | again here wait uncancelled =>
      have seen := awaited here (by rw [wait]; rfl) uncancelled
      refine ⟨by simp [receiverAt, shotAt, OneShot.receiverAt], ?_⟩
      change (if s.shot.view = 0 then 9 else 3) < _
      rw [if_neg (by omega), here, wait]
      exact Nat.lt_succ_self 3
  | givesUp here wait cancelled => cases still
  | leave here wait =>
      refine ⟨by simp [receiverAt, shotAt, OneShot.receiverAt], ?_⟩
      rw [here, wait]
      exact Nat.lt_succ_self 2
  | forget here => cases still
  | cancel here wait =>
      refine ⟨owned, ?_⟩
      change receiveRank .dropNotified _ s.shot.receiver < _
      rw [here, wait]
      exact Nat.lt_succ_self 5

/-- A receive that has not ended has a step to take. -/
theorem receive_able (completing : Completing s)
    (holding : OneShot.receiverDone s.shot.receiver = false)
    (owned : s.shot.receiver ≠ .shared) :
    ∃ action after, ofReceiver action = true ∧ s.step action = some after := by
  have ok := taskOk completing.reached
  have fits := ok.fits
  have seen := view_le completing.reached
  have tick (index : Nat) (taken : ∃ after, s.receiverTick index = some after) :
      ∃ action after, ofReceiver action = true ∧ s.step action = some after := by
    obtain ⟨after, taken⟩ := taken
    exact ⟨.receiver (.tick index), after, rfl, taken⟩
  cases pcEq : s.shot.receiver with
  | shared => exact absurd pcEq owned
  | expectFailed | returned result | gone =>
      rw [pcEq] at holding
      cases holding
  | recvExchange | lastExchange =>
      apply tick s.shot.state.latest
      obtain ⟨result, exchanged⟩ :=
        s.shot.state.exists_compareExchange seen SlotState.full SlotState.taken
      simp only [receiverTick, OneShot.receiverTick, pcEq, exchanged]
      exact ⟨_, rfl⟩
  | dropExchange =>
      apply tick s.shot.state.latest
      obtain ⟨result, exchanged⟩ :=
        s.shot.state.exists_compareExchange seen SlotState.empty SlotState.rxDropped
      simp only [receiverTick, OneShot.receiverTick, pcEq, exchanged]
      exact ⟨_, rfl⟩
  | waitLoad phase =>
      apply tick s.shot.state.latest
      have newest := Location.load_latest s.shot.state seen
      simp only [receiverTick, OneShot.receiverTick, pcEq, newest]
      exact ⟨_, rfl⟩
  | recvRead | lastRead | waitAnnounce =>
      apply tick 0
      simp only [receiverTick, OneShot.receiverTick, pcEq]
      exact ⟨_, rfl⟩
  | waitPark =>
      apply tick 0
      rw [pcEq] at fits
      simp only [receiverTick, pcEq]
      cases wait : s.wait with
      | away => exact absurd wait fits.1
      | armed | suspended =>
          have ready := completing.ready pcEq (by rw [wait]; rfl)
          simp only [poll, ready]
          exact ⟨_, rfl⟩
      | dropNotified | disarm => exact ⟨_, rfl⟩
  | waitLeave =>
      apply tick 0
      rw [pcEq] at fits
      simp only [receiverTick, pcEq]
      rcases fits.1 with wait | wait <;> rw [wait] <;> exact ⟨_, rfl⟩

/-- Past the sender's last step, nobody but the task has a step to take. -/
theorem Completing.alone (completing : Completing s)
    (holding : OneShot.receiverDone s.shot.receiver = false)
    (owned : s.shot.receiver ≠ .shared) {action : OneShotAsyncAction α}
    (taken : s.step action = some after) : ofReceiver action = true := by
  have ok := taskOk completing.reached
  cases action with
  | receiver action => rfl
  | sender action saw =>
      change s.senderStep action saw = some after at taken
      unfold senderStep at taken
      rw [completing.gone] at taken
      obtain ⟨shot, moved, -⟩ := Option.map_eq_some_iff.mp taken
      exact absurd completing.gone (OneShot.senderStep_stores moved).2.2.1
  | tryRecv =>
      obtain ⟨shot, moved, -⟩ := Option.map_eq_some_iff.mp taken
      cases pcEq : s.shot.receiver with
      | shared => exact absurd pcEq owned
      | _ =>
          simp only [OneShot.step, pcEq] at moved
          cases moved
  | call id index =>
      obtain ⟨shot, moved, -⟩ := Option.map_eq_some_iff.mp taken
      obtain ⟨pc, present, ticked⟩ := Option.bind_eq_some_iff.mp moved
      refine absurd (ok.owner.shared_of_call present ?_).1 owned
      rintro result rfl
      cases ticked
  | dropInner =>
      obtain ⟨shot, moved, -⟩ := Option.map_eq_some_iff.mp taken
      simp only [OneShot.step, completing.gone, holding] at moved
      cases moved

theorem Completing.step (completing : Completing s) {action : OneShotAsyncAction α}
    (taken : s.step action = some after) : Completing after where
  reached := completing.reached.next taken
  gone := by
    cases other : ofSender action with
    | false => exact (keeps_sender other taken).1.trans completing.gone
    | true =>
        cases action with
        | sender action saw =>
            change s.senderStep action saw = some after at taken
            unfold senderStep at taken
            rw [completing.gone] at taken
            obtain ⟨shot, moved, -⟩ := Option.map_eq_some_iff.mp taken
            exact absurd completing.gone (OneShot.senderStep_stores moved).2.2.1
        | _ => cases other

theorem receive_countdown :
    Countdown step (ofReceiver (α := α))
      (Waiting Completing (fun s => OneShot.receiverDone s.shot.receiver = false)
        (fun s => s.shot.receiver ≠ .shared) receiveRankOf)
      fun s => ¬ OneShot.receiverDone s.shot.receiver = false := by
  apply Countdown.ofRank
  · intro s action after completing taken
    exact completing.step taken
  · intro s action after completing holding owned isOwn taken still
    cases action with
    | receiver action =>
        exact receiveRank_step completing owned (receiverStep_moves taken) still
    | _ => cases isOwn
  · intro s action after completing holding owned isOther taken _
    rw [completing.alone holding owned taken] at isOther
    cases isOther
  · intro s completing holding owned
    exact receive_able completing holding owned

/-- How long a send and a receive take. -/
structure CompletesInTime (s : OneShotAsync α) : Prop where
  /-- Whatever the others do, the sender's handle is let go in seven of its own steps. -/
  send : ReachedWithin step ofSender 7 (fun s => s.shot.sender = .gone) s
  /-- Behind that, a receive ends in eleven steps of its task, wherever it stands. -/
  receive : s.shot.sender = .gone → s.shot.receiver ≠ .shared →
    ReachedWithin step ofReceiver 11
      (fun s => OneShot.receiverDone s.shot.receiver = true) s

theorem future_completesInTime (reached : system.Reachable s) : CompletesInTime s where
  send := by
    by_cases gone : s.shot.sender = .gone
    · exact
        { every := fun actions last ran enough => .here gone
          alone := ⟨[], s, rfl, by simp, Nat.zero_le _, gone⟩ }
    · have within : ReachedWithin step ofSender (6 + 1) _ s :=
        send_countdown.reachedWithin ⟨trivial, gone, trivial, s.sendRank_le⟩
      simpa only [ne_eq, not_not] using within
  receive gone owned := by
    cases holding : OneShot.receiverDone s.shot.receiver with
    | true =>
        exact
          { every := fun actions last ran enough => .here holding
            alone := ⟨[], s, rfl, by simp, Nat.zero_le _, holding⟩ }
    | false =>
        have within : ReachedWithin step ofReceiver (10 + 1) _ s :=
          receive_countdown.reachedWithin
            ⟨⟨reached, gone⟩, holding, owned, receiveRank_le _ _ _⟩
        simpa only [Bool.not_eq_false] using within

/-- A value is sent to a task that sleeps. -/
def sendToSleeper : List (OneShotAsyncAction Nat) :=
  [.receiver .recvAsync, .receiver (.tick 0), .receiver (.tick 0), .receiver (.tick 0),
    .receiver (.tick 0), .receiver (.tick 0), .sender (.send 7) false,
    .sender (.tick 0) false, .sender (.tick 0) false, .sender (.tick 0) false,
    .sender (.tick 0) true, .sender (.tick 0) false]

theorem future_completesInTime_sendToSleeper :
    ∃ s, Transition.execute step (new : OneShotAsync Nat) sendToSleeper = some s ∧
      (s.wait = .suspended ∧ s.shot.sender = .gone) ∧ CompletesInTime s := by
  have ran : (Transition.execute step (new : OneShotAsync Nat) sendToSleeper).map
      (fun s => (s.wait, s.shot.sender)) = some (.suspended, .gone) := by
    rfl
  obtain ⟨s, ran, outcome⟩ := Option.map_eq_some_iff.mp ran
  simp only [Prod.mk.injEq] at outcome
  exact ⟨s, ran, outcome, future_completesInTime (System.reachable_of_execute rfl ran)⟩

end OneShotAsync

end ArbitroKit
