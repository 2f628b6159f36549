import ArbitroKit.OneShotAsync
import ArbitroKit.OneShotOwner

/-!
# The receive future of the one-shot, awaited or dropped

Whatever becomes of the future of `recv_async`, the value has exactly one owner, the gate
is disarmed behind it, and while it sleeps no wake-up is lost.
-/

namespace ArbitroKit

open Coherent SlotLane Transition

namespace OneShot

variable {α : Type*} {s after : OneShot α}

/-- What a receiver that is still there can have to see: the one store of the sender. -/
def stored (s : OneShot α) : Nat := if s.state.current = .empty then 0 else 1

theorem stored_le (s : OneShot α) : s.stored ≤ 1 := by
  unfold stored
  split
  · exact Nat.zero_le 1
  · exact le_rfl

/-- The contract of the value does not depend on the waiter. -/
theorem OwnerOk.of_waiter {waiter : Waiter}
    (ok : OwnerOk ({ s with waiter := waiter } : OneShot α)) : OwnerOk s where
  stage := by
    cases ok.stage with
    | unsent path unclaimed holds =>
        refine .unsent path unclaimed ?_
        revert holds
        cases s.sender <;> exact id
    | closed path unclaimed unsent sender => exact .closed path unclaimed unsent sender
    | full value path unclaimed sent sender kept =>
        exact .full value path unclaimed sent sender kept
    | taken value path sent kept sender claimed =>
        exact .taken value path sent kept sender claimed
  notMisread := ok.notMisread
  consumed := ok.consumed
  torn := ok.torn
  said := ok.said
  seen := ok.seen
  expected := ok.expected

theorem OwnerOk.wakes (ok : OwnerOk s) (waking : s.sender = .sendWake ∨ s.sender = .dropWake) :
    OwnerOk (s.senderAt .gone) := by
  have taken : s.senderTick 0 = some (s.wake.senderAt .gone) := by
    rcases waking with pcEq | pcEq <;> rw [senderTick, pcEq]
  exact (ok.sender_tick taken).of_waiter

/-- A sender that wakes or has let go has not left the state `EMPTY`. -/
theorem OwnerOk.stored_of_sender (ok : OwnerOk s)
    (stored : s.sender = .sendWake ∨ s.sender = .dropWake ∨ s.sender = .gone) :
    s.stored = 1 := by
  rw [OneShot.stored, if_neg]
  intro empty
  cases ok.stage with
  | unsent path unclaimed holds =>
      rcases stored with pcEq | pcEq | pcEq <;> rw [pcEq] at holds
      · exact holds
      · exact holds
      · rw [holds.1] at empty
        cases empty
  | closed path =>
      rw [current_of_history path rfl] at empty
      cases empty
  | full value path =>
      rcases path with path | ⟨path, -⟩ <;>
        rw [current_of_history path rfl] at empty <;> cases empty
  | taken value path =>
      rw [current_of_history path rfl] at empty
      cases empty

/-- A look that finds `EMPTY` has seen nothing of the store. -/
theorem OwnerOk.zero_of_load_empty (ok : OwnerOk s) (holding : receiverDone s.receiver = false)
    {view index : Nat} (loaded : s.state.load view index = some .empty) : index = 0 := by
  by_contra nonzero
  have again : s.state.load index index = some .empty := by
    rw [Location.load, if_pos le_rfl]
    exact (Location.load_eq_some loaded).2
  obtain ⟨error, failed⟩ :=
    ok.stage.decided holding (Nat.pos_of_ne_zero nonzero) again SlotState.noConfusion
  cases failed

theorem callTick_keeps {id index : Nat} (taken : s.callTick id index = some after) :
    after.stored = s.stored ∧ after.sender = s.sender ∧ after.receiver = s.receiver ∧
      after.view = s.view := by
  obtain ⟨pc, present, taken⟩ := Option.bind_eq_some_iff.mp taken
  cases pc with
  | exchange =>
      obtain ⟨result, exchanged, rfl⟩ := Option.map_eq_some_iff.mp taken
      cases result with
      | ok state =>
          obtain ⟨current, rfl⟩ := Location.compareExchange_ok exchanged
          refine ⟨?_, rfl, rfl, rfl⟩
          rw [stored, stored, current]
          rfl
      | error state =>
          dsimp only
          cases takeFailed state <;> exact ⟨rfl, rfl, rfl, rfl⟩
  | read =>
      simp only [Option.some.injEq] at taken
      subst taken
      unfold readSlot
      split <;> exact ⟨rfl, rfl, rfl, rfl⟩
  | returned result => cases taken

theorem receiverStep_call {action : ReceiverAction} (call : action = .recv ∨ action = .drop)
    (taken : s.receiverStep action = some after) :
    s.receiver = .shared ∧
      (after = s.receiverAt .recvExchange ∨ after = s.receiverAt .dropExchange) := by
  rcases call with rfl | rfl <;> simp only [receiverStep] at taken <;> split at taken <;>
    simp_all

/-- A step of the receiver leaves the sender's store in place, until the receiver is gone. -/
theorem receiverTick_keeps {index : Nat} (taken : s.receiverTick index = some after) :
    after.sender = s.sender ∧ s.view ≤ after.view ∧ receiverDone s.receiver = false ∧
      (receiverDone after.receiver = false → after.stored = s.stored) := by
  unfold receiverTick at taken
  cases pcEq : s.receiver with
  | shared | expectFailed | returned result | gone => simp [pcEq] at taken
  | recvExchange | lastExchange =>
      simp only [pcEq] at taken
      obtain ⟨result, exchanged, rfl⟩ := Option.map_eq_some_iff.mp taken
      cases result with
      | ok state =>
          obtain ⟨current, rfl⟩ := Location.compareExchange_ok exchanged
          refine ⟨rfl, le_rfl, rfl, fun _ => ?_⟩
          rw [stored, stored, current]
          rfl
      | error state =>
          dsimp only
          cases takeFailed state <;> exact ⟨rfl, le_rfl, rfl, fun _ => rfl⟩
  | recvRead | lastRead =>
      simp only [pcEq, Option.some.injEq] at taken
      subst taken
      unfold readSlot
      split <;> exact ⟨rfl, le_rfl, rfl, fun _ => rfl⟩
  | waitLoad phase =>
      simp only [pcEq] at taken
      obtain ⟨state, loaded, rfl⟩ := Option.map_eq_some_iff.mp taken
      exact ⟨rfl, (Location.load_eq_some loaded).1, rfl, fun _ => rfl⟩
  | waitAnnounce | waitLeave =>
      simp only [pcEq, Option.some.injEq] at taken
      subst taken
      exact ⟨rfl, le_rfl, rfl, fun _ => rfl⟩
  | waitPark =>
      simp only [pcEq] at taken
      split at taken
      · cases taken
        exact ⟨rfl, le_rfl, rfl, fun _ => rfl⟩
      · cases taken
  | dropExchange =>
      simp only [pcEq] at taken
      obtain ⟨result, exchanged, rfl⟩ := Option.map_eq_some_iff.mp taken
      cases result with
      | ok state => exact ⟨rfl, le_rfl, rfl, fun holding => by cases holding⟩
      | error state => exact ⟨rfl, le_rfl, rfl, fun _ => rfl⟩

theorem dropInner_keeps (s : OneShot α) :
    s.dropInner.receiver = s.receiver ∧ s.dropInner.sender = s.sender ∧
      s.dropInner.view = s.view := by
  unfold dropInner
  split
  · split <;> exact ⟨rfl, rfl, rfl⟩
  · exact ⟨rfl, rfl, rfl⟩

/-- In front of its wake, a step of the sender leaves everything to see as it was, or stores
and owes the wake. -/
theorem senderStep_stores {action : SenderAction α} (taken : s.senderStep action = some after) :
    after.receiver = s.receiver ∧ after.view = s.view ∧ s.sender ≠ .gone ∧
      (after.stored = s.stored ∧ OneShotAsync.waking after.sender = false ∨
        after.stored = 1 ∧ OneShotAsync.waking after.sender = true) := by
  cases action with
  | send value | drop =>
      simp only [senderStep] at taken
      split at taken
      · rename_i pcEq
        cases taken
        exact ⟨rfl, rfl, by simp [pcEq], .inl ⟨rfl, rfl⟩⟩
      · cases taken
  | tick index =>
      change s.senderTick index = some after at taken
      unfold senderTick at taken
      cases pcEq : s.sender with
      | ready | gone => simp [pcEq] at taken
      | sendLoad value =>
          simp only [pcEq] at taken
          obtain ⟨state, loaded, rfl⟩ := Option.map_eq_some_iff.mp taken
          split <;> exact ⟨rfl, rfl, by simp, .inl ⟨rfl, rfl⟩⟩
      | sendDiscard value | sendWrite value | sendWake | dropWake =>
          simp only [pcEq, Option.some.injEq] at taken
          subst taken
          exact ⟨rfl, rfl, by simp, .inl ⟨rfl, rfl⟩⟩
      | sendStore value =>
          simp only [pcEq, Option.some.injEq] at taken
          subst taken
          exact ⟨rfl, rfl, by simp, .inr ⟨rfl, rfl⟩⟩
      | dropExchange =>
          simp only [pcEq] at taken
          obtain ⟨result, exchanged, rfl⟩ := Option.map_eq_some_iff.mp taken
          cases result with
          | ok state =>
              obtain ⟨-, rfl⟩ := Location.compareExchange_ok exchanged
              exact ⟨rfl, rfl, by simp, .inr ⟨rfl, rfl⟩⟩
          | error state => exact ⟨rfl, rfl, by simp, .inl ⟨rfl, rfl⟩⟩


/-- What was handed out or destroyed is the value sent, once at most. -/
theorem Stage.accounted (stage : Stage s) :
    (s.handedOut ++ s.destroyed).Sublist s.sent.toList := by
  rw [handedOut]
  cases stage with
  | unsent path unclaimed holds =>
      rw [unclaimed]
      have kept : s.destroyed = [] ∨ s.destroyed = s.sent.toList := by
        revert holds
        cases s.sender <;> simp only [SenderHolds] <;> tauto
      rcases kept with kept | kept <;> rw [kept]
      · exact List.nil_sublist _
      · exact List.Sublist.refl _
  | closed path unclaimed unsent sender => simp [unclaimed, unsent]
  | full value path unclaimed sent sender kept =>
      rcases kept with ⟨-, -, destroyed⟩ | ⟨-, destroyed⟩ <;> simp [unclaimed, destroyed, sent]
  | taken value path sent kept sender claimed =>
      rcases claimed with ⟨claims, -⟩ | claims <;> simp [claims, sent, kept]

/-- Once everything is dropped, nothing of the value is left. -/
theorem OwnerOk.accounted_all (ok : OwnerOk s) (torn : s.torn = true) :
    s.handedOut ++ s.destroyed = s.sent.toList := by
  have noReader := ok.none_not_mem torn
  have gone := (ok.torn torn).2
  rw [handedOut]
  cases ok.stage with
  | unsent path unclaimed holds =>
      rw [gone] at holds
      rw [unclaimed, holds.2]
      rfl
  | closed path unclaimed unsent sender => simp [unclaimed, unsent]
  | full value path unclaimed sent sender kept =>
      obtain ⟨-, destroyed⟩ := kept.resolve_left fun standing => by
        rw [torn] at standing
        cases standing.1
      simp [unclaimed, destroyed, sent]
  | taken value path sent kept sender claimed =>
      rcases claimed with ⟨claims, -⟩ | claims
      · simp [claims] at noReader
      · simp [claims, kept, sent]

theorem stored_eq_zero : s.stored = 0 ↔ s.state.current = .empty := by
  unfold stored
  split <;> simp_all

end OneShot

namespace OneShotAsync

variable {α : Type*} {s after : OneShotAsync α}

/-! ### What holds of the task and its gate -/

/-- Where the notification can stand at each place of the receive. -/
def WaitFits (wait : GatePhase) (cancelled : Bool) : ReceiverPc α → Prop
  | .waitLoad .announced => wait = .armed ∧ cancelled = false
  | .waitPark => wait ≠ .away ∧ (cancelled = true → wait.looks = false)
  | .waitLeave => (wait = .armed ∨ wait = .disarm) ∧ cancelled = false
  | .gone => wait = .away
  | _ => wait = .away ∧ cancelled = false

/-- The one wake of a one-shot leaves at most one notification, with what the sender has
stored in front of it. -/
structure NotifiedOnce (gate : AsyncGate) (gone : Prop) : Prop where
  once : gate.notify.permit = true → gate.notify.future ≠ some .notified
  behind : gate.notify.released = true → gone ∧ gate.noted 0 = 1

/-- The last look has found `EMPTY`. -/
def FoundEmpty (s : OneShotAsync α) : Prop :=
  s.shot.receiver = .waitPark ∧ s.wait.looks = true

/-- The invariant of the task's one-shot. -/
structure TaskOk (s : OneShotAsync α) : Prop where
  owner : OneShot.OwnerOk s.shot
  fits : WaitFits s.wait s.cancelled s.shot.receiver
  gate : s.gate.Ok s.wait
  hears : OneShot.receiverDone s.shot.receiver = false →
    s.gate.Listens s.wait 0 s.shot.stored s.shot.view (waking s.shot.sender = true)
      s.FoundEmpty (s.shot.stored = 0)
  notified : NotifiedOnce s.gate (s.shot.sender = .gone)
  /-- Behind its await the future has seen the sender's store. -/
  awaited : s.shot.receiver = .waitPark → s.wait.looks = false → s.cancelled = false →
    1 ≤ s.shot.view

theorem waking_iff {pc : SenderPc α} : waking pc = true ↔ pc = .sendWake ∨ pc = .dropWake := by
  cases pc <;> simp [waking]

/-! ### The notification of the one wake -/

section Notification

variable {gate : AsyncGate} {gone : Prop}

theorem notifiedOnce_new : NotifiedOnce .new gone where
  once permit := by cases permit
  behind released := by cases released

theorem NotifiedOnce.arm (once : NotifiedOnce gate gone) : NotifiedOnce gate.arm gone where
  once _ notified := by cases notified
  behind released := by
    apply once.behind
    have permit : gate.notify.permit = true := by
      simpa [Notify.released, AsyncGate.arm, Notify.notified] using released
    rw [Notify.released, permit, Bool.true_or]

theorem NotifiedOnce.poll (once : NotifiedOnce gate gone) : NotifiedOnce gate.poll.2 gone where
  once := by
    have before := once.once
    change gate.notify.poll.2.permit = true → gate.notify.poll.2.future ≠ some .notified
    unfold Notify.poll
    grind
  behind released := by
    apply once.behind
    change gate.notify.poll.2.released = true at released
    revert released
    unfold Notify.released Notify.poll
    grind

/-- A ready poll consumes the one notification. -/
theorem NotifiedOnce.delivered (once : NotifiedOnce gate gone) {phase : GatePhase}
    (ok : gate.Ok phase) (looks : phase.looks = true) (ready : gate.poll.1 = true) :
    gate.poll.2.delivered 0 = 1 := by
  have permit : gate.poll.2.notify.permit = false ∧ gate.notify.released = true := by
    have before := once.once
    have here := ok.future
    change gate.notify.poll.1 = true at ready
    change gate.notify.poll.2.permit = false ∧ gate.notify.released = true
    unfold Notify.poll at ready ⊢
    unfold Notify.released
    cases phase with
    | armed =>
        rw [GatePhase.NotifyAt] at here
        grind
    | suspended =>
        rcases here with waiting | notified
        · rw [waiting] at ready
          cases ready
        · grind
    | _ => cases looks
  rw [AsyncGate.delivered, permit.1]
  exact (once.behind permit.2).2

theorem NotifiedOnce.dropNotified (once : NotifiedOnce gate gone) :
    NotifiedOnce gate.dropNotified gone where
  once _ notified := by
    change gate.notify.dropFuture.future = _ at notified
    unfold Notify.dropFuture at notified
    split at notified <;> cases notified
  behind released := once.behind (gate.notify.released_dropFuture.symm.trans released)

theorem NotifiedOnce.disarm (once : NotifiedOnce gate gone) : NotifiedOnce gate.disarm gone :=
  ⟨once.once, once.behind⟩

/-- A step of the wake: until it is over nothing is notified. -/
theorem NotifiedOnce.wakeStep (once : NotifiedOnce gate gone) (waits : ¬ gone) (saw : Bool)
    (stage : WakeStage) :
    NotifiedOnce (gate.wakeStep (some (0, 1)) saw stage).1
      ((gate.wakeStep (some (0, 1)) saw stage).2 = none) := by
  have silent : ¬ gate.notify.released = true := fun released => waits (once.behind released).1
  cases stage with
  | probe => exact ⟨once.once, fun released => absurd released silent⟩
  | fetchAdd => exact ⟨once.once, fun released => absurd released silent⟩
  | notifyOne =>
      have noted : Function.update gate.noted 0 1 0 = 1 := Function.update_self ..
      refine ⟨?_, fun _ => ⟨rfl, noted⟩⟩
      change gate.notify.notifyOne.permit = true → gate.notify.notifyOne.future ≠ some .notified
      unfold Notify.released at silent
      unfold Notify.notifyOne
      grind

theorem NotifiedOnce.mono (once : NotifiedOnce gate gone) {later : Prop} (stays : gone → later) :
    NotifiedOnce gate later where
  once := once.once
  behind released := (once.behind released).imp_left stays

end Notification

/-! ### Steps of the sender -/

theorem TaskOk.sender_step {action : SenderAction α} {saw : Bool} (ok : TaskOk s)
    (taken : s.senderStep action saw = some after) : TaskOk after := by
  unfold senderStep at taken
  split at taken
  · rename_i isWaking
    have onWay := waking_iff.mp isWaking
    have stored := ok.owner.stored_of_sender (by tauto)
    have notGone : s.shot.sender ≠ .gone := by rcases onWay with pcEq | pcEq <;> simp [pcEq]
    have once := ok.notified.wakeStep notGone saw s.stage
    have hears (holding : OneShot.receiverDone s.shot.receiver = false) :=
      (stored ▸ ok.hears holding).ownWakeStep ok.gate saw s.stage
    cases action with
    | send value | drop => cases taken
    | tick index =>
        cases taken
        unfold wakeTick
        cases next : (s.gate.wakeStep (some (0, 1)) saw s.stage).2 with
        | some stage =>
            simp only [next]
            rw [next] at once
            exact
              { owner := ok.owner
                fits := ok.fits
                gate := ok.gate.wakeStep _ _ _
                hears := fun holding => by
                  have heard := hears holding
                  rw [next] at heard
                  change AsyncGate.Listens _ s.wait 0 s.shot.stored s.shot.view _ _
                    (s.shot.stored = 0)
                  rw [stored]
                  exact heard.comes fun _ => isWaking
                notified := once.mono fun gone => by cases gone
                awaited := ok.awaited }
        | none =>
            simp only [next]
            rw [next] at once
            exact
              { owner := ok.owner.wakes onWay
                fits := ok.fits
                gate := ok.gate.wakeStep _ _ _
                hears := fun holding => by
                  have heard := hears holding
                  rw [next] at heard
                  change AsyncGate.Listens _ s.wait 0 s.shot.stored s.shot.view _ _
                    (s.shot.stored = 0)
                  rw [stored]
                  exact heard.comes fun never => by cases never
                notified := once.mono fun _ => rfl
                awaited := ok.awaited }
  · rename_i notWaking
    obtain ⟨shot, moved, rfl⟩ := Option.map_eq_some_iff.mp taken
    obtain ⟨receiver, view, notGone, stores⟩ := OneShot.senderStep_stores moved
    exact
      { owner := ok.owner.sender_step moved
        fits := by
          change WaitFits s.wait s.cancelled shot.receiver
          rw [receiver]
          exact ok.fits
        gate := ok.gate
        hears := fun holding => by
          change OneShot.receiverDone shot.receiver = false at holding
          rw [receiver] at holding
          have heard := ok.hears holding
          change AsyncGate.Listens s.gate s.wait 0 shot.stored shot.view
            (waking shot.sender = true) (shot.receiver = .waitPark ∧ s.wait.looks = true)
            (shot.stored = 0)
          rw [receiver, view]
          rcases stores with ⟨same, -⟩ | ⟨stored, onWay⟩
          · rw [same]
            exact heard.comes fun never => absurd never notWaking
          · rw [stored]
            exact heard.stores s.shot.stored_le onWay
        notified := ok.notified.mono fun gone => absurd gone notGone
        awaited := fun parked => by
          change shot.receiver = _ at parked
          change s.wait.looks = false → s.cancelled = false → 1 ≤ shot.view
          rw [view]
          exact ok.awaited (receiver.symm.trans parked) }

/-! ### Steps away from the gate -/

/-- A step of the receiving side with no notification around. -/
theorem TaskOk.of_away (ok : TaskOk s) {shot : OneShot α} (away : s.wait = .away)
    (owner : OneShot.OwnerOk shot) (fits : WaitFits .away s.cancelled shot.receiver)
    (sender : shot.sender = s.shot.sender) (view : s.shot.view ≤ shot.view)
    (keeps : OneShot.receiverDone shot.receiver = false →
      OneShot.receiverDone s.shot.receiver = false ∧ shot.stored = s.shot.stored) :
    TaskOk (s.shotAt shot) where
  owner := owner
  fits := away ▸ fits
  gate := ok.gate
  hears holding := by
    obtain ⟨was, stored⟩ := keeps holding
    have heard := (ok.hears was).toHeard.sees view
    change AsyncGate.Listens s.gate s.wait 0 shot.stored shot.view
      (waking shot.sender = true) (shot.receiver = .waitPark ∧ s.wait.looks = true)
      (shot.stored = 0)
    rw [stored, sender]
    refine .leaves heard ?_
    rw [away]
    rintro ⟨-, never⟩
    cases never
  notified := sender ▸ ok.notified
  awaited parked := by
    change shot.receiver = _ at parked
    rw [parked] at fits
    exact absurd rfl fits.1

/-- The places of the receive with no notification. -/
def besideGate : ReceiverPc α → Bool
  | .waitLoad .announced => false
  | .waitAnnounce => false
  | .waitPark => false
  | .waitLeave => false
  | _ => true

theorem TaskOk.away (ok : TaskOk s) (beside : besideGate s.shot.receiver = true ∨
    s.shot.receiver = .waitAnnounce) : s.wait = .away := by
  have fits := ok.fits
  unfold WaitFits at fits
  split at fits <;> simp_all [besideGate]

theorem TaskOk.not_cancelled (ok : TaskOk s)
    (holding : OneShot.receiverDone s.shot.receiver = false)
    (elsewhere : s.shot.receiver ≠ .waitPark) : s.cancelled = false := by
  have fits := ok.fits
  unfold WaitFits at fits
  split at fits
  · exact fits.2
  · contradiction
  · exact fits.2
  · rename_i gone
    rw [gone] at holding
    cases holding
  · exact fits.2

/-- From such a place the receive goes on to such a place, or to the gate. -/
theorem fits_of_beside {index : Nat} {shot : OneShot α} (beside : besideGate s.shot.receiver = true)
    (taken : s.shot.receiverTick index = some shot) :
    WaitFits .away false shot.receiver := by
  unfold OneShot.receiverTick at taken
  cases pcEq : s.shot.receiver with
  | shared | expectFailed | returned result | gone => simp [pcEq] at taken
  | waitAnnounce | waitPark | waitLeave =>
      rw [pcEq] at beside
      cases beside
  | recvExchange | lastExchange =>
      simp only [pcEq] at taken
      obtain ⟨result, exchanged, rfl⟩ := Option.map_eq_some_iff.mp taken
      cases result with
      | ok state => exact ⟨rfl, rfl⟩
      | error state =>
          dsimp only
          cases takeFailed : OneShot.takeFailed state <;> exact ⟨rfl, rfl⟩
  | recvRead | lastRead =>
      simp only [pcEq, Option.some.injEq] at taken
      subst taken
      unfold OneShot.readSlot
      split
      · exact ⟨rfl, rfl⟩
      · exact ⟨rfl, rfl⟩
      · change WaitFits .away false s.shot.receiver
        rw [pcEq]
        exact ⟨rfl, rfl⟩
  | waitLoad phase =>
      cases phase with
      | announced =>
          rw [pcEq] at beside
          cases beside
      | entry =>
          simp only [pcEq] at taken
          obtain ⟨state, loaded, rfl⟩ := Option.map_eq_some_iff.mp taken
          cases decide (state ≠ SlotState.empty) <;> exact ⟨rfl, rfl⟩
  | dropExchange =>
      simp only [pcEq] at taken
      obtain ⟨result, exchanged, rfl⟩ := Option.map_eq_some_iff.mp taken
      cases result <;> exact rfl

/-! ### Steps at the gate -/

/-- A waiting receive goes on, having seen more of the state or not. -/
theorem TaskOk.owner_goto (ok : TaskOk s)
    (waits : s.shot.receiver = .waitAnnounce ∨ s.shot.receiver = .waitPark ∨
      s.shot.receiver = .waitLeave ∨ s.shot.receiver = .recvExchange)
    (pc : ReceiverPc α) (view : Nat) (unclaimed : OneShot.receiverClaim pc = [])
    (silent : ∀ result, pc ≠ .returned result)
    (seen : pc = .waitLeave ∨ pc = .lastExchange → 1 ≤ view) (expected : pc ≠ .expectFailed) :
    OneShot.OwnerOk (({ s.shot with view := view } : OneShot α).receiverAt pc) := by
  have holding : OneShot.receiverDone s.shot.receiver = false := by
    rcases waits with here | here | here | here <;> rw [here] <;> rfl
  have quiet : OneShot.receiverClaim s.shot.receiver = [] := by
    rcases waits with here | here | here | here <;> rw [here] <;> rfl
  have owned : s.shot.receiver ≠ .shared := by
    rcases waits with here | here | here | here <;> rw [here] <;> simp
  exact ok.owner.goto holding (ok.owner.consumed.resolve_left owned) quiet rfl rfl rfl rfl rfl
    rfl rfl rfl unclaimed silent seen expected

theorem TaskOk.arm (ok : TaskOk s) (here : s.shot.receiver = .waitAnnounce) :
    TaskOk (s.arm.receiverAt (.waitLoad .announced)) := by
  have away := ok.away (.inr here)
  have gate : s.gate.Ok .away := away ▸ ok.gate
  have holding : OneShot.receiverDone s.shot.receiver = false := by rw [here]; rfl
  have heard : s.gate.Heard .away 0 s.shot.stored s.shot.view (waking s.shot.sender = true) :=
    away ▸ (ok.hears holding).toHeard
  exact
    { owner := ok.owner_goto (.inl here) _ _ rfl (by simp) (by simp) (by simp)
      fits := ⟨rfl, ok.not_cancelled holding (by simp [here])⟩
      gate := gate.arm
      hears := fun _ => .leaves (heard.arm gate) fun never => by cases never.1
      notified := ok.notified.arm
      awaited := fun never => by cases never }

theorem TaskOk.look {index : Nat} {shot : OneShot α} (ok : TaskOk s)
    (here : s.shot.receiver = .waitLoad .announced)
    (taken : s.shot.receiverTick index = some shot) : TaskOk (s.shotAt shot) := by
  have owner := ok.owner.receiver_tick taken
  have fits := ok.fits
  have holding : OneShot.receiverDone s.shot.receiver = false := by rw [here]; rfl
  rw [here] at fits
  obtain ⟨armed, uncancelled⟩ := fits
  unfold OneShot.receiverTick at taken
  simp only [here] at taken
  obtain ⟨state, loaded, rfl⟩ := Option.map_eq_some_iff.mp taken
  have heard := (ok.hears holding).toHeard.sees (Location.load_eq_some loaded).1
  cases ready : decide (state ≠ SlotState.empty) with
  | true =>
      rw [ready] at owner
      exact
        { owner := owner
          fits := ⟨.inl armed, uncancelled⟩
          gate := ok.gate
          hears := fun _ => .leaves heard fun never => by cases never.1
          notified := ok.notified
          awaited := fun never => by cases never }
  | false =>
      rw [ready] at owner
      have empty : state = .empty := by simpa using ready
      subst empty
      have zero := ok.owner.zero_of_load_empty holding loaded
      exact
        { owner := owner
          fits := ⟨by simp [shotAt, armed], fun never => by
            rw [shotAt, uncancelled] at never
            cases never⟩
          gate := ok.gate
          hears := fun _ => .finds heard (by simp [shotAt, armed, GatePhase.looks]) fun seen =>
            Nat.le_zero.mp (seen.trans zero.le)
          notified := ok.notified
          awaited := fun _ looks => by
            change s.wait.looks = false at looks
            rw [armed] at looks
            cases looks }

/-- A ready poll of the notification: the task has seen the store. -/
theorem TaskOk.poll_ready (ok : TaskOk s) (here : s.shot.receiver = .waitPark)
    (looks : s.wait.looks = true) (ready : s.gate.poll.1 = true) :
    TaskOk (({ s with gate := s.gate.poll.2, wait := .dropNotified } : OneShotAsync α).seeState
      (s.gate.poll.2.delivered 0)) := by
  have holding : OneShot.receiverDone s.shot.receiver = false := by rw [here]; rfl
  have owner := ok.owner_goto (.inr (.inl here)) .waitPark
    (max s.shot.view (s.gate.poll.2.delivered 0)) rfl (by simp) (by simp) (by simp)
  have same : ({ s.shot with view := max s.shot.view (s.gate.poll.2.delivered 0) } :
      OneShot α).receiverAt .waitPark =
        { s.shot with view := max s.shot.view (s.gate.poll.2.delivered 0) } := by
    rw [OneShot.receiverAt, ← here]
  rw [same] at owner
  exact
    { owner := owner
      fits := by
        change WaitFits .dropNotified s.cancelled s.shot.receiver
        rw [here]
        exact ⟨by simp, fun _ => rfl⟩
      gate := ok.gate.finishes looks ready
      hears := fun _ => .leaves (ok.hears holding).toHeard.finishes fun never => by cases never.2
      notified := ok.notified.poll
      awaited := fun _ _ _ => by
        change 1 ≤ max s.shot.view (s.gate.poll.2.delivered 0)
        rw [ok.notified.delivered ok.gate looks ready]
        exact le_max_right _ _ }

theorem TaskOk.poll_pending (ok : TaskOk s) (here : s.shot.receiver = .waitPark)
    (armed : s.wait = .armed) (pending : s.gate.poll.1 = false) :
    TaskOk ({ s with gate := s.gate.poll.2, wait := .suspended } : OneShotAsync α) := by
  have holding : OneShot.receiverDone s.shot.receiver = false := by rw [here]; rfl
  have gate : s.gate.Ok .armed := armed ▸ ok.gate
  have fits := ok.fits
  rw [here] at fits
  have uncancelled : s.cancelled = false := by
    apply eq_false_of_ne_true
    intro cancelled
    have looks := fits.2 cancelled
    rw [armed] at looks
    cases looks
  exact
    { owner := ok.owner
      fits := by
        change WaitFits .suspended s.cancelled s.shot.receiver
        rw [here]
        exact ⟨by simp, fun never => by
          rw [uncancelled] at never
          cases never⟩
      gate := gate.awaits pending
      hears := fun _ =>
        (armed ▸ ok.hears holding).awaits gate pending fun found => ⟨found.1, armed ▸ rfl⟩
      notified := ok.notified.poll
      awaited := fun _ never => by cases never }

/-- The notification is dropped: the wait is over, or the future is. -/
theorem TaskOk.dropNotified (ok : TaskOk s)
    (here : s.shot.receiver = .waitLeave ∧ s.wait = .armed ∨
      s.shot.receiver = .waitPark ∧ s.wait = .dropNotified) : TaskOk s.dropNotified := by
  have holding : OneShot.receiverDone s.shot.receiver = false := by
    rcases here with ⟨here, -⟩ | ⟨here, -⟩ <;> rw [here] <;> rfl
  have goes : s.wait.Goes .dropNotified := by
    rcases here with ⟨-, wait⟩ | ⟨-, wait⟩ <;> rw [wait]
    · exact .inr ⟨rfl, rfl⟩
    · exact .inl rfl
  exact
    { owner := ok.owner
      fits := by
        have fits := ok.fits
        change WaitFits .disarm s.cancelled s.shot.receiver
        rcases here with ⟨here, -⟩ | ⟨here, -⟩ <;> rw [here] at fits ⊢
        · exact ⟨.inr rfl, fits.2⟩
        · exact ⟨by simp, fun _ => rfl⟩
      gate := (ok.gate.goes goes).dropNotified
      hears := fun _ =>
        have heard : s.gate.Heard .dropNotified 0 s.shot.stored s.shot.view
            (waking s.shot.sender = true) :=
          (ok.hears holding).toHeard.goto fun never => by cases never
        .leaves heard.dropNotified fun never => by cases never.2
      notified := ok.notified.dropNotified
      awaited := fun parked _ uncancelled => by
        change s.shot.receiver = _ at parked
        rcases here with ⟨here, -⟩ | ⟨-, wait⟩
        · rw [here] at parked
          cases parked
        · exact ok.awaited parked (by rw [wait]; rfl) uncancelled }

theorem TaskOk.disarm (ok : TaskOk s) (wait : s.wait = .disarm)
    (waits : s.shot.receiver = .waitPark ∨ s.shot.receiver = .waitLeave) {pc : ReceiverPc α}
    (unclaimed : OneShot.receiverClaim pc = []) (silent : ∀ result, pc ≠ .returned result)
    (seen : pc = .waitLeave ∨ pc = .lastExchange → 1 ≤ s.shot.view)
    (expected : pc ≠ .expectFailed) (fits : WaitFits .away s.cancelled pc) :
    TaskOk (s.disarm.receiverAt pc) := by
  have holding : OneShot.receiverDone s.shot.receiver = false := by
    rcases waits with here | here <;> rw [here] <;> rfl
  exact
    { owner := ok.owner_goto (by tauto) _ s.shot.view unclaimed silent seen expected
      fits := fits
      gate := (wait ▸ ok.gate : s.gate.Ok .disarm).disarm
      hears := fun _ =>
        .leaves (wait ▸ (ok.hears holding).toHeard : s.gate.Heard .disarm 0 _ _ _).disarm
          fun never => by cases never.2
      notified := ok.notified.disarm
      awaited := fun parked => by
        change pc = _ at parked
        rw [parked] at fits
        exact absurd rfl fits.1 }

/-- The future is dropped while it is suspended. -/
theorem TaskOk.cancel (ok : TaskOk s) (here : s.shot.receiver = .waitPark)
    (wait : s.wait = .suspended) :
    TaskOk ({ s with wait := .dropNotified, cancelled := true } : OneShotAsync α) := by
  have holding : OneShot.receiverDone s.shot.receiver = false := by rw [here]; rfl
  exact
    { owner := ok.owner
      fits := by
        change WaitFits .dropNotified true s.shot.receiver
        rw [here]
        exact ⟨by simp, fun _ => rfl⟩
      gate := (wait ▸ ok.gate : s.gate.Ok .suspended).cancel rfl
      hears := fun _ => .leaves ((ok.hears holding).toHeard.goto (by simp [GatePhase.looks]))
        fun never => by cases never.2
      notified := ok.notified
      awaited := fun _ _ never => by cases never }

/-- The receiver's handle is given up, or becomes the future. -/
theorem TaskOk.receiver_call {action : ReceiverAction} {shot : OneShot α} (ok : TaskOk s)
    (call : action = .recv ∨ action = .drop)
    (taken : s.shot.receiverStep action = some shot) : TaskOk (s.shotAt shot) := by
  have owner := ok.owner.receiver_step taken
  obtain ⟨here, outcome⟩ := OneShot.receiverStep_call call taken
  have uncancelled := ok.not_cancelled (by rw [here]; rfl) (by simp [here])
  rcases outcome with rfl | rfl <;>
    exact ok.of_away (ok.away (.inl (by rw [here]; rfl))) owner ⟨rfl, uncancelled⟩ rfl le_rfl
      fun _ => ⟨by rw [here]; rfl, rfl⟩

/-- What a step of the receiver can do. -/
inductive ReceiverMoves (s : OneShotAsync α) : OneShotAsync α → Prop
  | call {action : ReceiverAction} {shot : OneShot α} (which : action = .recv ∨ action = .drop)
      (moved : s.shot.receiverStep action = some shot) : ReceiverMoves s (s.shotAt shot)
  | beside {index : Nat} {shot : OneShot α} (here : besideGate s.shot.receiver = true)
      (moved : s.shot.receiverTick index = some shot) : ReceiverMoves s (s.shotAt shot)
  | look {index : Nat} {shot : OneShot α} (here : s.shot.receiver = .waitLoad .announced)
      (moved : s.shot.receiverTick index = some shot) : ReceiverMoves s (s.shotAt shot)
  | arm (here : s.shot.receiver = .waitAnnounce) :
      ReceiverMoves s (s.arm.receiverAt (.waitLoad .announced))
  | ready (here : s.shot.receiver = .waitPark) (looks : s.wait.looks = true)
      (ready : s.gate.poll.1 = true) :
      ReceiverMoves s (({ s with gate := s.gate.poll.2, wait := .dropNotified } :
        OneShotAsync α).seeState (s.gate.poll.2.delivered 0))
  | pending (here : s.shot.receiver = .waitPark) (armed : s.wait = .armed)
      (pending : s.gate.poll.1 = false) :
      ReceiverMoves s { s with gate := s.gate.poll.2, wait := .suspended }
  | dropNotified (here : s.shot.receiver = .waitLeave ∧ s.wait = .armed ∨
      s.shot.receiver = .waitPark ∧ s.wait = .dropNotified) : ReceiverMoves s s.dropNotified
  | again (here : s.shot.receiver = .waitPark) (wait : s.wait = .disarm)
      (awaited : s.cancelled = false) : ReceiverMoves s (s.disarm.receiverAt (.waitLoad .entry))
  | givesUp (here : s.shot.receiver = .waitPark) (wait : s.wait = .disarm)
      (cancelled : s.cancelled = true) : ReceiverMoves s (s.disarm.receiverAt .gone)
  | leave (here : s.shot.receiver = .waitLeave) (wait : s.wait = .disarm) :
      ReceiverMoves s (s.disarm.receiverAt .lastExchange)
  | forget (here : s.shot.receiver = .recvExchange) :
      ReceiverMoves s (({ s with cancelled := true } : OneShotAsync α).receiverAt .gone)
  | cancel (here : s.shot.receiver = .waitPark) (wait : s.wait = .suspended) :
      ReceiverMoves s { s with wait := .dropNotified, cancelled := true }

theorem receiverTick_moves {index : Nat} (taken : s.receiverTick index = some after) :
    ReceiverMoves s after := by
  unfold receiverTick at taken
  have beside (here : besideGate s.shot.receiver = true)
      (taken : (s.shot.receiverTick index).map s.shotAt = some after) : ReceiverMoves s after := by
    obtain ⟨shot, moved, rfl⟩ := Option.map_eq_some_iff.mp taken
    exact .beside here moved
  cases pcEq : s.shot.receiver with
  | waitAnnounce =>
      simp only [pcEq, Option.some.injEq] at taken
      subst taken
      exact .arm pcEq
  | waitPark =>
      simp only [pcEq] at taken
      cases wait : s.wait with
      | away => simp [wait] at taken
      | armed =>
          simp only [wait, poll] at taken
          split at taken <;> cases taken
          · rename_i ready
            exact .ready pcEq (by rw [wait]; rfl) ready
          · rename_i pending
            exact .pending pcEq wait (eq_false_of_ne_true pending)
      | suspended =>
          simp only [wait, poll] at taken
          split at taken <;> cases taken
          rename_i ready
          exact .ready pcEq (by rw [wait]; rfl) ready
      | dropNotified =>
          simp only [wait, Option.some.injEq] at taken
          subst taken
          exact .dropNotified (.inr ⟨pcEq, wait⟩)
      | disarm =>
          simp only [wait, Option.some.injEq] at taken
          subst taken
          cases cancelled : s.cancelled with
          | true => exact .givesUp pcEq wait cancelled
          | false => exact .again pcEq wait cancelled
  | waitLeave =>
      simp only [pcEq] at taken
      cases wait : s.wait with
      | armed =>
          simp only [wait, Option.some.injEq] at taken
          subst taken
          exact .dropNotified (.inl ⟨pcEq, wait⟩)
      | disarm =>
          simp only [wait, Option.some.injEq] at taken
          subst taken
          exact .leave pcEq wait
      | _ => simp [wait] at taken
  | waitLoad phase =>
      simp only [pcEq] at taken
      cases phase with
      | entry => exact beside (by rw [pcEq]; rfl) taken
      | announced =>
          obtain ⟨shot, moved, rfl⟩ := Option.map_eq_some_iff.mp taken
          exact .look pcEq moved
  | _ =>
      simp only [pcEq] at taken
      exact beside (by rw [pcEq]; rfl) taken

theorem receiverStep_moves {action : RecvAsyncAction}
    (taken : s.receiverStep action = some after) : ReceiverMoves s after := by
  cases action with
  | tick index => exact receiverTick_moves taken
  | recvAsync =>
      obtain ⟨shot, moved, rfl⟩ := Option.map_eq_some_iff.mp taken
      exact .call (.inl rfl) moved
  | drop =>
      obtain ⟨shot, moved, rfl⟩ := Option.map_eq_some_iff.mp taken
      exact .call (.inr rfl) moved
  | cancel =>
      simp only [receiverStep] at taken
      split at taken
      · rename_i here
        cases taken
        exact .forget here
      · rename_i here
        split at taken <;> cases taken
        rename_i wait
        exact .cancel here wait
      · cases taken

theorem TaskOk.receiver_step {action : RecvAsyncAction} (ok : TaskOk s)
    (taken : s.receiverStep action = some after) : TaskOk after := by
  cases receiverStep_moves taken with
  | call which moved => exact ok.receiver_call which moved
  | beside here moved =>
      obtain ⟨sender, view, holding, keeps⟩ := OneShot.receiverTick_keeps moved
      have elsewhere : s.shot.receiver ≠ .waitPark := by
        intro parked
        rw [parked] at here
        cases here
      refine ok.of_away (ok.away (.inl here)) (ok.owner.receiver_tick moved) ?_ sender view
        fun still => ⟨holding, keeps still⟩
      rw [ok.not_cancelled holding elsewhere]
      exact fits_of_beside here moved
  | look here moved => exact ok.look here moved
  | arm here => exact ok.arm here
  | ready here looks ready => exact ok.poll_ready here looks ready
  | pending here armed pending => exact ok.poll_pending here armed pending
  | dropNotified here => exact ok.dropNotified here
  | again here wait awaited =>
      exact ok.disarm wait (.inl here) rfl (by simp) (by simp) (by simp) ⟨rfl, awaited⟩
  | givesUp here wait cancelled =>
      exact ok.disarm wait (.inl here) rfl (by simp) (by simp) (by simp) rfl
  | leave here wait =>
      have fits := ok.fits
      rw [here] at fits
      exact ok.disarm wait (.inr here) rfl (by simp) (fun _ => ok.owner.seen (.inl here))
        (by simp) ⟨rfl, fits.2⟩
  | forget here =>
      have away := ok.away (.inl (by rw [here]; rfl))
      exact
        { owner := ok.owner_goto (by tauto) _ s.shot.view rfl (by simp) (by simp)
            (by simp)
          fits := away
          gate := ok.gate
          hears := fun never => by cases never
          notified := ok.notified
          awaited := fun never => by cases never }
  | cancel here wait => exact ok.cancel here wait

/-! ### Every run -/

theorem taskOk_new : TaskOk (new : OneShotAsync α) where
  owner := OneShot.ownerOk_new
  fits := ⟨rfl, rfl⟩
  gate := AsyncGate.ok_new
  hears _ := AsyncGate.listens_new fun never => by cases never.1
  notified := notifiedOnce_new
  awaited never := by cases never

theorem taskOk (reached : system.Reachable s) : TaskOk s := by
  apply reached.invariant TaskOk
  · rintro _ rfl
    exact taskOk_new
  · intro before action after _ ok taken
    change before.step action = some after at taken
    cases action with
    | sender action saw => exact ok.sender_step taken
    | receiver action => exact ok.receiver_step taken
    | tryRecv =>
        obtain ⟨shot, moved, rfl⟩ := Option.map_eq_some_iff.mp taken
        simp only [OneShot.step] at moved
        split at moved
        · rename_i shared
          cases moved
          have fits := ok.fits
          have away := ok.away (.inl (by rw [shared]; rfl))
          exact ok.of_away away (ok.owner.tryRecv shared) (away ▸ fits) rfl le_rfl
            fun holding => ⟨holding, rfl⟩
        · cases moved
    | call id index =>
        obtain ⟨shot, moved, rfl⟩ := Option.map_eq_some_iff.mp taken
        obtain ⟨stored, sender, receiver, view⟩ := OneShot.callTick_keeps moved
        have shared : before.shot.receiver = .shared := by
          obtain ⟨pc, present, ticked⟩ := Option.bind_eq_some_iff.mp moved
          refine (ok.owner.shared_of_call present ?_).1
          rintro result rfl
          cases ticked
        have fits := ok.fits
        have away := ok.away (.inl (by rw [shared]; rfl))
        exact ok.of_away away (ok.owner.call_tick moved) (receiver ▸ away ▸ fits) sender view.ge
          fun holding => ⟨receiver ▸ holding, stored⟩
    | dropInner =>
        obtain ⟨shot, moved, rfl⟩ := Option.map_eq_some_iff.mp taken
        simp only [OneShot.step] at moved
        split at moved
        · rename_i gone
          split at moved
          · rename_i last
            cases moved
            rw [Bool.and_eq_true, Bool.not_eq_true'] at last
            obtain ⟨done, standing⟩ := last
            obtain ⟨receiver, sender, view⟩ := before.shot.dropInner_keeps
            have away := ok.away (.inl (by
              cases pcEq : before.shot.receiver <;> rw [pcEq] at done <;>
                first | rfl | cases done))
            refine ok.of_away away (ok.owner.dropInner gone done standing)
              (receiver ▸ away ▸ ok.fits) sender view.ge fun holding => ?_
            rw [receiver, done] at holding
            cases holding
          · cases moved
        · cases moved

/-! ### Dropping the future -/

/-- The contract of the task's one-shot, whether its future is awaited or dropped. -/
structure CancelSafe (s : OneShotAsync α) : Prop where
  /-- The value sent is handed out or destroyed, at most once. -/
  accounted : (s.shot.handedOut ++ s.shot.destroyed).Sublist s.shot.sent.toList
  settled : s.shot.torn = true → s.shot.handedOut ++ s.shot.destroyed = s.shot.sent.toList
  notMisread : s.shot.misread = false
  expected : s.shot.receiver ≠ .expectFailed
  /-- A receive that is over, completed or not, leaves no armed gate behind. -/
  disarmed : OneShot.receiverDone s.shot.receiver = true →
    s.gate.armed = 0 ∧ s.gate.notify.future = none
  /-- A future that sleeps with something to see has its waker on the way. -/
  covered : s.wait = .suspended → s.gate.notify.future ≠ some .notified →
    s.shot.state.current = .empty ∨ waking s.shot.sender = true

theorem future_cancelSafe (reached : system.Reachable s) : CancelSafe s := by
  have ok := taskOk reached
  refine ⟨ok.owner.stage.accounted, ok.owner.accounted_all, ok.owner.notMisread,
    ok.owner.expected, ?_, ?_⟩
  · intro done
    have away := ok.away (.inl (by
      cases pcEq : s.shot.receiver <;> rw [pcEq] at done <;> first | rfl | cases done))
    have gate : s.gate.Ok .away := away ▸ ok.gate
    exact ⟨gate.armed, gate.future⟩
  · intro suspended unnotified
    have parked : s.shot.receiver = .waitPark := by
      have fits := ok.fits
      unfold WaitFits at fits
      split at fits <;> simp_all
    have gate : s.gate.Ok .suspended := suspended ▸ ok.gate
    have listens := suspended ▸ ok.hears (by rw [parked]; rfl)
    by_cases isWaking : waking s.shot.sender = true
    · exact .inr isWaking
    · refine .inl (OneShot.stored_eq_zero.mp ?_)
      exact listens.calm_of_suspended gate ⟨parked, by rw [suspended]; rfl⟩ unnotified isWaking

/-- The future is dropped under the sender's `notify_one`: the value is destroyed with the
slot, and the gate is disarmed. -/
def dropUnderWake : List (OneShotAsyncAction Nat) :=
  [.receiver .recvAsync, .receiver (.tick 0), .receiver (.tick 0), .receiver (.tick 0),
    .receiver (.tick 0), .receiver (.tick 0), .sender (.send 7) false,
    .sender (.tick 0) false, .sender (.tick 0) false, .sender (.tick 0) false,
    .sender (.tick 0) true, .receiver .cancel, .sender (.tick 0) false]

theorem future_cancelSafe_dropUnderWake :
    ∃ s, Transition.execute step (new : OneShotAsync Nat) dropUnderWake = some s ∧
      (s.wait = .dropNotified ∧ s.cancelled = true ∧ s.shot.sender = .gone) ∧ CancelSafe s := by
  have ran : (Transition.execute step (new : OneShotAsync Nat) dropUnderWake).map
      (fun s => (s.wait, s.cancelled, s.shot.sender)) = some (.dropNotified, true, .gone) := by
    rfl
  obtain ⟨s, ran, outcome⟩ := Option.map_eq_some_iff.mp ran
  simp only [Prod.mk.injEq] at outcome
  exact ⟨s, ran, outcome, future_cancelSafe (System.reachable_of_execute rfl ran)⟩

end OneShotAsync

end ArbitroKit
