import ArbitroKit.ParkedRingWake

/-!
# The blocking ring cannot deadlock

A handle that sleeps without a token on a predicate that has become true is awaited:
its peer is inside the `wake` of the waiter it sleeps on, or in the `close` that wakes
that waiter next, and nobody keeps the peer from unparking that very thread.
-/

namespace ArbitroKit

open Coherent Transition

namespace ParkedRing

variable {α : Type*} {cap : Cap} {s after : ParkedRing α} {side : Side}

/-! ### A wake on its way arrives -/

/-- The side has no part in the step. -/
def byOthers : Side → ParkedAction α → Bool
  | .producer, .producer _ => false
  | .consumer, .consumer _ => false
  -- a callback that panics ends the run
  | _, .consumer .panic => false
  | side, .move other _ => decide (other ≠ side)
  | _, _ => true

/-- The runs in which a side does nothing. -/
def asleep (cap : Cap) (side : Side) : System (ParkedRing α) (ParkedAction α) :=
  (calm cap).guarded fun _ action => byOthers side action = true

/-- The runs in which only a side's running call goes on. -/
def alone (cap : Cap) (side : Side) : System (ParkedRing α) (ParkedAction α) :=
  (calm cap).guarded fun _ action =>
    match side with
    | .producer => ∃ index, action = .producer (.tick index)
    | .consumer => ∃ index, action = .consumer (.tick index)

/-- The peer is inside a `wake` of the side's waiter, or in the `close` that wakes it
next; it stays so while the side sleeps, until the side's thread is unparked, and its
own steps lead there. -/
structure WillUnpark (cap : Cap) (s : ParkedRing α) (side : Side) : Prop where
  inside : place s.ring side.peer = .wake side ∨
    side = .consumer ∧ place s.ring side.peer = .wake .producer
  stays : ∀ later, (asleep cap side).Leads s later →
    later.tokens (s.handles side).thread = true ∨ later.OnWay side
  unparks : ∃ later, (alone cap side.peer).Leads s later ∧
    later.tokens (s.handles side).thread = true

/-- How many steps a `wake` can still take. -/
def stageLeft : ParkStage → Nat
  | .running => 5
  | .wakeFence => 4
  | .wakeRecheck => 3
  | .wakeDeliver => 2
  | .unpark _ => 1
  | _ => 0

/-- And `close`, whose first `wake` is of the producer's waiter. -/
def stepsLeft (s : ParkedRing α) (side : Side) : Nat :=
  if place s.ring side = .wake .producer then 5 + stageLeft (s.handles side).stage
  else stageLeft (s.handles side).stage

theorem ringTick_wake (cap : Cap) {target : Side} (at_ : place s.ring side = .wake target) :
    ∃ ring, ringTick cap s.ring side 0 = some ring := by
  cases side with
  | producer =>
      change producerPlace s.ring.producer.pc = _ at at_
      unfold ringTick RingState.producerTick
      dsimp only
      cases pcEq : s.ring.producer.pc with
      | sendWake | bulkWake | dropWakeFull | dropWakeEmpty => exact ⟨_, rfl⟩
      | waitHead phase | waitTail phase | waitClosed phase =>
          rw [pcEq] at at_
          cases phase <;> cases at_
      | _ =>
          rw [pcEq] at at_
          cases at_
  | consumer =>
      change consumerPlace s.ring.consumer.pc = _ at at_
      unfold ringTick RingState.consumerTick
      dsimp only
      cases pcEq : s.ring.consumer.pc with
      | recvWake | drainWake | dropWakeFull | dropWakeEmpty => exact ⟨_, rfl⟩
      | waitHead phase | waitTail phase | waitClosed phase =>
          rw [pcEq] at at_
          cases phase <;> cases at_
      | _ =>
          rw [pcEq] at at_
          cases at_

/-- A thread inside `wake` can take its next step. -/
theorem tick_wake (cap : Cap) {target : Side} (at_ : place s.ring side = .wake target)
    (standing : fits (s.handles side).stage (place s.ring side) = true) :
    ∃ after, s.tick cap side 0 = some after := by
  obtain ⟨ring, ringTaken⟩ := ringTick_wake cap at_
  rw [at_] at standing
  unfold tick
  cases stage : (s.handles side).stage with
  | running =>
      simp only [at_]
      split <;> exact ⟨_, rfl⟩
  | wakeFence => exact ⟨_, rfl⟩
  | wakeRecheck =>
      simp only [at_, wakeDone, ringTaken]
      split <;> exact ⟨_, rfl⟩
  | wakeDeliver =>
      simp only [at_, wakeDone, ringTaken]
      split <;> exact ⟨_, rfl⟩
  | unpark thread =>
      change ringTick cap (s.setToken thread true).ring side 0 = some ring at ringTaken
      simp only [wakeDone, ringTaken]
      exact ⟨_, rfl⟩
  | setWorker | publishRegistered | slow | fence | panicked =>
      rw [stage] at standing
      cases standing

theorem stepsLeft_stageAt {stage : ParkStage}
    (less : stageLeft stage < stageLeft (s.handles side).stage) :
    (s.stageAt side stage).stepsLeft side < s.stepsLeft side := by
  unfold stepsLeft
  rw [handles_stageAt]
  change (if place s.ring side = .wake .producer then _ else _) < _
  split <;> dsimp only <;> omega

theorem stepsLeft_wakeDone {index : Nat} {target : Side} {ring : RingState α}
    {tokens : Nat → Bool} (at_ : place s.ring side = .wake target)
    (taken : ringTick cap s.ring side index = some ring)
    (some : 0 < stageLeft (s.handles side).stage)
    (still : ∃ next, place ring side = .wake next) :
    (({ s with tokens := tokens }.setRing ring).stageAt side .running).stepsLeft side <
      s.stepsLeft side := by
  have leads := (ringTick_news (by rw [at_]; rintro ⟨⟩) taken).places
  obtain ⟨next, goes⟩ := still
  rw [at_, goes] at leads
  cases target with
  | consumer => simp [leadsTo] at leads
  | producer =>
      have goes : place ring side = .wake .consumer := by
        simp only [leadsTo, ParkPlace.wake.injEq, reduceCtorEq, and_false, or_false,
          decide_eq_true_eq] at leads
        rw [goes, leads]
      unfold stepsLeft
      rw [handles_stageAt, if_pos at_, if_neg]
      · change 5 < _
        omega
      · change ¬ place ring side = _
        rw [goes]
        rintro ⟨⟩

/-- A step of the thread is one step less to the end of its last `wake`. -/
theorem stepsLeft_ticks {index : Nat} {target : Side} (at_ : place s.ring side = .wake target)
    (standing : fits (s.handles side).stage (place s.ring side) = true)
    (taken : Ticks cap s side index after)
    (still : ∃ next, place after.ring side = .wake next) :
    after.stepsLeft side < s.stepsLeft side := by
  cases taken with
  | heard target at_ stage parked =>
      refine stepsLeft_stageAt ?_
      rcases stage with stage | stage <;> rw [stage] <;> decide
  | missed target at_ stage unparked =>
      exact stepsLeft_stageAt (by rw [stage]; decide)
  | fencedWake target at_ stage =>
      exact stepsLeft_stageAt (by rw [stage]; decide)
  | clones target thread at_ stage worker =>
      exact stepsLeft_stageAt (by rw [stage]; exact Nat.one_lt_two)
  | quiet target ring at_ stage unparked taken =>
      exact stepsLeft_wakeDone at_ taken (by rw [stage]; decide) still
  | nobody target ring at_ stage worker taken =>
      exact stepsLeft_wakeDone at_ taken (by rw [stage]; decide) still
  | unparks target thread ring at_ stage taken =>
      exact stepsLeft_wakeDone at_ taken (by rw [stage]; exact Nat.one_pos) still
  | asserted other | failed other | enters ring other | announces ring other | woken ring other
  | leaves ring other | returns ring stage other =>
      rw [at_] at other
      cases other
  | runs ring stage noWake => exact absurd at_ (noWake target)
  | looks ring stage other =>
      rw [at_] at other
      rcases other with other | other <;> cases other
  | setsWorker stage | registers stage | fenced stage =>
      rw [stage, at_] at standing
      cases standing

theorem OnWay.place (onWay : s.OnWay side.peer) : ∃ target, place s.ring side = .wake target := by
  rw [OnWay, peer_peer] at onWay
  rcases onWay with ⟨at_, -⟩ | ⟨-, at_⟩
  · exact ⟨_, at_⟩
  · exact ⟨_, at_⟩

/-- The side's own steps bring the token to its sleeping peer. -/
theorem leads_unpark (ok : ParkedOk cap s)
    (announced : announcing (ParkedRing.place s.ring side.peer) = true)
    (onWay : s.OnWay side.peer) :
    ∃ later, (alone cap side).Leads s later ∧
      later.tokens (s.handles side.peer).thread = true := by
  induction left : s.stepsLeft side using Nat.strong_induction_on generalizing s with
  | _ left ih =>
      obtain ⟨target, at_⟩ := OnWay.place onWay
      have standing := (ok.sides side).standing
      obtain ⟨after, taken⟩ := tick_wake cap at_ standing
      have ticks := tick_ticks standing taken
      have hears := ok.hears_tick taken
      have alone : (alone cap side).Leads s after := by
        cases side with
        | producer => exact .single ⟨⟨0, rfl⟩, rfl, taken⟩
        | consumer => exact .single ⟨⟨0, rfl⟩, rfl, taken⟩
      rcases hears.onWay announced onWay with still | stored
      · have less := stepsLeft_ticks at_ standing ticks (OnWay.place still)
        obtain ⟨later, leads, stored⟩ := ih _ (left ▸ less) (ok.tick taken)
          (by rwa [hears.place]) still rfl
        rw [hears.handle] at stored
        exact ⟨later, alone.trans leads, stored⟩
      · exact ⟨after, alone, stored⟩

/-- What a sleeping side sees of a step of the others. -/
theorem hears_of_step (ok : ParkedOk cap s) {action : ParkedAction α}
    (quiet : byOthers side action = true) (taken : s.step cap action = some after) :
    Hears s after side := by
  have begins {actor : Side} {ring : Option (RingState α)}
      (taken : s.begin actor ring = some after)
      (news : ∀ ring', ring = some ring' → CallNews actor s.ring ring') :
      Hears s after actor.peer := by
    unfold ParkedRing.begin at taken
    split at taken
    · obtain ⟨ring', ringTaken, rfl⟩ := Option.map_eq_some_iff.mp taken
      exact ok.hears_begin (news ring' ringTaken)
    · cases taken
  have spins {actor : Side} (taken : s.waitGoesOn actor (ringSpins cap s.ring actor) = some after) :
      Hears s after actor.peer := by
    unfold waitGoesOn at taken
    split at taken
    · obtain ⟨ring', ringTaken, rfl⟩ := Option.map_eq_some_iff.mp taken
      obtain ⟨peer, shared, at_, -⟩ := ringSpins_eq ringTaken
      exact hears_of_goesOn peer shared (.inl at_)
    · cases taken
  have wakes {actor : Side} (taken : s.waitGoesOn actor (ringWoken cap s.ring actor) = some after) :
      Hears s after actor.peer := by
    unfold waitGoesOn at taken
    split at taken
    · obtain ⟨ring', ringTaken, rfl⟩ := Option.map_eq_some_iff.mp taken
      obtain ⟨peer, shared, at_, -⟩ := ringWoken_eq ringTaken
      exact hears_of_goesOn peer shared (.inr at_)
    · cases taken
  cases action with
  | producer call =>
      cases side with
      | producer => cases quiet
      | consumer =>
          cases call with
          | tick index => exact ok.hears_tick taken
          | spin => exact spins taken
          | spurious => exact wakes taken
          | trySend | send | trySendBulk | drop =>
              refine begins taken fun ring' ringTaken =>
                producerCall_news (fun _ => ?_) ?_ ?_ ringTaken
              all_goals rintro ⟨⟩
  | consumer call =>
      cases side with
      | consumer => cases quiet
      | producer =>
          cases call with
          | tick index => exact ok.hears_tick taken
          | spin => exact spins taken
          | spurious => exact wakes taken
          | panic => cases quiet
          | tryRecv | recv | drain | drop =>
              refine begins taken fun ring' ringTaken =>
                consumerCall_news (fun _ => ?_) ?_ ?_ ?_ ringTaken
              all_goals rintro ⟨⟩
  | move actor thread =>
      simp only [ParkedRing.step] at taken
      split at taken <;> cases taken
      rename_i idle
      have elsewhere : actor ≠ side := by
        cases side <;> exact of_decide_eq_true quiet
      have other : actor = side.peer := (eq_or_eq_peer side actor).resolve_left elsewhere
      have hears := hears_of_move thread (Bool.eq_false_iff.mpr idle)
      rw [other] at hears ⊢
      rwa [peer_peer] at hears
  | strayUnpark thread =>
      simp only [ParkedRing.step, Option.some.injEq] at taken
      subst taken
      exact hears_of_stray (.inl rfl) side
  | strayPark thread =>
      simp only [ParkedRing.step] at taken
      split at taken <;> cases taken
      exact hears_of_stray (.inr (by assumption)) side

theorem willUnpark (ok : ParkedOk cap s) (announced : announcing (place s.ring side) = true)
    (onWay : s.OnWay side) : WillUnpark cap s side where
  inside := by
    rcases onWay with ⟨at_, -⟩ | closing
    · exact .inl at_
    · exact .inr closing
  stays later leads := by
    have all : ParkedOk cap later ∧ later.handles side = s.handles side ∧
        announcing (place later.ring side) = true ∧
          (later.tokens (s.handles side).thread = true ∨ later.OnWay side) := by
      refine leads.invariant (fun later => ParkedOk cap later ∧
        later.handles side = s.handles side ∧ announcing (place later.ring side) = true ∧
          (later.tokens (s.handles side).thread = true ∨ later.OnWay side))
            ⟨ok, rfl, announced, .inr onWay⟩ ?_
      rintro before action after ⟨ok, handle, announced, covered⟩ ⟨quiet, calm, taken⟩
      have hears := hears_of_step ok quiet taken
      refine ⟨ok.step calm taken, hears.handle.trans handle, by rwa [hears.place], ?_⟩
      rw [← handle] at covered ⊢
      rcases covered with stored | onWay
      · exact .inl (hears.token announced stored)
      · exact (hears.onWay announced onWay).symm
    exact all.2.2.2
  unparks := by
    have ready : announcing (place s.ring side.peer.peer) = true ∧ s.OnWay side.peer.peer := by
      rw [peer_peer]
      exact ⟨announced, onWay⟩
    have leads := leads_unpark ok ready.1 ready.2
    rwa [peer_peer] at leads

/-! ### No deadlock -/

/-- The side's thread is parked, and there is no token for it. -/
structure Sleeps (s : ParkedRing α) (side : Side) : Prop where
  parked : place s.ring side = .park
  noToken : s.tokens (s.handles side).thread = false

/-- What a side waits for: not full or closed, and not empty or closed. -/
def Ready (cap : Cap) (ring : RingState α) : Side → Prop
  | .producer =>
      RingState.isFull cap ring.shared.head.current ring.shared.tail.current = false ∨
        ring.shared.closed = true
  | .consumer =>
      ring.shared.head.current ≠ ring.shared.tail.current ∨ ring.shared.closed = true

structure NoDeadlock (cap : Cap) (s : ParkedRing α) : Prop where
  awaited : ∀ side, s.Sleeps side → Ready cap s.ring side → s.WillUnpark cap side
  notBoth : ¬ (s.Sleeps .producer ∧ s.Sleeps .consumer)
  registered : ∀ side, place s.ring side = .park →
    (s.cells side).worker = some (s.handles side).thread

/-- What a sleeping side has found still holds, or its peer is on the way. -/
theorem Sleeps.found (sleeps : s.Sleeps side) (ok : ParkedOk cap s) :
    ¬ Ready cap s.ring side ∨ s.OnWay side := by
  have watch := (ok.sides side).watch
  have found {found : Prop} (covered : s.Covered side found) : found ∨ s.OnWay side := by
    rcases covered with found | stored | onWay
    · exact .inl found
    · rw [sleeps.noToken] at stored
      cases stored
    · exact .inr onWay
  have parked := sleeps.parked
  cases side with
  | producer =>
      change producerPlace s.ring.producer.pc = _ at parked
      change producerWatch cap s s.ring.producer.pc at watch
      cases pcEq : s.ring.producer.pc with
      | waitPark value =>
          rw [pcEq] at watch
          rcases found watch.1, found watch.2 with ⟨full | onWay, running | onWay⟩
          · refine .inl fun ready => ?_
            rcases ready with room | closed
            · exact Bool.false_ne_true (room.symm.trans full)
            · exact Bool.false_ne_true (running.symm.trans closed)
          all_goals exact .inr (by assumption)
      | waitHead phase | waitTail phase | waitClosed phase =>
          rw [pcEq] at parked
          cases phase <;> cases parked
      | _ =>
          rw [pcEq] at parked
          cases parked
  | consumer =>
      change consumerPlace s.ring.consumer.pc = _ at parked
      change consumerWatch s s.ring.consumer.pc at watch
      cases pcEq : s.ring.consumer.pc with
      | waitPark =>
          rw [pcEq] at watch
          rcases found watch.1, found watch.2 with ⟨empty | onWay, running | onWay⟩
          · refine .inl fun ready => ?_
            rcases ready with some | closed
            · exact some empty
            · exact Bool.false_ne_true (running.symm.trans closed)
          all_goals exact .inr (by assumption)
      | waitHead phase | waitTail phase | waitClosed phase =>
          rw [pcEq] at parked
          cases phase <;> cases parked
      | _ =>
          rw [pcEq] at parked
          cases parked

theorem Sleeps.onWay (sleeps : s.Sleeps side) (ok : ParkedOk cap s)
    (ready : Ready cap s.ring side) : s.OnWay side :=
  (sleeps.found ok).resolve_left fun unready => unready ready

/-- A side that sleeps is not on the way to its peer. -/
theorem Sleeps.not_onWay (sleeps : s.Sleeps side) : ¬ s.OnWay side.peer := by
  refine ParkedRing.not_onWay ?_
  rw [sleeps.parked]
  rintro _ ⟨⟩

/-- A ring is not both full and empty. -/
theorem ready_of_empty {ring : RingState α} (unready : ¬ Ready cap ring .consumer) :
    Ready cap ring .producer := by
  have empty : ring.shared.head.current = ring.shared.tail.current :=
    of_not_not fun some => unready (.inl some)
  refine .inl (decide_eq_false ?_)
  rw [empty, BitVec.sub_self]
  exact Nat.not_le.mpr cap.size_pos

/-- However the two handles interleave, and on whatever threads their calls run, nobody
sleeps on a predicate that has become true unless the peer is about to unpark that very
thread. -/
theorem parked_noDeadlock (reached : (calm cap).Reachable s) : NoDeadlock cap s where
  awaited side sleeps ready := by
    have ok := parkedOk reached
    refine willUnpark ok ?_ (sleeps.onWay ok ready)
    rw [sleeps.parked]
    rfl
  notBoth := by
    rintro ⟨producer, consumer⟩
    have ok := parkedOk reached
    have unready := (consumer.found ok).resolve_right producer.not_onWay
    exact consumer.not_onWay (producer.onWay ok (ready_of_empty unready))
  registered side parked := by
    refine ((parkedOk reached).sides side).cell_worker ?_
    rw [parked]
    rfl

/-- `recv` on an empty ring, up to the sleep. -/
def sleepsInRecv : List (ParkedAction Nat) :=
  .consumer .recv :: List.replicate 13 (.consumer (.tick 0))

/-- The producer publishes a value for a sleeping consumer and has not looked at its flag
yet. -/
def publishedForSleeper : List (ParkedAction Nat) :=
  sleepsInRecv ++ [ParkedAction.producer (.trySend 7), .producer (.tick 0), .producer (.tick 0)]

/-- The producer is dropped while the consumer sleeps, and wakes its own waiter first. -/
def droppedForSleeper : List (ParkedAction Nat) := sleepsInRecv ++ [ParkedAction.producer .drop]

theorem parked_noDeadlock_publishedForSleeper :
    ∃ s : ParkedRing Nat, (calm oneSlotCap).Reachable s ∧ s.Sleeps .consumer ∧
      Ready oneSlotCap s.ring .consumer ∧ NoDeadlock oneSlotCap s := by
  have ran : (Transition.execute (Transition.guardedStep
      (fun _ (action : ParkedAction Nat) => isPanic action = false)
      fun s action => s.step oneSlotCap action) (new 0 1) publishedForSleeper).map
        (fun s => (place s.ring .consumer, s.tokens (s.handles .consumer).thread,
          decide (s.ring.shared.head.current = s.ring.shared.tail.current))) =
            some (.park, false, false) := by
    rfl
  obtain ⟨s, ran, seen⟩ := Option.map_eq_some_iff.mp ran
  obtain ⟨parked, noToken, some⟩ := by simpa only [Prod.mk.injEq] using seen
  have reached : (calm oneSlotCap).Reachable s :=
    System.reachable_of_guarded_execute ⟨0, 1, rfl⟩ ran
  exact ⟨s, reached, ⟨parked, noToken⟩, .inl (of_decide_eq_false some),
    parked_noDeadlock reached⟩

/-- The peer of a sleeper whose ring has been closed is not inside the `wake` of the
sleeper's waiter yet. -/
theorem sleeper_before_closingWake :
    ∃ s : ParkedRing Nat, (calm oneSlotCap).Reachable s ∧ s.Sleeps .consumer ∧
      Ready oneSlotCap s.ring .consumer ∧ place s.ring .producer = .wake .producer := by
  have ran : (Transition.execute (Transition.guardedStep
      (fun _ (action : ParkedAction Nat) => isPanic action = false)
      fun s action => s.step oneSlotCap action) (new 0 1) droppedForSleeper).map
        (fun s => (place s.ring .consumer, s.tokens (s.handles .consumer).thread,
          s.ring.shared.closed, place s.ring .producer)) =
            some (.park, false, true, .wake .producer) := by
    rfl
  obtain ⟨s, ran, seen⟩ := Option.map_eq_some_iff.mp ran
  obtain ⟨parked, noToken, closed, closing⟩ := by simpa only [Prod.mk.injEq] using seen
  have reached : (calm oneSlotCap).Reachable s :=
    System.reachable_of_guarded_execute ⟨0, 1, rfl⟩ ran
  exact ⟨s, reached, ⟨parked, noToken⟩, .inr closed, closing⟩

end ParkedRing

end ArbitroKit
