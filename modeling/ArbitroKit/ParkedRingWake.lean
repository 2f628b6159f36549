import ArbitroKit.ParkedRingFacts

/-!
# What two parking handles rely on

A handle that has announced itself is the one whose thread its waiter has
registered, and its flag is set until it leaves.  What its predicate has found is
undone only by a store of the peer, and the peer goes from there into a `wake` that
finds the flag set, clones that very handle and unparks the thread; a `wake` that
still holds the handle of an earlier thread belongs to an earlier store, which the
predicate has seen.
-/

namespace ArbitroKit

open Coherent Transition

namespace ParkedRing

variable {α : Type*} {cap : Cap}

variable {s after : ParkedRing α} {side : Side}

/-! ### The invariant -/

/-- A `wake` at this stage, on a set flag, unparks the thread. -/
def delivers (thread : Nat) : ParkStage → Bool
  | .running => true
  | .wakeFence => true
  | .wakeRecheck => true
  | .wakeDeliver => true
  | .unpark other => decide (other = thread)
  | _ => false

/-- The peer is inside a `wake` that will unpark the side's thread; or it is the
producer, whose `close` wakes its own waiter first. -/
def OnWay (s : ParkedRing α) (side : Side) : Prop :=
  place s.ring side.peer = .wake side ∧
      delivers (s.handles side).thread (s.handles side.peer).stage = true ∨
    side = .consumer ∧ place s.ring side.peer = .wake .producer

/-- What the side has found still holds, or its token is stored, or the peer is on its
way. -/
def Covered (s : ParkedRing α) (side : Side) (found : Prop) : Prop :=
  found ∨ s.tokens (s.handles side).thread = true ∨ s.OnWay side

/-- What the announced predicate of `send` has found so far. -/
def producerWatch (cap : Cap) (s : ParkedRing α) : ProducerPc α → Prop
  | .waitTail .announced _ head => head = s.ring.shared.head.current
  | .waitClosed .announced _ => s.Covered .producer
      (RingState.isFull cap s.ring.shared.head.current s.ring.shared.tail.current = true)
  | .waitPark _ => s.Covered .producer
      (RingState.isFull cap s.ring.shared.head.current s.ring.shared.tail.current = true) ∧
        s.Covered .producer (s.ring.shared.closed = false)
  | _ => True

/-- What the announced predicate of `recv` has found so far. -/
def consumerWatch (s : ParkedRing α) : ConsumerPc α → Prop
  | .waitTail .announced head => s.Covered .consumer (head = s.ring.shared.head.current)
  | .waitClosed .announced => s.Covered .consumer
      (s.ring.shared.head.current = s.ring.shared.tail.current)
  | .waitPark => s.Covered .consumer
      (s.ring.shared.head.current = s.ring.shared.tail.current) ∧
        s.Covered .consumer (s.ring.shared.closed = false)
  | _ => True

def Watch (cap : Cap) (s : ParkedRing α) : Side → Prop
  | .producer => s.producerWatch cap s.ring.producer.pc
  | .consumer => s.consumerWatch s.ring.consumer.pc

/-- What holds of a side in every run without panics. -/
structure SideOk (cap : Cap) (s : ParkedRing α) (side : Side) : Prop where
  standing : fits (s.handles side).stage (place s.ring side) = true
  flag : (s.cells side).parked = .parked ↔ announcing (place s.ring side) = true
  worker : (s.cells side).worker = (s.handles side).worker ∨
    (s.handles side).stage = .setWorker
  bound : waiting (place s.ring side) = true →
    (s.handles side).worker = some (s.handles side).thread
  registered : (s.cells side).worker = none ∨ (s.cells side).registered = true ∨
    (s.handles side).stage = .publishRegistered
  watch : Watch cap s side

/-- What holds of both sides; two running calls are on two threads. -/
structure ParkedOk (cap : Cap) (s : ParkedRing α) : Prop where
  sides : ∀ side, SideOk cap s side
  apart : ∀ side, s.inCall side = true → s.inCall side.peer = true →
    (s.handles side).thread ≠ (s.handles side.peer).thread

theorem producerWatch_of_unannounced {pc : ProducerPc α}
    (away : announcing (producerPlace pc) = false) : producerWatch cap s pc := by
  unfold producerWatch
  split
  · cases away
  · cases away
  · cases away
  · trivial

theorem consumerWatch_of_unannounced {pc : ConsumerPc α}
    (away : announcing (consumerPlace pc) = false) : consumerWatch s pc := by
  unfold consumerWatch
  split
  · cases away
  · cases away
  · cases away
  · trivial

theorem watch_of_unannounced (away : announcing (place s.ring side) = false) :
    Watch cap s side := by
  cases side with
  | producer => exact producerWatch_of_unannounced away
  | consumer => exact consumerWatch_of_unannounced away

theorem parkedOk_new (producerThread consumerThread : Nat) :
    ParkedOk cap (new producerThread consumerThread : ParkedRing α) where
  sides side := by
    cases side <;>
      exact
        { standing := rfl
          flag := ⟨(fun same => by cases same), fun same => by cases same⟩
          worker := .inl rfl
          bound := fun same => by cases same
          registered := .inl rfl
          watch := trivial }
  apart side busy := by cases side <;> cases busy

/-! ### What a waiting side sees of the others -/

/-- A step of the peer, or of code outside the ring. -/
structure Hears (s after : ParkedRing α) (side : Side) : Prop where
  own : samePeer s.ring after.ring side.peer
  cursor : cursor after.ring side = cursor s.ring side
  peerCursor : ParkedRing.cursor after.ring side.peer = ParkedRing.cursor s.ring side.peer ∨
    after.OnWay side
  closed : after.ring.shared.closed = s.ring.shared.closed ∨ after.OnWay side
  handle : after.handles side = s.handles side
  cell : after.cells side = s.cells side
  token : announcing (place s.ring side) = true →
    s.tokens (s.handles side).thread = true → after.tokens (s.handles side).thread = true
  onWay : announcing (place s.ring side) = true → s.OnWay side →
    after.OnWay side ∨ after.tokens (s.handles side).thread = true

theorem Hears.place (hears : Hears s after side) : place after.ring side = place s.ring side := by
  have same := place_of_samePeer hears.own
  rwa [peer_peer] at same

/-- What the side has found is covered after the step. -/
theorem Hears.covered (hears : Hears s after side)
    (announced : announcing (ParkedRing.place s.ring side) = true) {before later : Prop}
    (covered : s.Covered side before)
    (stays : before → later ∨ after.OnWay side) : after.Covered side later := by
  rw [Covered, hears.handle]
  rcases covered with found | stored | onWay
  · rcases stays found with found | onWay
    · exact .inl found
    · exact .inr (.inr onWay)
  · exact .inr (.inl (hears.token announced stored))
  · rcases hears.onWay announced onWay with onWay | stored
    · exact .inr (.inr onWay)
    · exact .inr (.inl stored)

theorem Hears.sideOk (hears : Hears s after side) (ok : SideOk cap s side) :
    SideOk cap after side := by
  have same := hears.place
  refine ⟨?_, ?_, ?_, ?_, ?_, ?_⟩
  · rw [hears.handle, same]
    exact ok.standing
  · rw [hears.cell, same]
    exact ok.flag
  · rw [hears.handle, hears.cell]
    exact ok.worker
  · rw [hears.handle, same]
    exact ok.bound
  · rw [hears.handle, hears.cell]
    exact ok.registered
  · have watch := ok.watch
    have closed (running : s.ring.shared.closed = false) :
        after.ring.shared.closed = false ∨ after.OnWay side :=
      hears.closed.imp_left fun same => same.trans running
    cases side with
    | producer =>
        have own : after.ring.producer = s.ring.producer := hears.own
        have head : after.ring.shared.head = s.ring.shared.head := hears.cursor
        have full (found : RingState.isFull cap s.ring.shared.head.current
            s.ring.shared.tail.current = true) :
            RingState.isFull cap after.ring.shared.head.current
              after.ring.shared.tail.current = true ∨ after.OnWay .producer := by
          rcases hears.peerCursor with tail | onWay
          · have tail : after.ring.shared.tail = s.ring.shared.tail := tail
            rw [head, tail]
            exact .inl found
          · exact .inr onWay
        have announced {pc : ProducerPc α} (pcEq : s.ring.producer.pc = pc)
            (announces : announcing (producerPlace pc) = true) :
            announcing (ParkedRing.place s.ring .producer) = true := by
          rw [ParkedRing.place, pcEq]
          exact announces
        change producerWatch cap s s.ring.producer.pc at watch
        change producerWatch cap after after.ring.producer.pc
        rw [own]
        unfold producerWatch at watch ⊢
        split at watch
        · rw [head]
          exact watch
        · rename_i pcEq
          exact hears.covered (announced pcEq rfl) watch full
        · rename_i pcEq
          exact ⟨hears.covered (announced pcEq rfl) watch.1 full,
            hears.covered (announced pcEq rfl) watch.2 closed⟩
        · trivial
    | consumer =>
        have own : after.ring.consumer = s.ring.consumer := hears.own
        have tail : after.ring.shared.tail = s.ring.shared.tail := hears.cursor
        have headSame : after.ring.shared.head = s.ring.shared.head ∨ after.OnWay .consumer :=
          hears.peerCursor
        have found {word : Usize} (found : word = s.ring.shared.head.current) :
            word = after.ring.shared.head.current ∨ after.OnWay .consumer :=
          headSame.imp_left fun same => by rw [same, found]
        have empty (found : s.ring.shared.head.current = s.ring.shared.tail.current) :
            after.ring.shared.head.current = after.ring.shared.tail.current ∨
              after.OnWay .consumer :=
          headSame.imp_left fun same => by rw [same, tail, found]
        have announced {pc : ConsumerPc α} (pcEq : s.ring.consumer.pc = pc)
            (announces : announcing (consumerPlace pc) = true) :
            announcing (ParkedRing.place s.ring .consumer) = true := by
          rw [ParkedRing.place, pcEq]
          exact announces
        change consumerWatch s s.ring.consumer.pc at watch
        change consumerWatch after after.ring.consumer.pc
        rw [own]
        unfold consumerWatch at watch ⊢
        split at watch
        · rename_i pcEq
          exact hears.covered (announced pcEq rfl) watch found
        · rename_i pcEq
          exact hears.covered (announced pcEq rfl) watch empty
        · rename_i pcEq
          exact ⟨hears.covered (announced pcEq rfl) watch.1 empty,
            hears.covered (announced pcEq rfl) watch.2 closed⟩
        · trivial

theorem not_onWay (noWake : ∀ target, place s.ring side ≠ .wake target) :
    ¬ s.OnWay side.peer := by
  rintro (⟨at_, -⟩ | ⟨-, at_⟩) <;> rw [peer_peer] at at_ <;> exact noWake _ at_

/-- The side arrives in front of the `wake` of its peer's waiter. -/
theorem onWay_of_wake (at_ : place s.ring side = .wake side.peer)
    (delivering : delivers (s.handles side.peer).thread (s.handles side).stage = true) :
    s.OnWay side.peer := by
  refine .inl ⟨?_, ?_⟩
  · rwa [peer_peer]
  · rwa [peer_peer]

/-- A step inside a waiter method, which no field of the ring sees. -/
theorem hears_of_still (ring : after.ring = s.ring) (tokens : after.tokens = s.tokens)
    (handle : after.handles side.peer = s.handles side.peer)
    (cell : after.cells side.peer = s.cells side.peer)
    (onWay : announcing (place s.ring side.peer) = true → s.OnWay side.peer →
      after.OnWay side.peer) : Hears s after side.peer where
  own := by
    rw [ring]
    cases side <;> rfl
  cursor := by rw [ring]
  peerCursor := .inl (by rw [ring])
  closed := .inl (by rw [ring])
  handle := handle
  cell := cell
  token _ stored := by rwa [tokens]
  onWay announced coming := .inl (onWay announced coming)

/-- A step of the side's running call in the ring. -/
theorem hears_of_ring (news : RingNews side s.ring after.ring)
    (arrives : place after.ring side = .wake side.peer → (after.handles side).stage = .running)
    (handle : after.handles side.peer = s.handles side.peer)
    (cell : after.cells side.peer = s.cells side.peer)
    (token : announcing (place s.ring side.peer) = true →
      s.tokens (s.handles side.peer).thread = true →
        after.tokens (s.handles side.peer).thread = true)
    (onWay : announcing (place s.ring side.peer) = true → s.OnWay side.peer →
      after.OnWay side.peer ∨ after.tokens (s.handles side.peer).thread = true) :
    Hears s after side.peer where
  own := by
    rw [peer_peer]
    exact news.peer
  cursor := news.others
  peerCursor := by
    rw [peer_peer]
    rcases news.cursor with same | wakes
    · exact .inl same
    · exact .inr (onWay_of_wake wakes (by rw [arrives wakes]; rfl))
  closed := .inl news.closed
  handle := handle
  cell := cell
  token := token
  onWay := onWay

/-- A wait of the side goes on: only the side's place changes. -/
theorem hears_of_wait {ring : RingState α} (peer : samePeer s.ring ring side)
    (shared : ring.shared = s.ring.shared) (noWake : ∀ target, place s.ring side ≠ .wake target)
    (same : after.ring = ring) (handle : after.handles = s.handles)
    (cell : after.cells = s.cells)
    (token : announcing (place s.ring side.peer) = true →
      s.tokens (s.handles side.peer).thread = true →
        after.tokens (s.handles side.peer).thread = true) : Hears s after side.peer where
  own := by
    rw [same, peer_peer]
    exact peer
  cursor := by rw [same, cursor_of_shared shared]
  peerCursor := .inl (by rw [same, cursor_of_shared shared])
  closed := .inl (by rw [same, shared])
  handle := by rw [handle]
  cell := by rw [cell]
  token := token
  onWay _ onWay := absurd onWay (not_onWay noWake)

/-- The closing producer goes on to the consumer's waiter. -/
theorem onWay_closing (news : RingNews side s.ring after.ring)
    (closing : place s.ring side = .wake .producer)
    (other : side.peer ≠ .producer)
    (running : (after.handles side).stage = .running) : after.OnWay side.peer := by
  have leads := news.places
  cases side with
  | consumer => exact absurd rfl other
  | producer =>
      rw [closing, leadsTo, decide_eq_true_eq] at leads
      rcases leads with goes | ⟨same, -⟩
      · exact onWay_of_wake goes (by rw [running]; rfl)
      · cases same

/-- The side is in a `wake`, and its peer has someone on the way. -/
theorem onWay_cases {target : Side} (at_ : place s.ring side = .wake target)
    (onWay : s.OnWay side.peer) :
    target = side.peer ∧
        delivers (s.handles side.peer).thread (s.handles side).stage = true ∨
      target = .producer ∧ side.peer ≠ .producer := by
  rw [OnWay, peer_peer, at_] at onWay
  rcases onWay with ⟨same, delivering⟩ | ⟨consumer, same⟩
  · cases same
    exact .inl ⟨rfl, delivering⟩
  · cases same
    rw [consumer]
    exact .inr ⟨rfl, by rintro ⟨⟩⟩

/-- The next stage of the same `wake`. -/
theorem onWay_stageAt {target : Side} {stage : ParkStage} (at_ : place s.ring side = .wake target)
    (onWay : s.OnWay side.peer)
    (delivering : target = side.peer → delivers (s.handles side.peer).thread stage = true) :
    (s.stageAt side stage).OnWay side.peer := by
  rcases onWay_cases at_ onWay with ⟨same, -⟩ | ⟨same, other⟩
  · refine onWay_of_wake (by rw [← same]; exact at_) ?_
    rw [handles_stageAt, handles_stageAt_peer]
    exact delivering same
  · refine .inr ⟨?_, ?_⟩
    · cases side with
      | producer => rfl
      | consumer => exact absurd rfl other
    · rw [peer_peer, ← same]
      exact at_

/-- The waiter of an announced side has its thread registered. -/
theorem SideOk.cell_worker (ok : SideOk cap s side)
    (announced : announcing (place s.ring side) = true) :
    (s.cells side).worker = some (s.handles side).thread := by
  have still : waiting (place s.ring side) = true := by
    cases at_ : place s.ring side <;> rw [at_] at announced <;> first | rfl | cases announced
  rcases ok.worker with same | stage
  · rw [same]
    exact ok.bound still
  · have standing := ok.standing
    rw [stage, fits, decide_eq_true_eq] at standing
    rw [standing] at announced
    cases announced

/-- A `wake` that returns; of the announced peer's waiter it has stored the token. -/
theorem hears_of_wakeDone {index : Nat} {target : Side} {ring : RingState α}
    {tokens : Nat → Bool} (at_ : place s.ring side = .wake target)
    (taken : ringTick cap s.ring side index = some ring)
    (grows : ∀ thread, s.tokens thread = true → tokens thread = true)
    (stores : announcing (place s.ring side.peer) = true → target = side.peer →
      delivers (s.handles side.peer).thread (s.handles side).stage = true →
        tokens (s.handles side.peer).thread = true) :
    Hears s (({ s with tokens := tokens }.setRing ring).stageAt side .running) side.peer := by
  have news := ringTick_news (by rw [at_]; rintro ⟨⟩) taken
  refine hears_of_ring news ?_ (handles_stageAt_peer ..) rfl (fun _ => grows _) ?_
  · intro _
    rw [handles_stageAt]
  · intro announced onWay
    rcases onWay_cases at_ onWay with ⟨same, delivering⟩ | ⟨same, other⟩
    · exact .inr (stores announced same delivering)
    · refine .inl (onWay_closing news (by rw [at_, same]) other ?_)
      rw [handles_stageAt]

/-- A step of the side's thread, as its peer hears it. -/
theorem hears_of_ticks {index : Nat} (peerOk : SideOk cap s side.peer)
    (standing : fits (s.handles side).stage (place s.ring side) = true)
    (apart : announcing (place s.ring side.peer) = true → s.inCall side = true →
      (s.handles side.peer).thread ≠ (s.handles side).thread)
    (taken : Ticks cap s side index after) : Hears s after side.peer := by
  cases taken with
  | heard target at_ stage parked =>
      refine hears_of_still rfl rfl (handles_stageAt_peer ..) rfl fun _ onWay => ?_
      exact onWay_stageAt at_ onWay fun _ => rfl
  | missed target at_ stage unparked =>
      refine hears_of_still rfl rfl (handles_stageAt_peer ..) rfl fun _ onWay => ?_
      exact onWay_stageAt at_ onWay fun _ => rfl
  | fencedWake target at_ stage =>
      refine hears_of_still rfl rfl (handles_stageAt_peer ..) rfl fun _ onWay => ?_
      exact onWay_stageAt at_ onWay fun _ => rfl
  | clones target thread at_ stage worker =>
      refine hears_of_still rfl rfl (handles_stageAt_peer ..) rfl fun announced onWay => ?_
      refine onWay_stageAt at_ onWay fun same => ?_
      rw [same, peerOk.cell_worker announced, Option.some.injEq] at worker
      exact decide_eq_true worker.symm
  | quiet target ring at_ stage unparked taken =>
      refine hears_of_wakeDone at_ taken (fun _ stored => stored) fun announced same _ => ?_
      rw [same] at unparked
      exact absurd (peerOk.flag.mpr announced) unparked
  | nobody target ring at_ stage worker taken =>
      refine hears_of_wakeDone at_ taken (fun _ stored => stored) fun announced same _ => ?_
      rw [same, peerOk.cell_worker announced] at worker
      cases worker
  | unparks target thread ring at_ stage taken =>
      refine hears_of_wakeDone at_ taken (fun other stored => ?_) fun _ _ delivering => ?_
      · by_cases same : other = thread
        · rw [same]
          exact Function.update_self ..
        · rwa [Function.update_of_ne same]
      · rw [stage, delivers, decide_eq_true_eq] at delivering
        rw [delivering]
        exact Function.update_self ..
  | asserted at_ stage registered =>
      refine hears_of_still rfl rfl (handles_stageAt_peer ..) rfl fun _ onWay => ?_
      exact absurd onWay (not_onWay (by rw [at_]; rintro _ ⟨⟩))
  | failed at_ stage unregistered =>
      refine hears_of_still rfl rfl (handles_stageAt_peer ..) rfl fun _ onWay => ?_
      exact absurd onWay (not_onWay (by rw [at_]; rintro _ ⟨⟩))
  | runs ring stage noWake noAnnounce taken noEntry =>
      have news := ringTick_news (fun same => by rw [stage, same] at standing; cases standing) taken
      refine hears_of_ring news (fun _ => stage) rfl rfl (fun _ stored => stored) ?_
      exact fun _ onWay => absurd onWay (not_onWay noWake)
  | enters ring at_ stage taken goes =>
      have news := ringTick_news (by rw [at_]; rintro ⟨⟩) taken
      have same : ((s.setRing ring).register side).ring = ring ∧
          ((s.setRing ring).register side).tokens = s.tokens ∧
            ((s.setRing ring).register side).cells = s.cells ∧
              ((s.setRing ring).register side).handles side.peer = s.handles side.peer := by
        unfold register
        dsimp only
        split
        · exact ⟨rfl, rfl, rfl, rfl⟩
        · exact ⟨rfl, rfl, rfl, handles_setHandle_peer ..⟩
      refine hears_of_ring (by rwa [same.1]) ?_ same.2.2.2 (by rw [same.2.2.1]) ?_ ?_
      · rw [same.1, goes]
        rintro ⟨⟩
      · rw [same.2.1]
        exact fun _ stored => stored
      · exact fun _ onWay => absurd onWay (not_onWay (by rw [at_]; rintro _ ⟨⟩))
  | setsWorker stage =>
      rw [stage, fits, decide_eq_true_eq] at standing
      refine hears_of_still rfl rfl ?_ ?_ fun _ onWay => ?_
      · exact handles_stageAt_peer ..
      · exact cells_setCell_peer ..
      · exact absurd onWay (not_onWay (by rw [standing]; rintro _ ⟨⟩))
  | registers stage =>
      rw [stage, fits, decide_eq_true_eq] at standing
      refine hears_of_still rfl rfl ?_ ?_ fun _ onWay => ?_
      · exact handles_stageAt_peer ..
      · exact cells_setCell_peer ..
      · exact absurd onWay (not_onWay (by rw [standing]; rintro _ ⟨⟩))
  | announces ring at_ stage taken =>
      have news := ringTick_news (by rw [at_]; rintro ⟨⟩) taken
      refine hears_of_ring news (fun goes => ?_) (handles_stageAt_peer ..)
        (cells_setCell_peer ..) (fun _ stored => stored) ?_
      · have leads := news.places
        change place ring side = _ at goes
        rw [at_, goes] at leads
        cases leads
      · exact fun _ onWay => absurd onWay (not_onWay (by rw [at_]; rintro _ ⟨⟩))
  | fenced stage =>
      rw [stage, fits, decide_eq_true_eq] at standing
      refine hears_of_still rfl rfl (handles_stageAt_peer ..) rfl fun _ onWay => ?_
      exact absurd onWay (not_onWay (by rw [standing]; rintro _ ⟨⟩))
  | woken ring at_ stage token taken =>
      obtain ⟨peer, shared, -, goes⟩ := ringWoken_eq taken
      have busy : s.inCall side = true := decide_eq_true (by rw [at_]; rintro ⟨⟩)
      refine hears_of_wait peer shared (by rw [at_]; rintro _ ⟨⟩) rfl rfl rfl ?_
      intro announced stored
      change Function.update s.tokens _ false _ = true
      rwa [Function.update_of_ne (apart announced busy)]
  | leaves ring at_ stage taken =>
      have news := ringTick_news (by rw [at_]; rintro ⟨⟩) taken
      refine hears_of_ring news (fun _ => by rw [handles_stageAt]) (handles_stageAt_peer ..)
        (cells_setCell_peer ..) (fun _ stored => stored) ?_
      exact fun _ onWay => absurd onWay (not_onWay (by rw [at_]; rintro _ ⟨⟩))
  | looks ring stage at_ fresh taken stays =>
      have noWake : ∀ target, place s.ring side ≠ .wake target := by
        intro target same
        rw [same] at at_
        rcases at_ with at_ | at_ <;> cases at_
      have news := ringTick_news (by rcases at_ with at_ | at_ <;> rw [at_] <;> rintro ⟨⟩) taken
      refine hears_of_ring news (fun goes => ?_) rfl rfl (fun _ stored => stored) ?_
      · have leads := news.places
        change place ring side = _ at goes
        rcases at_ with at_ | at_ <;> rw [at_, goes] at leads <;> cases leads
      · exact fun _ onWay => absurd onWay (not_onWay noWake)
  | returns ring stage at_ taken goes =>
      have news := ringTick_news (by rw [at_]; rintro ⟨⟩) taken
      refine hears_of_ring news (fun _ => by rw [handles_stageAt]) (handles_stageAt_peer ..)
        rfl (fun _ stored => stored) ?_
      exact fun _ onWay => absurd onWay (not_onWay (by rw [at_]; rintro _ ⟨⟩))

/-! ### A side's own steps -/

theorem covered_congr (places : place after.ring side.peer = place s.ring side.peer)
    (tokens : after.tokens = s.tokens)
    (thread : (after.handles side).thread = (s.handles side).thread)
    (stage : (after.handles side.peer).stage = (s.handles side.peer).stage) (found : Prop) :
    after.Covered side found ↔ s.Covered side found := by
  rw [Covered, Covered, OnWay, OnWay, places, tokens, thread, stage]

theorem covered_setRing {ring : RingState α} (peer : samePeer s.ring ring side) (found : Prop) :
    (s.setRing ring).Covered side found ↔ s.Covered side found := by
  refine covered_congr ?_ ?_ ?_ ?_ found
  · exact place_of_samePeer peer
  · rfl
  · rfl
  · rfl

theorem watch_congr (ring : after.ring = s.ring) (tokens : after.tokens = s.tokens)
    (thread : (after.handles side).thread = (s.handles side).thread)
    (stage : (after.handles side.peer).stage = (s.handles side.peer).stage)
    (watch : Watch cap s side) : Watch cap after side := by
  have covered := covered_congr (by rw [ring]) tokens thread stage
  cases side with
  | producer =>
      change producerWatch cap s s.ring.producer.pc at watch
      change producerWatch cap after after.ring.producer.pc
      rw [ring]
      unfold producerWatch at watch ⊢
      rw [ring]
      split at watch
      · exact watch
      · exact (covered _).mpr watch
      · exact ⟨(covered _).mpr watch.1, (covered _).mpr watch.2⟩
      · trivial
  | consumer =>
      change consumerWatch s s.ring.consumer.pc at watch
      change consumerWatch after after.ring.consumer.pc
      rw [ring]
      unfold consumerWatch at watch ⊢
      rw [ring]
      split at watch
      · exact (covered _).mpr watch
      · exact (covered _).mpr watch
      · exact ⟨(covered _).mpr watch.1, (covered _).mpr watch.2⟩
      · trivial

/-- A look of the announced predicate of `send`. -/
theorem producerWatch_looks {index : Nat} {ring : RingState α}
    (at_ : place s.ring .producer = .announced) (loaded : fresh s.ring .producer index = true)
    (taken : s.ring.producerTick cap index = some ring) (watch : Watch cap s .producer) :
    Watch cap (s.setRing ring) .producer := by
  have news := producer_news taken
  have covered := covered_setRing news.peer
  change producerWatch cap s s.ring.producer.pc at watch
  change producerWatch cap (s.setRing ring) ring.producer.pc
  unfold RingState.producerTick at taken
  change producerPlace s.ring.producer.pc = _ at at_
  cases pcEq : s.ring.producer.pc with
  | waitHead phase value =>
      simp only [pcEq, Option.some.injEq] at taken
      subst taken
      cases phase with
      | entry =>
          rw [pcEq] at at_
          cases at_
      | announced => exact rfl
  | waitTail phase value head =>
      simp only [pcEq] at taken
      obtain ⟨⟨tail, loadedState⟩, load, rfl⟩ := Option.map_eq_some_iff.mp taken
      obtain ⟨read, rfl⟩ := RingState.loadTail_eq_some load
      rw [of_decide_eq_true loaded] at read
      have tailEq : tail = s.ring.shared.tail.current := Location.eq_current_of_load read
      cases phase with
      | entry =>
          rw [pcEq] at at_
          cases at_
      | announced =>
          have headEq : head = s.ring.shared.head.current := by rwa [pcEq] at watch
          dsimp only
          split
          · rename_i full
            refine .inl ?_
            rw [headEq, tailEq] at full
            exact full
          · exact trivial
  | waitClosed phase value =>
      simp only [pcEq, Option.some.injEq] at taken
      subst taken
      cases phase with
      | entry =>
          rw [pcEq] at at_
          cases at_
      | announced =>
          rw [pcEq] at watch
          cases closed : s.ring.shared.closed with
          | false => exact ⟨(covered _).mpr watch, .inl closed⟩
          | true => exact trivial
  | _ =>
      rw [pcEq] at at_
      cases at_

/-- A look of the announced predicate of `recv`. -/
theorem consumerWatch_looks {index : Nat} {ring : RingState α}
    (at_ : place s.ring .consumer = .announced) (loaded : fresh s.ring .consumer index = true)
    (taken : s.ring.consumerTick cap index = some ring) (watch : Watch cap s .consumer) :
    Watch cap (s.setRing ring) .consumer := by
  have news := consumer_news (by rw [at_]; rintro ⟨⟩) taken
  have covered := covered_setRing news.peer
  change consumerWatch s s.ring.consumer.pc at watch
  change consumerWatch (s.setRing ring) ring.consumer.pc
  unfold RingState.consumerTick at taken
  change consumerPlace s.ring.consumer.pc = _ at at_
  cases pcEq : s.ring.consumer.pc with
  | waitHead phase =>
      simp only [pcEq] at taken
      obtain ⟨⟨head, loadedState⟩, load, rfl⟩ := Option.map_eq_some_iff.mp taken
      obtain ⟨read, rfl⟩ := RingState.loadHead_eq_some load
      rw [of_decide_eq_true loaded] at read
      cases phase with
      | entry =>
          rw [pcEq] at at_
          cases at_
      | announced => exact .inl (Location.eq_current_of_load read)
  | waitTail phase head =>
      simp only [pcEq] at taken
      cases phase with
      | entry =>
          rw [pcEq] at at_
          cases at_
      | announced =>
          rw [pcEq] at watch
          split at taken <;> cases taken
          · rename_i empty
            rw [empty] at watch
            exact ((covered _).mpr watch).imp_left Eq.symm
          · exact trivial
  | waitClosed phase =>
      simp only [pcEq, Option.some.injEq] at taken
      subst taken
      cases phase with
      | entry =>
          rw [pcEq] at at_
          cases at_
      | announced =>
          rw [pcEq] at watch
          cases closed : s.ring.shared.closed with
          | false => exact ⟨(covered _).mpr watch, .inl closed⟩
          | true => exact trivial
  | _ =>
      rw [pcEq] at at_
      cases at_

theorem watch_looks {index : Nat} {ring : RingState α}
    (at_ : place s.ring side = .announced) (loaded : fresh s.ring side index = true)
    (taken : ringTick cap s.ring side index = some ring) (watch : Watch cap s side) :
    Watch cap (s.setRing ring) side := by
  cases side with
  | producer => exact producerWatch_looks at_ loaded taken watch
  | consumer => exact consumerWatch_looks at_ loaded taken watch

/-- The predicate starts from the front, behind the announcement or a sleep. -/
theorem watch_restarts {index : Nat} (at_ : place s.ring side = .announce)
    (ring : ringTick cap s.ring side index = some after.ring) : Watch cap after side := by
  cases side with
  | producer =>
      change s.ring.producerTick cap index = some after.ring at ring
      change producerPlace s.ring.producer.pc = _ at at_
      change producerWatch cap after after.ring.producer.pc
      cases pcEq : s.ring.producer.pc with
      | waitAnnounce value =>
          simp only [RingState.producerTick, pcEq, Option.some.injEq] at ring
          rw [← ring]
          exact trivial
      | waitHead phase | waitTail phase | waitClosed phase =>
          rw [pcEq] at at_
          cases phase <;> cases at_
      | _ =>
          rw [pcEq] at at_
          cases at_
  | consumer =>
      change s.ring.consumerTick cap index = some after.ring at ring
      change consumerPlace s.ring.consumer.pc = _ at at_
      change consumerWatch after after.ring.consumer.pc
      cases pcEq : s.ring.consumer.pc with
      | waitAnnounce =>
          simp only [RingState.consumerTick, pcEq, Option.some.injEq] at ring
          rw [← ring]
          exact trivial
      | waitHead phase | waitTail phase | waitClosed phase =>
          rw [pcEq] at at_
          cases phase <;> cases at_
      | _ =>
          rw [pcEq] at at_
          cases at_

theorem watch_woken (ring : ringWoken cap s.ring side = some after.ring) :
    Watch cap after side := by
  cases side with
  | producer =>
      change producerWatch cap after after.ring.producer.pc
      simp only [ringWoken, RingState.producerStep] at ring
      split at ring
      · rw [← Option.some.inj ring]
        exact trivial
      · cases ring
  | consumer =>
      change consumerWatch after after.ring.consumer.pc
      simp only [ringWoken, RingState.consumerStep] at ring
      split at ring
      · rw [← Option.some.inj ring]
        exact trivial
      · cases ring

/-- A step that changes neither the side's registration nor its announcement. -/
theorem SideOk.moves (ok : SideOk cap s side) (cells : after.cells side = s.cells side)
    (thread : (after.handles side).thread = (s.handles side).thread)
    (worker : (after.handles side).worker = (s.handles side).worker)
    (settled : (s.handles side).stage ≠ .setWorker ∧ (s.handles side).stage ≠ .publishRegistered)
    (standing : fits (after.handles side).stage (place after.ring side) = true)
    (announced : announcing (place after.ring side) = announcing (place s.ring side))
    (waits : waiting (place after.ring side) = true → waiting (place s.ring side) = true)
    (watch : announcing (place after.ring side) = true → Watch cap after side) :
    SideOk cap after side where
  standing := standing
  flag := by
    rw [cells, announced]
    exact ok.flag
  worker := by
    rw [cells, worker]
    exact .inl (ok.worker.resolve_right settled.1)
  bound still := by
    rw [worker, thread]
    exact ok.bound (waits still)
  registered := by
    rw [cells]
    rcases ok.registered with nobody | registered | stage
    · exact .inl nobody
    · exact .inr (.inl registered)
    · exact absurd stage settled.2
  watch := by
    cases away : announcing (place after.ring side) with
    | false => exact watch_of_unannounced away
    | true => exact watch away

/-- The next stage of a waiter method. -/
theorem SideOk.stage (ok : SideOk cap s side) {stage : ParkStage}
    (settled : (s.handles side).stage ≠ .setWorker ∧ (s.handles side).stage ≠ .publishRegistered)
    (standing : fits stage (place s.ring side) = true) :
    SideOk cap (s.stageAt side stage) side := by
  refine ok.moves rfl ?_ ?_ settled ?_ rfl (fun still => still) fun _ => ?_
  · rw [handles_stageAt]
  · rw [handles_stageAt]
  · rw [handles_stageAt]
    exact standing
  · refine watch_congr (s := s) rfl rfl ?_ ?_ ok.watch
    · rw [handles_stageAt]
    · rw [handles_stageAt_peer]

/-- A `wake` of the side returns. -/
theorem SideOk.wakeDone (ok : SideOk cap s side) {index : Nat} {target : Side}
    {ring : RingState α} {tokens : Nat → Bool} (at_ : place s.ring side = .wake target)
    (taken : ringTick cap s.ring side index = some ring) :
    SideOk cap (({ s with tokens := tokens }.setRing ring).stageAt side .running) side := by
  have leads := (ringTick_news (by rw [at_]; rintro ⟨⟩) taken).places
  have goes : place ring side = .wake .consumer ∨ place ring side = .call ∨
      place ring side = .idle := by
    rw [at_] at leads
    cases target with
    | producer => exact (of_decide_eq_true leads).imp_right fun call => .inl call.2
    | consumer => exact .inr (of_decide_eq_true leads)
  have settled : (s.handles side).stage ≠ .setWorker ∧
      (s.handles side).stage ≠ .publishRegistered := by
    have standing := ok.standing
    rw [at_] at standing
    constructor <;> intro stage <;> rw [stage] at standing <;> cases standing
  have same : ({ s with tokens := tokens }.setRing ring).handles = s.handles := rfl
  refine ok.moves rfl ?_ ?_ settled ?_ ?_ ?_ ?_
  · rw [handles_stageAt, same]
  · rw [handles_stageAt, same]
  · rw [handles_stageAt]
    change fits .running (place ring side) = true
    rcases goes with goes | goes | goes <;> rw [goes] <;> rfl
  · change announcing (place ring side) = _
    rw [at_]
    rcases goes with goes | goes | goes <;> rw [goes] <;> rfl
  · intro still
    change waiting (place ring side) = true at still
    rcases goes with goes | goes | goes <;> rw [goes] at still <;> cases still
  · intro announced
    change announcing (place ring side) = true at announced
    rcases goes with goes | goes | goes <;> rw [goes] at announced <;> cases announced

theorem SideOk.enters (ok : SideOk cap s side) {ring : RingState α}
    (at_ : place s.ring side = .call) (stage : (s.handles side).stage = .running)
    (goes : place ring side = .entry) :
    SideOk cap ((s.setRing ring).register side) side := by
  unfold register
  dsimp only
  have unsettled : (s.handles side).stage ≠ .setWorker ∧
      (s.handles side).stage ≠ .publishRegistered := by
    rw [stage]
    exact ⟨by rintro ⟨⟩, by rintro ⟨⟩⟩
  have flag : (s.cells side).parked = .parked ↔ announcing (place ring side) = true := by
    rw [ok.flag, at_, goes]
    exact Iff.rfl
  have registered : (s.cells side).worker = none ∨ (s.cells side).registered = true :=
    ok.registered.imp_right fun either => either.resolve_right unsettled.2
  split
  · rename_i bound
    exact
      { standing := by
          change fits (s.handles side).stage (place ring side) = true
          rw [stage, goes]
          rfl
        flag := flag
        worker := ok.worker
        bound := fun _ => bound
        registered := registered.imp_right .inl
        watch := watch_of_unannounced <| by
          change announcing (place ring side) = false
          rw [goes]
          rfl }
  · exact
      { standing := by
          rw [handles_setHandle]
          change fits .setWorker (place ring side) = true
          rw [goes]
          rfl
        flag := flag
        worker := .inr (by rw [handles_setHandle])
        bound := fun _ => by rw [handles_setHandle]
        registered := registered.imp_right .inl
        watch := watch_of_unannounced <| by
          change announcing (place ring side) = false
          rw [goes]
          rfl }

/-- The two steps of `set_worker`. -/
theorem SideOk.setsWorker (ok : SideOk cap s side) (stage : (s.handles side).stage = .setWorker) :
    SideOk cap ((s.setCell side
      { s.cells side with worker := some (s.handles side).thread }).stageAt side
        .publishRegistered) side := by
  have entry : place s.ring side = .entry := by
    have standing := ok.standing
    rw [stage] at standing
    exact of_decide_eq_true standing
  have bound := ok.bound (by rw [entry]; rfl)
  have handles : (s.setCell side
      { s.cells side with worker := some (s.handles side).thread }).handles = s.handles := rfl
  refine
    { standing := ?_
      flag := ?_
      worker := .inl ?_
      bound := fun _ => ?_
      registered := .inr (.inr ?_)
      watch := watch_of_unannounced <| by
        change announcing (place s.ring side) = false
        rw [entry]
        rfl }
  · rw [handles_stageAt]
    change decide (place s.ring side = .entry) = true
    exact decide_eq_true entry
  · change ((s.setCell side _).cells side).parked = _ ↔ _
    rw [cells_setCell]
    exact ok.flag
  · change ((s.setCell side _).cells side).worker = _
    rw [cells_setCell, handles_stageAt, handles, bound]
  · rw [handles_stageAt, handles]
    exact bound
  · rw [handles_stageAt]

theorem SideOk.registers (ok : SideOk cap s side)
    (stage : (s.handles side).stage = .publishRegistered) :
    SideOk cap ((s.setCell side { s.cells side with registered := true }).stageAt side .running)
      side := by
  have entry : place s.ring side = .entry := by
    have standing := ok.standing
    rw [stage] at standing
    exact of_decide_eq_true standing
  have worker := ok.worker.resolve_right (by rw [stage]; rintro ⟨⟩)
  have bound := ok.bound (by rw [entry]; rfl)
  have handles : (s.setCell side { s.cells side with registered := true }).handles = s.handles :=
    rfl
  refine
    { standing := ?_
      flag := ?_
      worker := .inl ?_
      bound := fun _ => ?_
      registered := .inr (.inl ?_)
      watch := watch_of_unannounced <| by
        change announcing (place s.ring side) = false
        rw [entry]
        rfl }
  · rw [handles_stageAt]
    change fits .running (place s.ring side) = true
    rw [entry]
    rfl
  · change ((s.setCell side _).cells side).parked = _ ↔ _
    rw [cells_setCell]
    exact ok.flag
  · change ((s.setCell side _).cells side).worker = _
    rw [cells_setCell, handles_stageAt, handles]
    exact worker
  · rw [handles_stageAt, handles]
    exact bound
  · change ((s.setCell side _).cells side).registered = true
    rw [cells_setCell]

/-- T1, and T2: the flag changes with the place. -/
theorem SideOk.flips (ok : SideOk cap s side) {ring : RingState α} {flag : ParkFlag}
    {stage : ParkStage} (slow : (s.handles side).stage = .slow)
    (at_ : waiting (place s.ring side) = true)
    (standing : fits stage (place ring side) = true)
    (same : flag = .parked ↔ announcing (place ring side) = true)
    (watch : announcing (place ring side) = true →
      Watch cap (((s.setRing ring).setCell side { s.cells side with parked := flag }).stageAt side
        stage) side) :
    SideOk cap (((s.setRing ring).setCell side { s.cells side with parked := flag }).stageAt side
      stage) side := by
  have bound := ok.bound at_
  have worker := ok.worker.resolve_right (by rw [slow]; rintro ⟨⟩)
  have handles : ((s.setRing ring).setCell side { s.cells side with parked := flag }).handles =
    s.handles := rfl
  refine
    { standing := ?_
      flag := ?_
      worker := .inl ?_
      bound := fun _ => ?_
      registered := ?_
      watch := ?_ }
  · rw [handles_stageAt]
    exact standing
  · change (((s.setRing ring).setCell side _).cells side).parked = _ ↔ _
    rw [cells_setCell]
    exact same
  · change (((s.setRing ring).setCell side _).cells side).worker = _
    rw [cells_setCell, handles_stageAt, handles]
    exact worker
  · rw [handles_stageAt, handles]
    exact bound
  · change (((s.setRing ring).setCell side _).cells side).worker = _ ∨
      (((s.setRing ring).setCell side _).cells side).registered = _ ∨ _
    rw [cells_setCell]
    rcases ok.registered with nobody | registered | stage
    · exact .inl nobody
    · exact .inr (.inl registered)
    · rw [slow] at stage
      cases stage
  · cases away : announcing (place ring side) with
    | false => exact watch_of_unannounced away
    | true => exact watch away

/-- A step of the side's thread, as the side itself finds it. -/
theorem own_of_ticks {index : Nat} (ok : SideOk cap s side)
    (taken : Ticks cap s side index after) : SideOk cap after side := by
  have settled {stage : ParkStage} (at_ : (s.handles side).stage = stage)
      (notSet : stage ≠ .setWorker) (notPublish : stage ≠ .publishRegistered) :
      (s.handles side).stage ≠ .setWorker ∧ (s.handles side).stage ≠ .publishRegistered := by
    rw [at_]
    exact ⟨notSet, notPublish⟩
  cases taken with
  | heard target at_ stage parked =>
      refine ok.stage ?_ (by rw [at_]; rfl)
      rcases stage with stage | stage
      · exact settled stage (by rintro ⟨⟩) (by rintro ⟨⟩)
      · exact settled stage (by rintro ⟨⟩) (by rintro ⟨⟩)
  | missed target at_ stage unparked =>
      exact ok.stage (settled stage (by rintro ⟨⟩) (by rintro ⟨⟩)) (by rw [at_]; rfl)
  | fencedWake target at_ stage =>
      exact ok.stage (settled stage (by rintro ⟨⟩) (by rintro ⟨⟩)) (by rw [at_]; rfl)
  | clones target thread at_ stage worker =>
      exact ok.stage (settled stage (by rintro ⟨⟩) (by rintro ⟨⟩)) (by rw [at_]; rfl)
  | quiet target ring at_ stage unparked taken => exact ok.wakeDone at_ taken
  | nobody target ring at_ stage worker taken => exact ok.wakeDone at_ taken
  | unparks target thread ring at_ stage taken => exact ok.wakeDone at_ taken
  | asserted at_ stage registered =>
      exact ok.stage (settled stage (by rintro ⟨⟩) (by rintro ⟨⟩)) (by rw [at_]; rfl)
  | failed at_ stage unregistered =>
      -- the waiter has been given a thread, and the flag is stored behind it
      have bound := ok.bound (by rw [at_]; rfl)
      have worker := ok.worker.resolve_right (by rw [stage]; rintro ⟨⟩)
      rcases ok.registered with nobody | registered | publishing
      · rw [worker, bound] at nobody
        cases nobody
      · rw [registered] at unregistered
        cases unregistered
      · rw [stage] at publishing
        cases publishing
  | runs ring stage noWake noAnnounce taken noEntry =>
      have standing := ok.standing
      rw [stage] at standing
      have news := ringTick_news (fun same => by rw [same] at standing; cases standing) taken
      have leads := news.places
      have goes : (place s.ring side = .call ∨ place s.ring side = .entry) ∧
          fits .running (place ring side) = true ∧ announcing (place ring side) = false ∧
            (waiting (place ring side) = true → waiting (place s.ring side) = true) := by
        cases at_ : place s.ring side with
        | call =>
            rw [at_] at leads
            rcases of_decide_eq_true leads with goes | goes | goes | goes
            · rw [goes]
              exact ⟨.inl rfl, rfl, rfl, fun still => by cases still⟩
            · rw [goes]
              exact ⟨.inl rfl, rfl, rfl, fun still => by cases still⟩
            · exact absurd goes (noEntry at_)
            · rw [goes]
              exact ⟨.inl rfl, rfl, rfl, fun still => by cases still⟩
        | entry =>
            rw [at_] at leads
            rcases of_decide_eq_true leads with goes | goes | goes <;> rw [goes] <;>
              exact ⟨.inr rfl, rfl, rfl, fun _ => rfl⟩
        | wake target => exact absurd at_ (noWake target)
        | announce => exact absurd at_ noAnnounce
        | idle =>
            rw [at_] at leads
            cases leads
        | announced | park | leave | unwinding =>
            rw [at_] at standing
            cases standing
      have quiet : announcing (place s.ring side) = false := by
        rcases goes.1 with at_ | at_ <;> rw [at_] <;> rfl
      refine ok.moves rfl rfl rfl (settled stage (by rintro ⟨⟩) (by rintro ⟨⟩)) ?_
        (goes.2.2.1.trans quiet.symm) goes.2.2.2 ?_
      · change fits (s.handles side).stage (place ring side) = true
        rw [stage]
        exact goes.2.1
      · intro announced
        exact absurd (goes.2.2.1.symm.trans announced) Bool.false_ne_true
  | enters ring at_ stage taken goes => exact ok.enters at_ stage goes
  | setsWorker stage => exact ok.setsWorker stage
  | registers stage => exact ok.registers stage
  | announces ring at_ stage taken =>
      have leads := (ringTick_news (by rw [at_]; rintro ⟨⟩) taken).places
      rw [at_] at leads
      have goes := of_decide_eq_true leads
      refine ok.flips stage (by rw [at_]; rfl) ?_ ?_ fun _ => watch_restarts at_ taken
      · rw [goes]
        rfl
      · rw [goes]
        exact ⟨fun _ => rfl, fun _ => rfl⟩
  | fenced stage =>
      have standing := ok.standing
      rw [stage] at standing
      refine ok.stage (settled stage (by rintro ⟨⟩) (by rintro ⟨⟩)) ?_
      rw [of_decide_eq_true standing]
      rfl
  | woken ring at_ stage token taken =>
      obtain ⟨-, -, -, goes⟩ := ringWoken_eq taken
      refine ok.moves rfl rfl rfl (settled stage (by rintro ⟨⟩) (by rintro ⟨⟩)) ?_ ?_ ?_ ?_
      · change fits (s.handles side).stage (place ring side) = true
        rw [stage, goes]
        rfl
      · change announcing (place ring side) = _
        rw [goes, at_]
        rfl
      · rw [at_]
        exact fun _ => rfl
      · exact fun _ => watch_woken taken
  | leaves ring at_ stage taken =>
      have leads := (ringTick_news (by rw [at_]; rintro ⟨⟩) taken).places
      rw [at_] at leads
      have goes := of_decide_eq_true leads
      refine ok.flips stage (by rw [at_]; rfl) ?_ ?_ fun announced => ?_
      · rw [goes]
        rfl
      · rw [goes]
        exact ⟨fun same => (by cases same), fun same => (by cases same)⟩
      · rw [goes] at announced
        cases announced
  | looks ring stage at_ fresh taken stays =>
      have leads := (ringTick_news
        (by rcases at_ with at_ | at_ <;> rw [at_] <;> rintro ⟨⟩) taken).places
      have goes : fits .slow (place ring side) = true ∧
          announcing (place ring side) = announcing (place s.ring side) := by
        rcases at_ with at_ | at_
        · rw [at_] at leads ⊢
          rcases of_decide_eq_true leads with goes | goes | goes
          · rw [goes]
            exact ⟨rfl, rfl⟩
          · rw [goes]
            exact ⟨rfl, rfl⟩
          · exact absurd goes stays
        · rw [at_] at leads ⊢
          rcases of_decide_eq_true leads with goes | goes | goes <;> rw [goes] <;>
            exact ⟨rfl, rfl⟩
      refine ok.moves rfl rfl rfl (settled stage (by rintro ⟨⟩) (by rintro ⟨⟩)) ?_ goes.2 ?_ ?_
      · change fits (s.handles side).stage (place ring side) = true
        rw [stage]
        exact goes.1
      · intro _
        rcases at_ with at_ | at_ <;> rw [at_] <;> rfl
      · intro announced
        rcases at_ with at_ | at_
        · rw [at_] at goes
          exact absurd (goes.2.symm.trans announced) Bool.false_ne_true
        · exact watch_looks at_ (fresh at_) taken ok.watch
  | returns ring stage at_ taken goes =>
      refine ok.moves rfl ?_ ?_ (settled stage (by rintro ⟨⟩) (by rintro ⟨⟩)) ?_ ?_ ?_ ?_
      · rw [handles_stageAt]
        rfl
      · rw [handles_stageAt]
        rfl
      · rw [handles_stageAt]
        change fits .running (place ring side) = true
        rw [goes]
        rfl
      · change announcing (place ring side) = _
        rw [goes, at_]
        rfl
      · rw [at_]
        exact fun _ => rfl
      · intro announced
        change announcing (place ring side) = true at announced
        rw [goes] at announced
        cases announced

/-! ### Every step -/

theorem inCall_eq_true : s.inCall side = true ↔ place s.ring side ≠ .idle :=
  decide_eq_true_iff

/-- What a step of one side, or of code outside, leaves. -/
theorem ParkedOk.of_hears (ok : ParkedOk cap s) (own : SideOk cap after side)
    (hears : Hears s after side.peer)
    (apart : after.inCall side = true → after.inCall side.peer = true →
      (after.handles side).thread ≠ (after.handles side.peer).thread) : ParkedOk cap after where
  sides other := by
    rcases eq_or_eq_peer side other with same | same
    · rw [same]
      exact own
    · rw [same]
      exact hears.sideOk (ok.sides side.peer)
  apart other busy peerBusy := by
    rcases eq_or_eq_peer side other with same | same
    · rw [same] at busy peerBusy ⊢
      exact apart busy peerBusy
    · rw [same] at busy peerBusy ⊢
      rw [peer_peer] at peerBusy ⊢
      exact (apart peerBusy busy).symm

/-- A step leaves each handle on its thread, and only an idle side begins a call. -/
theorem Ticks.thread {index : Nat} (taken : Ticks cap s side index after) (other : Side) :
    (after.handles other).thread = (s.handles other).thread := by
  have stageAt (moved : ParkedRing α) (handles : moved.handles = s.handles) (stage : ParkStage) :
      ((moved.stageAt side stage).handles other).thread = (s.handles other).thread := by
    rcases eq_or_eq_peer side other with same | same
    · rw [same, handles_stageAt, handles]
    · rw [same, handles_stageAt_peer, handles]
  cases taken with
  | runs | woken | looks => rfl
  | enters ring at_ stage taken goes =>
      unfold register
      dsimp only
      split
      · rfl
      · rcases eq_or_eq_peer side other with same | same
        · rw [same, handles_setHandle]
          rfl
        · rw [same, handles_setHandle_peer]
          rfl
  | _ => exact stageAt _ rfl _

theorem Ticks.busy {index : Nat} (standing : fits (s.handles side).stage (place s.ring side) = true)
    (taken : Ticks cap s side index after) : s.inCall side = true := by
  have away {at_ : ParkPlace} (same : place s.ring side = at_) (busy : at_ ≠ .idle) :
      s.inCall side = true := by
    rw [inCall_eq_true, same]
    exact busy
  cases taken with
  | heard target at_ | missed target at_ | fencedWake target at_ | clones target thread at_
  | quiet target ring at_ | nobody target ring at_ | unparks target thread ring at_
  | asserted at_ | failed at_ | enters ring at_ | announces ring at_ | woken ring at_
  | leaves ring at_ | returns ring stage at_ => exact away at_ (by rintro ⟨⟩)
  | looks ring stage at_ =>
      rcases at_ with at_ | at_
      · exact away at_ (by rintro ⟨⟩)
      · exact away at_ (by rintro ⟨⟩)
  | setsWorker stage | registers stage | fenced stage =>
      rw [stage] at standing
      exact away (of_decide_eq_true standing) (by rintro ⟨⟩)
  | runs ring stage noWake noAnnounce taken noEntry =>
      have leads := (ringTick_news
        (fun same => by rw [stage, same] at standing; cases standing) taken).places
      rw [inCall_eq_true]
      intro idle
      rw [idle] at leads
      cases leads

theorem inCall_of_announcing (announced : announcing (place s.ring side) = true) :
    s.inCall side = true := by
  rw [inCall_eq_true]
  intro idle
  rw [idle] at announced
  cases announced

theorem ParkedOk.hears_tick {index : Nat} (ok : ParkedOk cap s)
    (taken : s.tick cap side index = some after) : Hears s after side.peer := by
  have standing := (ok.sides side).standing
  refine hears_of_ticks (ok.sides side.peer) standing (fun announced busy => ?_)
    (tick_ticks standing taken)
  exact (ok.apart side busy (inCall_of_announcing announced)).symm

theorem ParkedOk.tick {index : Nat} (ok : ParkedOk cap s)
    (taken : s.tick cap side index = some after) : ParkedOk cap after := by
  have standing := (ok.sides side).standing
  have ticks := tick_ticks standing taken
  have hears := ok.hears_tick taken
  refine ok.of_hears (own_of_ticks (ok.sides side) ticks) hears fun _ peerBusy => ?_
  rw [ticks.thread, ticks.thread]
  refine ok.apart side (ticks.busy standing) ?_
  rwa [inCall_eq_true, hears.place, ← inCall_eq_true] at peerBusy

theorem SideOk.idle (ok : SideOk cap s side) (idle : place s.ring side = .idle) :
    (s.handles side).stage = .running := by
  have standing := ok.standing
  rw [idle] at standing
  cases stage : (s.handles side).stage <;> rw [stage] at standing <;> first | rfl | cases standing

/-- A call starts; `drop` has closed the ring and stands in front of its first `wake`. -/
theorem ParkedOk.hears_begin {ring : RingState α} (ok : ParkedOk cap s)
    (news : CallNews side s.ring ring) : Hears s (s.setRing ring) side.peer where
  own := by
    rw [peer_peer]
    exact news.peer
  cursor := news.cursors side.peer
  peerCursor := .inl (news.cursors side.peer.peer)
  closed := by
    have stage := (ok.sides side).idle news.idle
    rcases news.closed with same | goes
    · exact .inl same
    · refine .inr ?_
      cases side with
      | producer => exact .inr ⟨rfl, goes⟩
      | consumer => exact .inl ⟨goes, by rw [peer_peer]; exact congrArg (delivers _) stage⟩
  handle := rfl
  cell := rfl
  token _ stored := stored
  onWay _ onWay := by
    refine absurd onWay (not_onWay ?_)
    rw [news.idle]
    rintro _ ⟨⟩

theorem ParkedOk.begin {ring : RingState α} (ok : ParkedOk cap s) (may : s.mayCall side = true)
    (news : CallNews side s.ring ring) : ParkedOk cap (s.setRing ring) := by
  have idle := news.idle
  have stage := (ok.sides side).idle idle
  refine ok.of_hears ?_ (ok.hears_begin news) ?_
  · refine (ok.sides side).moves rfl rfl rfl ?_ ?_ ?_ ?_ ?_
    · rw [stage]
      exact ⟨by rintro ⟨⟩, by rintro ⟨⟩⟩
    · change fits (s.handles side).stage (place ring side) = true
      rw [stage]
      rcases news.places with goes | goes <;> rw [goes] <;> rfl
    · change announcing (place ring side) = _
      rw [idle]
      rcases news.places with goes | goes <;> rw [goes] <;> rfl
    · intro still
      change waiting (place ring side) = true at still
      rcases news.places with goes | goes <;> rw [goes] at still <;> cases still
    · intro announced
      change announcing (place ring side) = true at announced
      rcases news.places with goes | goes <;> rw [goes] at announced <;> cases announced
  · intro _ peerBusy
    change (s.handles side).thread ≠ (s.handles side.peer).thread
    have busy : s.inCall side.peer = true := by
      rw [inCall_eq_true] at peerBusy ⊢
      rwa [← place_of_samePeer news.peer]
    rw [mayCall, busy] at may
    exact of_decide_eq_true may

/-- A wait goes on without a token. -/
theorem hears_of_goesOn {ring : RingState α} (peer : samePeer s.ring ring side)
    (shared : ring.shared = s.ring.shared)
    (at_ : place s.ring side = .announce ∨ place s.ring side = .park) :
    Hears s (s.setRing ring) side.peer := by
  refine hears_of_wait peer shared (fun target same => ?_) rfl rfl rfl fun _ stored => stored
  rcases at_ with at_ | at_ <;> rw [at_] at same <;> cases same

theorem ParkedOk.goesOn {ring : RingState α} (ok : ParkedOk cap s)
    (stage : (s.handles side).stage = .slow) (peer : samePeer s.ring ring side)
    (shared : ring.shared = s.ring.shared)
    (places : place s.ring side = .announce ∧ place ring side = .entry ∨
      place s.ring side = .park ∧ place ring side = .announced)
    (watch : announcing (place ring side) = true → Watch cap (s.setRing ring) side) :
    ParkedOk cap (s.setRing ring) := by
  have busy : s.inCall side = true := by
    rw [inCall_eq_true]
    rcases places with ⟨at_, -⟩ | ⟨at_, -⟩ <;> rw [at_] <;> rintro ⟨⟩
  have hears := hears_of_goesOn peer shared (places.imp And.left And.left)
  refine ok.of_hears ?_ hears ?_
  · refine (ok.sides side).moves rfl rfl rfl ?_ ?_ ?_ ?_ watch
    · rw [stage]
      exact ⟨by rintro ⟨⟩, by rintro ⟨⟩⟩
    · change fits (s.handles side).stage (place ring side) = true
      rw [stage]
      rcases places with ⟨-, goes⟩ | ⟨-, goes⟩ <;> rw [goes] <;> rfl
    · change announcing (place ring side) = _
      rcases places with ⟨at_, goes⟩ | ⟨at_, goes⟩ <;> rw [at_, goes] <;> rfl
    · intro _
      rcases places with ⟨at_, -⟩ | ⟨at_, -⟩ <;> rw [at_] <;> rfl
  · intro _ peerBusy
    refine ok.apart side busy ?_
    rwa [inCall_eq_true, hears.place, ← inCall_eq_true] at peerBusy

/-- A handle goes to another thread between two calls. -/
theorem hears_of_move (thread : Nat) (idle : s.inCall side = false) :
    Hears s (s.setHandle side { s.handles side with thread := thread }) side.peer := by
  refine hears_of_still rfl rfl (handles_setHandle_peer ..) rfl fun _ onWay => ?_
  refine absurd onWay (not_onWay ?_)
  rw [show place s.ring side = .idle from of_not_not (of_decide_eq_false idle)]
  rintro _ ⟨⟩

theorem ParkedOk.move (ok : ParkedOk cap s) (thread : Nat) (idle : s.inCall side = false) :
    ParkedOk cap (s.setHandle side { s.handles side with thread := thread }) := by
  have away : place s.ring side = .idle := of_not_not (of_decide_eq_false idle)
  have sideOk := ok.sides side
  refine ok.of_hears ?_ (hears_of_move thread idle) fun busy _ =>
    absurd away (inCall_eq_true.mp busy)
  refine
    { standing := ?_
      flag := sideOk.flag
      worker := ?_
      bound := ?_
      registered := ?_
      watch := watch_of_unannounced
        (by change announcing (place s.ring side) = false; rw [away]; rfl) }
  · rw [handles_setHandle]
    exact sideOk.standing
  · rw [handles_setHandle]
    exact sideOk.worker
  · intro still
    change waiting (place s.ring side) = true at still
    rw [away] at still
    cases still
  · rw [handles_setHandle]
    exact sideOk.registered

/-- Code outside the ring stores or takes tokens. -/
theorem hears_of_stray {thread : Nat} {token : Bool}
    (kept : token = true ∨ s.outside thread = true) (side : Side) :
    Hears s (s.setToken thread token) side := by
  refine
    { own := by cases side <;> rfl
      cursor := rfl
      peerCursor := .inl rfl
      closed := .inl rfl
      handle := rfl
      cell := rfl
      token := fun announced stored => ?_
      onWay := fun _ onWay => .inl onWay }
  change Function.update s.tokens thread token _ = true
  by_cases same : (s.handles side).thread = thread
  · rw [same, Function.update_self]
    refine kept.resolve_right fun outside => ?_
    have away := List.all_eq_true.mp outside side (by cases side <;> simp)
    rw [inCall_of_announcing announced, same] at away
    simp at away
  · rwa [Function.update_of_ne same]

theorem ParkedOk.stray {thread : Nat} {token : Bool} (ok : ParkedOk cap s)
    (kept : token = true ∨ s.outside thread = true) : ParkedOk cap (s.setToken thread token) :=
  ⟨fun side => (hears_of_stray kept side).sideOk (ok.sides side), ok.apart⟩

theorem ParkedOk.step (ok : ParkedOk cap s) {action : ParkedAction α}
    (calm : isPanic action = false) (taken : s.step cap action = some after) :
    ParkedOk cap after := by
  have begins {ring : Option (RingState α)} {side : Side} (taken : s.begin side ring = some after)
      (news : ∀ ring', ring = some ring' → CallNews side s.ring ring') : ParkedOk cap after := by
    unfold ParkedRing.begin at taken
    split at taken
    · obtain ⟨ring', ringTaken, rfl⟩ := Option.map_eq_some_iff.mp taken
      exact ok.begin (by assumption) (news ring' ringTaken)
    · cases taken
  have spins {side : Side} (taken : s.waitGoesOn side (ringSpins cap s.ring side) = some after) :
      ParkedOk cap after := by
    unfold waitGoesOn at taken
    split at taken
    · obtain ⟨ring', ringTaken, rfl⟩ := Option.map_eq_some_iff.mp taken
      obtain ⟨peer, shared, at_, goes⟩ := ringSpins_eq ringTaken
      refine ok.goesOn (by assumption) peer shared (.inl ⟨at_, goes⟩) fun announced => ?_
      rw [goes] at announced
      cases announced
    · cases taken
  have wakes {side : Side} (taken : s.waitGoesOn side (ringWoken cap s.ring side) = some after) :
      ParkedOk cap after := by
    unfold waitGoesOn at taken
    split at taken
    · obtain ⟨ring', ringTaken, rfl⟩ := Option.map_eq_some_iff.mp taken
      obtain ⟨peer, shared, at_, goes⟩ := ringWoken_eq ringTaken
      exact ok.goesOn (by assumption) peer shared (.inr ⟨at_, goes⟩) fun _ =>
        watch_woken ringTaken
    · cases taken
  cases action with
  | producer call =>
      cases call with
      | tick index => exact ok.tick taken
      | spin => exact spins taken
      | spurious => exact wakes taken
      | trySend | send | trySendBulk | drop =>
          refine begins taken fun ring' ringTaken =>
            producerCall_news (fun _ => ?_) ?_ ?_ ringTaken
          all_goals rintro ⟨⟩
  | consumer call =>
      cases call with
      | tick index => exact ok.tick taken
      | spin => exact spins taken
      | spurious => exact wakes taken
      | panic => cases calm
      | tryRecv | recv | drain | drop =>
          refine begins taken fun ring' ringTaken =>
            consumerCall_news (fun _ => ?_) ?_ ?_ ?_ ringTaken
          all_goals rintro ⟨⟩
  | move side thread =>
      simp only [ParkedRing.step] at taken
      split at taken <;> cases taken
      exact ok.move thread (Bool.eq_false_iff.mpr (by assumption))
  | strayUnpark thread =>
      simp only [ParkedRing.step, Option.some.injEq] at taken
      subst taken
      exact ok.stray (.inl rfl)
  | strayPark thread =>
      simp only [ParkedRing.step] at taken
      split at taken <;> cases taken
      exact ok.stray (.inr (by assumption))

theorem parkedOk (reached : (calm cap).Reachable s) : ParkedOk cap s := by
  refine reached.invariant _ ?_ ?_
  · rintro s ⟨producerThread, consumerThread, rfl⟩
    exact parkedOk_new producerThread consumerThread
  · rintro before action after _ ok ⟨quiet, taken⟩
    exact ok.step quiet taken

end ParkedRing

end ArbitroKit
