import ArbitroKit.ParkedRing
import ArbitroKit.RingDisconnect

/-!
# Facts about the blocking ring's steps

What one step of a running call does to the ring's own state, said in terms of the
places, and what one step of a handle's thread can be.
-/

namespace ArbitroKit

open Coherent Transition

namespace ParkedRing

variable {α : Type*} {cap : Cap}

/-! ### What a step of the ring's model does to the places -/

/-- Where a step of a running call can lead. -/
def leadsTo (side : Side) : ParkPlace → ParkPlace → Bool
  | .call, after => decide (after = .idle ∨ after = .call ∨ after = .entry ∨
      after = .wake side.peer)
  -- `close` wakes `not_full`, then `not_empty`
  | .wake .producer, after =>
      decide (after = .wake .consumer ∨ side = .consumer ∧ after = .call)
  | .wake .consumer, after => decide (after = .call ∨ after = .idle)
  | .entry, after => decide (after = .entry ∨ after = .announce ∨ after = .call)
  | .announce, after => decide (after = .announced)
  | .announced, after => decide (after = .announced ∨ after = .park ∨ after = .leave)
  | .park, after => decide (after = .announced)
  | .leave, after => decide (after = .call)
  | .idle, _ => false
  | .unwinding, _ => false

/-- The cursor a side stores. -/
def cursor (ring : RingState α) : Side → Location Usize
  | .producer => ring.shared.head
  | .consumer => ring.shared.tail

/-- What a side has to itself. -/
def samePeer (before after : RingState α) : Side → Prop
  | .producer => after.consumer = before.consumer
  | .consumer => after.producer = before.producer

/-- What a step of a side's running call does. -/
structure RingNews (side : Side) (before after : RingState α) : Prop where
  peer : samePeer before after side
  closed : after.shared.closed = before.shared.closed
  others : cursor after side.peer = cursor before side.peer
  cursor : cursor after side = cursor before side ∨ place after side = .wake side.peer
  places : leadsTo side (place before side) (place after side) = true

theorem place_trySendStart (cap : Cap) (s : RingState α) (call : SendCall) (value : α) :
    place (s.trySendStart cap call value) .producer = .call ∧
      (s.trySendStart cap call value).shared = s.shared ∧
        (s.trySendStart cap call value).consumer = s.consumer := by
  unfold RingState.trySendStart
  dsimp only
  split <;> exact ⟨rfl, rfl, rfl⟩

theorem place_bulkStart (items : List α) (head tail : Usize) :
    producerPlace (RingState.bulkStart cap items head tail) = .call := by
  unfold RingState.bulkStart
  dsimp only
  split <;> rfl

/-- The producer goes to a place. -/
theorem producerNews_at {s moved : RingState α} {pc : ProducerPc α}
    (consumer : moved.consumer = s.consumer) (closed : moved.shared.closed = s.shared.closed)
    (tail : moved.shared.tail = s.shared.tail)
    (head : moved.shared.head = s.shared.head ∨ producerPlace pc = .wake .consumer)
    (leads : leadsTo .producer (producerPlace s.producer.pc) (producerPlace pc) = true) :
    RingNews .producer s (moved.producerAt pc) :=
  ⟨consumer, closed, tail, head, leads⟩

theorem producer_news {s after : RingState α} {index : Nat}
    (taken : s.producerTick cap index = some after) : RingNews .producer s after := by
  unfold RingState.producerTick at taken
  cases pcEq : s.producer.pc with
  | idle | gone => simp [pcEq] at taken
  | sendRefresh call value head =>
      simp only [pcEq] at taken
      obtain ⟨⟨tail, loadedState⟩, loaded, rfl⟩ := Option.map_eq_some_iff.mp taken
      obtain ⟨-, rfl⟩ := RingState.loadTail_eq_some loaded
      dsimp only
      split <;> exact producerNews_at rfl rfl rfl (.inl rfl) (by rw [pcEq]; rfl)
  | waitTail phase value head =>
      simp only [pcEq] at taken
      obtain ⟨⟨tail, loadedState⟩, loaded, rfl⟩ := Option.map_eq_some_iff.mp taken
      obtain ⟨-, rfl⟩ := RingState.loadTail_eq_some loaded
      dsimp only
      split <;> cases phase <;>
        exact producerNews_at rfl rfl rfl (.inl rfl) (by rw [pcEq]; rfl)
  | bulkRefresh items head =>
      simp only [pcEq] at taken
      obtain ⟨⟨tail, loadedState⟩, loaded, rfl⟩ := Option.map_eq_some_iff.mp taken
      obtain ⟨-, rfl⟩ := RingState.loadTail_eq_some loaded
      exact producerNews_at rfl rfl rfl (.inl rfl) (by rw [pcEq, place_bulkStart]; rfl)
  | bulkWrite items head left written =>
      simp only [pcEq] at taken
      split at taken
      · cases taken
      · split at taken <;> cases taken <;>
          exact producerNews_at rfl rfl rfl (.inl rfl) (by rw [pcEq]; rfl)
  | sendRetry value =>
      simp only [pcEq, Option.some.injEq] at taken
      subst taken
      obtain ⟨goes, shared, consumer⟩ := place_trySendStart cap s .send value
      refine ⟨consumer, by rw [shared], congrArg Ring.tail shared,
        .inl (congrArg Ring.head shared), ?_⟩
      rw [goes, place, pcEq]
      rfl
  | sendClosed call value =>
      simp only [pcEq, Option.some.injEq] at taken
      subst taken
      cases call <;> cases s.shared.closed <;>
        exact producerNews_at rfl rfl rfl (.inl rfl) (by rw [pcEq]; rfl)
  | sendPublish call value head | bulkPublish items head written =>
      simp only [pcEq, Option.some.injEq] at taken
      subst taken
      exact producerNews_at rfl rfl rfl (.inr rfl) (by rw [pcEq]; rfl)
  | sendWake call value =>
      simp only [pcEq, Option.some.injEq] at taken
      subst taken
      cases call <;> exact producerNews_at rfl rfl rfl (.inl rfl) (by rw [pcEq]; rfl)
  | waitHead phase value =>
      simp only [pcEq, Option.some.injEq] at taken
      subst taken
      cases phase <;> exact producerNews_at rfl rfl rfl (.inl rfl) (by rw [pcEq]; rfl)
  | waitClosed phase value =>
      simp only [pcEq, Option.some.injEq] at taken
      subst taken
      cases phase <;> cases s.shared.closed <;>
        exact producerNews_at rfl rfl rfl (.inl rfl) (by rw [pcEq]; rfl)
  | waitPark value =>
      simp only [pcEq] at taken
      split at taken <;> cases taken
      exact producerNews_at rfl rfl rfl (.inl rfl) (by rw [pcEq]; rfl)
  | returned outcome accepted =>
      simp only [pcEq, Option.some.injEq] at taken
      subst taken
      exact ⟨rfl, rfl, rfl, .inl rfl, by rw [place, pcEq]; rfl⟩
  | _ =>
      simp only [pcEq, Option.some.injEq] at taken
      subst taken
      exact producerNews_at rfl rfl rfl (.inl rfl) (by rw [pcEq]; rfl)

/-- The consumer goes to a place. -/
theorem consumerNews_at {s moved : RingState α} {pc : ConsumerPc α}
    (producer : moved.producer = s.producer) (closed : moved.shared.closed = s.shared.closed)
    (head : moved.shared.head = s.shared.head)
    (tail : moved.shared.tail = s.shared.tail ∨ consumerPlace pc = .wake .producer)
    (leads : leadsTo .consumer (consumerPlace s.consumer.pc) (consumerPlace pc) = true) :
    RingNews .consumer s (moved.consumerAt pc) :=
  ⟨producer, closed, head, tail, leads⟩

theorem consumerNews_readSlot {s : RingState α} {index : Nat} {next : α → ConsumerPc α}
    (before : consumerPlace s.consumer.pc = .call)
    (goes : ∀ value, consumerPlace (next value) = .call) :
    RingNews .consumer s (s.readSlot index next) := by
  unfold RingState.readSlot
  dsimp only
  split
  · exact consumerNews_at rfl rfl rfl (.inl rfl) (by rw [before, goes]; rfl)
  · exact consumerNews_at rfl rfl rfl (.inl rfl) (by rw [before]; rfl)

theorem consumer_news {s after : RingState α} {index : Nat}
    (returns : place s .consumer ≠ .unwinding)
    (taken : s.consumerTick cap index = some after) : RingNews .consumer s after := by
  unfold RingState.consumerTick at taken
  cases pcEq : s.consumer.pc with
  | idle | gone | undefined => simp [pcEq] at taken
  | recvRefresh call tail | drainLoad start =>
      simp only [pcEq] at taken
      obtain ⟨⟨head, loadedState⟩, loaded, rfl⟩ := Option.map_eq_some_iff.mp taken
      obtain ⟨-, rfl⟩ := RingState.loadHead_eq_some loaded
      dsimp only
      split <;> exact consumerNews_at rfl rfl rfl (.inl rfl) (by rw [pcEq]; rfl)
  | recvRecheck call tail =>
      simp only [pcEq] at taken
      obtain ⟨⟨head, loadedState⟩, loaded, rfl⟩ := Option.map_eq_some_iff.mp taken
      obtain ⟨-, rfl⟩ := RingState.loadHead_eq_some loaded
      dsimp only
      split
      · cases call <;> exact consumerNews_at rfl rfl rfl (.inl rfl) (by rw [pcEq]; rfl)
      · exact consumerNews_at rfl rfl rfl (.inl rfl) (by rw [pcEq]; rfl)
  | waitHead phase =>
      simp only [pcEq] at taken
      obtain ⟨⟨head, loadedState⟩, loaded, rfl⟩ := Option.map_eq_some_iff.mp taken
      obtain ⟨-, rfl⟩ := RingState.loadHead_eq_some loaded
      cases phase <;> exact consumerNews_at rfl rfl rfl (.inl rfl) (by rw [pcEq]; rfl)
  | recvClosed call tail =>
      simp only [pcEq] at taken
      split at taken <;> cases taken
      · exact consumerNews_at rfl rfl rfl (.inl rfl) (by rw [pcEq]; rfl)
      · cases call <;> exact consumerNews_at rfl rfl rfl (.inl rfl) (by rw [pcEq]; rfl)
  | recvRead call tail | drainRead start head tail =>
      simp only [pcEq, Option.some.injEq] at taken
      subst taken
      exact consumerNews_readSlot (by rw [pcEq]; rfl) fun _ => rfl
  | recvRelease call tail value | drainCommit start head tail =>
      simp only [pcEq, Option.some.injEq] at taken
      subst taken
      exact consumerNews_at rfl rfl rfl (.inr rfl) (by rw [pcEq]; rfl)
  | recvWake call value =>
      simp only [pcEq, Option.some.injEq] at taken
      subst taken
      cases call <;> exact consumerNews_at rfl rfl rfl (.inl rfl) (by rw [pcEq]; rfl)
  | drainCallback start head tail value =>
      simp only [pcEq] at taken
      split at taken <;> cases taken <;>
        exact consumerNews_at rfl rfl rfl (.inl rfl) (by rw [pcEq]; rfl)
  | recvRetry =>
      simp only [pcEq, Option.some.injEq] at taken
      subst taken
      unfold RingState.tryRecvStart
      dsimp only
      split <;> exact consumerNews_at rfl rfl rfl (.inl rfl) (by rw [pcEq]; rfl)
  | waitTail phase head =>
      simp only [pcEq] at taken
      split at taken <;> cases taken <;> cases phase <;>
        exact consumerNews_at rfl rfl rfl (.inl rfl) (by rw [pcEq]; rfl)
  | waitClosed phase =>
      simp only [pcEq, Option.some.injEq] at taken
      subst taken
      cases phase <;> cases s.shared.closed <;>
        exact consumerNews_at rfl rfl rfl (.inl rfl) (by rw [pcEq]; rfl)
  | waitPark =>
      simp only [pcEq] at taken
      split at taken <;> cases taken
      exact consumerNews_at rfl rfl rfl (.inl rfl) (by rw [pcEq]; rfl)
  | drainUnwind start tail => exact absurd (by rw [place, pcEq]; rfl) returns
  | _ =>
      simp only [pcEq, Option.some.injEq] at taken
      subst taken
      exact consumerNews_at rfl rfl rfl (.inl rfl) (by rw [pcEq]; rfl)

/-- What the start of a call does; `drop` closes the ring and goes into `close`. -/
structure CallNews (side : Side) (before after : RingState α) : Prop where
  peer : samePeer before after side
  cursors : ∀ side, cursor after side = cursor before side
  idle : place before side = .idle
  places : place after side = .call ∨ place after side = .wake .producer
  closed : after.shared.closed = before.shared.closed ∨ place after side = .wake .producer

theorem producerCall_news {s after : RingState α} {call : ProducerAction α}
    (starts : ∀ index, call ≠ .tick index) (spins : call ≠ .spin) (wakes : call ≠ .spurious)
    (taken : s.producerStep cap call = some after) : CallNews .producer s after := by
  cases call with
  | tick index => exact absurd rfl (starts index)
  | spin => exact absurd rfl spins
  | spurious => exact absurd rfl wakes
  | trySend value | send value =>
      simp only [RingState.producerStep] at taken
      split at taken <;> cases taken
      rename_i pcEq
      obtain ⟨goes, shared, consumer⟩ := place_trySendStart cap s _ value
      refine ⟨consumer, fun side => ?_, by rw [place, pcEq]; rfl, .inl goes, .inl (by rw [shared])⟩
      cases side
      · exact congrArg Ring.head shared
      · exact congrArg Ring.tail shared
  | trySendBulk items =>
      simp only [RingState.producerStep] at taken
      split at taken
      · rename_i pcEq
        have idle : place s .producer = .idle := by rw [place, pcEq]; rfl
        split at taken
        · cases taken
          exact ⟨rfl, fun side => by cases side <;> rfl, idle, .inl rfl, .inl rfl⟩
        · split at taken <;> cases taken
          · exact ⟨rfl, fun side => by cases side <;> rfl, idle, .inl rfl, .inl rfl⟩
          · exact ⟨rfl, fun side => by cases side <;> rfl, idle, .inl (place_bulkStart _ _ _),
              .inl rfl⟩
      · cases taken
  | drop =>
      simp only [RingState.producerStep] at taken
      split at taken <;> cases taken
      rename_i pcEq
      exact ⟨rfl, fun side => by cases side <;> rfl, by rw [place, pcEq]; rfl, .inr rfl, .inr rfl⟩

theorem consumerCall_news {s after : RingState α} {call : ConsumerAction}
    (starts : ∀ index, call ≠ .tick index) (spins : call ≠ .spin) (wakes : call ≠ .spurious)
    (calm : call ≠ .panic) (taken : s.consumerStep cap call = some after) :
    CallNews .consumer s after := by
  cases call with
  | tick index => exact absurd rfl (starts index)
  | spin => exact absurd rfl spins
  | spurious => exact absurd rfl wakes
  | panic => exact absurd rfl calm
  | tryRecv | recv =>
      simp only [RingState.consumerStep] at taken
      split at taken <;> cases taken
      rename_i pcEq
      have idle : place s .consumer = .idle := by rw [place, pcEq]; rfl
      unfold RingState.tryRecvStart
      dsimp only
      split <;> exact ⟨rfl, fun side => by cases side <;> rfl, idle, .inl rfl, .inl rfl⟩
  | drain =>
      simp only [RingState.consumerStep] at taken
      split at taken <;> cases taken
      rename_i pcEq
      have idle : place s .consumer = .idle := by rw [place, pcEq]; rfl
      exact ⟨rfl, fun side => by cases side <;> rfl, idle, .inl rfl, .inl rfl⟩
  | drop =>
      simp only [RingState.consumerStep] at taken
      split at taken <;> cases taken
      rename_i pcEq
      have idle : place s .consumer = .idle := by rw [place, pcEq]; rfl
      exact ⟨rfl, fun side => by cases side <;> rfl, idle, .inr rfl, .inr rfl⟩

/-- A spinning loop that goes on, or a sleep that returns: only the place changes. -/
theorem ringSpins_eq {s after : RingState α} {side : Side}
    (taken : ringSpins cap s side = some after) :
    samePeer s after side ∧ after.shared = s.shared ∧ place s side = .announce ∧
      place after side = .entry := by
  cases side with
  | producer =>
      simp only [ringSpins, RingState.producerStep] at taken
      split at taken <;> cases taken
      rename_i pcEq
      exact ⟨rfl, rfl, by rw [place, pcEq]; rfl, rfl⟩
  | consumer =>
      simp only [ringSpins, RingState.consumerStep] at taken
      split at taken <;> cases taken
      rename_i pcEq
      exact ⟨rfl, rfl, by rw [place, pcEq]; rfl, rfl⟩

theorem ringWoken_eq {s after : RingState α} {side : Side}
    (taken : ringWoken cap s side = some after) :
    samePeer s after side ∧ after.shared = s.shared ∧ place s side = .park ∧
      place after side = .announced := by
  cases side with
  | producer =>
      simp only [ringWoken, RingState.producerStep] at taken
      split at taken <;> cases taken
      rename_i pcEq
      exact ⟨rfl, rfl, by rw [place, pcEq]; rfl, rfl⟩
  | consumer =>
      simp only [ringWoken, RingState.consumerStep] at taken
      split at taken <;> cases taken
      rename_i pcEq
      exact ⟨rfl, rfl, by rw [place, pcEq]; rfl, rfl⟩

theorem ringTick_news {s after : RingState α} {side : Side} {index : Nat}
    (returns : place s side ≠ .unwinding) (taken : ringTick cap s side index = some after) :
    RingNews side s after := by
  cases side with
  | producer => exact producer_news taken
  | consumer => exact consumer_news returns taken

/-! ### Where a thread can stand -/

/-- The side has announced itself and not left. -/
def announcing : ParkPlace → Bool
  | .announced => true
  | .park => true
  | .leave => true
  | _ => false

/-- The side is in `wait_until`. -/
def waiting : ParkPlace → Bool
  | .entry => true
  | .announce => true
  | place => announcing place

/-- Which stages a place can have; none of them is a failed assertion. -/
def fits : ParkStage → ParkPlace → Bool
  | .running, place => !announcing place && decide (place ≠ .unwinding)
  | .setWorker, place => decide (place = .entry)
  | .publishRegistered, place => decide (place = .entry)
  | .slow, place => waiting place
  | .fence, place => decide (place = .announced)
  | .wakeFence, .wake _ => true
  | .wakeRecheck, .wake _ => true
  | .wakeDeliver, .wake _ => true
  | .unpark _, .wake _ => true
  | _, _ => false

/-! ### What an update leaves alone -/

variable {s after : ParkedRing α} {side : Side}

@[simp]
theorem peer_peer (side : Side) : side.peer.peer = side := by
  cases side <;> rfl

theorem peer_ne (side : Side) : side.peer ≠ side := by
  cases side <;> rintro ⟨⟩

theorem eq_or_eq_peer (side other : Side) : other = side ∨ other = side.peer := by
  cases side <;> cases other <;> first | exact .inl rfl | exact .inr rfl

theorem place_of_samePeer {before after : RingState α} (same : samePeer before after side) :
    place after side.peer = place before side.peer := by
  cases side with
  | producer => exact congrArg (fun consumer => consumerPlace consumer.pc) same
  | consumer => exact congrArg (fun producer => producerPlace producer.pc) same

theorem cursor_of_shared {before after : RingState α} (same : after.shared = before.shared)
    (side : Side) : cursor after side = cursor before side := by
  cases side with
  | producer => exact congrArg Ring.head same
  | consumer => exact congrArg Ring.tail same

@[simp]
theorem handles_setHandle (s : ParkedRing α) (side : Side) (handle : ParkedHandle) :
    (s.setHandle side handle).handles side = handle :=
  Function.update_self ..

@[simp]
theorem handles_setHandle_peer (s : ParkedRing α) (side : Side) (handle : ParkedHandle) :
    (s.setHandle side handle).handles side.peer = s.handles side.peer :=
  Function.update_of_ne (peer_ne side) ..

@[simp]
theorem handles_stageAt (s : ParkedRing α) (side : Side) (stage : ParkStage) :
    (s.stageAt side stage).handles side = { s.handles side with stage := stage } :=
  Function.update_self ..

@[simp]
theorem handles_stageAt_peer (s : ParkedRing α) (side : Side) (stage : ParkStage) :
    (s.stageAt side stage).handles side.peer = s.handles side.peer :=
  Function.update_of_ne (peer_ne side) ..

@[simp]
theorem cells_setCell (s : ParkedRing α) (side : Side) (cell : ParkCell) :
    (s.setCell side cell).cells side = cell :=
  Function.update_self ..

@[simp]
theorem cells_setCell_peer (s : ParkedRing α) (side : Side) (cell : ParkCell) :
    (s.setCell side cell).cells side.peer = s.cells side.peer :=
  Function.update_of_ne (peer_ne side) ..

/-! ### The ring in every run is one of the ring's own runs -/

theorem ring_register (s : ParkedRing α) (side : Side) : (s.register side).ring = s.ring := by
  unfold register
  dsimp only
  split <;> rfl

theorem ring_of_wakeDone {index : Nat} (taken : s.wakeDone cap side index = some after) :
    ringTick cap s.ring side index = some after.ring := by
  obtain ⟨ring, ringTaken, rfl⟩ := Option.map_eq_some_iff.mp taken
  exact ringTaken

theorem ring_of_tick {index : Nat} (taken : s.tick cap side index = some after) :
    after.ring = s.ring ∨ ringTick cap s.ring side index = some after.ring ∨
      ringWoken cap s.ring side = some after.ring := by
  unfold tick at taken
  split at taken
  · split at taken <;> cases taken <;> exact .inl rfl
  · split at taken <;> cases taken <;> exact .inl rfl
  · obtain ⟨ring, ringTaken, rfl⟩ := Option.map_eq_some_iff.mp taken
    refine .inr (.inl ?_)
    split
    · rwa [ring_register]
    · exact ringTaken
  · cases taken
    exact .inl rfl
  · cases taken
    exact .inl rfl
  · obtain ⟨ring, ringTaken, rfl⟩ := Option.map_eq_some_iff.mp taken
    exact .inr (.inl ringTaken)
  · cases taken
    exact .inl rfl
  · split at taken
    · obtain ⟨ring, ringTaken, rfl⟩ := Option.map_eq_some_iff.mp taken
      exact .inr (.inr ringTaken)
    · cases taken
  · obtain ⟨ring, ringTaken, rfl⟩ := Option.map_eq_some_iff.mp taken
    exact .inr (.inl ringTaken)
  · split at taken
    · obtain ⟨ring, ringTaken, rfl⟩ := Option.map_eq_some_iff.mp taken
      refine .inr (.inl ?_)
      split <;> exact ringTaken
    · cases taken
  · cases taken
    exact .inl rfl
  · split at taken
    · cases taken
      exact .inl rfl
    · exact .inr (.inl (ring_of_wakeDone taken))
  · split at taken
    · cases taken
      exact .inl rfl
    · exact .inr (.inl (ring_of_wakeDone taken))
  · exact .inr (.inl (ring_of_wakeDone (s := s.setToken _ true) taken))
  · cases taken

theorem ringStep_of_tick {before ring : RingState α} {index : Nat}
    (taken : ringTick cap before side index = some ring) :
    ∃ move, before.step cap move = some ring := by
  cases side with
  | producer => exact ⟨.producer (.tick index), taken⟩
  | consumer => exact ⟨.consumer (.tick index), taken⟩

theorem ringStep_of_woken {before ring : RingState α}
    (taken : ringWoken cap before side = some ring) :
    ∃ move, before.step cap move = some ring := by
  cases side with
  | producer => exact ⟨.producer .spurious, taken⟩
  | consumer => exact ⟨.consumer .spurious, taken⟩

/-- A step is one of the ring's model or none. -/
theorem ring_of_step {action : ParkedAction α} (taken : s.step cap action = some after) :
    after.ring = s.ring ∨ ∃ move, s.ring.step cap move = some after.ring := by
  have ticks {side : Side} {index : Nat} (taken : s.tick cap side index = some after) :
      after.ring = s.ring ∨ ∃ move, s.ring.step cap move = some after.ring := by
    rcases ring_of_tick taken with same | taken | taken
    · exact .inl same
    · exact .inr (ringStep_of_tick taken)
    · exact .inr (ringStep_of_woken taken)
  have goesOn {side : Side} {ring : Option (RingState α)}
      (taken : s.waitGoesOn side ring = some after) : ring = some after.ring := by
    unfold waitGoesOn at taken
    split at taken
    · obtain ⟨ring, ringTaken, rfl⟩ := Option.map_eq_some_iff.mp taken
      exact ringTaken
    · cases taken
  have begins (side : Side) (ring : Option (RingState α))
      (taken : s.begin side ring = some after) : ring = some after.ring := by
    unfold ParkedRing.begin at taken
    split at taken
    · obtain ⟨ring, ringTaken, rfl⟩ := Option.map_eq_some_iff.mp taken
      exact ringTaken
    · cases taken
  cases action with
  | producer call =>
      cases call with
      | tick index => exact ticks taken
      | spin => exact .inr ⟨.producer .spin, goesOn taken⟩
      | spurious => exact .inr ⟨.producer .spurious, goesOn taken⟩
      | trySend | send | trySendBulk | drop =>
          exact .inr ⟨.producer _, begins .producer (s.ring.producerStep cap _) taken⟩
  | consumer call =>
      cases call with
      | tick index => exact ticks taken
      | spin => exact .inr ⟨.consumer .spin, goesOn taken⟩
      | spurious => exact .inr ⟨.consumer .spurious, goesOn taken⟩
      | panic =>
          obtain ⟨ring, ringTaken, rfl⟩ := Option.map_eq_some_iff.mp taken
          exact .inr ⟨.consumer .panic, ringTaken⟩
      | tryRecv | recv | drain | drop =>
          exact .inr ⟨.consumer _, begins .consumer (s.ring.consumerStep cap _) taken⟩
  | move side thread =>
      simp only [ParkedRing.step] at taken
      split at taken <;> cases taken
      exact .inl rfl
  | strayUnpark thread =>
      cases taken
      exact .inl rfl
  | strayPark thread =>
      simp only [ParkedRing.step] at taken
      split at taken <;> cases taken
      exact .inl rfl

/-- The ring of a run over parking waiters is one that the ring's own model reaches. -/
theorem ring_of_reachable (reached : (system cap).Reachable s) :
    (RingState.system cap).Reachable s.ring := by
  refine reached.project ParkedRing.ring ?_ fun before action after _ taken => ring_of_step taken
  rintro s ⟨producerThread, consumerThread, rfl⟩
  rfl

/-! ### What one step of a handle's thread can be -/

/-- The steps of a side's thread inside a call. -/
inductive Ticks (cap : Cap) (s : ParkedRing α) (side : Side) (index : Nat) :
    ParkedRing α → Prop
  -- `wake`: the flag is set at T3a or at T3b
  | heard (target : Side) (at_ : place s.ring side = .wake target)
      (stage : (s.handles side).stage = .running ∨ (s.handles side).stage = .wakeRecheck)
      (parked : (s.cells target).parked = .parked) :
      Ticks cap s side index (s.stageAt side .wakeDeliver)
  | missed (target : Side) (at_ : place s.ring side = .wake target)
      (stage : (s.handles side).stage = .running)
      (unparked : (s.cells target).parked ≠ .parked) :
      Ticks cap s side index (s.stageAt side .wakeFence)
  | fencedWake (target : Side) (at_ : place s.ring side = .wake target)
      (stage : (s.handles side).stage = .wakeFence) :
      Ticks cap s side index (s.stageAt side .wakeRecheck)
  | clones (target : Side) (thread : Nat) (at_ : place s.ring side = .wake target)
      (stage : (s.handles side).stage = .wakeDeliver)
      (worker : (s.cells target).worker = some thread) :
      Ticks cap s side index (s.stageAt side (.unpark thread))
  -- `wake` returns: nobody is announced, nobody has registered, or behind `unpark`
  | quiet (target : Side) (ring : RingState α) (at_ : place s.ring side = .wake target)
      (stage : (s.handles side).stage = .wakeRecheck)
      (unparked : (s.cells target).parked ≠ .parked)
      (taken : ringTick cap s.ring side index = some ring) :
      Ticks cap s side index ((s.setRing ring).stageAt side .running)
  | nobody (target : Side) (ring : RingState α) (at_ : place s.ring side = .wake target)
      (stage : (s.handles side).stage = .wakeDeliver)
      (worker : (s.cells target).worker = none)
      (taken : ringTick cap s.ring side index = some ring) :
      Ticks cap s side index ((s.setRing ring).stageAt side .running)
  | unparks (target : Side) (thread : Nat) (ring : RingState α)
      (at_ : place s.ring side = .wake target)
      (stage : (s.handles side).stage = .unpark thread)
      (taken : ringTick cap s.ring side index = some ring) :
      Ticks cap s side index (((s.setToken thread true).setRing ring).stageAt side .running)
  -- the assertion of `wait_slow`
  | asserted (at_ : place s.ring side = .announce)
      (stage : (s.handles side).stage = .running)
      (registered : (s.cells side).registered = true) :
      Ticks cap s side index (s.stageAt side .slow)
  | failed (at_ : place s.ring side = .announce)
      (stage : (s.handles side).stage = .running)
      (unregistered : (s.cells side).registered = false) :
      Ticks cap s side index (s.stageAt side .panicked)
  | runs (ring : RingState α) (stage : (s.handles side).stage = .running)
      (noWake : ∀ target, place s.ring side ≠ .wake target)
      (noAnnounce : place s.ring side ≠ .announce)
      (taken : ringTick cap s.ring side index = some ring)
      (noEntry : place s.ring side = .call → place ring side ≠ .entry) :
      Ticks cap s side index (s.setRing ring)
  | enters (ring : RingState α) (at_ : place s.ring side = .call)
      (stage : (s.handles side).stage = .running)
      (taken : ringTick cap s.ring side index = some ring) (goes : place ring side = .entry) :
      Ticks cap s side index ((s.setRing ring).register side)
  | setsWorker (stage : (s.handles side).stage = .setWorker) :
      Ticks cap s side index
        ((s.setCell side { s.cells side with worker := some (s.handles side).thread }).stageAt
          side .publishRegistered)
  | registers (stage : (s.handles side).stage = .publishRegistered) :
      Ticks cap s side index
        ((s.setCell side { s.cells side with registered := true }).stageAt side .running)
  | announces (ring : RingState α) (at_ : place s.ring side = .announce)
      (stage : (s.handles side).stage = .slow)
      (taken : ringTick cap s.ring side index = some ring) :
      Ticks cap s side index
        (((s.setRing ring).setCell side { s.cells side with parked := .parked }).stageAt side
          .fence)
  | fenced (stage : (s.handles side).stage = .fence) :
      Ticks cap s side index (s.stageAt side .slow)
  | woken (ring : RingState α) (at_ : place s.ring side = .park)
      (stage : (s.handles side).stage = .slow)
      (token : s.tokens (s.handles side).thread = true)
      (taken : ringWoken cap s.ring side = some ring) :
      Ticks cap s side index ((s.setRing ring).setToken (s.handles side).thread false)
  | leaves (ring : RingState α) (at_ : place s.ring side = .leave)
      (stage : (s.handles side).stage = .slow)
      (taken : ringTick cap s.ring side index = some ring) :
      Ticks cap s side index
        (((s.setRing ring).setCell side { s.cells side with parked := .unparked }).stageAt side
          .running)
  | looks (ring : RingState α) (stage : (s.handles side).stage = .slow)
      (at_ : place s.ring side = .entry ∨ place s.ring side = .announced)
      (fresh : place s.ring side = .announced → fresh s.ring side index = true)
      (taken : ringTick cap s.ring side index = some ring) (stays : place ring side ≠ .call) :
      Ticks cap s side index (s.setRing ring)
  | returns (ring : RingState α) (stage : (s.handles side).stage = .slow)
      (at_ : place s.ring side = .entry)
      (taken : ringTick cap s.ring side index = some ring) (goes : place ring side = .call) :
      Ticks cap s side index ((s.setRing ring).stageAt side .running)

theorem wakeDone_eq_some {index : Nat} (taken : s.wakeDone cap side index = some after) :
    ∃ ring, ringTick cap s.ring side index = some ring ∧
      after = (s.setRing ring).stageAt side .running := by
  obtain ⟨ring, ringTaken, rfl⟩ := Option.map_eq_some_iff.mp taken
  exact ⟨ring, ringTaken, rfl⟩

/-- Inside `wake`. -/
theorem ticks_wake {index : Nat} {target : Side} (at_ : place s.ring side = .wake target)
    (standing : fits (s.handles side).stage (place s.ring side) = true)
    (taken : s.tick cap side index = some after) : Ticks cap s side index after := by
  unfold tick at taken
  rw [at_] at standing
  cases stage : (s.handles side).stage with
  | running =>
      simp only [stage, at_] at taken
      split at taken <;> cases taken
      · exact .heard target at_ (.inl stage) (by assumption)
      · exact .missed target at_ stage (by assumption)
  | wakeFence =>
      simp only [stage, at_, Option.some.injEq] at taken
      subst taken
      exact .fencedWake target at_ stage
  | wakeRecheck =>
      simp only [stage, at_] at taken
      split at taken
      · cases taken
        exact .heard target at_ (.inr stage) (by assumption)
      · obtain ⟨ring, ringTaken, rfl⟩ := wakeDone_eq_some taken
        exact .quiet target ring at_ stage (by assumption) ringTaken
  | wakeDeliver =>
      simp only [stage, at_] at taken
      split at taken
      · cases taken
        exact .clones target _ at_ stage (by assumption)
      · obtain ⟨ring, ringTaken, rfl⟩ := wakeDone_eq_some taken
        exact .nobody target ring at_ stage (by assumption) ringTaken
  | unpark thread =>
      simp only [stage, at_] at taken
      obtain ⟨ring, ringTaken, rfl⟩ := wakeDone_eq_some taken
      exact .unparks target thread ring at_ stage ringTaken
  | setWorker | publishRegistered | slow | fence | panicked =>
      rw [stage] at standing
      cases standing

/-- Inside `wait_slow`. -/
theorem ticks_slow {index : Nat} (stage : (s.handles side).stage = .slow)
    (standing : fits (s.handles side).stage (place s.ring side) = true)
    (taken : s.tick cap side index = some after) : Ticks cap s side index after := by
  unfold tick at taken
  rw [stage] at standing
  cases at_ : place s.ring side with
  | announce =>
      simp only [stage, at_] at taken
      obtain ⟨ring, ringTaken, rfl⟩ := Option.map_eq_some_iff.mp taken
      exact .announces ring at_ stage ringTaken
  | park =>
      simp only [stage, at_] at taken
      split at taken
      · obtain ⟨ring, ringTaken, rfl⟩ := Option.map_eq_some_iff.mp taken
        exact .woken ring at_ stage (by assumption) ringTaken
      · cases taken
  | leave =>
      simp only [stage, at_] at taken
      obtain ⟨ring, ringTaken, rfl⟩ := Option.map_eq_some_iff.mp taken
      exact .leaves ring at_ stage ringTaken
  | entry =>
      simp only [stage, at_, reduceCtorEq, false_implies, if_true] at taken
      obtain ⟨ring, ringTaken, rfl⟩ := Option.map_eq_some_iff.mp taken
      split
      · exact .returns ring stage at_ ringTaken (by assumption)
      · exact .looks ring stage (.inl at_) (by rw [at_]; rintro ⟨⟩) ringTaken (by assumption)
  | announced =>
      simp only [stage, at_, true_implies] at taken
      split at taken
      · rename_i loaded
        obtain ⟨ring, ringTaken, rfl⟩ := Option.map_eq_some_iff.mp taken
        have leads := (ringTick_news (by rw [at_]; rintro ⟨⟩) ringTaken).places
        rw [at_, leadsTo, decide_eq_true_eq] at leads
        have noCall : place ring side ≠ .call := by
          intro goes
          rw [goes] at leads
          rcases leads with same | same | same <;> cases same
        rw [if_neg noCall]
        exact .looks ring stage (.inr at_) (fun _ => loaded) ringTaken noCall
      · cases taken
  | idle | call | wake | unwinding =>
      rw [at_] at standing
      cases standing

/-- In the ring's own code, or at the first step of `wait_until`. -/
theorem ticks_running {index : Nat} (stage : (s.handles side).stage = .running)
    (noWake : ∀ target, place s.ring side ≠ .wake target)
    (taken : s.tick cap side index = some after) : Ticks cap s side index after := by
  unfold tick at taken
  cases at_ : place s.ring side with
  | wake target => exact absurd at_ (noWake target)
  | announce =>
      simp only [stage, at_] at taken
      split at taken <;> cases taken
      · exact .asserted at_ stage (by assumption)
      · exact .failed at_ stage (Bool.eq_false_iff.mpr (by assumption))
  | call =>
      simp only [stage, at_, true_and] at taken
      obtain ⟨ring, ringTaken, rfl⟩ := Option.map_eq_some_iff.mp taken
      split
      · exact .enters ring at_ stage ringTaken (by assumption)
      · exact .runs ring stage noWake (by rw [at_]; rintro ⟨⟩) ringTaken fun _ => by assumption
  | idle | entry | announced | park | leave | unwinding =>
      simp only [stage, at_, reduceCtorEq, false_and, if_false] at taken
      obtain ⟨ring, ringTaken, rfl⟩ := Option.map_eq_some_iff.mp taken
      refine .runs ring stage noWake (by rw [at_]; rintro ⟨⟩) ringTaken ?_
      rw [at_]
      rintro ⟨⟩

/-- Every step of a side's thread is one of these. -/
theorem tick_ticks {index : Nat}
    (standing : fits (s.handles side).stage (place s.ring side) = true)
    (taken : s.tick cap side index = some after) : Ticks cap s side index after := by
  by_cases wakes : ∃ target, place s.ring side = .wake target
  · obtain ⟨target, at_⟩ := wakes
    exact ticks_wake at_ standing taken
  have noWake : ∀ target, place s.ring side ≠ .wake target := fun target same =>
    wakes ⟨target, same⟩
  cases stage : (s.handles side).stage with
  | running => exact ticks_running stage noWake taken
  | setWorker =>
      unfold tick at taken
      simp only [stage, Option.some.injEq] at taken
      subst taken
      exact .setsWorker stage
  | publishRegistered =>
      unfold tick at taken
      simp only [stage, Option.some.injEq] at taken
      subst taken
      exact .registers stage
  | slow => exact ticks_slow stage standing taken
  | fence =>
      unfold tick at taken
      simp only [stage, Option.some.injEq] at taken
      subst taken
      exact .fenced stage
  | wakeFence | wakeRecheck | wakeDeliver | unpark | panicked =>
      rw [stage] at standing
      cases at_ : place s.ring side with
      | wake target => exact absurd at_ (noWake target)
      | _ =>
          rw [at_] at standing
          cases standing

end ParkedRing

end ArbitroKit
