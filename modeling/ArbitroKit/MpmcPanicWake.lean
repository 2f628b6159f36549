import ArbitroKit.MpmcParked

/-!
# The wake a panicking batch receive of a shard skips

`drain_all` stores a ring's tail in a guard and wakes the ring's producer in ordinary
code behind it.  A producer that scans its rings behind its announcement and has
passed the ring, or sleeps, relies on that wake.  Where the guard stores no tail under
such a producer, nobody is left parked, nested receives and panics included.
-/

namespace ArbitroKit

open SlotLane Cyclic Transition

namespace MpmcState

variable {α : Type*} {size : MpmcSize} {s after : MpmcState α} {p shard : Nat}

/-- The producer has announced itself and has not left the wait. -/
def announcing : MpmcProducerPc α → Bool
  | .waitIdle .announced _ _ => true
  | .waitShutdown .announced _ => true
  | .waitLive .announced _ => true
  | .waitPark _ => true
  | _ => false

/-- The producer has found its ring of the shard full behind its announcement and has
not looked at it again. -/
def restsOnFull (shard : Nat) : MpmcProducerPc α → Bool
  | .waitIdle .announced _ here => decide (shard < here)
  | .waitShutdown .announced _ => true
  | .waitLive .announced _ => true
  | .waitPark _ => true
  | _ => false

/-- Some party is on its way to waking producer `p`. -/
def OnWay (size : MpmcSize) (s : MpmcState α) (p : Nat) : Prop :=
  (∃ shard < size.n, taking p (s.consumers shard) = true) ∨
    (∃ shard < size.n, lastDropping p (s.consumers shard) = true) ∨
      ∃ k, signallingProducer p (s.signallers k) = true

/-- The producer sleeps while one of its rings has room, with no wake pending or in
progress. -/
structure LeftParked (size : MpmcSize) (s : MpmcState α) (p : Nat) : Prop
    extends ProducerAsleep s p where
  room : ∃ shard < size.n, s.full size shard p = false
  nobody : ¬ OnWay size s p

/-- When the guard of a panicking callback stores a ring's tail, the ring's producer does
not rest on it, or its wake is pending, or somebody is on the way to it. -/
def SparesSleeper (size : MpmcSize) (s : MpmcState α) : MpmcAction α → Prop
  | .consumer shard .tick =>
      match s.consumers shard with
      | .running (.drainUnwind p _ :: _) => restsOnFull shard (s.producers p).pc = true →
          (s.producerWaiters p).token = true ∨ OnWay size s p
      | _ => True
  | _ => True

/-- The runs whose steps all meet that condition. -/
def sparingSleepers (size : MpmcSize) : System (MpmcState α) (MpmcAction α) :=
  (system size).guarded (SparesSleeper size)

/-! ### What a producer rests on -/

/-- What producer `p` relies on at each point of its announced predicate. -/
structure RoomOk (size : MpmcSize) (s : MpmcState α) (p : Nat) : Prop where
  announced : announcing (s.producers p).pc = true → (s.producerWaiters p).announced = true
  covers : ∀ shard < size.n, restsOnFull shard (s.producers p).pc = true →
    (s.producerWaiters p).Covers (s.full size shard p = true) (OnWay size s p)

theorem announcing_of_rests {pc : MpmcProducerPc α} (rests : restsOnFull shard pc = true) :
    announcing pc = true := by
  cases pc with
  | waitIdle phase value here | waitShutdown phase value | waitLive phase value =>
      cases phase <;> [cases rests; rfl]
  | waitPark value => rfl
  | _ => cases rests

/-- Outside its announced predicate a producer relies on nothing. -/
theorem roomOk_away (away : announcing (s.producers p).pc = false) : RoomOk size s p where
  announced inside := by
    rw [away] at inside
    cases inside
  covers shard _ rests := by
    rw [announcing_of_rests rests] at away
    cases away

/-- The call goes to a place outside the announced predicate. -/
theorem roomOk_at {moved : MpmcState α} {producer : MpmcProducer α}
    (away : announcing producer.pc = false) : RoomOk size (moved.setProducer p producer) p :=
  roomOk_away (by simpa [setProducer] using away)

theorem announcing_sendRejected (call : MpmcSendCall) (value : α) :
    announcing (sendRejected call value) = false := by
  cases call <;> rfl

theorem announcing_sendWaited_ready (phase : WaitPhase) (value : α) :
    announcing (sendWaited phase true value) = false := by
  cases phase <;> rfl

/-- The call goes on inside the announced predicate, its waiter and the rings as they
were: what it newly rests on is full. -/
theorem RoomOk.goesOn (ok : RoomOk size s p) {pc : MpmcProducerPc α}
    (inside : announcing (s.producers p).pc = true)
    (looked : ∀ shard < size.n, restsOnFull shard pc = true →
      restsOnFull shard (s.producers p).pc = true ∨ s.full size shard p = true) :
    RoomOk size (s.producerAt p pc) p where
  announced _ := ok.announced inside
  covers shard bound rests := by
    rw [producers_producerAt] at rests
    rcases looked shard bound rests with before | full
    · exact ok.covers shard bound before
    · exact .inl full

/-- The predicate starts from its head behind the announcement. -/
theorem roomOk_starts {moved : MpmcState α} (value : α)
    (announced : (moved.producerWaiters p).announced = true) :
    RoomOk size (moved.producerAt p (.waitIdle .announced value 0)) p where
  announced _ := announced
  covers shard _ rests := by
    rw [producers_producerAt] at rests
    cases rests

theorem RoomOk.producerTick (ok : RoomOk size s p)
    (taken : s.producerTick size p = some after) : RoomOk size after p := by
  unfold MpmcState.producerTick at taken
  cases pcEq : (s.producers p).pc with
  | idle | gone => simp [pcEq] at taken
  | loadShutdown call value | loadLive call value =>
      simp only [pcEq] at taken
      split at taken <;> cases taken
      · exact roomOk_at (announcing_sendRejected call value)
      · exact roomOk_at rfl
  | scan call value start k =>
      simp only [pcEq] at taken
      split at taken
      · split at taken <;> cases taken
        · exact roomOk_at rfl
        · exact roomOk_at (announcing_sendRejected call value)
      · cases taken
        exact roomOk_at rfl
  | batchScan items start k =>
      simp only [pcEq] at taken
      split at taken
      · split at taken <;> cases taken <;> exact roomOk_at rfl
      · cases taken
        exact roomOk_at rfl
  | batchWrite items shard head left written =>
      simp only [pcEq] at taken
      split at taken
      · cases taken
      · split at taken <;> cases taken <;> exact roomOk_at rfl
  | sendShutdown value | sendLive value | fetchSub | wakeLast shard =>
      simp only [pcEq] at taken
      split at taken <;> cases taken <;> exact roomOk_at rfl
  | waitIdle phase value here =>
      simp only [pcEq] at taken
      split at taken
      · rename_i full
        cases phase with
        | entry => split at taken <;> cases taken <;> exact roomOk_at rfl
        | announced =>
            have inside : announcing (s.producers p).pc = true := by rw [pcEq]; rfl
            have looked (shard : Nat) (upto : shard < here + 1) :
                restsOnFull shard (s.producers p).pc = true ∨ s.full size shard p = true := by
              rcases Nat.lt_succ_iff_lt_or_eq.mp upto with before | rfl
              · rw [pcEq]
                exact .inl (decide_eq_true before)
              · exact .inr full
            split at taken <;> cases taken
            · exact ok.goesOn inside fun shard _ rests => looked shard (of_decide_eq_true rests)
            · exact ok.goesOn inside fun shard bound _ => looked shard (by omega)
      · cases taken
        exact roomOk_at (announcing_sendWaited_ready phase value)
  | waitShutdown phase value =>
      simp only [pcEq] at taken
      split at taken <;> cases taken
      · exact roomOk_at (announcing_sendWaited_ready phase value)
      · cases phase with
        | entry => exact roomOk_at rfl
        | announced =>
            exact ok.goesOn (by rw [pcEq]; rfl) fun _ _ _ => .inl (by rw [pcEq]; rfl)
  | waitLive phase value =>
      simp only [pcEq, Option.some.injEq] at taken
      subst taken
      by_cases none : s.liveConsumers = 0
      · rw [decide_eq_true none]
        exact roomOk_at (announcing_sendWaited_ready phase value)
      · rw [decide_eq_false none]
        cases phase with
        | entry => exact roomOk_at rfl
        | announced =>
            exact ok.goesOn (by rw [pcEq]; rfl) fun _ _ _ => .inl (by rw [pcEq]; rfl)
  | waitAnnounce value =>
      simp only [pcEq, Option.some.injEq] at taken
      subst taken
      refine roomOk_starts value ?_
      rw [producerWaiters_setProducerWaiter]
      rfl
  | waitPark value =>
      simp only [pcEq] at taken
      split at taken <;> cases taken
      refine roomOk_starts value ?_
      rw [producerWaiters_setProducerWaiter]
      exact ok.announced (by rw [pcEq]; rfl)
  | _ =>
      simp only [pcEq, Option.some.injEq] at taken
      subst taken
      exact roomOk_at rfl

theorem RoomOk.producerStep (ok : RoomOk size s p) {action : MpmcProducerAction α}
    (taken : s.producerStep size p action = some after) : RoomOk size after p := by
  cases action with
  | tick => exact ok.producerTick taken
  | trySendBatch items =>
      simp only [MpmcState.producerStep] at taken
      split at taken
      · split at taken <;> cases taken <;> exact roomOk_at rfl
      · cases taken
  | spurious =>
      simp only [MpmcState.producerStep] at taken
      split at taken
      · rename_i value pcEq
        cases taken
        exact roomOk_starts value (ok.announced (by rw [pcEq]; rfl))
      · cases taken
  | trySend value | send value | drop | spin =>
      simp only [MpmcState.producerStep] at taken
      split at taken <;> cases taken
      exact roomOk_at rfl

/-! ### The steps of the others -/

/-- A party on its way stays there until the wake. -/
theorem ProducerHears.onWay (hears : ProducerHears size p s after) (onWay : OnWay size s p) :
    OnWay size after p ∨ after.producerWaiters p = (s.producerWaiters p).wake := by
  rcases onWay with ⟨here, bound, takes⟩ | leaving | signalling
  · exact (hears.took here takes).imp_left fun takes => .inl ⟨here, bound, takes⟩
  · exact (hears.live.comes leaving).imp_left fun leaving => .inr (.inl leaving)
  · exact (hears.shutdown.comes signalling).imp_left fun signalling => .inr (.inr signalling)

theorem RoomOk.stable (ok : RoomOk size s p) (hears : ProducerHears size p s after) :
    RoomOk size after p := by
  refine ⟨fun inside => ?_, fun here bound rests => ?_⟩
  · rw [hears.producer] at inside
    exact hears.kept.announced.trans (ok.announced inside)
  · rw [hears.producer] at rests
    have announced := ok.announced (announcing_of_rests rests)
    refine (ok.covers here bound rests).carried announced hears.kept ⟨fun full => ?_, hears.onWay⟩
    rcases hears.tails here with same | takes
    · exact .inl (by rw [MpmcState.full, hears.heads here, same]; exact full)
    · exact .inr (.inl ⟨here, bound, takes⟩)

/-- The guard stores the tail of the ring its callback panicked in; every other producer
sees nothing of it. -/
theorem RoomOk.unwinds (ok : RoomOk size s p) {q : Nat} {tail : Usize}
    {rest : List (MpmcFrame α)} (pcEq : s.consumers shard = .running (.drainUnwind q tail :: rest))
    (spares : SparesSleeper size s (.consumer shard .tick)) :
    RoomOk size ((s.setRing shard q ((s.rings shard q).storeTail tail)).consumerAt shard
      (.running (.returned .panicked :: rest))) p := by
  have onWay (before : OnWay size s p) : OnWay size
      ((s.setRing shard q ((s.rings shard q).storeTail tail)).consumerAt shard
        (.running (.returned .panicked :: rest))) p := by
    have elsewhere (here : Nat) (off : here ≠ shard) :
        ((s.setRing shard q ((s.rings shard q).storeTail tail)).consumerAt shard
          (.running (.returned .panicked :: rest))).consumers here = s.consumers here :=
      Function.update_of_ne off ..
    rcases before with ⟨here, bound, takes⟩ | ⟨here, bound, leaves⟩ | signalling
    · refine .inl ⟨here, bound, ?_⟩
      rw [elsewhere here fun same => by rw [same, pcEq] at takes; cases takes]
      exact takes
    · refine .inr (.inl ⟨here, bound, ?_⟩)
      rw [elsewhere here fun same => by rw [same, pcEq] at leaves; cases leaves]
      exact leaves
    · exact .inr (.inr signalling)
  refine ⟨ok.announced, fun here bound rests => ?_⟩
  by_cases same : here = shard ∧ p = q
  · obtain ⟨rfl, rfl⟩ := same
    simp only [SparesSleeper, pcEq] at spares
    exact .inr ((spares rests).imp_right onWay)
  · have ring := rings_setRing_of_ne s ((s.rings shard q).storeTail tail)
      (Decidable.not_and_iff_or_not.mp same)
    refine (ok.covers here bound rests).imp (fun full => ?_) (Or.imp_right onWay)
    rw [MpmcState.full] at full ⊢
    exact (congrArg (fun ring => RingState.isFull size.ringCap ring.head ring.tail) ring).trans full

theorem RoomOk.consumerStep (ok : RoomOk size s p) (bound : p < size.m) (inside : shard < size.n)
    {action : MpmcConsumerAction} (spares : SparesSleeper size s (.consumer shard action))
    (taken : s.consumerStep size shard action = some after) : RoomOk size after p := by
  by_cases returns : ∀ frame rest, s.consumers shard = .running (frame :: rest) →
      unwinding frame = false
  · exact ok.stable (producerHears_consumer bound inside returns taken)
  · push Not at returns
    obtain ⟨frame, rest, pcEq, unwinds⟩ := returns
    cases frame with
    | drainUnwind q tail =>
        cases action with
        | tick =>
            simp only [MpmcState.consumerStep, consumerTick, pcEq, frameTick,
              Option.some.injEq] at taken
            subst taken
            exact ok.unwinds pcEq spares
        | _ => simp [MpmcState.consumerStep, call, pcEq, mayCall] at taken
    | _ => exact absurd rfl unwinds

theorem roomOk (reached : (sparingSleepers size).Reachable s) :
    ∀ p < size.m, RoomOk size s p := by
  refine reached.invariant (fun s => ∀ p < size.m, RoomOk size s p) ?base ?preserved
  case base =>
    rintro _ rfl p -
    exact roomOk_away rfl
  case preserved =>
    rintro before action after - ok ⟨spares, taken⟩ p bound
    cases action with
    | producer q action =>
        obtain ⟨-, taken⟩ := producer_of_step taken
        by_cases same : p = q
        · subst same
          exact (ok p bound).producerStep taken
        · exact (ok p bound).stable (producerHears_producer same taken)
    | consumer shard action =>
        obtain ⟨inside, taken⟩ := consumer_of_step taken
        exact (ok p bound).consumerStep bound inside spares taken
    | signaller k action => exact (ok p bound).stable (producerHears_signaller bound taken)

/-- Unless a guard has stored a tail under a resting producer, nobody is left parked. -/
theorem not_leftParked (reached : (sparingSleepers size).Reachable s) (bound : p < size.m) :
    ¬ LeftParked size s p := by
  rintro ⟨⟨⟨value, pcEq⟩, noWake⟩, ⟨shard, inside, room⟩, nobody⟩
  have covers := (roomOk reached p bound).covers shard inside (by rw [pcEq]; rfl)
  exact nobody (covers.of_cause noWake (by simp [room]))

/-! ### What the unwind leaves -/

/-- A producer that sleeps when the guard stores the tail of its ring, with no wake
pending and nobody on the way, is left parked. -/
theorem leftParked_of_unwinds (reached : (apart size).Reachable s) {tail : Usize}
    {rest : List (MpmcFrame α)} (pcEq : s.consumers shard = .running (.drainUnwind p tail :: rest))
    (taken : s.step size (.consumer shard .tick) = some after) (asleep : ProducerAsleep after p)
    (nobody : ¬ OnWay size after p) : LeftParked size after p := by
  obtain ⟨inside, taken⟩ := consumer_of_step taken
  obtain ⟨rings, -, consumers⟩ := invariant reached
  have ok := consumers shard
  rw [ConsumerOk, pcEq] at ok
  obtain ⟨tailEq, given⟩ := ok.each _ List.mem_cons_self p rfl
  simp only [consumerStep, consumerTick, pcEq, frameTick, Option.some.injEq] at taken
  subst taken
  refine { asleep with room := ⟨shard, inside, ?_⟩, nobody := nobody }
  have ring := rings_setRing s shard p ((s.rings shard p).storeTail tail)
  refine (congrArg (fun ring => RingState.isFull size.ringCap ring.head ring.tail) ring).trans ?_
  obtain ⟨ordered, bounded, small⟩ := (rings shard p).near
  have received_le := (rings shard p).sound.received_le
  simp only [RingState.isFull, PRing.storeTail, (rings shard p).head, tailEq,
    decide_eq_false_iff_not, not_le]
  rw [toNat_sub_ofNat received_le (by omega)]
  omega

end MpmcState

end ArbitroKit
