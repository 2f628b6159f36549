import ArbitroKit.RingDisconnect

/-!
# The producer's side of a disconnect

A send judges fullness by the `tail` it has loaded and only then looks at
`closed`, without loading `tail` again.  A receive that commits between the two,
followed by the consumer's drop, makes it say `Closed` about a ring with room.
When nothing is received in between, `Closed` is exact and the last word.
-/

namespace ArbitroKit

open Coherent Transition

namespace RingState

variable {α : Type*} {cap : Cap} {s after : RingState α}

/-- What a send tells its caller is that the ring is full and closed for good. -/
def toldClosed : ProducerPc α → Bool
  | .returned (.trySend (.error (.closed _))) _ => true
  | .returned (.send (.error _)) _ => true
  | _ => false

/-- The step is not a send that finds `closed` set after `tail` has moved on from
the value its refresh was given. -/
def closesOnNewestTail (s : RingState α) : RingAction α → Bool
  | .producer (.tick _) =>
      match s.producer.pc with
      | .sendClosed _ _ => !s.shared.closed || s.producer.tailView == s.shared.tail.latest
      | _ => true
  | _ => true

/-- The runs in which no receive commits between the refresh of a send and its look
at a set `closed`. -/
def closingOnNewestTail (cap : Cap) : System (RingState α) (RingAction α) :=
  (system cap).guarded fun s action => s.closesOnNewestTail action = true

/-! ### What the other handle may do -/

/-- All a refused send sees of a consumer step: `tail` may have been stored. -/
structure TailMoves (before after : RingState α) : Prop where
  producer : after.producer = before.producer
  head : after.shared.head = before.shared.head
  tail : after.shared.tail = before.shared.tail ∨
    ∃ next, after.shared.tail = before.shared.tail.store next

theorem TailMoves.tryRecvStart (s : RingState α) (call : RecvCall) :
    TailMoves s (s.tryRecvStart call) := by
  unfold RingState.tryRecvStart
  dsimp only
  split <;> exact ⟨rfl, rfl, .inl rfl⟩

theorem tailMoves_of_consumerTick {index : Nat}
    (taken : s.consumerTick cap index = some after) : TailMoves s after := by
  unfold consumerTick at taken
  cases pcEq : s.consumer.pc with
  | idle | gone | undefined => simp [pcEq] at taken
  | recvRefresh call tail | drainLoad start | recvRecheck call tail =>
      simp only [pcEq] at taken
      obtain ⟨⟨head, loadedState⟩, loaded, rfl⟩ := Option.map_eq_some_iff.mp taken
      obtain ⟨-, rfl⟩ := loadHead_eq_some loaded
      dsimp only
      split <;> exact ⟨rfl, rfl, .inl rfl⟩
  | waitHead phase =>
      simp only [pcEq] at taken
      obtain ⟨⟨head, loadedState⟩, loaded, rfl⟩ := Option.map_eq_some_iff.mp taken
      obtain ⟨-, rfl⟩ := loadHead_eq_some loaded
      exact ⟨rfl, rfl, .inl rfl⟩
  | recvClosed call tail | drainCallback start head tail value | waitTail phase head
  | waitPark =>
      simp only [pcEq] at taken
      split at taken <;> cases taken <;> exact ⟨rfl, rfl, .inl rfl⟩
  | recvRead call tail | drainRead start head tail =>
      simp only [pcEq, Option.some.injEq] at taken
      subst taken
      unfold readSlot
      dsimp only
      split <;> exact ⟨rfl, rfl, .inl rfl⟩
  | recvRetry =>
      simp only [pcEq, Option.some.injEq] at taken
      subst taken
      exact .tryRecvStart s .recv
  | recvRelease call tail value | drainCommit start head tail | drainUnwind start tail =>
      simp only [pcEq, Option.some.injEq] at taken
      subst taken
      exact ⟨rfl, rfl, .inr ⟨_, rfl⟩⟩
  | _ =>
      simp only [pcEq, Option.some.injEq] at taken
      subst taken
      exact ⟨rfl, rfl, .inl rfl⟩

theorem tailMoves_of_consumerStep {action : ConsumerAction}
    (taken : s.consumerStep cap action = some after) : TailMoves s after := by
  cases action with
  | tick index => exact tailMoves_of_consumerTick taken
  | tryRecv | recv =>
      simp only [consumerStep] at taken
      split at taken <;> cases taken
      exact .tryRecvStart s _
  | _ =>
      simp only [consumerStep] at taken
      split at taken <;> cases taken
      exact ⟨rfl, rfl, .inl rfl⟩

/-! ### A ring that is full for good -/

/-- Where the producer can be once it has been told that the ring is closed. -/
def Refusing (head : Usize) : ProducerPc α → Prop
  | .idle => True
  | .sendRefresh _ _ loaded => loaded = head
  | .sendClosed _ _ => True
  | .bulkRefresh _ loaded => loaded = head
  | .returned (.trySendBulk taken _) _ => taken = 0
  | pc => toldClosed pc = true ∨ producerDropped pc = true

/-- The consumer is gone, the ring is full, and the producer knows both cursors. -/
structure Frozen (cap : Cap) (s : RingState α) : Prop where
  dropped : halfDropped s.consumer.pc = true
  closed : s.shared.closed = true
  newest : s.producer.tailView = s.shared.tail.latest
  cached : s.producer.cachedTail = s.shared.tail.current
  full : isFull cap s.shared.head.current s.shared.tail.current = true
  refusing : Refusing s.shared.head.current s.producer.pc

theorem Frozen.consumer_step {action : ConsumerAction} (frozen : Frozen cap s)
    (taken : s.consumerStep cap action = some after) : Frozen cap after := by
  obtain ⟨dropped, head, tail, producer⟩ := halfDropped_step frozen.dropped taken
  constructor
  · exact dropped
  · exact closed_of_consumerStep taken frozen.closed
  · rw [producer, tail]
    exact frozen.newest
  · rw [producer, tail]
    exact frozen.cached
  · rw [head, tail]
    exact frozen.full
  · rw [producer, head]
    exact frozen.refusing

/-- A producer step that leaves the cursors and `closed` as they are. -/
theorem Frozen.goto (frozen : Frozen cap s) {pc : ProducerPc α}
    (refusing : Refusing s.shared.head.current pc) : Frozen cap (s.producerAt pc) :=
  { frozen with refusing := refusing }

theorem Frozen.trySendStart (frozen : Frozen cap s) (call : SendCall) (value : α) :
    Frozen cap (s.trySendStart cap call value) := by
  have full := frozen.full
  rw [← frozen.cached] at full
  unfold RingState.trySendStart
  dsimp only
  rw [if_pos full]
  exact frozen.goto rfl

/-- Loading `tail` gives the value it has for good. -/
theorem Frozen.loadTail (frozen : Frozen cap s) {index : Nat} {tail : Usize}
    {loaded : RingState α} (read : s.loadTail index = some (tail, loaded)) :
    tail = s.shared.tail.current ∧ Frozen cap (loaded.setCachedTail tail) ∧
      loaded.shared = s.shared := by
  obtain ⟨present, rfl⟩ := loadTail_eq_some read
  have latest := present
  rw [frozen.newest] at latest
  obtain rfl := Location.load_from_latest latest
  have at_latest : index = s.shared.tail.latest := Location.index_of_load_latest latest
  refine ⟨rfl, ?_, rfl⟩
  exact { frozen with newest := at_latest, cached := rfl }

theorem isFull_bulkStart {items : List α} {head tail : Usize}
    (full : isFull cap head tail = true) :
    bulkStart cap items head tail = .returned (.trySendBulk 0 items) [] := by
  unfold isFull at full
  unfold bulkStart
  have used := of_decide_eq_true full
  dsimp only
  rw [if_pos]
  omega

theorem Frozen.producer_tick {index : Nat} (frozen : Frozen cap s)
    (taken : s.producerTick cap index = some after) : Frozen cap after := by
  have refusing := frozen.refusing
  unfold producerTick at taken
  cases pcEq : s.producer.pc with
  | idle | gone => simp [pcEq] at taken
  | sendRefresh call value head =>
      rw [pcEq] at refusing
      obtain rfl : head = s.shared.head.current := refusing
      simp only [pcEq] at taken
      obtain ⟨⟨tail, loadedState⟩, loaded, rfl⟩ := Option.map_eq_some_iff.mp taken
      obtain ⟨rfl, frozen', -⟩ := frozen.loadTail loaded
      dsimp only
      rw [if_pos frozen.full]
      exact frozen'.goto trivial
  | sendClosed call value =>
      simp only [pcEq, Option.some.injEq] at taken
      subst taken
      rw [frozen.closed]
      apply frozen.goto
      cases call <;> exact .inl rfl
  | bulkRefresh items head =>
      rw [pcEq] at refusing
      obtain rfl : head = s.shared.head.current := refusing
      simp only [pcEq] at taken
      obtain ⟨⟨tail, loadedState⟩, loaded, rfl⟩ := Option.map_eq_some_iff.mp taken
      obtain ⟨rfl, frozen', -⟩ := frozen.loadTail loaded
      dsimp only
      rw [isFull_bulkStart frozen.full]
      exact frozen'.goto rfl
  | dropWakeFull =>
      simp only [pcEq, Option.some.injEq] at taken
      subst taken
      exact { frozen with refusing := .inr rfl }
  | dropWakeEmpty =>
      simp only [pcEq, Option.some.injEq] at taken
      subst taken
      exact { frozen with refusing := .inr rfl }
  | returned outcome accepted =>
      simp only [pcEq, Option.some.injEq] at taken
      subst taken
      exact { frozen with refusing := trivial }
  | _ =>
      rw [pcEq] at refusing
      simp [Refusing, toldClosed, producerDropped] at refusing

theorem Frozen.producer_step {action : ProducerAction α} (frozen : Frozen cap s)
    (taken : s.producerStep cap action = some after) : Frozen cap after := by
  have refusing := frozen.refusing
  cases action with
  | tick index => exact frozen.producer_tick taken
  | trySend value | send value =>
      simp only [producerStep] at taken
      split at taken <;> cases taken
      exact frozen.trySendStart _ value
  | trySendBulk items =>
      have full := frozen.full
      rw [← frozen.cached] at full
      simp only [producerStep] at taken
      split at taken
      · rw [if_pos full] at taken
        split at taken <;> cases taken <;> exact frozen.goto rfl
      · cases taken
  | drop =>
      simp only [producerStep] at taken
      split at taken <;> cases taken
      exact { frozen with closed := rfl, refusing := .inr rfl }
  | spin | spurious =>
      simp only [producerStep] at taken
      split at taken
      · rename_i pcEq
        rw [pcEq] at refusing
        simp [Refusing, toldClosed, producerDropped] at refusing
      · cases taken

theorem Frozen.step {action : RingAction α} (frozen : Frozen cap s)
    (taken : s.step cap action = some after) : Frozen cap after := by
  cases action with
  | producer action => exact frozen.producer_step taken
  | consumer action => exact frozen.consumer_step taken

/-! ### How a send comes to be refused -/

/-- What a refused send knows of the cursors on its way. -/
structure Refusal (cap : Cap) (s : RingState α) : Prop where
  refresh : ∀ call value head, s.producer.pc = .sendRefresh call value head →
    head = s.shared.head.current
  refused : ∀ call value, s.producer.pc = .sendClosed call value →
    s.shared.tail.history[s.producer.tailView]? = some s.producer.cachedTail ∧
      isFull cap s.shared.head.current s.producer.cachedTail = true
  closedBy : s.shared.closed = true →
    producerDropped s.producer.pc = true ∨ halfDropped s.consumer.pc = true
  told : toldClosed s.producer.pc = true → Frozen cap s

/-- Where a refused send is, or the producer has been told. -/
def refusedAt : ProducerPc α → Bool
  | .sendRefresh _ _ _ => true
  | .sendClosed _ _ => true
  | pc => toldClosed pc

theorem refusedAt_of_toldClosed {pc : ProducerPc α} (told : toldClosed pc = true) :
    refusedAt pc = true := by
  unfold refusedAt
  split
  · rfl
  · rfl
  · exact told

/-- The steps of a send that is refused. -/
inductive Refuses (cap : Cap) (s : RingState α) : ProducerAction α → RingState α → Prop
  | started (call : SendCall) (value : α) (action : ProducerAction α) :
      Refuses cap s action
        (s.producerAt (.sendRefresh call value s.shared.head.current))
  | refreshed (call : SendCall) (value : α) (head tail : Usize) (index : Nat)
      (here : s.producer.pc = .sendRefresh call value head)
      (read : s.shared.tail.load s.producer.tailView index = some tail)
      (full : isFull cap head tail = true) :
      Refuses cap s (.tick index)
        { s with producer :=
          { s.producer with tailView := index, cachedTail := tail, pc := .sendClosed call value } }
  | judged (call : SendCall) (value : α) (index : Nat)
      (here : s.producer.pc = .sendClosed call value) :
      Refuses cap s (.tick index) (s.producerAt (sendRejected call value s.shared.closed))

theorem refuses_of_trySendStart (s : RingState α) (call : SendCall) (value : α)
    (action : ProducerAction α) :
    refusedAt (s.trySendStart cap call value).producer.pc = false ∨
      Refuses cap s action (s.trySendStart cap call value) := by
  unfold RingState.trySendStart
  dsimp only
  split
  · exact .inr (.started call value action)
  · exact .inl rfl

theorem refusedAt_bulkStart (items : List α) (head tail : Usize) :
    refusedAt (bulkStart cap items head tail) = false := by
  unfold bulkStart
  dsimp only
  split <;> rfl

theorem refuses_of_producerTick {index : Nat}
    (taken : s.producerTick cap index = some after) :
    refusedAt after.producer.pc = false ∨ Refuses cap s (.tick index) after := by
  unfold producerTick at taken
  cases pcEq : s.producer.pc with
  | idle | gone => simp [pcEq] at taken
  | sendRefresh call value head =>
      simp only [pcEq] at taken
      obtain ⟨⟨tail, loadedState⟩, loaded, rfl⟩ := Option.map_eq_some_iff.mp taken
      obtain ⟨read, rfl⟩ := loadTail_eq_some loaded
      dsimp only
      split
      · rename_i full
        exact .inr (.refreshed call value head tail index pcEq read full)
      · exact .inl rfl
  | sendClosed call value =>
      simp only [pcEq, Option.some.injEq] at taken
      subst taken
      exact .inr (.judged call value index pcEq)
  | bulkRefresh items head =>
      simp only [pcEq] at taken
      obtain ⟨⟨tail, loadedState⟩, loaded, rfl⟩ := Option.map_eq_some_iff.mp taken
      exact .inl (refusedAt_bulkStart items head tail)
  | bulkWrite items head left written =>
      simp only [pcEq] at taken
      split at taken
      · cases taken
      · split at taken <;> cases taken <;> exact .inl rfl
  | waitTail phase value head =>
      simp only [pcEq] at taken
      obtain ⟨⟨tail, loadedState⟩, loaded, rfl⟩ := Option.map_eq_some_iff.mp taken
      dsimp only
      split
      · exact .inl rfl
      · cases phase <;> exact .inl rfl
  | waitClosed phase value =>
      simp only [pcEq, Option.some.injEq] at taken
      subst taken
      cases phase <;> cases s.shared.closed <;> exact .inl rfl
  | sendRetry value =>
      simp only [pcEq, Option.some.injEq] at taken
      subst taken
      exact refuses_of_trySendStart s .send value (.tick index)
  | sendWake call value =>
      simp only [pcEq, Option.some.injEq] at taken
      subst taken
      cases call <;> exact .inl rfl
  | waitPark value =>
      simp only [pcEq] at taken
      split at taken <;> cases taken
      exact .inl rfl
  | _ =>
      simp only [pcEq, Option.some.injEq] at taken
      subst taken
      exact .inl rfl

theorem refuses_of_producerStep {action : ProducerAction α}
    (taken : s.producerStep cap action = some after) :
    refusedAt after.producer.pc = false ∨ Refuses cap s action after := by
  cases action with
  | tick index => exact refuses_of_producerTick taken
  | trySend value | send value =>
      simp only [producerStep] at taken
      split at taken <;> cases taken
      exact refuses_of_trySendStart s _ value _
  | trySendBulk items =>
      simp only [producerStep] at taken
      split at taken
      · split at taken
        · cases taken
          exact .inl rfl
        · split at taken <;> cases taken
          · exact .inl rfl
          · exact .inl (refusedAt_bulkStart items _ _)
      · cases taken
  | drop | spin | spurious =>
      simp only [producerStep] at taken
      split at taken <;> cases taken
      exact .inl rfl

/-- A send that finds `closed` set, the last refresh having read the newest `tail`. -/
theorem Refusal.judged (ok : Refusal cap s) {call : SendCall} {value : α}
    (here : s.producer.pc = .sendClosed call value) (closed : s.shared.closed = true)
    (newest : s.producer.tailView = s.shared.tail.latest) :
    Frozen cap (s.producerAt (sendRejected call value s.shared.closed)) := by
  obtain ⟨seen, full⟩ := ok.refused call value here
  have cached : s.producer.cachedTail = s.shared.tail.current := by
    rw [newest] at seen
    simpa [Location.history, Location.latest] using seen.symm
  rw [closed]
  constructor
  · apply (ok.closedBy closed).resolve_left
    simp [here, producerDropped]
  · exact closed
  · exact newest
  · exact cached
  · rw [cached] at full
    exact full
  · cases call <;> exact .inl rfl

theorem Refusal.producer_step {action : ProducerAction α} (ok : Refusal cap s)
    (newest : s.closesOnNewestTail (.producer action) = true)
    (taken : s.producerStep cap action = some after) : Refusal cap after := by
  have closedBy : after.shared.closed = true →
      producerDropped after.producer.pc = true ∨ halfDropped after.consumer.pc = true := by
    intro closedAfter
    rw [(closed_of_producerStep taken).2]
    rcases closedOnlyByProducer taken with same | left
    · rw [same] at closedAfter
      rcases ok.closedBy closedAfter with dropped | left
      · exact .inl (producerDropped_step dropped taken).1
      · exact .inr left
    · exact .inl left
  rcases refuses_of_producerStep taken with elsewhere | refuses
  · constructor
    · intro call value head here
      rw [here] at elsewhere
      cases elsewhere
    · intro call value here
      rw [here] at elsewhere
      cases elsewhere
    · exact closedBy
    · intro told
      rw [refusedAt_of_toldClosed told] at elsewhere
      cases elsewhere
  · cases refuses with
    | started call value =>
        constructor
        · rintro _ _ _ ⟨⟩
          rfl
        · rintro _ _ ⟨⟩
        · exact closedBy
        · rintro ⟨⟩
    | refreshed call value head tail index here read full =>
        constructor
        · rintro _ _ _ ⟨⟩
        · rintro _ _ ⟨⟩
          rw [ok.refresh call value head here] at full
          exact ⟨(Location.load_eq_some read).2, full⟩
        · exact closedBy
        · rintro ⟨⟩
    | judged call value index here =>
        constructor
        · intro call' value' head there
          cases call <;> cases closedEq : s.shared.closed <;>
            simp [producerAt, sendRejected, closedEq] at there
        · intro call' value' there
          cases call <;> cases closedEq : s.shared.closed <;>
            simp [producerAt, sendRejected, closedEq] at there
        · exact closedBy
        · intro told
          cases closedEq : s.shared.closed with
          | true =>
              simp only [closesOnNewestTail, here, closedEq, Bool.not_true, Bool.false_or,
                beq_iff_eq] at newest
              have frozen := ok.judged here closedEq newest
              rw [closedEq] at frozen
              exact frozen
          | false =>
              rw [closedEq] at told
              cases call <;> cases told

theorem Refusal.consumer_step {action : ConsumerAction} (ok : Refusal cap s)
    (taken : s.consumerStep cap action = some after) : Refusal cap after := by
  have moves := tailMoves_of_consumerStep taken
  constructor
  · intro call value head here
    rw [moves.producer] at here
    rw [moves.head]
    exact ok.refresh call value head here
  · intro call value here
    rw [moves.producer] at here ⊢
    rw [moves.head]
    obtain ⟨seen, full⟩ := ok.refused call value here
    refine ⟨?_, full⟩
    rcases moves.tail with same | ⟨next, stored⟩
    · rw [same]
      exact seen
    · have inside := (List.getElem?_eq_some_iff.mp seen).1
      rw [stored, Location.history_store, List.getElem?_append_left inside]
      exact seen
  · intro closedAfter
    rw [moves.producer]
    rcases closedOnlyByConsumer taken with same | left
    · rw [same] at closedAfter
      rcases ok.closedBy closedAfter with dropped | left
      · exact .inl dropped
      · exact .inr (halfDropped_step left taken).1
    · exact .inr left
  · intro told
    rw [moves.producer] at told
    exact (ok.told told).consumer_step taken

theorem refusal_of_closingOnNewestTail (reached : (closingOnNewestTail cap).Reachable s) :
    Refusal cap s := by
  apply reached.invariant (Refusal cap)
  · rintro _ rfl
    constructor
    · rintro _ _ _ ⟨⟩
    · rintro _ _ ⟨⟩
    · rintro ⟨⟩
    · rintro ⟨⟩
  · rintro before action after - ok ⟨newest, taken⟩
    cases action with
    | producer action => exact ok.producer_step newest taken
    | consumer action => exact ok.consumer_step taken

/-- What `Closed` promises the producer: nobody will receive any more, the ring is full,
and no later send is told anything else. -/
structure FinalRefusal (cap : Cap) (s : RingState α) : Prop where
  dropped : halfDropped s.consumer.pc = true
  full : isFull cap s.shared.head.current s.shared.tail.current = true
  trySend : ∀ later, (system cap).Leads s later →
    ∀ result accepted, later.producer.pc = .returned (.trySend result) accepted →
      ∃ value, result = .error (.closed value)
  send : ∀ later, (system cap).Leads s later →
    ∀ result accepted, later.producer.pc = .returned (.send result) accepted →
      ∃ value, result = .error value

theorem Frozen.leads {first last : RingState α} (frozen : Frozen cap first)
    (leads : (system cap).Leads first last) : Frozen cap last :=
  leads.invariant (Frozen cap) frozen fun _ _ _ frozen taken => frozen.step taken

/-- When no receive commits between the refresh of a send and its look at `closed`, the
producer's side of a disconnect is exact and final. -/
theorem closed_final (reached : (closingOnNewestTail cap).Reachable s)
    (told : toldClosed s.producer.pc = true) : FinalRefusal cap s := by
  have frozen := (refusal_of_closingOnNewestTail reached).told told
  constructor
  · exact frozen.dropped
  · exact frozen.full
  · intro later leads result accepted here
    have refusing := (frozen.leads leads).refusing
    rw [here] at refusing
    cases result with
    | error refused =>
        cases refused with
        | closed value => exact ⟨value, rfl⟩
        | full value => simp [Refusing, toldClosed, producerDropped] at refusing
    | ok => simp [Refusing, toldClosed, producerDropped] at refusing
  · intro later leads result accepted here
    have refusing := (frozen.leads leads).refusing
    rw [here] at refusing
    cases result with
    | error value => exact ⟨value, rfl⟩
    | ok => simp [Refusing, toldClosed, producerDropped] at refusing

/-- One slot: the ring fills up, the consumer goes, and a send is refused. -/
def dropBehindFullRing : List (RingAction Nat) :=
  [.producer (.trySend 1), .producer (.tick 0), .producer (.tick 0), .producer (.tick 0),
    .producer (.tick 0), .consumer .drop, .producer (.trySend 2), .producer (.tick 0),
    .producer (.tick 0)]

theorem closed_final_dropBehindFullRing :
    ∃ s, (closingOnNewestTail oneSlotCap).Reachable s ∧
      s.producer.pc = .returned (.trySend (.error (.closed 2))) [] ∧
        FinalRefusal oneSlotCap s := by
  have ran : (Transition.execute (Transition.guardedStep
      (fun (s : RingState Nat) action => s.closesOnNewestTail action = true)
      (fun s action => s.step oneSlotCap action)) new dropBehindFullRing).map
        (fun s => s.producer.pc) = some (.returned (.trySend (.error (.closed 2))) []) := by
    rfl
  obtain ⟨s, ran, here⟩ := Option.map_eq_some_iff.mp ran
  have reached : (closingOnNewestTail oneSlotCap).Reachable s :=
    System.reachable_of_guarded_execute rfl ran
  exact ⟨s, reached, here, closed_final reached (by rw [here]; rfl)⟩

/-- One slot: a send finds the ring full, the consumer receives the only item and goes,
and the send looks at `closed`. -/
def receiveBehindRefresh : List (RingAction Nat) :=
  [.producer (.trySend 1), .producer (.tick 0), .producer (.tick 0), .producer (.tick 0),
    .producer (.tick 0), .producer (.trySend 2), .producer (.tick 0), .consumer .tryRecv,
    .consumer (.tick 1), .consumer (.tick 0), .consumer (.tick 0), .consumer (.tick 0),
    .consumer (.tick 0), .consumer .drop, .producer (.tick 0)]

/-- The producer's next `try_send` on that ring. -/
def sendAgain : List (RingAction Nat) :=
  [.producer (.tick 0), .producer (.trySend 3), .producer (.tick 1), .producer (.tick 0),
    .producer (.tick 0), .producer (.tick 0)]

/-- `Closed` is said about a ring with room, and the next send is accepted. -/
theorem closed_before_room :
    ∃ s later, (system oneSlotCap).Reachable s ∧
      s.producer.pc = .returned (.trySend (.error (.closed 2))) [] ∧
        isFull oneSlotCap s.shared.head.current s.shared.tail.current = false ∧
          (system oneSlotCap).Leads s later ∧
            later.producer.pc = .returned (.trySend (.ok ())) [3] := by
  have ran : (Transition.execute (fun (s : RingState Nat) action => s.step oneSlotCap action)
      new receiveBehindRefresh).map (fun s => (s.producer.pc,
        isFull oneSlotCap s.shared.head.current s.shared.tail.current,
        (Transition.execute (fun (s : RingState Nat) action => s.step oneSlotCap action)
          s sendAgain).map fun s => s.producer.pc)) =
        some (.returned (.trySend (.error (.closed 2))) [], false,
          some (.returned (.trySend (.ok ())) [3])) := by
    rfl
  obtain ⟨s, ran, seen⟩ := Option.map_eq_some_iff.mp ran
  obtain ⟨here, seen⟩ := Prod.mk.inj seen
  obtain ⟨room, again⟩ := Prod.mk.inj seen
  obtain ⟨later, again, accepted⟩ := Option.map_eq_some_iff.mp again
  exact ⟨s, later, System.reachable_of_execute rfl ran, here, room,
    System.leads_of_execute again, accepted⟩

end RingState

end ArbitroKit
