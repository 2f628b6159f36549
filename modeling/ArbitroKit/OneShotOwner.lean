import ArbitroKit.OneShot

/-!
# The one-shot's value has exactly one owner

The history of the state word is a path of at most three values, and it says where the
value is: with the sender, in the slot, with the one reader that has exchanged `FULL`
for `TAKEN`, handed out, or destroyed.
-/

namespace ArbitroKit

open Coherent SlotLane Transition

/-- The transitions of the state word. -/
def SlotState.Moves : SlotState → SlotState → Prop
  | .empty, .full => True
  | .empty, .closed => True
  | .empty, .rxDropped => True
  | .rxDropped, .full => True
  | .full, .taken => True
  | _, _ => False

namespace OneShot

variable {α : Type*} {s after : OneShot α}

/-- A call's claim on the value: `none` while it is about to read the slot, the value
once it has handed it out. -/
def callClaim : TryRecvCall α → Option (Option α)
  | .read => some none
  | .returned (.ok (some value)) => some (some value)
  | _ => none

/-- The claim of `recv`. -/
def receiverClaim : ReceiverPc α → List (Option α)
  | .recvRead => [none]
  | .lastRead => [none]
  | .returned (.ok value) => [some value]
  | _ => []

/-- Every claim on the value. -/
def claims (s : OneShot α) : List (Option α) :=
  s.calls.filterMap callClaim ++ receiverClaim s.receiver

/-- Every value handed out by a `try_recv` or by `recv`. -/
def handedOut (s : OneShot α) : List α := s.claims.filterMap id

/-- Some receive has come out as `Err(Closed)`. -/
def SaidClosed (s : OneShot α) : Prop :=
  .returned (.error .closed) ∈ s.calls ∨ s.receiver = .returned (.error .closed)

/-- What the sender holds while the state says that nothing is published. -/
def SenderHolds (s : OneShot α) : SenderPc α → Prop
  | .ready => s.sent = none ∧ s.slot = .uninit ∧ s.destroyed = []
  | .sendLoad value => s.sent = some value ∧ s.slot = .uninit ∧ s.destroyed = []
  | .sendDiscard value =>
      s.state.current = .rxDropped ∧ s.sent = some value ∧ s.slot = .uninit ∧
        s.destroyed = []
  | .sendWrite value => s.sent = some value ∧ s.slot = .uninit ∧ s.destroyed = []
  | .sendStore value => s.sent = some value ∧ s.slot = .live value ∧ s.destroyed = []
  | .dropExchange => s.sent = none ∧ s.slot = .uninit ∧ s.destroyed = []
  | .gone => s.state.current = .rxDropped ∧ s.destroyed = s.sent.toList
  | .sendWake => False
  | .dropWake => False

/-- Where the value is. -/
inductive Stage (s : OneShot α) : Prop
  | unsent (path : s.state.history = [.empty] ∨
        s.state.history = [.empty, .rxDropped] ∧ s.receiver = .gone)
      (unclaimed : s.claims = []) (holds : s.SenderHolds s.sender)
  | closed (path : s.state.history = [.empty, .closed]) (unclaimed : s.claims = [])
      (unsent : s.sent = none ∧ s.destroyed = [])
      (sender : s.sender = .dropWake ∨ s.sender = .gone)
  | full (value : α) (path : s.state.history = [.empty, .full] ∨
        s.state.history = [.empty, .rxDropped, .full] ∧ s.receiver = .gone)
      (unclaimed : s.claims = []) (sent : s.sent = some value)
      (sender : s.sender = .sendWake ∨ s.sender = .gone)
      (kept : s.torn = false ∧ s.slot = .live value ∧ s.destroyed = [] ∨
        s.torn = true ∧ s.destroyed = [value])
  | taken (value : α) (path : s.state.history = [.empty, .full, .taken])
      (sent : s.sent = some value) (kept : s.destroyed = [])
      (sender : s.sender = .sendWake ∨ s.sender = .gone)
      (claimed : s.claims = [none] ∧ s.slot = .live value ∨ s.claims = [some value])

/-- The invariant of the one-shot. -/
structure OwnerOk (s : OneShot α) : Prop where
  stage : Stage s
  notMisread : s.misread = false
  consumed : s.receiver = .shared ∨ s.unborrowed = true
  torn : s.torn = true → receiverDone s.receiver = true ∧ s.sender = .gone
  said : s.SaidClosed → s.state.current = .closed ∨ s.state.current = .taken
  seen : s.receiver = .waitLeave ∨ s.receiver = .lastExchange → 1 ≤ s.view
  expected : s.receiver ≠ .expectFailed

/-! ### What the stage says about the state -/

theorem current_of_history {location : Location SlotState} {path : List SlotState}
    {current : SlotState} (history : location.history = path)
    (ends : path.getLast? = some current) : location.current = current := by
  have last := congrArg List.getLast? history
  rw [ends] at last
  simpa [Location.history] using last

/-- The history is a path of allowed transitions from `EMPTY`. -/
theorem Stage.path_moves (stage : Stage s) :
    s.state.history.IsChain SlotState.Moves ∧ s.state.history.head? = some .empty := by
  cases stage with
  | unsent path => rcases path with path | ⟨path, -⟩ <;> rw [path] <;> simp [SlotState.Moves]
  | closed path => rw [path]; simp [SlotState.Moves]
  | full value path =>
      rcases path with path | ⟨path, -⟩ <;> rw [path] <;> simp [SlotState.Moves]
  | taken value path => rw [path]; simp [SlotState.Moves]

/-- A state that a receive takes for closed is final: it is still the current one. -/
theorem Stage.current_of_takeFailed (stage : Stage s) {state : SlotState} {error : Closed}
    (member : state ∈ s.state.history) (failed : takeFailed state = some error) :
    s.state.current = .closed ∨ s.state.current = .taken := by
  cases stage with
  | unsent path =>
      rcases path with path | ⟨path, -⟩ <;> rw [path] at member <;> simp at member <;>
        rcases member with rfl | rfl <;> cases failed
  | closed path => exact .inl (current_of_history path rfl)
  | full value path =>
      rcases path with path | ⟨path, -⟩ <;> rw [path] at member <;> simp at member <;>
        rcases member with rfl | rfl | rfl <;> cases failed
  | taken value path => exact .inr (current_of_history path rfl)

/-! ### Steps of the sender -/

/-- Before its store the sender finds nothing published and nothing claimed. -/
theorem Stage.unsent_of_sender (stage : Stage s) (holding : s.sender ≠ .sendWake)
    (notClosing : s.sender ≠ .dropWake) (notGone : s.sender ≠ .gone) :
    (s.state.history = [.empty] ∨
      s.state.history = [.empty, .rxDropped] ∧ s.receiver = .gone) ∧
      s.claims = [] ∧ s.SenderHolds s.sender := by
  cases stage with
  | unsent path unclaimed holds => exact ⟨path, unclaimed, holds⟩
  | closed _ _ _ sender => exact (sender.elim notClosing notGone).elim
  | full _ _ _ _ sender => exact (sender.elim holding notGone).elim
  | taken _ _ _ _ sender => exact (sender.elim holding notGone).elim

/-- A step of a sender that has not let go. -/
theorem OwnerOk.of_sender (ok : OwnerOk s) (notGone : s.sender ≠ .gone)
    (calls : after.calls = s.calls) (receiver : after.receiver = s.receiver)
    (view : after.view = s.view) (torn : after.torn = s.torn)
    (misread : after.misread = s.misread)
    (state : after.state = s.state ∨ ¬s.SaidClosed) (stage : Stage after) :
    OwnerOk after := by
  have standing : after.torn = false := by
    rw [torn]
    by_contra gone
    exact notGone (ok.torn (eq_true_of_ne_false gone)).2
  constructor
  · exact stage
  · rw [misread]
    exact ok.notMisread
  · rw [receiver, unborrowed, calls]
    exact ok.consumed
  · intro gone
    rw [standing] at gone
    cases gone
  · intro said
    rw [SaidClosed, calls, receiver] at said
    rcases state with same | notSaid
    · rw [same]
      exact ok.said said
    · exact absurd said notSaid
  · rw [receiver, view]
    exact ok.seen
  · rw [receiver]
    exact ok.expected

/-- Nobody has been told that the channel is closed before the sender has decided. -/
theorem OwnerOk.not_said (ok : OwnerOk s)
    (path : s.state.history = [.empty] ∨
      s.state.history = [.empty, .rxDropped] ∧ s.receiver = .gone) : ¬s.SaidClosed := by
  intro said
  rcases path with path | ⟨path, -⟩ <;> rcases ok.said said with current | current <;>
    rw [current_of_history path rfl] at current <;> cases current

theorem OwnerOk.sender_tick {index : Nat} (ok : OwnerOk s)
    (taken : s.senderTick index = some after) : OwnerOk after := by
  unfold senderTick at taken
  cases pcEq : s.sender with
  | ready | gone => simp [pcEq] at taken
  | sendLoad value =>
      simp only [pcEq] at taken
      obtain ⟨path, unclaimed, holds⟩ := ok.stage.unsent_of_sender
        (by simp [pcEq]) (by simp [pcEq]) (by simp [pcEq])
      rw [pcEq] at holds
      obtain ⟨state, loaded, rfl⟩ := Option.map_eq_some_iff.mp taken
      split
      · rename_i dropped
        subst dropped
        refine ok.of_sender (by simp [pcEq]) rfl rfl rfl rfl rfl (.inl rfl) ?_
        refine .unsent path unclaimed ?_
        rcases path with path | ⟨path, -⟩
        · have member := Location.mem_history_of_load loaded
          simp [path] at member
        · exact ⟨current_of_history path rfl, holds⟩
      · refine ok.of_sender (by simp [pcEq]) rfl rfl rfl rfl rfl (.inl rfl) ?_
        exact .unsent path unclaimed holds
  | sendDiscard value =>
      simp only [pcEq, Option.some.injEq] at taken
      subst taken
      obtain ⟨path, unclaimed, holds⟩ := ok.stage.unsent_of_sender
        (by simp [pcEq]) (by simp [pcEq]) (by simp [pcEq])
      rw [pcEq] at holds
      obtain ⟨current, sent, slot, destroyed⟩ := holds
      refine ok.of_sender (by simp [pcEq]) rfl rfl rfl rfl rfl (.inl rfl) ?_
      exact .unsent path unclaimed ⟨current, by simp [sent, destroyed]⟩
  | sendWrite value =>
      simp only [pcEq, Option.some.injEq] at taken
      subst taken
      obtain ⟨path, unclaimed, holds⟩ := ok.stage.unsent_of_sender
        (by simp [pcEq]) (by simp [pcEq]) (by simp [pcEq])
      rw [pcEq] at holds
      obtain ⟨sent, slot, destroyed⟩ := holds
      refine ok.of_sender (by simp [pcEq]) rfl rfl rfl rfl rfl (.inl rfl) ?_
      exact .unsent path unclaimed ⟨sent, rfl, destroyed⟩
  | sendStore value =>
      simp only [pcEq, Option.some.injEq] at taken
      subst taken
      obtain ⟨path, unclaimed, holds⟩ := ok.stage.unsent_of_sender
        (by simp [pcEq]) (by simp [pcEq]) (by simp [pcEq])
      rw [pcEq] at holds
      obtain ⟨sent, slot, destroyed⟩ := holds
      have standing : s.torn = false := by
        by_contra gone
        have := (ok.torn (eq_true_of_ne_false gone)).2
        rw [pcEq] at this
        cases this
      refine ok.of_sender (by simp [pcEq]) rfl rfl rfl rfl rfl (.inr (ok.not_said path)) ?_
      refine .full value ?_ unclaimed sent (.inl rfl) (.inl ⟨standing, slot, destroyed⟩)
      rcases path with path | ⟨path, gone⟩
      · exact .inl (by simp [path])
      · exact .inr ⟨by simp [path], gone⟩
  | sendWake =>
      simp only [pcEq, Option.some.injEq] at taken
      subst taken
      refine ok.of_sender (by simp [pcEq]) rfl rfl rfl rfl rfl (.inl rfl) ?_
      cases ok.stage with
      | unsent path unclaimed holds =>
          rw [pcEq] at holds
          exact holds.elim
      | closed path unclaimed unsent sender => exact .closed path unclaimed unsent (.inr rfl)
      | full value path unclaimed sent sender kept =>
          exact .full value path unclaimed sent (.inr rfl) kept
      | taken value path sent kept sender claimed =>
          exact .taken value path sent kept (.inr rfl) claimed
  | dropExchange =>
      simp only [pcEq] at taken
      obtain ⟨path, unclaimed, holds⟩ := ok.stage.unsent_of_sender
        (by simp [pcEq]) (by simp [pcEq]) (by simp [pcEq])
      rw [pcEq] at holds
      obtain ⟨result, exchanged, rfl⟩ := Option.map_eq_some_iff.mp taken
      cases result with
      | ok state =>
          obtain ⟨current, rfl⟩ := Location.compareExchange_ok exchanged
          refine ok.of_sender (by simp [pcEq]) rfl rfl rfl rfl rfl (.inr (ok.not_said path)) ?_
          refine .closed ?_ unclaimed ⟨holds.1, holds.2.2⟩ (.inl rfl)
          rcases path with path | ⟨path, -⟩
          · simp [path]
          · rw [current_of_history path rfl] at current
            cases current
      | error state =>
          obtain ⟨different, loaded⟩ := Location.compareExchange_error exchanged
          refine ok.of_sender (by simp [pcEq]) rfl rfl rfl rfl rfl (.inl rfl) ?_
          refine .unsent path unclaimed ?_
          rcases path with path | ⟨path, -⟩
          · have member := Location.mem_history_of_load loaded
            rw [path, List.mem_singleton] at member
            exact absurd member different
          · exact ⟨current_of_history path rfl, by simp [senderAt, holds.1, holds.2.2]⟩
  | dropWake =>
      simp only [pcEq, Option.some.injEq] at taken
      subst taken
      refine ok.of_sender (by simp [pcEq]) rfl rfl rfl rfl rfl (.inl rfl) ?_
      cases ok.stage with
      | unsent path unclaimed holds =>
          rw [pcEq] at holds
          exact holds.elim
      | closed path unclaimed unsent sender => exact .closed path unclaimed unsent (.inr rfl)
      | full value path unclaimed sent sender kept =>
          exact .full value path unclaimed sent (.inr rfl) kept
      | taken value path sent kept sender claimed =>
          exact .taken value path sent kept (.inr rfl) claimed

theorem OwnerOk.sender_step {action : SenderAction α} (ok : OwnerOk s)
    (taken : s.senderStep action = some after) : OwnerOk after := by
  cases action with
  | tick index => exact ok.sender_tick taken
  | send value =>
      simp only [senderStep] at taken
      split at taken
      · rename_i pcEq
        cases taken
        obtain ⟨path, unclaimed, holds⟩ := ok.stage.unsent_of_sender
          (by simp [pcEq]) (by simp [pcEq]) (by simp [pcEq])
        rw [pcEq] at holds
        refine ok.of_sender (by simp [pcEq]) rfl rfl rfl rfl rfl (.inl rfl) ?_
        exact .unsent path unclaimed ⟨rfl, holds.2.1, holds.2.2⟩
      · cases taken
  | drop =>
      simp only [senderStep] at taken
      split at taken
      · rename_i pcEq
        cases taken
        obtain ⟨path, unclaimed, holds⟩ := ok.stage.unsent_of_sender
          (by simp [pcEq]) (by simp [pcEq]) (by simp [pcEq])
        rw [pcEq] at holds
        refine ok.of_sender (by simp [pcEq]) rfl rfl rfl rfl rfl (.inl rfl) ?_
        exact .unsent path unclaimed holds
      · cases taken

/-! ### Steps of `try_recv` -/

/-- Replacing one item of a list replaces its part of the filtered list. -/
theorem filterMap_set {β γ : Type*} (claim : β → Option γ) {items : List β} {id : Nat}
    {old : β} (present : items[id]? = some old) (new : β) :
    ∃ first last, items.filterMap claim = first ++ (claim old).toList ++ last ∧
      (items.set id new).filterMap claim = first ++ (claim new).toList ++ last := by
  induction items generalizing id with
  | nil => simp at present
  | cons item items ih =>
      cases id with
      | zero =>
          simp only [List.getElem?_cons_zero, Option.some.injEq] at present
          subst present
          refine ⟨[], items.filterMap claim, ?_, ?_⟩
          · cases claimed : claim item <;> simp [claimed]
          · cases claimed : claim new <;> simp [claimed]
      | succ id =>
          rw [List.getElem?_cons_succ] at present
          obtain ⟨first, last, before, after⟩ := ih present
          refine ⟨(claim item).toList ++ first, last, ?_, ?_⟩
          · cases claimed : claim item <;> simp [claimed, before]
          · cases claimed : claim item <;> simp [claimed, after]

/-- A call that runs borrows the receiver. -/
theorem OwnerOk.shared_of_call (ok : OwnerOk s) {id : Nat} {pc : TryRecvCall α}
    (present : s.calls[id]? = some pc) (running : ∀ result, pc ≠ .returned result) :
    s.receiver = .shared ∧ s.torn = false := by
  have shared : s.receiver = .shared := by
    apply ok.consumed.resolve_right
    intro unborrowed
    have done := List.all_eq_true.mp unborrowed pc (List.mem_of_getElem? present)
    cases pc with
    | exchange | read => cases done
    | returned result => exact running result rfl
  refine ⟨shared, ?_⟩
  by_contra gone
  have := (ok.torn (eq_true_of_ne_false gone)).1
  rw [shared] at this
  cases this

/-- A step of one `try_recv`. -/
theorem OwnerOk.of_call (ok : OwnerOk s) (shared : s.receiver = .shared)
    (standing : s.torn = false) (receiver : after.receiver = s.receiver)
    (torn : after.torn = s.torn) (misread : after.misread = false)
    (said : after.SaidClosed → after.state.current = .closed ∨ after.state.current = .taken)
    (stage : Stage after) : OwnerOk after := by
  constructor
  · exact stage
  · exact misread
  · rw [receiver]
    exact .inl shared
  · intro gone
    rw [torn, standing] at gone
    cases gone
  · exact said
  · rw [receiver, shared]
    rintro (here | here) <;> cases here
  · rw [receiver]
    exact ok.expected

/-- The claims after one call moved on. -/
theorem claims_callAt {id : Nat} {old : TryRecvCall α} (present : s.calls[id]? = some old)
    (new : TryRecvCall α) :
    ∃ first last, s.claims = first ++ (callClaim old).toList ++ last ∧
      (s.callAt id new).claims = first ++ (callClaim new).toList ++ last := by
  obtain ⟨first, last, before, after⟩ := filterMap_set callClaim present new
  refine ⟨first, last ++ receiverClaim s.receiver, ?_, ?_⟩
  · rw [claims, before, List.append_assoc]
  · rw [claims, callAt, after, List.append_assoc]

/-- A call whose claim stays the same leaves the stage as it was. -/
theorem Stage.callAt (stage : Stage s) {id : Nat} {old new : TryRecvCall α}
    (present : s.calls[id]? = some old) (same : callClaim new = callClaim old) :
    Stage (s.callAt id new) := by
  have claims : (s.callAt id new).claims = s.claims := by
    obtain ⟨first, last, before, after⟩ := claims_callAt present new
    rw [before, after, same]
  cases stage with
  | unsent path unclaimed holds => exact .unsent path (claims.trans unclaimed) holds
  | closed path unclaimed unsent sender =>
      exact .closed path (claims.trans unclaimed) unsent sender
  | full value path unclaimed sent sender kept =>
      exact .full value path (claims.trans unclaimed) sent sender kept
  | taken value path sent kept sender claimed =>
      refine .taken value path sent kept sender ?_
      rw [claims]
      exact claimed

theorem append_eq_singleton {β : Type*} {first last : List β} {item only : β}
    (equal : [only] = first ++ [item] ++ last) : first = [] ∧ last = [] ∧ item = only := by
  cases first with
  | nil => simp_all
  | cons head tail => simp at equal

theorem OwnerOk.call_tick {id index : Nat} (ok : OwnerOk s)
    (taken : s.callTick id index = some after) : OwnerOk after := by
  obtain ⟨pc, present, taken⟩ := Option.bind_eq_some_iff.mp taken
  cases pc with
  | exchange =>
      obtain ⟨shared, standing⟩ := ok.shared_of_call present (by simp)
      obtain ⟨result, exchanged, rfl⟩ := Option.map_eq_some_iff.mp taken
      cases result with
      | ok state =>
          obtain ⟨current, rfl⟩ := Location.compareExchange_ok exchanged
          refine ok.of_call shared standing rfl rfl ok.notMisread (fun _ => .inr rfl) ?_
          cases ok.stage with
          | unsent path =>
              rcases path with path | ⟨path, -⟩ <;>
                rw [current_of_history path rfl] at current <;> cases current
          | closed path => rw [current_of_history path rfl] at current; cases current
          | full value path unclaimed sent sender kept =>
              obtain ⟨-, slot, destroyed⟩ := kept.resolve_right fun gone => by
                rw [standing] at gone
                cases gone.1
              obtain ⟨first, last, before, after⟩ := claims_callAt present .read
              rw [unclaimed] at before
              obtain ⟨rfl, rfl⟩ : first = [] ∧ last = [] := by simpa [callClaim] using before
              refine .taken value ?_ sent destroyed sender (.inl ⟨after, slot⟩)
              rcases path with path | ⟨-, gone⟩
              · simp [callAt, path]
              · rw [shared] at gone
                cases gone
          | taken value path => rw [current_of_history path rfl] at current; cases current
      | error state =>
          obtain ⟨-, loaded⟩ := Location.compareExchange_error exchanged
          have member := Location.mem_history_of_load loaded
          cases failed : takeFailed state with
          | some error =>
              refine ok.of_call shared standing ?_ ?_ ?_ ?_ ?_
              all_goals simp only [failed]
              · rfl
              · rfl
              · exact ok.notMisread
              · exact fun _ => ok.stage.current_of_takeFailed member failed
              · exact ok.stage.callAt present rfl
          | none =>
              refine ok.of_call shared standing ?_ ?_ ?_ ?_ ?_
              all_goals simp only [failed]
              · rfl
              · rfl
              · exact ok.notMisread
              · intro said
                apply ok.said
                rcases said with said | said
                · left
                  rcases List.mem_or_eq_of_mem_set said with said | said
                  · exact said
                  · cases said
                · exact .inr said
              · exact ok.stage.callAt present rfl
  | read =>
      obtain ⟨shared, standing⟩ := ok.shared_of_call present (by simp)
      simp only [Option.some.injEq] at taken
      subst taken
      have claimed : none ∈ s.claims := by
        apply List.mem_append_left
        exact List.mem_filterMap.mpr ⟨.read, List.mem_of_getElem? present, rfl⟩
      cases ok.stage with
      | unsent _ unclaimed => simp [unclaimed] at claimed
      | closed _ unclaimed => simp [unclaimed] at claimed
      | full _ _ unclaimed => simp [unclaimed] at claimed
      | taken value path sent kept sender claims =>
          rcases claims with ⟨reading, slot⟩ | read
          · have next : s.readSlot (fun value s => s.callAt id (.returned (.ok (some value)))) =
                ({ s with slot := .moved value } : OneShot α).callAt id
                  (.returned (.ok (some value))) := by
              simp [readSlot, slot]
            rw [next]
            obtain ⟨first, last, before, after⟩ :=
              claims_callAt present (.returned (.ok (some value)))
            rw [reading] at before
            obtain ⟨rfl, rfl, -⟩ := append_eq_singleton before
            refine ok.of_call shared standing rfl rfl ok.notMisread ?_ ?_
            · intro _
              exact .inr (current_of_history path rfl)
            · exact .taken value path sent kept sender (.inr after)
          · rw [read] at claimed
            simp at claimed
  | returned result => cases taken

/-! ### Steps of the receiver -/

/-- A receiver that has not let go keeps `Inner` alive. -/
theorem OwnerOk.standing (ok : OwnerOk s) (holding : receiverDone s.receiver = false) :
    s.torn = false := by
  by_contra gone
  rw [(ok.torn (eq_true_of_ne_false gone)).1] at holding
  cases holding

/-- A step of a receiver that has not let go. -/
theorem OwnerOk.of_receiver (ok : OwnerOk s) (holding : receiverDone s.receiver = false)
    (unborrowed : s.unborrowed = true) (calls : after.calls = s.calls)
    (torn : after.torn = s.torn) (misread : after.misread = s.misread)
    (said : after.SaidClosed → after.state.current = .closed ∨ after.state.current = .taken)
    (seen : after.receiver = .waitLeave ∨ after.receiver = .lastExchange → 1 ≤ after.view)
    (expected : after.receiver ≠ .expectFailed) (stage : Stage after) : OwnerOk after := by
  constructor
  · exact stage
  · rw [misread]
    exact ok.notMisread
  · right
    rw [OneShot.unborrowed, calls]
    exact unborrowed
  · intro gone
    rw [torn, ok.standing holding] at gone
    cases gone
  · exact said
  · exact seen
  · exact expected

/-- A step that changes neither the state nor any claim. -/
theorem Stage.of_quiet (stage : Stage s) (state : after.state = s.state)
    (slot : after.slot = s.slot) (sender : after.sender = s.sender)
    (claims : after.claims = s.claims) (torn : after.torn = s.torn)
    (sent : after.sent = s.sent) (destroyed : after.destroyed = s.destroyed)
    (gone : s.receiver = .gone → after.receiver = .gone) : Stage after := by
  cases stage with
  | unsent path unclaimed holds =>
      refine .unsent ?_ (claims.trans unclaimed) ?_
      · rw [state]
        exact path.imp_right fun here => ⟨here.1, gone here.2⟩
      · rw [sender]
        revert holds
        cases s.sender <;> simp only [SenderHolds, state, slot, sent, destroyed] <;> exact id
  | closed path unclaimed unsent dropped =>
      refine .closed ?_ (claims.trans unclaimed) ?_ ?_
      · rw [state]
        exact path
      · rw [sent, destroyed]
        exact unsent
      · rw [sender]
        exact dropped
  | full value path unclaimed was finished kept =>
      refine .full value ?_ (claims.trans unclaimed) (sent.trans was) ?_ ?_
      · rw [state]
        exact path.imp_right fun here => ⟨here.1, gone here.2⟩
      · rw [sender]
        exact finished
      · rw [torn, slot, destroyed]
        exact kept
  | taken value path was kept finished claimed =>
      refine .taken value ?_ (sent.trans was) (destroyed.trans kept) ?_ ?_
      · rw [state]
        exact path
      · rw [sender]
        exact finished
      · rw [claims, slot]
        exact claimed

/-- The receiver goes on to a place without a claim, and nobody is told `Closed`. -/
theorem OwnerOk.goto (ok : OwnerOk s) (holding : receiverDone s.receiver = false)
    (unborrowed : s.unborrowed = true) (quiet : receiverClaim s.receiver = [])
    (state : after.state = s.state) (slot : after.slot = s.slot)
    (sender : after.sender = s.sender) (calls : after.calls = s.calls)
    (torn : after.torn = s.torn) (sent : after.sent = s.sent)
    (destroyed : after.destroyed = s.destroyed) (misread : after.misread = s.misread)
    (unclaimed : receiverClaim after.receiver = [])
    (silent : ∀ result, after.receiver ≠ .returned result)
    (seen : after.receiver = .waitLeave ∨ after.receiver = .lastExchange → 1 ≤ after.view)
    (expected : after.receiver ≠ .expectFailed) : OwnerOk after := by
  apply ok.of_receiver holding unborrowed calls torn misread
  · intro said
    rw [state]
    apply ok.said
    rcases said with said | said
    · rw [calls] at said
      exact .inl said
    · exact absurd said (silent _)
  · exact seen
  · exact expected
  · apply ok.stage.of_quiet state slot sender
    · rw [claims, claims, calls, unclaimed, quiet]
    · exact torn
    · exact sent
    · exact destroyed
    · intro gone
      rw [gone] at holding
      cases holding

/-- Winning the exchange: the receiver alone may read the slot. -/
theorem Stage.win (stage : Stage s) (holding : receiverDone s.receiver = false)
    (standing : s.torn = false) (quiet : receiverClaim s.receiver = [])
    (current : s.state.current = .full) {reading : ReceiverPc α}
    (claim : receiverClaim reading = [none]) :
    Stage (({ s with state := s.state.store .taken } : OneShot α).receiverAt reading) := by
  cases stage with
  | unsent path =>
      rcases path with path | ⟨path, -⟩ <;>
        rw [current_of_history path rfl] at current <;> cases current
  | closed path =>
      rw [current_of_history path rfl] at current
      cases current
  | full value path unclaimed sent sender kept =>
      obtain ⟨-, slot, destroyed⟩ := kept.resolve_right fun gone => by
        rw [standing] at gone
        cases gone.1
      refine .taken value ?_ sent destroyed sender (.inl ⟨?_, slot⟩)
      · rcases path with path | ⟨-, gone⟩
        · simp [receiverAt, path]
        · rw [gone] at holding
          cases holding
      · rw [claims, quiet, List.append_nil] at unclaimed
        rw [claims]
        change s.calls.filterMap callClaim ++ receiverClaim reading = [none]
        rw [unclaimed, claim]
        rfl
  | taken value path =>
      rw [current_of_history path rfl] at current
      cases current

/-- Reading the slot: the receiver hands the value out. -/
theorem Stage.read (stage : Stage s) (claim : receiverClaim s.receiver = [none]) :
    ∃ value, s.slot = .live value ∧ s.state.current = .taken ∧
      Stage (({ s with slot := .moved value } : OneShot α).receiverAt
        (.returned (.ok value))) := by
  have claimed : none ∈ s.claims := by
    rw [claims, claim]
    simp
  cases stage with
  | unsent _ unclaimed => simp [unclaimed] at claimed
  | closed _ unclaimed => simp [unclaimed] at claimed
  | full _ _ unclaimed => simp [unclaimed] at claimed
  | taken value path sent kept sender claims =>
      rcases claims with ⟨reading, slot⟩ | read
      · refine ⟨value, slot, current_of_history path rfl, ?_⟩
        refine .taken value path sent kept sender (.inr ?_)
        rw [OneShot.claims, claim] at reading
        have others : s.calls.filterMap callClaim = [] := by simpa using reading
        change s.calls.filterMap callClaim ++ [some value] = [some value]
        rw [others]
        rfl
      · rw [read] at claimed
        simp at claimed

/-- A receive that has seen the state leave `EMPTY` finds it full, closed or taken. -/
theorem Stage.decided (stage : Stage s) (holding : receiverDone s.receiver = false)
    {view index : Nat} (seen : 1 ≤ view) {state : SlotState}
    (loaded : s.state.load view index = some state) (different : state ≠ .full) :
    ∃ error, takeFailed state = some error := by
  obtain ⟨le, present⟩ := Location.load_eq_some loaded
  obtain ⟨later, rfl⟩ := Nat.exists_eq_add_of_le (seen.trans le)
  have notGone : s.receiver ≠ .gone := by
    intro gone
    rw [gone] at holding
    cases holding
  rw [Nat.add_comm] at present
  cases stage with
  | unsent path =>
      rcases path with path | ⟨-, gone⟩
      · simp [path] at present
      · exact absurd gone notGone
  | closed path =>
      rw [path, List.getElem?_cons_succ] at present
      obtain rfl : state = .closed := by simpa [eq_comm] using List.mem_of_getElem? present
      exact ⟨_, rfl⟩
  | full value path =>
      rcases path with path | ⟨-, gone⟩
      · rw [path, List.getElem?_cons_succ] at present
        have : state = .full := by simpa [eq_comm] using List.mem_of_getElem? present
        exact absurd this different
      · exact absurd gone notGone
  | taken value path =>
      rw [path, List.getElem?_cons_succ] at present
      have : state = .full ∨ state = .taken := by
        simpa [eq_comm] using List.mem_of_getElem? present
      obtain rfl := this.resolve_left different
      exact ⟨_, rfl⟩

/-- A load that does not give `EMPTY` has passed the first value. -/
theorem Stage.seen_of_load (stage : Stage s) {view index : Nat} {state : SlotState}
    (loaded : s.state.load view index = some state) (different : state ≠ .empty) :
    1 ≤ index := by
  obtain ⟨-, present⟩ := Location.load_eq_some loaded
  have starts := stage.path_moves.2
  rw [List.head?_eq_getElem?] at starts
  by_contra zero
  obtain rfl : index = 0 := by omega
  rw [starts, Option.some.injEq] at present
  exact different present.symm

/-- `try_take_inner` by the owner of the receiver, up to the read of the slot. -/
theorem OwnerOk.receiver_exchange {index : Nat} {reading : ReceiverPc α}
    {otherwise : ReceiverPc α} (ok : OwnerOk s) (holding : receiverDone s.receiver = false)
    (unborrowed : s.unborrowed = true) (quiet : receiverClaim s.receiver = [])
    (claim : receiverClaim reading = [none]) (unclaimed : receiverClaim otherwise = [])
    (silent : ∀ result, otherwise ≠ .returned result)
    (onward : otherwise ≠ .waitLeave ∧ otherwise ≠ .lastExchange)
    (expected : otherwise = .expectFailed → 1 ≤ s.view)
    (taken : (s.state.compareExchange s.view index .full .taken).map (fun result =>
        match result with
        | .ok state => { s with state := state }.receiverAt reading
        | .error state =>
            match takeFailed state with
            | some error => s.receiverAt (.returned (.error error))
            | none => s.receiverAt otherwise) = some after) : OwnerOk after := by
  obtain ⟨result, exchanged, rfl⟩ := Option.map_eq_some_iff.mp taken
  cases result with
  | ok state =>
      obtain ⟨current, rfl⟩ := Location.compareExchange_ok exchanged
      refine ok.of_receiver holding unborrowed rfl rfl rfl (fun _ => .inr rfl) ?_ ?_
        (ok.stage.win holding (ok.standing holding) quiet current claim)
      · rintro (here | here)
        · change reading = _ at here
          rw [here] at claim
          cases claim
        · change reading = _ at here
          rw [here] at claim
          cases claim
      · intro here
        change reading = _ at here
        rw [here] at claim
        cases claim
  | error state =>
      obtain ⟨different, loaded⟩ := Location.compareExchange_error exchanged
      have member := Location.mem_history_of_load loaded
      dsimp only
      cases failed : takeFailed state with
      | some error =>
          refine ok.of_receiver holding unborrowed rfl rfl rfl
            (fun _ => ok.stage.current_of_takeFailed member failed) ?_ ?_ ?_
          · rintro (here | here) <;> cases here
          · intro here
            cases here
          · refine ok.stage.of_quiet rfl rfl rfl ?_ rfl rfl rfl ?_
            · rw [claims, claims, quiet]
              rfl
            · intro gone
              rw [gone] at holding
              cases holding
      | none =>
          refine ok.goto holding unborrowed quiet rfl rfl rfl rfl rfl rfl rfl rfl unclaimed
            silent ?_ ?_
          · rintro (here | here)
            · exact absurd here onward.1
            · exact absurd here onward.2
          · intro here
            obtain ⟨error, some⟩ := ok.stage.decided holding (expected here) loaded different
            rw [failed] at some
            cases some

theorem OwnerOk.receiver_read (ok : OwnerOk s) (holding : receiverDone s.receiver = false)
    (unborrowed : s.unborrowed = true) (claim : receiverClaim s.receiver = [none]) :
    OwnerOk (s.readSlot fun value s => s.receiverAt (.returned (.ok value))) := by
  obtain ⟨value, slot, current, stage⟩ := ok.stage.read claim
  have next : s.readSlot (fun value s => s.receiverAt (.returned (.ok value))) =
      ({ s with slot := .moved value } : OneShot α).receiverAt (.returned (.ok value)) := by
    simp [readSlot, slot]
  rw [next]
  refine ok.of_receiver holding unborrowed rfl rfl rfl (fun _ => .inr current) ?_ ?_ stage
  · rintro (here | here) <;> cases here
  · intro here
    cases here

theorem OwnerOk.receiver_tick {index : Nat} (ok : OwnerOk s)
    (taken : s.receiverTick index = some after) : OwnerOk after := by
  have unborrowed : s.receiver ≠ .shared → s.unborrowed = true :=
    fun owned => ok.consumed.resolve_left owned
  unfold receiverTick at taken
  cases pcEq : s.receiver with
  | shared | expectFailed | returned result | gone => simp [pcEq] at taken
  | recvExchange =>
      simp only [pcEq] at taken
      exact ok.receiver_exchange (by rw [pcEq]; rfl) (unborrowed (by simp [pcEq]))
        (by rw [pcEq]; rfl) rfl rfl (by simp) (by simp) (by simp) taken
  | lastExchange =>
      simp only [pcEq] at taken
      exact ok.receiver_exchange (by rw [pcEq]; rfl) (unborrowed (by simp [pcEq]))
        (by rw [pcEq]; rfl) rfl rfl (by simp) (by simp) (fun _ => ok.seen (.inr pcEq)) taken
  | recvRead | lastRead =>
      simp only [pcEq, Option.some.injEq] at taken
      subst taken
      exact ok.receiver_read (by rw [pcEq]; rfl) (unborrowed (by simp [pcEq]))
        (by rw [pcEq]; rfl)
  | waitLoad phase =>
      simp only [pcEq] at taken
      obtain ⟨state, loaded, rfl⟩ := Option.map_eq_some_iff.mp taken
      have seen : decide (state ≠ SlotState.empty) = true → 1 ≤ index :=
        fun different => ok.stage.seen_of_load loaded (of_decide_eq_true different)
      refine ok.goto (by rw [pcEq]; rfl) (unborrowed (by simp [pcEq])) (by rw [pcEq]; rfl)
        rfl rfl rfl rfl rfl rfl rfl rfl ?_ ?_ ?_ ?_
      all_goals
        revert seen
        cases phase <;> cases decide (state ≠ SlotState.empty) <;>
          simp [receiverAt, waited, receiverClaim]
  | waitAnnounce =>
      simp only [pcEq, Option.some.injEq] at taken
      subst taken
      exact ok.goto (by rw [pcEq]; rfl) (unborrowed (by simp [pcEq])) (by rw [pcEq]; rfl)
        rfl rfl rfl rfl rfl rfl rfl rfl rfl (by simp [receiverAt]) (by simp [receiverAt])
        (by simp [receiverAt])
  | waitPark =>
      simp only [pcEq] at taken
      split at taken
      · cases taken
        exact ok.goto (by rw [pcEq]; rfl) (unborrowed (by simp [pcEq])) (by rw [pcEq]; rfl)
          rfl rfl rfl rfl rfl rfl rfl rfl rfl (by simp [receiverAt]) (by simp [receiverAt])
          (by simp [receiverAt])
      · cases taken
  | waitLeave =>
      simp only [pcEq, Option.some.injEq] at taken
      subst taken
      exact ok.goto (by rw [pcEq]; rfl) (unborrowed (by simp [pcEq])) (by rw [pcEq]; rfl)
        rfl rfl rfl rfl rfl rfl rfl rfl rfl (by simp [receiverAt])
        (fun _ => ok.seen (.inl pcEq)) (by simp [receiverAt])
  | dropExchange =>
      simp only [pcEq] at taken
      have holding : receiverDone s.receiver = false := by rw [pcEq]; rfl
      obtain ⟨result, exchanged, rfl⟩ := Option.map_eq_some_iff.mp taken
      cases result with
      | ok state =>
          obtain ⟨current, rfl⟩ := Location.compareExchange_ok exchanged
          cases ok.stage with
          | unsent path unclaimed holds =>
              have fresh : s.state.history = [.empty] := by
                apply path.resolve_right
                rintro ⟨path, -⟩
                rw [current_of_history path rfl] at current
                cases current
              refine ok.of_receiver holding (unborrowed (by simp [pcEq])) rfl rfl rfl ?_ ?_ ?_ ?_
              · intro said
                exfalso
                apply ok.not_said (.inl fresh)
                rcases said with said | said
                · exact .inl said
                · cases said
              · rintro (here | here) <;> cases here
              · intro here
                cases here
              · refine .unsent (.inr ⟨by simp [fresh], rfl⟩) ?_ ?_
                · rw [claims, pcEq] at unclaimed
                  exact unclaimed
                · revert holds
                  cases s.sender <;> simp only [SenderHolds, current] <;> simp
          | closed path =>
              rw [current_of_history path rfl] at current
              cases current
          | full value path =>
              rcases path with path | ⟨path, -⟩ <;>
                rw [current_of_history path rfl] at current <;> cases current
          | taken value path =>
              rw [current_of_history path rfl] at current
              cases current
      | error state =>
          exact ok.goto holding (unborrowed (by simp [pcEq])) (by rw [pcEq]; rfl)
            rfl rfl rfl rfl rfl rfl rfl rfl rfl (by simp [receiverAt]) (by simp [receiverAt])
            (by simp [receiverAt])

theorem OwnerOk.receiver_step {action : ReceiverAction} (ok : OwnerOk s)
    (taken : s.receiverStep action = some after) : OwnerOk after := by
  cases action with
  | tick index => exact ok.receiver_tick taken
  | recv | drop =>
      simp only [receiverStep] at taken
      split at taken
      · rename_i pcEq
        split at taken
        · rename_i unborrowed
          cases taken
          exact ok.goto (by rw [pcEq]; rfl) unborrowed (by rw [pcEq]; rfl)
            rfl rfl rfl rfl rfl rfl rfl rfl rfl (by simp [receiverAt]) (by simp [receiverAt])
            (by simp [receiverAt])
        · cases taken
      · cases taken
  | spin | spurious =>
      simp only [receiverStep] at taken
      split at taken
      · rename_i pcEq
        cases taken
        exact ok.goto (by rw [pcEq]; rfl) (ok.consumed.resolve_left (by simp [pcEq]))
          (by rw [pcEq]; rfl) rfl rfl rfl rfl rfl rfl rfl rfl rfl (by simp [receiverAt])
          (by simp [receiverAt]) (by simp [receiverAt])
      · cases taken

/-! ### Every run -/

theorem OwnerOk.tryRecv (ok : OwnerOk s) (shared : s.receiver = .shared) :
    OwnerOk ({ s with calls := s.calls ++ [.exchange] } : OneShot α) := by
  refine ok.of_call shared (ok.standing (by rw [shared]; rfl)) rfl rfl ok.notMisread ?_ ?_
  · intro said
    apply ok.said
    rcases said with said | said
    · exact .inl (by simpa using said)
    · exact .inr said
  · refine ok.stage.of_quiet rfl rfl rfl ?_ rfl rfl rfl id
    simp [claims, callClaim]

/-- Tearing `Inner` down destroys the value if and only if it is still in the slot. -/
theorem OwnerOk.dropInner (ok : OwnerOk s) (gone : s.sender = .gone)
    (done : receiverDone s.receiver = true) (standing : s.torn = false) :
    OwnerOk s.dropInner := by
  have rest (stage : Stage s.dropInner) (misread : s.dropInner.misread = false)
      (torn : s.dropInner.torn = true) (calls : s.dropInner.calls = s.calls)
      (receiver : s.dropInner.receiver = s.receiver) (state : s.dropInner.state = s.state)
      (sender : s.dropInner.sender = s.sender) (view : s.dropInner.view = s.view) :
      OwnerOk s.dropInner := by
    constructor
    · exact stage
    · exact misread
    · rw [receiver, unborrowed, calls]
      exact ok.consumed
    · intro _
      rw [receiver, sender]
      exact ⟨done, gone⟩
    · intro said
      rw [SaidClosed, calls, receiver] at said
      rw [state]
      exact ok.said said
    · rw [receiver, view]
      exact ok.seen
    · rw [receiver]
      exact ok.expected
  cases ok.stage with
  | unsent path unclaimed holds =>
      rw [gone] at holds
      have next : s.dropInner = { s with torn := true } := by
        unfold OneShot.dropInner
        rw [holds.1]
      rw [next] at rest ⊢
      refine rest (.unsent path unclaimed ?_) ok.notMisread rfl rfl rfl rfl rfl rfl
      change SenderHolds _ s.sender
      rw [gone]
      exact holds
  | closed path unclaimed unsent sender =>
      have current : s.state.current = .closed := current_of_history path rfl
      have next : s.dropInner = { s with torn := true } := by
        unfold OneShot.dropInner
        rw [current]
      rw [next] at rest ⊢
      exact rest (.closed path unclaimed unsent sender) ok.notMisread rfl rfl rfl rfl rfl rfl
  | full value path unclaimed sent sender kept =>
      obtain ⟨-, slot, destroyed⟩ := kept.resolve_right fun torn => by
        rw [standing] at torn
        cases torn.1
      have current : s.state.current = .full := by
        rcases path with path | ⟨path, -⟩ <;> exact current_of_history path rfl
      have next : s.dropInner =
          { s with torn := true, slot := .moved value, destroyed := [value] } := by
        unfold OneShot.dropInner
        rw [current, slot, destroyed]
        rfl
      rw [next] at rest ⊢
      exact rest (.full value path unclaimed sent sender (.inr ⟨rfl, rfl⟩)) ok.notMisread
        rfl rfl rfl rfl rfl rfl
  | taken value path sent kept sender claimed =>
      have current : s.state.current = .taken := current_of_history path rfl
      have next : s.dropInner = { s with torn := true } := by
        unfold OneShot.dropInner
        rw [current]
      rw [next] at rest ⊢
      exact rest (.taken value path sent kept sender claimed) ok.notMisread
        rfl rfl rfl rfl rfl rfl

theorem ownerOk_new : OwnerOk (new : OneShot α) := by
  constructor
  · exact .unsent (.inl rfl) rfl ⟨rfl, rfl, rfl⟩
  · rfl
  · exact .inl rfl
  · intro torn
    cases torn
  · rintro (said | said) <;> cases said
  · rintro (here | here) <;> cases here
  · intro here
    cases here

theorem ownerOk (reached : system.Reachable s) : OwnerOk s := by
  apply reached.invariant OwnerOk
  · rintro _ rfl
    exact ownerOk_new
  · intro before action after _ ok taken
    cases action with
    | sender action => exact ok.sender_step taken
    | tryRecv =>
        change before.step .tryRecv = some after at taken
        simp only [step] at taken
        split at taken
        · rename_i shared
          cases taken
          exact ok.tryRecv shared
        · cases taken
    | call id index => exact ok.call_tick taken
    | receiver action => exact ok.receiver_step taken
    | dropInner =>
        change before.step .dropInner = some after at taken
        simp only [step] at taken
        split at taken
        · rename_i gone
          split at taken
          · rename_i last
            cases taken
            rw [Bool.and_eq_true, Bool.not_eq_true'] at last
            exact ok.dropInner gone last.1 last.2
          · cases taken
        · cases taken

/-- The contract of the one-shot. -/
structure ExactlyOneOwner (s : OneShot α) : Prop where
  /-- At most one receive returns the value, and then it is not destroyed. -/
  atMostOne : s.handedOut ++ s.destroyed = [] ∨
    ∃ value, s.sent = some value ∧ s.handedOut ++ s.destroyed = [value]
  /-- Once everything is dropped, the value sent was returned or destroyed. -/
  settled : s.torn = true → s.handedOut ++ s.destroyed = s.sent.toList
  /-- The slot was read only when it was written and not taken. -/
  notMisread : s.misread = false
  /-- `Closed`: the sender is gone without sending, or a receive has taken the value. -/
  closed : s.SaidClosed →
    s.sent = none ∧ (s.sender = .dropWake ∨ s.sender = .gone) ∨ ∃ claim, s.claims = [claim]
  path : s.state.history.IsChain SlotState.Moves ∧ s.state.history.head? = some .empty
  expected : s.receiver ≠ .expectFailed

/-- Nobody reads the slot any more once everything is dropped. -/
theorem OwnerOk.none_not_mem (ok : OwnerOk s) (torn : s.torn = true) :
    none ∉ s.claims := by
  have done := (ok.torn torn).1
  have unborrowed : s.unborrowed = true := by
    apply ok.consumed.resolve_left
    intro shared
    rw [shared] at done
    cases done
  intro claimed
  rcases List.mem_append.mp claimed with inCalls | inReceiver
  · obtain ⟨call, member, claim⟩ := List.mem_filterMap.mp inCalls
    have returned := List.all_eq_true.mp unborrowed call member
    cases call with
    | exchange => cases claim
    | read => cases returned
    | returned result =>
        revert claim
        unfold callClaim
        split <;> simp_all
  · revert inReceiver done
    unfold receiverClaim
    split <;> simp_all [receiverDone]

/-- The value of a one-shot goes to exactly one owner, in every interleaving. -/
theorem one_owner (reached : system.Reachable s) : ExactlyOneOwner s := by
  have ok := ownerOk reached
  constructor
  · cases ok.stage with
    | unsent path unclaimed holds =>
        rw [handedOut, unclaimed]
        revert holds
        cases s.sender <;> simp only [SenderHolds] <;> intro holds <;> simp_all
        cases s.sent <;> simp
    | closed path unclaimed unsent sender => simp [handedOut, unclaimed, unsent.2]
    | full value path unclaimed sent sender kept =>
        rw [handedOut, unclaimed]
        rcases kept with ⟨-, -, destroyed⟩ | ⟨-, destroyed⟩ <;> simp [destroyed, sent]
    | taken value path sent kept sender claimed =>
        rw [handedOut, kept]
        rcases claimed with ⟨claims, -⟩ | claims <;> simp [claims, sent]
  · intro torn
    have noReader := ok.none_not_mem torn
    have gone := (ok.torn torn).2
    cases ok.stage with
    | unsent path unclaimed holds =>
        rw [gone] at holds
        simp [handedOut, unclaimed, holds.2]
    | closed path unclaimed unsent sender => simp [handedOut, unclaimed, unsent]
    | full value path unclaimed sent sender kept =>
        obtain ⟨-, destroyed⟩ := kept.resolve_left fun standing => by
          rw [torn] at standing
          cases standing.1
        simp [handedOut, unclaimed, destroyed, sent]
    | taken value path sent kept sender claimed =>
        rcases claimed with ⟨claims, -⟩ | claims
        · simp [claims] at noReader
        · simp [handedOut, claims, kept, sent]
  · exact ok.notMisread
  · intro said
    cases ok.stage with
    | unsent path => exact absurd said (ok.not_said path)
    | closed path unclaimed unsent sender => exact .inl ⟨unsent.1, sender⟩
    | full value path =>
        rcases ok.said said with current | current <;>
          rcases path with path | ⟨path, -⟩ <;>
            rw [current_of_history path rfl] at current <;> cases current
    | taken value path sent kept sender claimed =>
        rcases claimed with ⟨claims, -⟩ | claims <;> exact .inr ⟨_, claims⟩
  · exact ok.stage.path_moves
  · exact ok.expected

/-- The receiver is dropped between the sender's look at the state and its store, and the
store covers that up: the value is destroyed with the slot. -/
def dropBehindLook : List (OneShotAction Nat) :=
  [.tryRecv, .call 0 0, .sender (.send 7), .sender (.tick 0), .receiver .drop,
    .receiver (.tick 0), .sender (.tick 0), .sender (.tick 0), .sender (.tick 0), .dropInner]

theorem one_owner_dropBehindLook :
    ∃ s, Transition.execute step (new : OneShot Nat) dropBehindLook = some s ∧
      (s.torn = true ∧ s.destroyed = [7]) ∧ ExactlyOneOwner s := by
  have ran : (Transition.execute step (new : OneShot Nat) dropBehindLook).any
      (fun s => s.torn = true ∧ s.destroyed = [7]) = true := by
    decide
  obtain ⟨s, ran, outcome⟩ := Option.any_eq_true _ _ |>.mp ran
  exact ⟨s, ran, of_decide_eq_true outcome, one_owner (System.reachable_of_execute rfl ran)⟩

end OneShot

end ArbitroKit
