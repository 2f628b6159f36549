import ArbitroKit.MpmcAsyncDelivery
import ArbitroKit.MpmcAsyncSteps

/-!
# What becomes of one future

A future of `send_async`, from the call to its end, puts its value into one shard or into
none, and a future of `recv_async` hands out one item of one ring or nothing: nothing only if
it is dropped between two polls, or has found the channel terminal.
-/

namespace ArbitroKit

open Coherent SlotLane Cyclic Transition

namespace AwaitPc

/-- The future was dropped; its guards are not yet. -/
def dropping : AwaitPc Nat → Bool
  | .dropNotified .dropped => true
  | .disarm .dropped => true
  | _ => false

end AwaitPc

namespace AwaitNext

def dropping : AwaitNext Nat → Bool
  | .goes pc => pc.dropping
  | .returned => false
  | .dropped => true

/-- A turn of the condition does not drop the future. -/
theorem not_dropping_turned (phase : WaitPhase) (k count : Nat) (ready : Bool) :
    (AwaitPc.turned phase k count ready).dropping ≠ true := by
  unfold AwaitPc.turned
  split
  · cases phase <;> exact Bool.false_ne_true
  · split
    · exact Bool.false_ne_true
    · cases phase <;> exact Bool.false_ne_true

theorem dropping_of_tick {gate : AsyncGate} {first : Nat} {pc : AwaitPc Nat} {step : Awaited Nat}
    (taken : pc.tick gate first = some step) (dropping : step.next.dropping = true) :
    pc.dropping = true := by
  cases AwaitPc.tick_steps taken with
  | arm | ready | pending => cases dropping
  | dropNotified next => cases next <;> first | rfl | cases dropping
  | disarm next => cases next <;> first | rfl | cases dropping

end AwaitNext

namespace MpmcSenderPc

variable {α : Type*}

/-- The call is a `send_async` of the value, which is not in the ring as far as anybody knows. -/
def Carries (size : MpmcSize) (value : α) (dropped : Bool) : MpmcSenderPc α → Prop
  | .unpolled v => v = value
  | .loopShutdown v => v = value
  | .loopLive v => v = value
  | .waits v pc => v = value ∧ (pc.dropping = true → dropped = true)
  | .loadShutdown call v => call = .sendAsync value ∧ v = value
  | .loadLive call v => call = .sendAsync value ∧ v = value
  | .scan call items _ _ => call = .sendAsync value ∧ items = [value]
  | .write _ shard _ left written => shard < size.n ∧ written ++ left = [value]
  | .publish _ shard _ written => shard < size.n ∧ written = [value]
  | .wakeConsumer shard written _ => shard < size.n ∧ written = [value]
  | _ => False

variable {size : MpmcSize} {value : α} {dropped : Bool}

theorem carries_sendRejected :
    (AsyncMpmc.sendRejected (.sendAsync value)).Carries size value dropped :=
  ⟨rfl, fun never => by cases never⟩

theorem Carries.mono {pc : MpmcSenderPc α} (carries : pc.Carries size value dropped)
    {later : Bool} (grows : dropped = true → later = true) : pc.Carries size value later := by
  cases pc with
  | waits v pc => exact ⟨carries.1, fun dropping => grows (carries.2 dropping)⟩
  | _ => exact carries

end MpmcSenderPc

namespace AsyncMpmc

variable {α : Type*} {size : MpmcSize} {s after start : AsyncMpmc α} {shard p k : Nat}
  {value : α} {dropped : Bool}

/-- No producer can send any more. -/
def Terminal (s : AsyncMpmc α) : Prop := s.shutdown = true ∨ s.liveConsumers = 0

/-- What has become of the value by the end of the future. -/
inductive SendOver (size : MpmcSize) (p : Nat) (value : α) (start s : AsyncMpmc α)
    (dropped : Bool) : Prop
  | sent (shard : Nat) (inside : shard < size.n)
      (here : s.accepted shard p = start.accepted shard p ++ [value])
      (elsewhere : ∀ j, j ≠ shard → s.accepted j p = start.accepted j p)
  | unsent (nowhere : ∀ j, s.accepted j p = start.accepted j p)
      (why : dropped = true ∨ Terminal s)

/-- The same of the rings themselves: what their lanes have published. -/
inductive PublishedOver (size : MpmcSize) (p : Nat) (value : α) (start s : AsyncMpmc α)
    (dropped : Bool) : Prop
  | sent (shard : Nat) (inside : shard < size.n)
      (here : (s.rings shard p).lane.sent = (start.rings shard p).lane.sent ++ [value])
      (elsewhere : ∀ j < size.n, j ≠ shard →
        (s.rings j p).lane.sent = (start.rings j p).lane.sent)
  | unsent (nowhere : ∀ j < size.n, (s.rings j p).lane.sent = (start.rings j p).lane.sent)
      (why : dropped = true ∨ Terminal s)

theorem SendOver.published (done : SendOver size p value start s dropped)
    (before : ∀ j < size.n, (start.rings j p).lane.sent = start.accepted j p)
    (behind : ∀ j < size.n, (s.rings j p).lane.sent = s.accepted j p) :
    PublishedOver size p value start s dropped := by
  cases done with
  | sent shard inside here elsewhere =>
      refine .sent shard inside ?_ fun j inRange other => ?_
      · rw [behind shard inside, before shard inside, here]
      · rw [behind j inRange, before j inRange, elsewhere j other]
  | unsent nowhere why =>
      refine .unsent (fun j inRange => ?_) why
      rw [behind j inRange, before j inRange, nowhere j]

/-- The ring of an idle producer has published what it has accepted. -/
theorem sent_of_idle (reached : (system size).Reachable s) (inside : p < size.m)
    (idle : (s.senders p).pc = .idle) (j : Nat) (inRange : j < size.n) :
    (s.rings j p).lane.sent = s.accepted j p := by
  have link := (ok_of_reachable reached).links j inRange p inside
  rw [link.sent, idle]
  exact List.append_nil _

/-- The future is under way, or over. -/
def Sending (size : MpmcSize) (p : Nat) (value : α) (start s : AsyncMpmc α) (dropped : Bool) :
    Prop :=
  ((s.senders p).pc.Carries size value dropped ∧
      ∀ j, s.accepted j p = start.accepted j p) ∨
    ((s.senders p).pc = .idle ∧ SendOver size p value start s dropped)

/-- Producer `p` polls its future or drops it. -/
def pollsOrDrops (p : Nat) : AsyncMpmcAction α → Bool
  | .sender q (.tick _ _) => q == p
  | .sender q .cancel => q == p
  | _ => false

/-- Producer `p` drops its future. -/
def dropsSend (p : Nat) : AsyncMpmcAction α → Bool
  | .sender q .cancel => q == p
  | _ => false

/-! ### Steps of the others -/

theorem accepted_kept {action : AsyncMpmcAction α} (other : ofSender p action = false)
    (stepped : s.step size action = some after) (j : Nat) :
    after.accepted j p = s.accepted j p := by
  cases action with
  | sender q action =>
      exact (senderStep_frame (sender_of_step stepped)).accepted j p
        (beq_eq_false_iff_ne.mp other).symm
  | receiver shard action => rw [(receiverStep_frame (receiver_of_step stepped).2).accepted]
  | signaller k action => rw [(signallerStep_frame stepped).accepted]

theorem shutdown_of_signallerStep {action : MpmcTaskSignalAction}
    (stepped : s.signallerStep size k action = some after) (set : s.shutdown = true) :
    after.shutdown = true := by
  cases action with
  | signal =>
      simp only [signallerStep] at stepped
      split at stepped <;> cases stepped
      rfl
  | tick saw =>
      simp only [signallerStep] at stepped
      split at stepped
      · cases stepped
      · split at stepped
        · split at stepped <;> cases stepped <;> exact set
        · cases stepped
          exact set
      · split at stepped
        · split at stepped <;> cases stepped <;> exact set
        · cases stepped
          exact set

/-- A channel that nobody can send to any more stays so. -/
theorem Terminal.step (terminal : Terminal s) {action : AsyncMpmcAction α}
    (stepped : s.step size action = some after) : Terminal after := by
  cases action with
  | sender q action =>
      have frame := senderStep_frame (sender_of_step stepped)
      rw [Terminal, frame.shutdown, frame.liveConsumers]
      exact terminal
  | receiver shard action =>
      have frame := receiverStep_frame (receiver_of_step stepped).2
      rw [Terminal, frame.shutdown]
      refine terminal.imp_right fun none => ?_
      have le := frame.left
      omega
  | signaller k action =>
      rw [Terminal, (signallerStep_frame stepped).liveConsumers]
      exact terminal.imp_left (shutdown_of_signallerStep stepped)

theorem SendOver.other (done : SendOver size p value start s dropped)
    (kept : ∀ j, after.accepted j p = s.accepted j p) (stays : Terminal s → Terminal after) :
    SendOver size p value start after dropped := by
  cases done with
  | sent shard inside here elsewhere =>
      exact .sent shard inside ((kept shard).trans here)
        fun j other => (kept j).trans (elsewhere j other)
  | unsent nowhere why => exact .unsent (fun j => (kept j).trans (nowhere j)) (why.imp_right stays)

theorem Sending.other (sending : Sending size p value start s dropped)
    {action : AsyncMpmcAction α} (other : ofSender p action = false)
    (stepped : s.step size action = some after) : Sending size p value start after dropped := by
  have kept := accepted_kept other stepped
  rw [Sending, sender_kept other stepped]
  rcases sending with ⟨carries, nowhere⟩ | ⟨idle, done⟩
  · exact .inl ⟨carries, fun j => (kept j).trans (nowhere j)⟩
  · exact .inr ⟨idle, done.other kept fun terminal => terminal.step stepped⟩

/-! ### Steps of the future -/

/-- The wait goes on, or its loop does, or the future is gone. -/
theorem sending_waited {next : AwaitNext Nat} (pc : (after.senders p).pc = sendWaited value next)
    (nowhere : ∀ j, after.accepted j p = start.accepted j p)
    (drops : next.dropping = true → dropped = true) :
    Sending size p value start after dropped := by
  cases next with
  | goes wait =>
      refine .inl ⟨?_, nowhere⟩
      rw [pc]
      exact ⟨rfl, drops⟩
  | returned =>
      refine .inl ⟨?_, nowhere⟩
      rw [pc]
      exact rfl
  | dropped => exact .inr ⟨pc, .unsent nowhere (.inl (drops rfl))⟩

/-- A load of `shutdown`. -/
theorem sending_shutdown {index : Nat} {next : Bool → MpmcSenderPc α}
    (stepped : s.senderShutdown p index next = some after)
    (nowhere : ∀ j, s.accepted j p = start.accepted j p)
    (ends : next true = .idle ∨ (next true).Carries size value dropped)
    (goes : (next false).Carries size value dropped) :
    Sending size p value start after dropped := by
  obtain ⟨set, loaded, rfl⟩ := Option.map_eq_some_iff.mp stepped
  rw [Sending, senders_setSender]
  cases set with
  | false => exact .inl ⟨goes, nowhere⟩
  | true =>
      rcases ends with idle | carries
      · exact .inr ⟨idle, .unsent nowhere (.inr (.inl ((loadFlag_eq loaded).2.1 rfl)))⟩
      · exact .inl ⟨carries, nowhere⟩

/-- A load of `live_consumers`. -/
theorem sending_live {index : Nat} {next : Bool → MpmcSenderPc α}
    (stepped : s.senderLive p index next = some after)
    (nowhere : ∀ j, s.accepted j p = start.accepted j p)
    (ends : next true = .idle ∨ (next true).Carries size value dropped)
    (goes : (next false).Carries size value dropped) :
    Sending size p value start after dropped := by
  obtain ⟨zero, loaded, rfl⟩ := Option.map_eq_some_iff.mp stepped
  rw [Sending, senders_setSender]
  cases zero with
  | false => exact .inl ⟨goes, nowhere⟩
  | true =>
      rcases ends with idle | carries
      · have none := of_decide_eq_true ((loadFlag_eq loaded).2.1 rfl)
        exact .inr ⟨idle, .unsent nowhere (.inr (.inr none))⟩
      · exact .inl ⟨carries, nowhere⟩

/-- The task goes on with the value. -/
theorem sending_at (pc : MpmcSenderPc α) (nowhere : ∀ j, s.accepted j p = start.accepted j p)
    (carries : pc.Carries size value dropped) :
    Sending size p value start (s.senderAt p pc) dropped := by
  rw [Sending, pc_senderAt]
  exact .inl ⟨carries, nowhere⟩

theorem sending_wait {pc : AwaitPc Nat} {index : Nat}
    (stepped : s.senderWait size p value index pc = some after)
    (nowhere : ∀ j, s.accepted j p = start.accepted j p)
    (drops : pc.dropping = true → dropped = true) :
    Sending size p value start after dropped := by
  cases pc with
  | check phase turn =>
      change s.senderCheck size p value phase turn index = some after at stepped
      have undropped (ready : Bool) :
          (AwaitPc.turned phase turn (size.n + 2) ready).dropping = true → dropped = true :=
        fun never => absurd never (AwaitNext.not_dropping_turned _ _ _ ready)
      cases turn using watchCases with
      | shutdown | live =>
          obtain ⟨ready, -, rfl⟩ := Option.map_eq_some_iff.mp stepped
          exact sending_waited (congrArg MpmcSender.pc (senders_setSender ..)) nowhere
            (undropped ready)
      | peer j =>
          obtain ⟨⟨tail, ring⟩, -, rfl⟩ := Option.map_eq_some_iff.mp stepped
          exact sending_waited (pc_senderAt ..) nowhere (undropped _)
  | notified | poll | suspended | dropNotified next | disarm next =>
      simp only [senderWait, Option.map_eq_some_iff] at stepped
      obtain ⟨step, taken, rfl⟩ := stepped
      exact sending_waited (pc_senderAt ..) nowhere
        fun dropping => drops (AwaitNext.dropping_of_tick taken dropping)

/-- A poll of the future. -/
theorem Sending.tick (sending : Sending size p value start s dropped) {index : Nat} {saw : Bool}
    (stepped : s.senderTick size p index saw = some after) :
    Sending size p value start after dropped := by
  rcases sending with ⟨carries, nowhere⟩ | ⟨idle, -⟩
  · cases here : (s.senders p).pc with
    | idle | gone | fetchSub | wakeLast j stage =>
        rw [here] at carries
        exact carries.elim
    | unpolled v =>
        rw [here] at carries
        simp only [senderTick, here, Option.some.injEq] at stepped
        subst stepped
        exact sending_at _ nowhere carries
    | loopShutdown v =>
        rw [here] at carries
        simp only [senderTick, here] at stepped
        exact sending_shutdown stepped nowhere (.inl rfl) carries
    | loopLive v =>
        rw [here] at carries
        obtain rfl : v = value := carries
        simp only [senderTick, here] at stepped
        exact sending_live stepped nowhere (.inl rfl) ⟨rfl, rfl⟩
    | waits v pc =>
        rw [here] at carries
        obtain ⟨rfl, drops⟩ := carries
        simp only [senderTick, here] at stepped
        exact sending_wait stepped nowhere drops
    | loadShutdown call v =>
        rw [here] at carries
        obtain ⟨rfl, rfl⟩ := carries
        simp only [senderTick, here] at stepped
        exact sending_shutdown stepped nowhere (.inr MpmcSenderPc.carries_sendRejected) ⟨rfl, rfl⟩
    | loadLive call v =>
        rw [here] at carries
        obtain ⟨rfl, rfl⟩ := carries
        simp only [senderTick, here] at stepped
        exact sending_live stepped nowhere (.inr MpmcSenderPc.carries_sendRejected) ⟨rfl, rfl⟩
    | scan call items first turn =>
        rw [here] at carries
        obtain ⟨rfl, rfl⟩ := carries
        simp only [senderTick, here] at stepped
        obtain ⟨⟨tail, ring⟩, -, rfl⟩ := Option.map_eq_some_iff.mp stepped
        refine sending_at _ nowhere ?_
        dsimp only
        split
        · split
          · exact ⟨rfl, rfl⟩
          · exact MpmcSenderPc.carries_sendRejected
        · rename_i room
          refine ⟨Nat.mod_lt _ size.n_pos, ?_⟩
          rw [List.nil_append]
          apply List.take_of_length_le
          rw [List.length_singleton]
          omega
    | write call j head left written =>
        rw [here] at carries
        obtain ⟨inside, whole⟩ := carries
        simp only [senderTick, here] at stepped
        split at stepped <;> cases stepped
        · refine sending_at _ nowhere ⟨inside, ?_⟩
          rw [← whole, List.append_nil]
        · refine sending_at _ nowhere ⟨inside, ?_⟩
          rw [← whole, List.append_assoc]
          rfl
    | publish call j head written =>
        rw [here] at carries
        simp only [senderTick, here, Option.some.injEq] at stepped
        subst stepped
        exact sending_at _ nowhere carries
    | wakeConsumer j written stage =>
        rw [here] at carries
        obtain ⟨inside, rfl⟩ := carries
        simp only [senderTick, here] at stepped
        split at stepped <;> cases stepped
        · exact sending_at _ nowhere ⟨inside, rfl⟩
        · rw [Sending, senders_setSender]
          refine .inr ⟨rfl, .sent j inside ?_ fun other different => ?_⟩
          · change setEntry s.accepted j p (s.accepted j p ++ [value]) j p = _
            rw [setEntry_self, nowhere j]
          · change setEntry s.accepted j p (s.accepted j p ++ [value]) other p = _
            rw [setEntry_of_ne (.inl different), nowhere other]
  · simp [senderTick, idle] at stepped

/-- The future is dropped between two polls. -/
theorem Sending.cancel (sending : Sending size p value start s dropped)
    (stepped : s.senderStep size p .cancel = some after) :
    Sending size p value start after true := by
  rcases sending with ⟨carries, nowhere⟩ | ⟨idle, -⟩
  · simp only [senderStep] at stepped
    split at stepped <;> cases stepped
    · rw [Sending, pc_senderAt]
      exact .inr ⟨rfl, .unsent nowhere (.inl rfl)⟩
    · rename_i v here
      rw [here] at carries
      exact sending_at _ nowhere ⟨carries.1, fun _ => rfl⟩
  · simp [senderStep, idle] at stepped

theorem Sending.mono (sending : Sending size p value start s dropped) {later : Bool}
    (grows : dropped = true → later = true) : Sending size p value start s later := by
  rcases sending with ⟨carries, nowhere⟩ | ⟨idle, done⟩
  · exact .inl ⟨carries.mono grows, nowhere⟩
  · refine .inr ⟨idle, ?_⟩
    cases done with
    | sent shard inside here elsewhere => exact .sent shard inside here elsewhere
    | unsent nowhere why => exact .unsent nowhere (why.imp_left grows)

/-- Every step in which the producer begins no other call. -/
theorem Sending.step (sending : Sending size p value start s dropped)
    {action : AsyncMpmcAction α}
    (alone : ofSender p action = true → pollsOrDrops p action = true)
    (stepped : s.step size action = some after) :
    Sending size p value start after (dropped || dropsSend p action) := by
  cases own : ofSender p action with
  | false =>
      exact (sending.other own stepped).mono fun was => by rw [was, Bool.true_or]
  | true =>
      cases action with
      | receiver j action | signaller j action => cases own
      | sender q action =>
          obtain rfl := beq_iff_eq.mp own
          have polls := alone own
          cases action with
          | tick index saw =>
              exact (sending.tick (sender_of_step stepped)).mono fun was => by
                rw [was, Bool.true_or]
          | cancel =>
              refine (sending.cancel (sender_of_step stepped)).mono fun _ => ?_
              rw [dropsSend, beq_self_eq_true, Bool.or_true]
          | _ => cases polls

/-! ### Whole runs -/

theorem Sending.run (sending : Sending size p value start s dropped)
    {actions : List (AsyncMpmcAction α)}
    (alone : ∀ action ∈ actions, ofSender p action = true → pollsOrDrops p action = true)
    (ran : Transition.execute (fun s action => s.step size action) s actions = some after) :
    Sending size p value start after (dropped || actions.any (dropsSend p)) := by
  induction actions generalizing s dropped with
  | nil =>
      obtain rfl : s = after := by simpa [Transition.execute] using ran
      rw [List.any_nil, Bool.or_false]
      exact sending
  | cons action actions ih =>
      obtain ⟨next, stepped, rest⟩ := Option.bind_eq_some_iff.mp ran
      have first := sending.step (alone action List.mem_cons_self) stepped
      rw [List.any_cons, ← Bool.or_assoc]
      exact ih first (fun later inside => alone later (List.mem_cons_of_mem _ inside)) rest

/-- One `send_async`, from its call to the idle handle, in whatever interleaving: its value has
gone into one shard, once, or into none, and then the future was dropped or the channel is
terminal.  In a reachable state the rings have published just that. -/
theorem sendAsync_allOrNothing {actions : List (AsyncMpmcAction α)}
    (alone : ∀ action ∈ actions, ofSender p action = true → pollsOrDrops p action = true)
    (called : s.step size (.sender p (.sendAsync value)) = some start)
    (ran : Transition.execute (fun s action => s.step size action) start actions = some after)
    (idle : (after.senders p).pc = .idle) :
    SendOver size p value s after (actions.any (dropsSend p)) ∧
      ((system size).Reachable s →
        PublishedOver size p value s after (actions.any (dropsSend p))) := by
  have inside := called
  simp only [step] at inside
  split at inside
  case isFalse => cases inside
  rename_i inRange
  have begins := sender_of_step called
  simp only [senderStep, senderCall] at begins
  split at begins <;> cases begins
  rename_i starts
  have sending : Sending size p value s (s.senderAt p (.unpolled value)) false :=
    sending_at _ (fun _ => rfl) rfl
  have done := sending.run alone ran
  rw [Bool.false_or] at done
  rcases done with ⟨carries, -⟩ | ⟨-, done⟩
  · rw [idle] at carries
    exact carries.elim
  · refine ⟨done, fun reached => done.published (sent_of_idle reached inRange starts)
      (sent_of_idle ?_ inRange idle)⟩
    exact (reached.next called).leads (System.leads_of_execute ran)

def fillBoth : List (AsyncMpmcAction Nat) :=
  [AsyncMpmcAction.sender 0 (.trySend 7)] ++
    List.replicate 8 (AsyncMpmcAction.sender 0 (.tick 0 false)) ++
    [AsyncMpmcAction.sender 0 (.trySend 8)] ++
    List.replicate 8 (AsyncMpmcAction.sender 0 (.tick 0 false))

/-- The future goes to sleep behind both rings, a `try_recv` wakes it, and it sends. -/
def sleepThenSend : List (AsyncMpmcAction Nat) :=
  List.replicate 17 (AsyncMpmcAction.sender 0 (.tick 0 false)) ++
    [AsyncMpmcAction.receiver 0 .tryRecv] ++
    List.replicate 6 (AsyncMpmcAction.receiver 0 (.tick 1 false)) ++
    List.replicate 5 (AsyncMpmcAction.sender 0 (.tick 0 false)) ++
    [AsyncMpmcAction.sender 0 (.tick 1 false)] ++
    List.replicate 4 (AsyncMpmcAction.sender 0 (.tick 0 false)) ++
    List.replicate 6 (AsyncMpmcAction.sender 0 (.tick 1 false))

theorem sendAsync_allOrNothing_sleepThenSend :
    ∃ s start after : AsyncMpmc Nat,
      Transition.execute (fun s action => s.step MpmcState.twoShards action)
          (new MpmcState.twoShards) fillBoth = some s ∧
        after.accepted 0 0 = [7, 10] ∧
        s.step MpmcState.twoShards (.sender 0 (.sendAsync 10)) = some start ∧
        SendOver MpmcState.twoShards 0 10 s after (sleepThenSend.any (dropsSend 0)) ∧
        PublishedOver MpmcState.twoShards 0 10 s after (sleepThenSend.any (dropsSend 0)) := by
  have ran : ((Transition.execute (fun s action => s.step MpmcState.twoShards action)
      (new MpmcState.twoShards : AsyncMpmc Nat) fillBoth).bind fun s =>
        (s.step MpmcState.twoShards (.sender 0 (.sendAsync 10))).bind fun start =>
          (Transition.execute (fun s action => s.step MpmcState.twoShards action) start
            sleepThenSend).map fun after => ((after.senders 0).pc, after.accepted 0 0)) =
      some (.idle, [7, 10]) := by
    rfl
  obtain ⟨s, filled, ran⟩ := Option.bind_eq_some_iff.mp ran
  obtain ⟨start, called, ran⟩ := Option.bind_eq_some_iff.mp ran
  obtain ⟨after, ran, outcome⟩ := Option.map_eq_some_iff.mp ran
  rw [Prod.mk.injEq] at outcome
  obtain ⟨fate, published⟩ := sendAsync_allOrNothing (by decide) called ran outcome.1
  exact ⟨s, start, after, filled, outcome.2, called, fate,
    published (System.reachable_of_execute rfl filled)⟩

end AsyncMpmc

/-! ### One receive -/

namespace MpmcReceiverPc

variable {α : Type*}

/-- The call is a `recv_async` that has handed nothing out yet. -/
def Asks (m : Nat) (dropped : Bool) : MpmcReceiverPc α → Prop
  | .unpolled => True
  | .loopShutdown => True
  | .loopLive => True
  | .waits pc => pc.dropping = true → dropped = true
  | .scan call p => call = .recvAsync ∧ p < m
  | .scanRead _ p _ => p < m
  | .scanStore p _ _ => p < m
  | .scanWake p _ _ => p < m
  | .undefined => True
  | _ => False

variable {size : MpmcSize} {dropped : Bool}

theorem asks_scanAt (p : Nat) :
    (AsyncMpmc.scanAt size .recvAsync p : MpmcReceiverPc α).Asks size.m dropped := by
  unfold AsyncMpmc.scanAt
  split
  · exact ⟨rfl, by assumption⟩
  · trivial

theorem Asks.mono {pc : MpmcReceiverPc α} (asks : pc.Asks size.m dropped) {later : Bool}
    (grows : dropped = true → later = true) : pc.Asks size.m later := by
  cases pc with
  | waits pc => exact fun dropping => grows (asks dropping)
  | _ => exact asks

end MpmcReceiverPc

namespace AsyncMpmc

variable {α : Type*} {size : MpmcSize} {s after start : AsyncMpmc α} {shard p k : Nat}
  {dropped : Bool}

/-- Nobody can send to a consumer any more. -/
def Ended (s : AsyncMpmc α) : Prop := s.shutdown = true ∨ s.liveProducers = 0

/-- What the shard's consumer has got by the end of the future. -/
inductive RecvOver (size : MpmcSize) (shard : Nat) (start s : AsyncMpmc α) (dropped : Bool) :
    Prop
  | took (p : Nat) (value : α) (inside : p < size.m)
      (here : s.delivered shard p = start.delivered shard p ++ [value])
      (elsewhere : ∀ q, q ≠ p → s.delivered shard q = start.delivered shard q)
  | nothing (nowhere : ∀ q, s.delivered shard q = start.delivered shard q)
      (why : dropped = true ∨ Ended s)

/-- The future is under way, or over. -/
def Receiving (size : MpmcSize) (shard : Nat) (start s : AsyncMpmc α) (dropped : Bool) : Prop :=
  ((s.receivers shard).pc.Asks size.m dropped ∧
      ∀ q, s.delivered shard q = start.delivered shard q) ∨
    ((s.receivers shard).pc = .idle ∧ RecvOver size shard start s dropped)

/-- The shard's consumer polls its future or drops it. -/
def asksOrDrops (shard : Nat) : AsyncMpmcAction α → Bool
  | .receiver j (.tick _ _) => j == shard
  | .receiver j .cancel => j == shard
  | _ => false

/-- The shard's consumer drops its future. -/
def dropsRecv (shard : Nat) : AsyncMpmcAction α → Bool
  | .receiver j .cancel => j == shard
  | _ => false

theorem delivered_kept {action : AsyncMpmcAction α} (other : ofReceiver shard action = false)
    (stepped : s.step size action = some after) (q : Nat) :
    after.delivered shard q = s.delivered shard q := by
  cases action with
  | sender p action => rw [(senderStep_frame (sender_of_step stepped)).delivered]
  | receiver j action =>
      rw [(receiverStep_frame (receiver_of_step stepped).2).delivered shard
        (beq_eq_false_iff_ne.mp other).symm]
  | signaller k action => rw [(signallerStep_frame stepped).delivered]

/-- A channel that nobody can send to a consumer of any more stays so. -/
theorem Ended.step (ended : Ended s) {action : AsyncMpmcAction α}
    (stepped : s.step size action = some after) : Ended after := by
  cases action with
  | sender q action =>
      have frame := senderStep_frame (sender_of_step stepped)
      rw [Ended, frame.shutdown]
      refine ended.imp_right fun none => ?_
      have le := frame.left
      omega
  | receiver shard action =>
      have frame := receiverStep_frame (receiver_of_step stepped).2
      rw [Ended, frame.shutdown, frame.liveProducers]
      exact ended
  | signaller k action =>
      rw [Ended, (signallerStep_frame stepped).liveProducers]
      exact ended.imp_left (shutdown_of_signallerStep stepped)

theorem Receiving.other (receiving : Receiving size shard start s dropped)
    {action : AsyncMpmcAction α} (other : ofReceiver shard action = false)
    (stepped : s.step size action = some after) : Receiving size shard start after dropped := by
  have kept := delivered_kept other stepped
  rw [Receiving, receiver_kept other stepped]
  rcases receiving with ⟨asks, nowhere⟩ | ⟨idle, done⟩
  · exact .inl ⟨asks, fun q => (kept q).trans (nowhere q)⟩
  · refine .inr ⟨idle, ?_⟩
    cases done with
    | took p value inside here elsewhere =>
        exact .took p value inside ((kept p).trans here)
          fun q different => (kept q).trans (elsewhere q different)
    | nothing nowhere why =>
        exact .nothing (fun q => (kept q).trans (nowhere q))
          (why.imp_right fun ended => ended.step stepped)

/-- The task goes on with its future. -/
theorem receiving_at (pc : MpmcReceiverPc α)
    (nowhere : ∀ q, s.delivered shard q = start.delivered shard q)
    (asks : pc.Asks size.m dropped) :
    Receiving size shard start (s.receiverAt shard pc) dropped := by
  rw [Receiving, pc_receiverAt]
  exact .inl ⟨asks, nowhere⟩

/-- The wait goes on, or its loop does, or the future is gone. -/
theorem receiving_waited {next : AwaitNext Nat}
    (pc : (after.receivers shard).pc = recvWaited size next)
    (nowhere : ∀ q, after.delivered shard q = start.delivered shard q)
    (drops : next.dropping = true → dropped = true) :
    Receiving size shard start after dropped := by
  cases next with
  | goes wait =>
      refine .inl ⟨?_, nowhere⟩
      rw [pc]
      exact drops
  | returned =>
      refine .inl ⟨?_, nowhere⟩
      rw [pc]
      exact MpmcReceiverPc.asks_scanAt 0
  | dropped => exact .inr ⟨pc, .nothing nowhere (.inl (drops rfl))⟩

theorem receiving_wait {pc : AwaitPc Nat} {index : Nat}
    (stepped : s.receiverWait size shard index pc = some after)
    (nowhere : ∀ q, s.delivered shard q = start.delivered shard q)
    (drops : pc.dropping = true → dropped = true) :
    Receiving size shard start after dropped := by
  cases pc with
  | check phase turn =>
      have undropped (ready : Bool) :
          (AwaitPc.turned phase turn (size.m + 2) ready).dropping = true → dropped = true :=
        fun never => absurd never (AwaitNext.not_dropping_turned _ _ _ ready)
      change s.receiverCheck size shard phase turn index = some after at stepped
      unfold receiverCheck at stepped
      dsimp only at stepped
      split at stepped
      · obtain ⟨⟨head, ring⟩, -, rfl⟩ := Option.map_eq_some_iff.mp stepped
        exact receiving_waited (pc_receiverAt ..) nowhere (undropped _)
      · split at stepped
        · obtain ⟨ready, -, rfl⟩ := Option.map_eq_some_iff.mp stepped
          exact receiving_waited (congrArg MpmcReceiver.pc (receivers_setReceiver ..)) nowhere
            (undropped ready)
        · obtain ⟨ready, -, rfl⟩ := Option.map_eq_some_iff.mp stepped
          exact receiving_waited (congrArg MpmcReceiver.pc (receivers_setReceiver ..)) nowhere
            (undropped ready)
  | notified | poll | suspended | dropNotified next | disarm next =>
      simp only [receiverWait, Option.map_eq_some_iff] at stepped
      obtain ⟨step, taken, rfl⟩ := stepped
      exact receiving_waited (pc_receiverAt ..) nowhere
        fun dropping => drops (AwaitNext.dropping_of_tick taken dropping)

/-- A poll of the future. -/
theorem Receiving.tick (receiving : Receiving size shard start s dropped) {index : Nat}
    {saw : Bool} (stepped : s.receiverTick size shard index saw = some after) :
    Receiving size shard start after dropped := by
  rcases receiving with ⟨asks, nowhere⟩ | ⟨idle, -⟩
  · cases here : (s.receivers shard).pc with
    | undefined => simp [receiverTick, here] at stepped
    | unpolled =>
        simp only [receiverTick, here, Option.some.injEq] at stepped
        subst stepped
        exact receiving_at _ nowhere (MpmcReceiverPc.asks_scanAt 0)
    | loopShutdown =>
        simp only [receiverTick, here] at stepped
        obtain ⟨set, loaded, rfl⟩ := Option.map_eq_some_iff.mp stepped
        rw [Receiving, receivers_setReceiver]
        cases set with
        | false => exact .inl ⟨trivial, nowhere⟩
        | true =>
            exact .inr ⟨rfl, .nothing nowhere (.inr (.inl ((loadFlag_eq loaded).2.1 rfl)))⟩
    | loopLive =>
        simp only [receiverTick, here] at stepped
        obtain ⟨zero, loaded, rfl⟩ := Option.map_eq_some_iff.mp stepped
        rw [Receiving, receivers_setReceiver]
        cases zero with
        | false =>
            have asks : (MpmcReceiverPc.waits (.check .entry 0) : MpmcReceiverPc α).Asks
                size.m dropped := by
              intro never
              cases never
            exact .inl ⟨asks, nowhere⟩
        | true =>
            have none := of_decide_eq_true ((loadFlag_eq loaded).2.1 rfl)
            exact .inr ⟨rfl, .nothing nowhere (.inr (.inr none))⟩
    | waits pc =>
        rw [here] at asks
        simp only [receiverTick, here] at stepped
        exact receiving_wait stepped nowhere asks
    | scan call p =>
        rw [here] at asks
        obtain ⟨rfl, inside⟩ := asks
        simp only [receiverTick, here] at stepped
        obtain ⟨⟨head, ring⟩, -, rfl⟩ := Option.map_eq_some_iff.mp stepped
        refine receiving_at _ nowhere ?_
        dsimp only
        split
        · exact MpmcReceiverPc.asks_scanAt (p + 1)
        · exact inside
    | scanRead call p tail =>
        rw [here] at asks
        simp only [receiverTick, here, Option.some.injEq] at stepped
        subst stepped
        unfold readSlot
        dsimp only
        split
        · exact receiving_at _ nowhere asks
        · exact receiving_at _ nowhere trivial
    | scanStore p tail value =>
        rw [here] at asks
        simp only [receiverTick, here, Option.some.injEq] at stepped
        subst stepped
        exact receiving_at _ nowhere asks
    | scanWake p value stage =>
        rw [here] at asks
        simp only [receiverTick, here] at stepped
        split at stepped <;> cases stepped
        · exact receiving_at _ nowhere asks
        · rw [Receiving, pc_receiverAt]
          refine .inr ⟨rfl, .took p value asks ?_ fun q different => ?_⟩
          · change setEntry s.delivered shard p (s.delivered shard p ++ [value]) shard p = _
            rw [setEntry_self, nowhere p]
          · change setEntry s.delivered shard p (s.delivered shard p ++ [value]) shard q = _
            rw [setEntry_of_ne (.inr different), nowhere q]
    | _ =>
        rw [here] at asks
        exact asks.elim
  · simp [receiverTick, idle] at stepped

/-- The future is dropped between two polls. -/
theorem Receiving.cancel (receiving : Receiving size shard start s dropped)
    (stepped : s.receiverStep size shard .cancel = some after) :
    Receiving size shard start after true := by
  rcases receiving with ⟨asks, nowhere⟩ | ⟨idle, -⟩
  · simp only [receiverStep] at stepped
    split at stepped <;> cases stepped
    · rw [Receiving, pc_receiverAt]
      exact .inr ⟨rfl, .nothing nowhere (.inl rfl)⟩
    · exact receiving_at _ nowhere fun _ => rfl
  · simp [receiverStep, idle] at stepped

theorem Receiving.mono (receiving : Receiving size shard start s dropped) {later : Bool}
    (grows : dropped = true → later = true) : Receiving size shard start s later := by
  rcases receiving with ⟨asks, nowhere⟩ | ⟨idle, done⟩
  · exact .inl ⟨asks.mono grows, nowhere⟩
  · refine .inr ⟨idle, ?_⟩
    cases done with
    | took p value inside here elsewhere => exact .took p value inside here elsewhere
    | nothing nowhere why => exact .nothing nowhere (why.imp_left grows)

/-- Every step in which the consumer begins no other call. -/
theorem Receiving.step (receiving : Receiving size shard start s dropped)
    {action : AsyncMpmcAction α}
    (alone : ofReceiver shard action = true → asksOrDrops shard action = true)
    (stepped : s.step size action = some after) :
    Receiving size shard start after (dropped || dropsRecv shard action) := by
  cases own : ofReceiver shard action with
  | false => exact (receiving.other own stepped).mono fun was => by rw [was, Bool.true_or]
  | true =>
      cases action with
      | sender q action | signaller k action => cases own
      | receiver j action =>
          obtain rfl := beq_iff_eq.mp own
          have polls := alone own
          cases action with
          | tick index saw =>
              exact (receiving.tick (receiver_of_step stepped).2).mono fun was => by
                rw [was, Bool.true_or]
          | cancel =>
              refine (receiving.cancel (receiver_of_step stepped).2).mono fun _ => ?_
              rw [dropsRecv, beq_self_eq_true, Bool.or_true]
          | _ => cases polls

theorem Receiving.run (receiving : Receiving size shard start s dropped)
    {actions : List (AsyncMpmcAction α)}
    (alone : ∀ action ∈ actions, ofReceiver shard action = true →
      asksOrDrops shard action = true)
    (ran : Transition.execute (fun s action => s.step size action) s actions = some after) :
    Receiving size shard start after (dropped || actions.any (dropsRecv shard)) := by
  induction actions generalizing s dropped with
  | nil =>
      obtain rfl : s = after := by simpa [Transition.execute] using ran
      rw [List.any_nil, Bool.or_false]
      exact receiving
  | cons action actions ih =>
      obtain ⟨next, stepped, rest⟩ := Option.bind_eq_some_iff.mp ran
      have first := receiving.step (alone action List.mem_cons_self) stepped
      rw [List.any_cons, ← Bool.or_assoc]
      exact ih first (fun later inside => alone later (List.mem_cons_of_mem _ inside)) rest

/-- One `recv_async`, from its call to the idle handle, in whatever interleaving: it has handed
out one item of one ring, or nothing, and then the future was dropped or the channel has
ended. -/
theorem recvAsync_oneOrNothing {actions : List (AsyncMpmcAction α)}
    (alone : ∀ action ∈ actions, ofReceiver shard action = true →
      asksOrDrops shard action = true)
    (called : s.step size (.receiver shard .recvAsync) = some start)
    (ran : Transition.execute (fun s action => s.step size action) start actions = some after)
    (idle : (after.receivers shard).pc = .idle) :
    RecvOver size shard s after (actions.any (dropsRecv shard)) := by
  have begins := (receiver_of_step called).2
  simp only [receiverStep, receiverCall] at begins
  split at begins <;> cases begins
  have receiving : Receiving size shard s (s.receiverAt shard .unpolled) false :=
    receiving_at _ (fun _ => rfl) trivial
  have done := receiving.run alone ran
  rw [Bool.false_or] at done
  rcases done with ⟨asks, -⟩ | ⟨-, done⟩
  · rw [idle] at asks
    exact asks.elim
  · exact done

/-- The future goes to sleep in front of its empty ring, a `try_send` wakes it, and it takes the
item. -/
def sleepThenTake : List (AsyncMpmcAction Nat) :=
  List.replicate 12 (AsyncMpmcAction.receiver 0 (.tick 0 false)) ++
    [AsyncMpmcAction.sender 0 (.trySend 7)] ++
    List.replicate 9 (AsyncMpmcAction.sender 0 (.tick 0 false)) ++
    List.replicate 3 (AsyncMpmcAction.receiver 0 (.tick 0 false)) ++
    List.replicate 6 (AsyncMpmcAction.receiver 0 (.tick 1 false))

theorem recvAsync_oneOrNothing_sleepThenTake :
    ∃ start after : AsyncMpmc Nat,
      (new MpmcState.twoShards).step MpmcState.twoShards (.receiver 0 .recvAsync) = some start ∧
        after.delivered 0 0 = [7] ∧
        RecvOver MpmcState.twoShards 0 (new MpmcState.twoShards) after
          (sleepThenTake.any (dropsRecv 0)) := by
  have ran : (((new MpmcState.twoShards : AsyncMpmc Nat).step MpmcState.twoShards
      (.receiver 0 .recvAsync)).bind fun start =>
        (Transition.execute (fun s action => s.step MpmcState.twoShards action) start
          sleepThenTake).map fun after => ((after.receivers 0).pc, after.delivered 0 0)) =
      some (.idle, [7]) := by
    rfl
  obtain ⟨start, called, ran⟩ := Option.bind_eq_some_iff.mp ran
  obtain ⟨after, ran, outcome⟩ := Option.map_eq_some_iff.mp ran
  rw [Prod.mk.injEq] at outcome
  exact ⟨start, after, called, outcome.2,
    recvAsync_oneOrNothing (by decide) called ran outcome.1⟩

end AsyncMpmc

end ArbitroKit
