import ArbitroKit.Ring

/-!
# What a channel of many producers is for

One bounded queue for each producer, one consumer.  A receive takes the oldest item of
the first queue that has one; a batch takes everything.  The operations below do not
overlap, and the last section says what a history of them is.
-/

namespace ArbitroKit

/-- One operation; the producer's ones name the producer. -/
inductive ChannelOp (α : Type*) where
  | trySend (p : Nat) (value : α)
  | tryRecv
  | tryRecvBatch
  -- `recv` and `recv_batch`, up to the decision to park
  | recv
  | recvBatch
  | dropProducer (p : Nat)
  | signal
  | producerPending (p : Nat)
  | producerAvailable (p : Nat)
  | consumerPending
  deriving Repr

/-- What a receive that may block has decided; `again` is one more turn of its loop. -/
inductive Decision (β : Type*) where
  | deliver (received : β)
  | shutdown
  | park
  | again
  deriving DecidableEq, Repr

/-- What an operation returned, and the items it handed to the callback. -/
inductive ChannelResult (α : Type*) where
  | trySend (result : Except α Unit)
  | tryRecv (result : Option α)
  | tryRecvBatch (count : Nat) (items : List α)
  | recv (decision : Decision α)
  | recvBatch (decision : Decision (Nat × List α))
  | done
  | count (items : Usize)

/-- The queues, the producers whose handles are still there, and the shutdown flag. -/
structure Channel (α : Type*) where
  queues : Nat → List α
  held : Nat → Bool
  shutdown : Bool

namespace Channel

variable {α : Type*}

def new : Channel α := ⟨fun _ => [], fun _ => true, false⟩

def setQueue (channel : Channel α) (p : Nat) (queue : List α) : Channel α :=
  { channel with queues := Function.update channel.queues p queue }

/-- Nobody can send any more. -/
def closed (m : Nat) (channel : Channel α) : Bool :=
  channel.shutdown || (List.range m).all fun p => !channel.held p

def trySend (cap : Cap) (channel : Channel α) (p : Nat) (value : α) :
    Except α Unit × Channel α :=
  if channel.shutdown then
    (.error value, channel)
  else if (channel.queues p).length < cap.size then
    (.ok (), channel.setQueue p (channel.queues p ++ [value]))
  else
    (.error value, channel)

/-- The oldest item of the first of these queues that has one. -/
def takeFirst (channel : Channel α) : List Nat → Option α × Channel α
  | [] => (none, channel)
  | p :: rest =>
      match channel.queues p with
      | value :: queue => (some value, channel.setQueue p queue)
      | [] => channel.takeFirst rest

/-- Everything in these queues. -/
def takeAll (channel : Channel α) : List Nat → List α × Channel α
  | [] => ([], channel)
  | p :: rest =>
      let later := (channel.setQueue p []).takeAll rest
      (channel.queues p ++ later.1, later.2)

/-- An empty-handed receive. -/
def emptyHanded (m : Nat) (channel : Channel α) {β : Type*} : Decision β :=
  if channel.closed m then .shutdown else .park

/-- The items in all queues. -/
def pending (m : Nat) (channel : Channel α) : Usize :=
  ((List.range m).map fun p => BitVec.ofNat 64 (channel.queues p).length).sum

def step (cap : Cap) (m : Nat) (channel : Channel α) :
    ChannelOp α → ChannelResult α × Channel α
  | .trySend p value =>
      let (result, channel) := channel.trySend cap p value
      (.trySend result, channel)
  | .tryRecv =>
      let (result, channel) := channel.takeFirst (List.range m)
      (.tryRecv result, channel)
  | .tryRecvBatch =>
      let (items, channel) := channel.takeAll (List.range m)
      (.tryRecvBatch items.length items, channel)
  | .recv =>
      match channel.takeFirst (List.range m) with
      | (some value, channel) => (.recv (.deliver value), channel)
      | (none, channel) => (.recv (channel.emptyHanded m), channel)
  | .recvBatch =>
      match channel.takeAll (List.range m) with
      | ([], channel) => (.recvBatch (channel.emptyHanded m), channel)
      | (items, channel) => (.recvBatch (.deliver (items.length, items)), channel)
  | .dropProducer p =>
      (.done, { channel with held := Function.update channel.held p false })
  | .signal => (.done, { channel with shutdown := true })
  | .producerPending p => (.count (BitVec.ofNat 64 (channel.queues p).length), channel)
  | .producerAvailable p =>
      (.count (BitVec.ofNat 64 (cap.size - (channel.queues p).length)), channel)
  | .consumerPending => (.count (channel.pending m), channel)

/-! ### Empty-handed receives, and drops -/

section

variable {channel : Channel α} {indices : List Nat} {m : Nat}

@[simp]
theorem setQueue_self (channel : Channel α) (p : Nat) :
    channel.setQueue p (channel.queues p) = channel := by
  rw [setQueue, Function.update_eq_self]

theorem takeFirst_eq_none (empty : (channel.takeFirst indices).1 = none) :
    (channel.takeFirst indices).2 = channel ∧ ∀ p ∈ indices, channel.queues p = [] := by
  induction indices with
  | nil => exact ⟨rfl, fun p member => absurd member List.not_mem_nil⟩
  | cons p rest ih =>
      unfold takeFirst at empty ⊢
      cases queue : channel.queues p with
      | cons value later => simp [queue] at empty
      | nil =>
          simp only [queue] at empty ⊢
          obtain ⟨same, others⟩ := ih empty
          refine ⟨same, fun other member => ?_⟩
          rcases List.mem_cons.mp member with same | member
          · rw [same, queue]
          · exact others other member

theorem queues_takeAll (p : Nat) :
    (channel.takeAll indices).2.queues p =
      if p ∈ indices then [] else channel.queues p := by
  induction indices generalizing channel with
  | nil => simp [takeAll]
  | cons q rest ih =>
      rw [takeAll, ih, setQueue]
      by_cases same : p = q
      · subst same
        simp
      · simp [same]

theorem takeAll_empty (empty : ∀ p ∈ indices, channel.queues p = []) :
    channel.takeAll indices = ([], channel) := by
  induction indices with
  | nil => rfl
  | cons p rest ih =>
      have none := empty p List.mem_cons_self
      have same : channel.setQueue p [] = channel := by
        rw [← none, setQueue_self]
      rw [takeAll, same, ih fun q member => empty q (List.mem_cons_of_mem p member), none]
      rfl

theorem takeAll_eq_nil (empty : (channel.takeAll indices).1 = []) :
    (channel.takeAll indices).2 = channel ∧ ∀ p ∈ indices, channel.queues p = [] := by
  have queues : ∀ p ∈ indices, channel.queues p = [] := by
    induction indices generalizing channel with
    | nil => exact fun p member => absurd member List.not_mem_nil
    | cons p rest ih =>
        rw [takeAll] at empty
        obtain ⟨none, later⟩ := List.append_eq_nil_iff.mp empty
        intro q member
        rcases List.mem_cons.mp member with same | member
        · rw [same, none]
        · have same : channel.setQueue p [] = channel := by rw [← none, setQueue_self]
          rw [same] at later
          exact ih later q member
  exact ⟨by rw [takeAll_empty queues], queues⟩

/-- A second look finds nothing. -/
theorem takeAll_again : ((channel.takeAll indices).2.takeAll indices) =
    ([], (channel.takeAll indices).2) := by
  refine takeAll_empty fun p member => ?_
  rw [queues_takeAll, if_pos member]

theorem countP_drop {held : Nat → Bool} {p : Nat} (inside : p < m) (here : held p = true) :
    (List.range m).countP (Function.update held p false) + 1 = (List.range m).countP held := by
  induction m with
  | zero => exact absurd inside (Nat.not_lt_zero p)
  | succ m ih =>
      rw [List.range_succ, List.countP_append, List.countP_append]
      by_cases last : p = m
      · subst last
        have others : (List.range p).countP (Function.update held p false) =
            (List.range p).countP held := by
          refine List.countP_congr fun q member => ?_
          rw [Function.update_of_ne (List.mem_range.mp member).ne]
        simp [others, here]
      · have earlier := ih (by omega)
        have same : Function.update held p false m = held m :=
          Function.update_of_ne (Ne.symm last) ..
        simp only [List.countP_singleton, same]
        omega

theorem closed_iff (channel : Channel α) :
    channel.closed m = (channel.shutdown || decide ((List.range m).countP channel.held = 0)) := by
  rw [closed]
  congr 1
  rw [Bool.eq_iff_iff, List.all_eq_true, decide_eq_true_eq, List.countP_eq_zero]
  simp

end

/-! ### Histories -/

/-- A producer's operation goes through its handle, which its drop consumes. -/
def permits (m : Nat) (held : Nat → Bool) : ChannelOp α → Bool
  | .trySend p _ => Nat.blt p m && held p
  | .dropProducer p => Nat.blt p m && held p
  | .producerPending p => Nat.blt p m && held p
  | .producerAvailable p => Nat.blt p m && held p
  | _ => true

def heldAfter (held : Nat → Bool) : ChannelOp α → Nat → Bool
  | .dropProducer p => Function.update held p false
  | _ => held

/-- A history that the handles permit. -/
def legal (m : Nat) : (Nat → Bool) → List (ChannelOp α) → Bool
  | _, [] => true
  | held, op :: rest => permits m held op && legal m (heldAfter held op) rest

def run (cap : Cap) (m : Nat) : Channel α → List (ChannelOp α) → List (ChannelResult α) × Channel α
  | channel, [] => ([], channel)
  | channel, op :: rest =>
      let (result, channel) := channel.step cap m op
      let (results, channel) := channel.run cap m rest
      (result :: results, channel)

/-- What an implementation answers; an undefined operation ends it. -/
def answers {σ : Type*} (step : σ → ChannelOp α → Option (ChannelResult α × σ)) :
    σ → List (ChannelOp α) → Option (List (ChannelResult α) × σ)
  | s, [] => some ([], s)
  | s, op :: rest =>
      (step s op).bind fun (result, s) =>
        (answers step s rest).map fun (results, s) => (result :: results, s)

theorem held_takeFirst (channel : Channel α) (indices : List Nat) :
    (channel.takeFirst indices).2.held = channel.held := by
  induction indices with
  | nil => rfl
  | cons p rest ih =>
      unfold takeFirst
      split
      · rfl
      · exact ih

theorem held_takeAll (channel : Channel α) (indices : List Nat) :
    (channel.takeAll indices).2.held = channel.held := by
  induction indices generalizing channel with
  | nil => rfl
  | cons p rest ih => exact ih (channel.setQueue p [])

theorem held_step (cap : Cap) (m : Nat) (channel : Channel α) (op : ChannelOp α) :
    (channel.step cap m op).2.held = heldAfter channel.held op := by
  have first := channel.held_takeFirst (List.range m)
  have all := channel.held_takeAll (List.range m)
  cases op with
  | trySend p value =>
      simp only [step, trySend]
      split
      · rfl
      · split <;> rfl
  | tryRecv => exact first
  | tryRecvBatch => exact all
  | recv =>
      simp only [step]
      split <;> rename_i taken <;> rw [taken] at first <;> exact first
  | recvBatch =>
      simp only [step]
      split <;> rename_i taken <;> rw [taken] at all <;> exact all
  | _ => rfl

/-- An implementation whose every operation is answered as the channel's answers every
history as the channel does. -/
theorem answers_refine {σ : Type*} {cap : Cap} {m : Nat}
    {step : σ → ChannelOp α → Option (ChannelResult α × σ)} {Refines : σ → Channel α → Prop}
    (steps : ∀ s channel op, Refines s channel → permits m channel.held op = true →
      ∃ after, step s op = some ((channel.step cap m op).1, after) ∧
        Refines after (channel.step cap m op).2)
    {s : σ} {channel : Channel α} (refines : Refines s channel) {history : List (ChannelOp α)}
    (permitted : legal m channel.held history = true) :
    ∃ last, answers step s history = some ((channel.run cap m history).1, last) ∧
      Refines last (channel.run cap m history).2 := by
  induction history generalizing s channel with
  | nil => exact ⟨s, rfl, refines⟩
  | cons op rest ih =>
      rw [legal, Bool.and_eq_true] at permitted
      obtain ⟨after, taken, refines⟩ := steps s channel op refines permitted.1
      obtain ⟨last, answered, refines⟩ := ih refines (by rw [held_step]; exact permitted.2)
      refine ⟨last, ?_, refines⟩
      rw [answers, taken, Option.bind_some]
      dsimp only
      rw [answered]
      rfl

end Channel

end ArbitroKit
