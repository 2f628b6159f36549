import ArbitroKit.CoherentLocation
import ArbitroKit.SlotLane
import ArbitroKit.TransitionSystem
import ArbitroKit.Waiter

/-!
# The one-shot channel

`route/oneshot.rs`: one slot, one state word, a sender that fires once or goes away,
and a receiver whose handle may be shared by any number of `try_recv` calls before it
is consumed by `recv` or dropped.  A step is one atomic operation on the state, one
access to the slot, or one `wake`.  Loads of the state may be stale, within coherence;
a compare-and-exchange succeeds on the current value only.
-/

namespace ArbitroKit

open Coherent SlotLane Transition

/-- The values of the state word. -/
inductive SlotState where
  | empty
  | full
  | closed
  | taken
  | rxDropped
  deriving DecidableEq, Repr

/-- `Closed`. -/
inductive Closed where
  | closed
  deriving DecidableEq, Repr

/-- Where the sender stands.  `ready` is the unused handle, `gone` one that has let go
of the shared part. -/
inductive SenderPc (α : Type*) where
  | ready
  | sendLoad (value : α)
  | sendDiscard (value : α)
  | sendWrite (value : α)
  | sendStore (value : α)
  | sendWake
  | dropExchange
  | dropWake
  | gone
  deriving DecidableEq, Repr

/-- Where one call of `try_recv` stands. -/
inductive TryRecvCall (α : Type*) where
  | exchange
  | read
  | returned (result : Except Closed (Option α))

/-- Where the owner of the receiver stands.  While it is `shared`, `try_recv` may be
called through references to it. -/
inductive ReceiverPc (α : Type*) where
  | shared
  | recvExchange
  | recvRead
  -- `wait_until(|| state != EMPTY)`
  | waitLoad (phase : WaitPhase)
  | waitAnnounce
  | waitPark
  | waitLeave
  -- `try_take_inner(..).expect(..)`
  | lastExchange
  | lastRead
  | expectFailed
  | returned (result : Except Closed α)
  | dropExchange
  | gone

/-- The shared part with both handles.  `view` is the position of the last value of the
state that `recv` has read. -/
structure OneShot (α : Type*) where
  state : Location SlotState
  slot : Cell α
  waiter : Waiter
  sender : SenderPc α
  calls : List (TryRecvCall α)
  receiver : ReceiverPc α
  view : Nat
  /-- `Inner` has been dropped. -/
  torn : Bool
  /-- History: the value `send` was called with. -/
  sent : Option α
  /-- History: every value destroyed instead of handed out. -/
  destroyed : List α
  /-- The slot was read or destroyed while it owned no value. -/
  misread : Bool

inductive SenderAction (α : Type*) where
  | send (value : α)
  | drop
  | tick (index : Nat)

inductive ReceiverAction where
  | recv
  | drop
  | tick (index : Nat)
  | spin
  | spurious

inductive OneShotAction (α : Type*) where
  | sender (action : SenderAction α)
  /-- A new call of `try_recv`, and a step of one that runs. -/
  | tryRecv
  | call (id index : Nat)
  | receiver (action : ReceiverAction)
  /-- The last handle lets go. -/
  | dropInner

namespace OneShot

variable {α : Type*}

/-- `OneShot::new`. -/
def new : OneShot α where
  state := Location.new .empty
  slot := .uninit
  waiter := Waiter.new
  sender := .ready
  calls := []
  receiver := .shared
  view := 0
  torn := false
  sent := none
  destroyed := []
  misread := false

def senderAt (s : OneShot α) (pc : SenderPc α) : OneShot α := { s with sender := pc }

def receiverAt (s : OneShot α) (pc : ReceiverPc α) : OneShot α := { s with receiver := pc }

def callAt (s : OneShot α) (id : Nat) (pc : TryRecvCall α) : OneShot α :=
  { s with calls := s.calls.set id pc }

def wake (s : OneShot α) : OneShot α := { s with waiter := s.waiter.wake }

/-- The next step of `send`, or of the sender's drop. -/
def senderTick (s : OneShot α) (index : Nat) : Option (OneShot α) :=
  match s.sender with
  | .ready => none
  | .sendLoad value =>
      (s.state.load 0 index).map fun state =>
        if state = .rxDropped then s.senderAt (.sendDiscard value)
        else s.senderAt (.sendWrite value)
  | .sendDiscard value =>
      some { s with sender := .gone, destroyed := s.destroyed ++ [value] }
  | .sendWrite value => some { s with sender := .sendStore value, slot := .live value }
  | .sendStore _ => some { s with sender := .sendWake, state := s.state.store .full }
  | .sendWake => some (s.wake.senderAt .gone)
  | .dropExchange =>
      (s.state.compareExchange 0 index .empty .closed).map fun result =>
        match result with
        | .ok state => { s with sender := .dropWake, state := state }
        | .error _ => s.senderAt .gone
  | .dropWake => some (s.wake.senderAt .gone)
  | .gone => none

def senderStep (s : OneShot α) : SenderAction α → Option (OneShot α)
  | .tick index => s.senderTick index
  | .send value =>
      match s.sender with
      | .ready => some { s with sender := .sendLoad value, sent := some value }
      | _ => none
  | .drop =>
      match s.sender with
      | .ready => some (s.senderAt .dropExchange)
      | _ => none

/-- What `try_take_inner` makes of a state it could not exchange. -/
def takeFailed : SlotState → Option Closed
  | .closed => some .closed
  | .taken => some .closed
  | _ => none

/-- `assume_init_read` of the slot, and where the reader goes with the value. -/
def readSlot (s : OneShot α) (next : α → OneShot α → OneShot α) : OneShot α :=
  match s.slot with
  | .live value => next value { s with slot := .moved value }
  | .moved value => next value { s with misread := true }
  | .uninit => { s with misread := true }

/-- The next step of one `try_recv`. -/
def callTick (s : OneShot α) (id index : Nat) : Option (OneShot α) :=
  s.calls[id]?.bind fun pc =>
    match pc with
    | .exchange =>
        (s.state.compareExchange 0 index .full .taken).map fun result =>
          match result with
          | .ok state => { s with state := state }.callAt id .read
          | .error state =>
              match takeFailed state with
              | some error => s.callAt id (.returned (.error error))
              | none => s.callAt id (.returned (.ok none))
    | .read =>
        some (s.readSlot fun value s => s.callAt id (.returned (.ok (some value))))
    | .returned _ => none

/-- No `try_recv` runs, so the receiver is not borrowed. -/
def unborrowed (s : OneShot α) : Bool :=
  s.calls.all fun pc =>
    match pc with
    | .returned _ => true
    | _ => false

/-- The predicate of `recv` came out. -/
def waited (phase : WaitPhase) (ready : Bool) : ReceiverPc α :=
  match phase, ready with
  | .entry, true => .lastExchange
  | .announced, true => .waitLeave
  | .entry, false => .waitAnnounce
  | .announced, false => .waitPark

/-- The next step of `recv`, or of the receiver's drop. -/
def receiverTick (s : OneShot α) (index : Nat) : Option (OneShot α) :=
  match s.receiver with
  | .shared => none
  | .recvExchange =>
      (s.state.compareExchange s.view index .full .taken).map fun result =>
        match result with
        | .ok state => { s with state := state }.receiverAt .recvRead
        | .error state =>
            match takeFailed state with
            | some error => s.receiverAt (.returned (.error error))
            | none => s.receiverAt (.waitLoad .entry)
  | .recvRead => some (s.readSlot fun value s => s.receiverAt (.returned (.ok value)))
  | .waitLoad phase =>
      (s.state.load s.view index).map fun state =>
        { s with view := index }.receiverAt (waited phase (decide (state ≠ SlotState.empty)))
  | .waitAnnounce =>
      some ({ s with waiter := s.waiter.announce }.receiverAt (.waitLoad .announced))
  | .waitPark =>
      if s.waiter.token then
        some ({ s with waiter := s.waiter.consume }.receiverAt (.waitLoad .announced))
      else
        none
  | .waitLeave => some ({ s with waiter := s.waiter.leave }.receiverAt .lastExchange)
  | .lastExchange =>
      (s.state.compareExchange s.view index .full .taken).map fun result =>
        match result with
        | .ok state => { s with state := state }.receiverAt .lastRead
        | .error state =>
            match takeFailed state with
            | some error => s.receiverAt (.returned (.error error))
            | none => s.receiverAt .expectFailed
  | .lastRead => some (s.readSlot fun value s => s.receiverAt (.returned (.ok value)))
  | .expectFailed => none
  | .returned _ => none
  | .dropExchange =>
      (s.state.compareExchange s.view index .empty .rxDropped).map fun result =>
        match result with
        | .ok state => { s with receiver := .gone, state := state }
        | .error _ => s.receiverAt .gone
  | .gone => none

def receiverStep (s : OneShot α) : ReceiverAction → Option (OneShot α)
  | .tick index => s.receiverTick index
  | .recv =>
      match s.receiver with
      | .shared => if s.unborrowed then some (s.receiverAt .recvExchange) else none
      | _ => none
  | .drop =>
      match s.receiver with
      | .shared => if s.unborrowed then some (s.receiverAt .dropExchange) else none
      | _ => none
  | .spin =>
      match s.receiver with
      | .waitAnnounce => some (s.receiverAt (.waitLoad .entry))
      | _ => none
  | .spurious =>
      match s.receiver with
      | .waitPark => some (s.receiverAt (.waitLoad .announced))
      | _ => none

/-- The receiver has let go of the shared part. -/
def receiverDone : ReceiverPc α → Bool
  | .returned _ => true
  | .expectFailed => true
  | .gone => true
  | _ => false

/-- `Inner::drop`: a value nobody took is destroyed in its slot. -/
def dropInner (s : OneShot α) : OneShot α :=
  match s.state.current with
  | .full =>
      match s.slot with
      | .live value =>
          { s with torn := true, slot := .moved value, destroyed := s.destroyed ++ [value] }
      | .moved value =>
          { s with torn := true, destroyed := s.destroyed ++ [value], misread := true }
      | .uninit => { s with torn := true, misread := true }
  | _ => { s with torn := true }

def step (s : OneShot α) : OneShotAction α → Option (OneShot α)
  | .sender action => s.senderStep action
  | .tryRecv =>
      match s.receiver with
      | .shared => some { s with calls := s.calls ++ [.exchange] }
      | _ => none
  | .call id index => s.callTick id index
  | .receiver action => s.receiverStep action
  | .dropInner =>
      match s.sender with
      | .gone => if receiverDone s.receiver && !s.torn then some s.dropInner else none
      | _ => none

/-- Every interleaving of one sender, one receiver and its `try_recv` calls. -/
def system : System (OneShot α) (OneShotAction α) :=
  System.ofFunction (fun s => s = new) step

end OneShot

end ArbitroKit
