import ArbitroKit.MpmcAsync

/-!
# The rings between the tasks

All that the items of one ring depend on: the ring, the two tasks at its ends, and what went
into it and came out of it so far.  Each kind of access keeps the facts of the ring, however
stale the loads are.
-/

namespace ArbitroKit

open Coherent SlotLane Cyclic Transition

namespace MpmcSenderPc

variable {α : Type*}

/-- The call is not inside a ring. -/
def outside : MpmcSenderPc α → Bool
  | .write _ _ _ _ _ => false
  | .publish _ _ _ _ => false
  | .wakeConsumer _ _ _ => false
  | _ => true

/-- The values the call has written to the shard's ring and not published yet. -/
def ahead (shard : Nat) : MpmcSenderPc α → List α
  | .write _ j _ _ written => if j = shard then written else []
  | .publish _ j _ written => if j = shard then written else []
  | _ => []

/-- The values it has published there and not returned with yet. -/
def unreported (shard : Nat) : MpmcSenderPc α → List α
  | .wakeConsumer j written _ => if j = shard then written else []
  | _ => []

/-- How many values it is still going to write there. -/
def toWrite (shard : Nat) : MpmcSenderPc α → Nat
  | .write _ j _ left _ => if j = shard then left.length else 0
  | _ => 0

/-- Its cursor is behind the values written. -/
def HeadAt (shard written : Nat) : MpmcSenderPc α → Prop
  | .write _ j head _ _ => j = shard → head = BitVec.ofNat 64 written
  | .publish _ j head _ => j = shard → head = BitVec.ofNat 64 written
  | _ => True

/-- The call is not at the shard's ring. -/
structure Away (shard : Nat) (pc : MpmcSenderPc α) : Prop where
  ahead : pc.ahead shard = []
  unreported : pc.unreported shard = []
  toWrite : pc.toWrite shard = 0
  headAt : ∀ written, pc.HeadAt shard written

variable {shard j : Nat}

theorem away_of_outside {pc : MpmcSenderPc α} (outside : pc.outside = true) : pc.Away shard := by
  cases pc with
  | write call j head left written | publish call j head written
  | wakeConsumer j written stage => cases outside
  | _ => exact ⟨rfl, rfl, rfl, fun _ => trivial⟩

/-- The shard whose ring a call is at. -/
def shardOf : MpmcSenderPc α → Option Nat
  | .write _ j _ _ _ => some j
  | .publish _ j _ _ => some j
  | .wakeConsumer j _ _ => some j
  | _ => none

theorem away_of_shardOf {pc : MpmcSenderPc α} (other : shard ≠ j) (here : pc.shardOf = some j) :
    pc.Away shard := by
  cases pc <;> cases here <;> constructor <;>
    simp [ahead, unreported, toWrite, HeadAt, Ne.symm other]

end MpmcSenderPc

namespace MpmcReceiverPc

variable {α : Type*}

/-- The call is not inside a ring. -/
def outside : MpmcReceiverPc α → Bool
  | .scanRead _ _ _ => false
  | .scanStore _ _ _ => false
  | .scanWake _ _ _ => false
  | .drainRead _ _ _ => false
  | .drainCallback _ _ _ _ => false
  | .drainStore _ _ => false
  | .undefined => false
  | _ => true

/-- The value from ring `p` that the call has not handed out yet. -/
def inHand (p : Nat) : MpmcReceiverPc α → List α
  | .scanStore q _ value => if q = p then [value] else []
  | .scanWake q value _ => if q = p then [value] else []
  | .drainCallback q _ _ value => if q = p then [value] else []
  | _ => []

/-- The call has read from ring `p` and not given the slots back. -/
def holding (p : Nat) : MpmcReceiverPc α → Bool
  | .scanStore q _ _ => decide (q = p)
  | .drainRead q _ _ => decide (q = p)
  | .drainCallback q _ _ _ => decide (q = p)
  | .drainStore q _ => decide (q = p)
  | _ => false

/-- What the local cursors of the call stand for, with `received` values read out of ring `p`
and `known` seen in it. -/
def TailAt (p received known : Nat) : MpmcReceiverPc α → Prop
  | .scanRead _ q tail => q = p → tail = BitVec.ofNat 64 received ∧ received < known
  | .scanStore q tail _ => q = p → tail + 1 = BitVec.ofNat 64 received
  | .drainRead q head tail =>
      q = p → tail = BitVec.ofNat 64 received ∧
        ∃ last, head = BitVec.ofNat 64 last ∧ received < last ∧ last ≤ known
  | .drainCallback q head tail _ =>
      q = p → tail = BitVec.ofNat 64 received ∧
        ∃ last, head = BitVec.ofNat 64 last ∧ received ≤ last ∧ last ≤ known
  | .drainStore q tail => q = p → tail = BitVec.ofNat 64 received
  | .undefined => False
  | _ => True

/-- The call is not at ring `p`. -/
structure Away (p : Nat) (pc : MpmcReceiverPc α) : Prop where
  holding : pc.holding p = false
  inHand : pc.inHand p = []
  tailAt : ∀ received known, pc.TailAt p received known

theorem away_of_outside {p : Nat} {pc : MpmcReceiverPc α} (outside : pc.outside = true) :
    pc.Away p := by
  cases pc with
  | scanRead call q tail | scanStore q tail value | scanWake q value stage
  | drainRead q head tail | drainCallback q head tail value | drainStore q tail
  | undefined => cases outside
  | _ => exact ⟨rfl, rfl, fun _ _ => trivial⟩

/-- The ring that a call is at. -/
def ringOf : MpmcReceiverPc α → Option Nat
  | .scanRead _ q _ => some q
  | .scanStore q _ _ => some q
  | .scanWake q _ _ => some q
  | .drainRead q _ _ => some q
  | .drainCallback q _ _ _ => some q
  | .drainStore q _ => some q
  | _ => none

theorem away_of_ringOf {p q : Nat} (other : p ≠ q) {pc : MpmcReceiverPc α}
    (here : pc.ringOf = some q) : pc.Away p := by
  cases pc <;> cases here <;> constructor <;> simp [holding, inHand, TailAt, Ne.symm other]

theorem TailAt.mono {p received known more : Nat} {pc : MpmcReceiverPc α}
    (here : pc.TailAt p received known) (le : known ≤ more) : pc.TailAt p received more := by
  cases pc with
  | scanRead call q tail =>
      intro same
      exact ⟨(here same).1, Nat.lt_of_lt_of_le (here same).2 le⟩
  | drainRead q head tail | drainCallback q head tail value =>
      intro same
      obtain ⟨tailIs, last, headIs, behind, seen⟩ := here same
      exact ⟨tailIs, last, headIs, behind, seen.trans le⟩
  | _ => exact here

end MpmcReceiverPc

namespace TaskRing

variable {α : Type*}

/-- A sound lane whose two counts are the cursors. -/
structure Ok (cap : Cap) (ring : TaskRing α) : Prop where
  sound : ring.lane.Sound cap.size
  head : ring.head.current = BitVec.ofNat 64 ring.lane.published
  tail : ring.tail.current = BitVec.ofNat 64 ring.lane.released

/-- The producer knows that there is room for `more` values. -/
def Room (cap : Cap) (ring : TaskRing α) (more : Nat) : Prop :=
  ∃ known, Follows ring.tail ring.tailView known ring.lane.released ∧
    ring.lane.written.length + more ≤ known + cap.size

/-- What has come through the ring, with the tasks at its two ends. -/
structure LinkOk (cap : Cap) (shard p : Nat) (ring : TaskRing α) (sender : MpmcSenderPc α)
    (receiver : MpmcReceiverPc α) (accepted delivered : List α) : Prop where
  ok : ring.Ok cap
  room : ring.Room cap (sender.toWrite shard)
  headAt : sender.HeadAt shard ring.lane.written.length
  written : ring.lane.written = ring.lane.sent ++ sender.ahead shard
  sent : ring.lane.sent = accepted ++ sender.unreported shard
  reads : ∃ known, Follows ring.head ring.headView known ring.lane.published ∧
    ring.lane.received.length ≤ known ∧ receiver.TailAt p ring.lane.received.length known
  held : receiver.holding p = false → ring.lane.received.length = ring.lane.released
  received : ring.lane.received = delivered ++ receiver.inHand p

theorem linkOk_new (cap : Cap) (shard p : Nat) :
    LinkOk cap shard p (new : TaskRing α) .idle .idle [] [] where
  ok := ⟨Lane.sound_empty, rfl, rfl⟩
  room := ⟨0, follows_new 0, Nat.zero_le _⟩
  headAt := trivial
  written := rfl
  sent := rfl
  reads := ⟨0, follows_new 0, le_rfl, trivial⟩
  held _ := rfl
  received := rfl

/-- Whoever has followed a cursor follows it from a later store on too. -/
theorem follows_max {cursor : Location Usize} {view seen known last : Nat}
    (follows : Follows cursor view known last) (le : seen ≤ cursor.latest) :
    ∃ more, known ≤ more ∧ Follows cursor (max view seen) more last := by
  obtain ⟨value, loaded⟩ := Location.exists_load (le_max_left view seen)
    (max_le follows.view_le le)
  obtain ⟨count, le, -, -, follows⟩ := follows.load loaded
  exact ⟨count, le, follows⟩

namespace LinkOk

variable {cap : Cap} {shard p : Nat} {ring : TaskRing α} {sender nextSender : MpmcSenderPc α}
  {receiver nextReceiver : MpmcReceiverPc α} {accepted delivered : List α}

/-- The cursors of a ring are not far from each other. -/
theorem near (link : LinkOk cap shard p ring sender receiver accepted delivered) :
    ring.lane.released ≤ ring.lane.received.length ∧
      ring.lane.received.length ≤ ring.lane.published ∧
        ring.lane.published ≤ ring.lane.written.length ∧
          ring.lane.written.length ≤ ring.lane.released + cap.size := by
  obtain ⟨known, follows, room⟩ := link.room
  have le := follows.le
  have sound := link.ok.sound
  refine ⟨sound.released_le, sound.received_le, sound.published_le, ?_⟩
  omega

/-! ### The producer's end -/

/-- The call goes on without an access to this ring. -/
theorem senderGoes (link : LinkOk cap shard p ring sender receiver accepted delivered)
    (ahead : nextSender.ahead shard = sender.ahead shard)
    (unreported : nextSender.unreported shard = sender.unreported shard)
    (toWrite : nextSender.toWrite shard ≤ sender.toWrite shard)
    (headAt : nextSender.HeadAt shard ring.lane.written.length) :
    LinkOk cap shard p ring nextSender receiver accepted delivered :=
  { link with
    room := by
      obtain ⟨known, follows, room⟩ := link.room
      exact ⟨known, follows, by omega⟩
    headAt := headAt
    written := by rw [ahead]; exact link.written
    sent := by rw [unreported]; exact link.sent }

/-- Away from this ring it may go anywhere else. -/
theorem senderAway (link : LinkOk cap shard p ring sender receiver accepted delivered)
    (before : sender.Away shard) (after : nextSender.Away shard) :
    LinkOk cap shard p ring nextSender receiver accepted delivered := by
  refine link.senderGoes ?_ ?_ ?_ (after.headAt _)
  · rw [before.ahead, after.ahead]
  · rw [before.unreported, after.unreported]
  · rw [after.toWrite]
    exact Nat.zero_le _

/-- What the producer sees of `tail` through its gate. -/
theorem seesTail (link : LinkOk cap shard p ring sender receiver accepted delivered) {seen : Nat}
    (le : seen ≤ ring.tail.latest) :
    LinkOk cap shard p { ring with tailView := max ring.tailView seen } sender receiver accepted
      delivered :=
  { link with
    ok := ⟨link.ok.sound, link.ok.head, link.ok.tail⟩
    room := by
      obtain ⟨known, follows, room⟩ := link.room
      obtain ⟨more, le, follows⟩ := follows_max follows le
      exact ⟨more, follows, Nat.le_trans room (Nat.add_le_add_right le _)⟩ }

/-- A load of `tail` from outside of the ring: how much room the count leaves there is. -/
theorem loadsTail (link : LinkOk cap shard p ring sender receiver accepted delivered)
    (outside : sender.outside = true) {index : Nat} {tail : Usize} {next : TaskRing α}
    (loaded : ring.loadTail index = some (tail, next)) :
    LinkOk cap shard p next sender receiver accepted delivered ∧
      next = { ring with tailView := index } ∧
      ∃ count, tail = BitVec.ofNat 64 count ∧ count ≤ next.lane.released ∧
        (ring.head.current - tail).toNat = next.lane.written.length - count ∧
        next.lane.written.length ≤ count + cap.size ∧
        (ring.tail.latest ≤ index → count = next.lane.released) ∧
        ∀ more, next.lane.written.length + more ≤ count + cap.size → next.Room cap more := by
  obtain ⟨value, read, equal⟩ := Option.map_eq_some_iff.mp loaded
  obtain ⟨rfl, rfl⟩ := Prod.mk.inj equal
  obtain ⟨known, follows, room⟩ := link.room
  obtain ⟨count, le, leReleased, rfl, follows⟩ := follows.load read
  have near := link.near
  have written : ring.lane.written.length = ring.lane.published := by
    have nothing : sender.ahead shard = [] := by
      cases sender <;> first | rfl | cases outside
    rw [link.written, nothing, List.append_nil, link.ok.sound.length_sent]
  have small := cap.size_lt
  have within : ring.lane.written.length ≤ count + cap.size := by omega
  have here : LinkOk cap shard p { ring with tailView := index } sender receiver accepted
      delivered :=
    { link with
      ok := ⟨link.ok.sound, link.ok.head, link.ok.tail⟩
      room := ⟨count, follows, Nat.le_trans room (Nat.add_le_add_right le _)⟩ }
  refine ⟨here, rfl, count, rfl, leReleased, ?_, within, ?_, fun more fits =>
    ⟨count, follows, fits⟩⟩
  · rw [link.ok.head, toNat_sub_ofNat (by omega) (by omega), ← written]
  · intro newest
    have current := Location.current_of_load read newest
    rw [link.ok.tail] at current
    refine ((ofNat_inj_of_near leReleased ?_).mp current.symm).symm
    omega

/-- It has found room and starts to write. -/
theorem startsToWrite (link : LinkOk cap shard p ring sender receiver accepted delivered)
    (outside : sender.outside = true) {call : MpmcTaskSend α} {left : List α}
    (room : ring.Room cap left.length) :
    LinkOk cap shard p ring (.write call shard ring.head.current left []) receiver accepted
      delivered := by
  have nothing : sender.ahead shard = [] ∧ sender.unreported shard = [] := by
    cases sender <;> first | exact ⟨rfl, rfl⟩ | cases outside
  have written : ring.lane.written = ring.lane.sent := by
    rw [link.written, nothing.1, List.append_nil]
  exact
    { link with
      room := by
        rw [MpmcSenderPc.toWrite, if_pos rfl]
        exact room
      headAt := fun _ => by
        rw [link.ok.head, written, link.ok.sound.length_sent]
      written := by
        rw [MpmcSenderPc.ahead, if_pos rfl, List.append_nil]
        exact written
      sent := by
        change ring.lane.sent = accepted ++ []
        rw [link.sent, nothing.2] }

/-- It writes the next slot. -/
theorem writes {call : MpmcTaskSend α} {head : Usize} {value : α} {left written : List α}
    (link : LinkOk cap shard p ring (.write call shard head (value :: left) written) receiver
      accepted delivered) :
    LinkOk cap shard p (ring.writeSlot (cap.slot head) value)
      (.write call shard (head + 1) left (written ++ [value])) receiver accepted delivered := by
  obtain ⟨known, follows, room⟩ := link.room
  rw [MpmcSenderPc.toWrite, if_pos rfl, List.length_cons] at room
  obtain rfl : head = BitVec.ofNat 64 ring.lane.written.length := link.headAt rfl
  have le := follows.le
  have free : ring.lane.written.length < ring.lane.released + cap.size := by omega
  have length : (ring.lane.write (ring.lane.written.length % cap.size) value).written.length =
      ring.lane.written.length + 1 := by
    simp [Lane.write]
  have sent : (ring.lane.write (ring.lane.written.length % cap.size) value).sent =
      ring.lane.sent := link.ok.sound.sent_write _ value
  rw [Capacity.slot_ofNat]
  exact
    { link with
      ok := ⟨link.ok.sound.write free value, link.ok.head, link.ok.tail⟩
      room := by
        refine ⟨known, follows, ?_⟩
        rw [MpmcSenderPc.toWrite, if_pos rfl]
        change (ring.lane.write _ value).written.length + left.length ≤ _
        rw [length]
        omega
      headAt := fun _ => by
        change _ = BitVec.ofNat 64 (ring.lane.write _ value).written.length
        rw [length, ofNat_add_one]
      written := by
        have before := link.written
        rw [MpmcSenderPc.ahead, if_pos rfl] at before ⊢
        change ring.lane.written ++ [value] = (ring.lane.write _ value).sent ++ _
        rw [sent, before, List.append_assoc]
      sent := by
        change (ring.lane.write _ value).sent = _
        rw [sent]
        exact link.sent
      reads := link.reads
      held := link.held
      received := link.received }

/-- The store that publishes everything written. -/
theorem publishes {call : MpmcTaskSend α} {head : Usize} {written : List α} {stage : WakeStage}
    (link : LinkOk cap shard p ring (.publish call shard head written) receiver accepted
      delivered) :
    LinkOk cap shard p (ring.storeHead head) (.wakeConsumer shard written stage) receiver
      accepted delivered := by
  obtain rfl : head = BitVec.ofNat 64 ring.lane.written.length := link.headAt rfl
  have published : (ring.lane.publish).sent = ring.lane.written := Lane.sent_publish ring.lane
  exact
    { link with
      ok := ⟨link.ok.sound.publish, rfl, link.ok.tail⟩
      room := link.room
      headAt := trivial
      written := by
        change ring.lane.written = ring.lane.publish.sent ++ []
        rw [published, List.append_nil]
      sent := by
        have before := link.written
        have sent : ring.lane.sent = accepted ++ [] := link.sent
        rw [MpmcSenderPc.ahead, if_pos rfl] at before
        rw [List.append_nil] at sent
        rw [MpmcSenderPc.unreported, if_pos rfl, ← sent]
        exact published.trans before
      reads := by
        obtain ⟨known, follows, le, here⟩ := link.reads
        exact ⟨known, follows.store link.ok.sound.published_le, le, here⟩
      held := link.held
      received := link.received }

/-- The call returns with what it has published. -/
theorem returns {written : List α} {stage : WakeStage}
    (link : LinkOk cap shard p ring (.wakeConsumer shard written stage) receiver accepted
      delivered) :
    LinkOk cap shard p ring .idle receiver (accepted ++ written) delivered :=
  { link with
    headAt := trivial
    written := link.written
    sent := by
      have sent := link.sent
      rw [MpmcSenderPc.unreported, if_pos rfl] at sent
      change ring.lane.sent = accepted ++ written ++ []
      rw [List.append_nil]
      exact sent }

/-! ### The consumer's end -/

/-- The call goes on without an access to this ring. -/
theorem receiverGoes (link : LinkOk cap shard p ring sender receiver accepted delivered)
    (tailAt : ∀ known, receiver.TailAt p ring.lane.received.length known →
      nextReceiver.TailAt p ring.lane.received.length known)
    (holding : nextReceiver.holding p = receiver.holding p)
    (inHand : nextReceiver.inHand p = receiver.inHand p) :
    LinkOk cap shard p ring sender nextReceiver accepted delivered :=
  { link with
    reads := by
      obtain ⟨known, follows, le, here⟩ := link.reads
      exact ⟨known, follows, le, tailAt known here⟩
    held := fun free => link.held (holding.symm.trans free)
    received := by rw [inHand]; exact link.received }

/-- Away from this ring it may go anywhere else. -/
theorem receiverAway (link : LinkOk cap shard p ring sender receiver accepted delivered)
    (before : receiver.Away p) (after : nextReceiver.Away p) :
    LinkOk cap shard p ring sender nextReceiver accepted delivered :=
  link.receiverGoes (fun known _ => after.tailAt _ known)
    (after.holding.trans before.holding.symm) (after.inHand.trans before.inHand.symm)

/-- What the consumer sees of `head` through its gate. -/
theorem seesHead (link : LinkOk cap shard p ring sender receiver accepted delivered) {seen : Nat}
    (le : seen ≤ ring.head.latest) :
    LinkOk cap shard p { ring with headView := max ring.headView seen } sender receiver accepted
      delivered :=
  { link with
    ok := ⟨link.ok.sound, link.ok.head, link.ok.tail⟩
    room := link.room
    reads := by
      obtain ⟨known, follows, behind, here⟩ := link.reads
      obtain ⟨more, le, follows⟩ := follows_max follows le
      exact ⟨more, follows, behind.trans le, here.mono le⟩ }

/-- A load of `head` from outside of the ring: whether the count leaves anything to read. -/
theorem loadsHead (link : LinkOk cap shard p ring sender receiver accepted delivered)
    (outside : receiver.outside = true) {index : Nat} {head : Usize} {next : TaskRing α}
    (loaded : ring.loadHead index = some (head, next)) :
    LinkOk cap shard p next sender receiver accepted delivered ∧
      next = { ring with headView := index } ∧
      ring.tail.current = BitVec.ofNat 64 ring.lane.received.length ∧
      ∃ count, head = BitVec.ofNat 64 count ∧
        Follows next.head next.headView count next.lane.published ∧
        ring.lane.received.length ≤ count ∧
        (ring.tail.current = head ↔ count = ring.lane.received.length) ∧
        (ring.head.latest ≤ index → count = ring.lane.published) := by
  obtain ⟨value, read, equal⟩ := Option.map_eq_some_iff.mp loaded
  obtain ⟨rfl, rfl⟩ := Prod.mk.inj equal
  obtain ⟨known, follows, behind, tailAt⟩ := link.reads
  obtain ⟨count, le, lePublished, rfl, follows⟩ := follows.load read
  have near := link.near
  have small := cap.size_lt
  have free : ring.lane.received.length = ring.lane.released := by
    apply link.held
    cases receiver <;> first | rfl | cases outside
  have tail : ring.tail.current = BitVec.ofNat 64 ring.lane.received.length := by
    rw [link.ok.tail, free]
  have here : LinkOk cap shard p { ring with headView := index } sender receiver accepted
      delivered :=
    { link with
      ok := ⟨link.ok.sound, link.ok.head, link.ok.tail⟩
      room := link.room
      reads := ⟨count, follows, behind.trans le, tailAt.mono le⟩ }
  refine ⟨here, rfl, tail, count, rfl, follows, behind.trans le, ?_, ?_⟩
  · rw [tail, eq_comm]
    exact ofNat_inj_of_near (behind.trans le) (by omega)
  · intro newest
    have current := Location.current_of_load read newest
    rw [link.ok.head] at current
    exact ((ofNat_inj_of_near lePublished (by omega)).mp current.symm).symm

/-- With something to read in its ring, it goes inside. -/
theorem goesInside (link : LinkOk cap shard p ring sender receiver accepted delivered)
    (outside : receiver.outside = true) {count : Nat}
    (follows : Follows ring.head ring.headView count ring.lane.published)
    (behind : ring.lane.received.length ≤ count)
    (tailAt : nextReceiver.TailAt p ring.lane.received.length count)
    (inHand : nextReceiver.inHand p = []) :
    LinkOk cap shard p ring sender nextReceiver accepted delivered := by
  have nothing : receiver.holding p = false ∧ receiver.inHand p = [] := by
    cases receiver <;> first | exact ⟨rfl, rfl⟩ | cases outside
  exact
    { link with
      reads := ⟨count, follows, behind, tailAt⟩
      held := fun _ => link.held nothing.1
      received := by rw [inHand, ← nothing.2]; exact link.received }

/-- A read of the next slot finds the next value. -/
theorem reads_eq (link : LinkOk cap shard p ring sender receiver accepted delivered)
    (inHand : receiver.inHand p = []) {known : Nat}
    (follows : Follows ring.head ring.headView known ring.lane.published)
    (unread : ring.lane.received.length < known) :
    ∃ value, ring.lane.read (cap.slot (BitVec.ofNat 64 ring.lane.received.length)) =
        (some value, (ring.lane.read (ring.lane.received.length % cap.size)).2) ∧
      ∀ nextReceiver : MpmcReceiverPc α, nextReceiver.inHand p = [value] →
        nextReceiver.holding p = true →
        nextReceiver.TailAt p (ring.lane.received.length + 1) known →
        LinkOk cap shard p
          { ring with lane := (ring.lane.read (ring.lane.received.length % cap.size)).2 } sender
          nextReceiver accepted delivered := by
  have le := follows.le
  have available : ring.lane.received.length < ring.lane.published := by omega
  obtain ⟨value, next⟩ := link.ok.sound.exists_next available
  have read := link.ok.sound.read_eq next
  have sound := link.ok.sound.read available
  rw [Capacity.slot_ofNat]
  rw [read] at sound ⊢
  refine ⟨value, rfl, fun nextReceiver hands holds tailAt => ?_⟩
  have received := link.received
  rw [inHand, List.append_nil] at received
  exact
    { ok := ⟨sound, link.ok.head, link.ok.tail⟩
      room := link.room
      headAt := link.headAt
      written := link.written
      sent := link.sent
      reads := by
        refine ⟨known, follows, ?_, ?_⟩
        · rw [List.length_append, List.length_singleton]
          exact unread
        · rw [List.length_append, List.length_singleton]
          exact tailAt
      held := fun free => by
        rw [holds] at free
        cases free
      received := by
        change ring.lane.received ++ [value] = _
        rw [hands, received] }

/-- The store that gives the slots back. -/
theorem releases (link : LinkOk cap shard p ring sender receiver accepted delivered)
    {tail : Usize} (tailIs : tail = BitVec.ofNat 64 ring.lane.received.length)
    (tailAt : ∀ known, nextReceiver.TailAt p ring.lane.received.length known)
    (inHand : nextReceiver.inHand p = receiver.inHand p) :
    LinkOk cap shard p (ring.storeTail tail) sender nextReceiver accepted delivered := by
  subst tailIs
  exact
    { ok := ⟨link.ok.sound.release, link.ok.head, rfl⟩
      room := by
        obtain ⟨known, follows, room⟩ := link.room
        exact ⟨known, follows.store link.ok.sound.released_le, room⟩
      headAt := link.headAt
      written := link.written
      sent := link.sent
      reads := by
        obtain ⟨known, follows, le, -⟩ := link.reads
        exact ⟨known, follows, le, tailAt known⟩
      held := fun _ => rfl
      received := by rw [inHand]; exact link.received }

/-- The value goes to the caller or its callback. -/
theorem hands (link : LinkOk cap shard p ring sender receiver accepted delivered) {value : α}
    (inHand : receiver.inHand p = [value])
    (tailAt : ∀ known, receiver.TailAt p ring.lane.received.length known →
      nextReceiver.TailAt p ring.lane.received.length known)
    (holding : nextReceiver.holding p = receiver.holding p)
    (nothing : nextReceiver.inHand p = []) :
    LinkOk cap shard p ring sender nextReceiver accepted (delivered ++ [value]) :=
  { link with
    reads := by
      obtain ⟨known, follows, le, here⟩ := link.reads
      exact ⟨known, follows, le, tailAt known here⟩
    held := fun free => link.held (holding.symm.trans free)
    received := by
      rw [nothing, List.append_nil, ← inHand]
      exact link.received }

end LinkOk

end TaskRing

end ArbitroKit
