import ArbitroKit.SignalSetWake
import Mathlib.Data.Fintype.Basic

/-!
# The documented drain loop

`docs/signalset.md`: producers append to the queue of a gate and release the gate, the
consumer waits for any gate of its mask, drains the queues of the open gates and closes
them with `lock_mask`.  A release that finds its gate still open is coalesced; if it
comes between the drain of the queue and the `lock_mask`, its gate is closed with the
item behind it.
-/

namespace ArbitroKit

open WordBits Transition

/-- The gates of the first chunk, the only one that `state` and `lock_mask` know. -/
abbrev Gate := Fin 64

def gateId (gate : Gate) : SignalId := BitVec.ofNat 8 gate

/-- A gate of a mask. -/
def inMask (mask : Word) (gate : Gate) : Bool := mask.getLsbD gate

/-- The open gates in a `state()`, in the order of their bits. -/
def openGates (state : Word) : List Gate := (List.finRange 64).filter (inMask state)

/-- Where a producer stands; inside `release` it has a place in the signal set too. -/
inductive DrainProducer where
  | idle
  | appended (gate : Gate)
  deriving DecidableEq, Repr

/-- Where the consumer stands in its loop. -/
inductive DrainLoop where
  | head
  | acquiring
  | loadState
  -- `left` are the queues of `state` that are not drained yet
  | drain (state : Word) (left : List Gate)
  deriving DecidableEq, Repr

/-- The signal set, with `none` for the consumer's own thread, and the queues. -/
structure DrainState (α ι : Type*) where
  gates : GateState (Option ι)
  queues : Gate → List α
  producers : ι → DrainProducer
  consumer : DrainLoop

inductive DrainAction (α ι : Type*) where
  | append (producer : ι) (gate : Gate) (item : α)
  | release (producer : ι)
  | wake (producer : ι)
  | tick
  | spin
  | spurious

namespace DrainState

variable {α ι : Type*} {nBits : Nat} {mask : Word}

def new (nBits : Nat) : DrainState α ι where
  gates := .new nBits
  queues _ := []
  producers _ := .idle
  consumer := .head

def consumerAt (s : DrainState α ι) (pc : DrainLoop) : DrainState α ι :=
  { s with consumer := pc }

def withGates (s : DrainState α ι) (gates : GateState (Option ι)) : DrainState α ι :=
  { s with gates := gates }

def setQueue (s : DrainState α ι) (gate : Gate) (items : List α) : DrainState α ι :=
  { s with queues := Function.update s.queues gate items }

variable [DecidableEq ι]

def producerAt (s : DrainState α ι) (producer : ι) (pc : DrainProducer) : DrainState α ι :=
  { s with producers := Function.update s.producers producer pc }

/-- The next step of the consumer's loop.  A queue is drained when it is found empty. -/
def tick (mask : Word) (s : DrainState α ι) : Option (DrainState α ι) :=
  match s.consumer with
  | .head =>
      (s.gates.step (.consumer (.call (.any mask)))).map fun gates =>
        (s.withGates gates).consumerAt .acquiring
  | .acquiring =>
      match s.gates.consumer with
      | .idle => some (s.consumerAt .loadState)
      | _ => (s.gates.step (.consumer .tick)).map s.withGates
  | .loadState =>
      s.gates.set.chunks[0]?.map fun state => s.consumerAt (.drain state (openGates state))
  | .drain state (gate :: left) =>
      match s.queues gate with
      | [] => some (s.consumerAt (.drain state left))
      | _ :: items => some (s.setQueue gate items)
  | .drain state [] =>
      (s.gates.step (.thread none (.lockMask state))).map fun gates =>
        (s.withGates gates).consumerAt .head

def step (mask : Word) (s : DrainState α ι) : DrainAction α ι → Option (DrainState α ι)
  | .append producer gate item =>
      match s.producers producer, s.gates.threads (some producer) with
      | .idle, .idle =>
          some ((s.setQueue gate (s.queues gate ++ [item])).producerAt producer (.appended gate))
      | _, _ => none
  | .release producer =>
      match s.producers producer with
      | .appended gate =>
          (s.gates.step (.thread (some producer) (.release (gateId gate)))).map fun gates =>
            (s.withGates gates).producerAt producer .idle
      | .idle => none
  | .wake producer =>
      (s.gates.step (.thread (some producer) .tick)).map s.withGates
  | .tick => s.tick mask
  | .spin => (s.gates.step (.consumer .spin)).map s.withGates
  | .spurious => (s.gates.step (.consumer .spurious)).map s.withGates

/-- Every interleaving of any number of producers with the consumer's loop. -/
def system (nBits : Nat) (mask : Word) : System (DrainState α ι) (DrainAction α ι) :=
  System.ofFunction (fun s => s = new nBits) fun s action => s.step mask action

/-- The consumer sleeps in `acquire_any`. -/
def Blocked (mask : Word) (s : DrainState α ι) : Prop :=
  s.gates.consumer = .park (.any mask) ∧ s.gates.set.waiter.token = false

/-- Every append to the queue has been followed by a `release` that is over. -/
def Released (s : DrainState α ι) (gate : Gate) : Prop :=
  (∀ producer, s.producers producer ≠ .appended gate) ∧
    ∀ producer prev, s.gates.threads (some producer) ≠ .releaseWake (gateId gate) prev

/-- The argument of the `lock_mask` that the action performs. -/
def locks (s : DrainState α ι) : DrainAction α ι → Option Word
  | .tick =>
      match s.consumer with
      | .drain state [] => some state
      | _ => none
  | _ => none

/-- `lock_mask` closes a gate of the mask only with its queue empty, or with a producer
that has appended to it and not come to its `release`. -/
def LocksDrained (mask : Word) (s : DrainState α ι) (action : DrainAction α ι) : Prop :=
  ∀ state ∈ s.locks action, ∀ gate, inMask mask gate = true → inMask state gate = true →
    s.queues gate = [] ∨ ∃ producer, s.producers producer = .appended gate

/-- Not by going through all words. -/
instance [Fintype ι] (mask : Word) (s : DrainState α ι) (action : DrainAction α ι) :
    Decidable (s.LocksDrained mask action) :=
  Option.decidableForallMem (s.locks action)

/-- The runs in which `lock_mask` closes no gate with a forgotten item behind it. -/
def lockingDrained (nBits : Nat) (mask : Word) : System (DrainState α ι) (DrainAction α ι) :=
  (system nBits mask).guarded fun s action => s.LocksDrained mask action

end DrainState

/-! ### Gates and their bits -/

theorem toNat_gateId (gate : Gate) : (gateId gate).toNat = gate := by
  have small := gate.isLt
  simp only [gateId, BitVec.toNat_ofNat]
  omega

theorem chunkOf_gateId (gate : Gate) : chunkOf (gateId gate) = 0 := by
  rw [chunkOf, toNat_gateId]
  omega

theorem bitOf_gateId (gate : Gate) : bitOf (gateId gate) = bit 64 gate := by
  rw [bitOf, toNat_gateId, Nat.mod_eq_of_lt gate.isLt]

theorem sees_any_bit (gate : Gate) (word : Word) :
    (Acquire.any (bit 64 gate)).sees word = inMask word gate := by
  have decided : word &&& bit 64 gate = 0 ↔ word.getLsbD gate = false :=
    and_bit_eq_zero gate.isLt
  simp only [Acquire.sees, inMask]
  cases set : word.getLsbD gate with
  | false => simp [decided.mpr set]
  | true =>
      have nonzero : ¬ word &&& bit 64 gate = 0 := fun zero => by
        rw [decided.mp zero] at set
        cases set
      simpa using nonzero

/-- Waiting for one gate of the mask asks for no less than waiting for any. -/
theorem narrower_any {mask : Word} {gate : Gate} (masked : inMask mask gate = true) :
    (Acquire.any (bit 64 gate)).Narrower (.any mask) := by
  intro word seen
  rw [sees_any_bit] at seen
  simp only [Acquire.sees, bne_iff_ne, ne_eq]
  intro zero
  have both : (word &&& mask).getLsbD gate = true := by
    rw [BitVec.getLsbD_and]
    exact (Bool.and_eq_true _ _).mpr ⟨seen, masked⟩
  rw [zero] at both
  simp at both

/-- The only id of the first chunk whose bit is the gate's. -/
theorem eq_gateId {id : SignalId} {gate : Gate} (first : chunkOf id = 0)
    (opens : inMask (bitOf id) gate = true) : id = gateId gate := by
  apply BitVec.eq_of_toNat_eq
  rw [toNat_gateId]
  simp only [inMask, bitOf, getLsbD_bit] at opens
  simp only [chunkOf] at first
  have small := gate.isLt
  simp only [Bool.and_eq_true, decide_eq_true_eq] at opens
  omega

namespace GateState

variable {κ : Type*} {s after : GateState κ}

theorem chunks_of_consumerStep {action : AcquireAction}
    (taken : s.consumerStep action = some after) :
    after.set.chunks = s.set.chunks ∧ after.threads = s.threads := by
  cases action with
  | tick =>
      simp only [consumerStep, consumerTick] at taken
      cases pcEq : s.consumer with
      | idle => simp [pcEq] at taken
      | test phase call chunk =>
          simp only [pcEq] at taken
          split at taken
          · cases taken
          · split at taken
            · cases taken
              exact ⟨rfl, rfl⟩
            · split at taken <;> cases taken <;> exact ⟨rfl, rfl⟩
      | park call =>
          simp only [pcEq] at taken
          split at taken <;> cases taken
          exact ⟨rfl, rfl⟩
      | announce call | leave call =>
          simp only [pcEq, Option.some.injEq] at taken
          subst taken
          exact ⟨rfl, rfl⟩
  | call call | spin | spurious =>
      simp only [consumerStep] at taken
      split at taken <;> cases taken
      exact ⟨rfl, rfl⟩

/-- The gate is open in the current bitmap. -/
def IsOpen (s : GateState κ) (gate : Gate) : Prop :=
  ∃ word, s.set.chunks[0]? = some word ∧ inMask word gate = true

theorem isOpen_congr {gate : Gate} (chunks : after.set.chunks = s.set.chunks) :
    after.IsOpen gate ↔ s.IsOpen gate := by
  rw [IsOpen, chunks]
  rfl

/-- The word of the first chunk after an operation on it. -/
theorem isOpen_set {gate : Gate} {set : SignalSet} {word next : Word}
    (present : set.chunks[0]? = some word) (threads : κ → GateThread) (consumer : AcquirePc) :
    (GateState.mk { set with chunks := set.chunks.set 0 next } threads consumer).IsOpen gate ↔
      inMask next gate = true := by
  have inside := (List.getElem?_eq_some_iff.mp present).1
  constructor
  · rintro ⟨found, there, opens⟩
    rw [List.getElem?_set_self inside, Option.some.injEq] at there
    rwa [there]
  · intro opens
    exact ⟨next, List.getElem?_set_self inside, opens⟩

theorem isOpen_iff {gate : Gate} {word : Word} (present : s.set.chunks[0]? = some word) :
    s.IsOpen gate ↔ inMask word gate = true := by
  constructor
  · rintro ⟨found, there, opens⟩
    rw [present, Option.some.injEq] at there
    rwa [there]
  · exact fun opens => ⟨word, present, opens⟩

variable [DecidableEq κ]

theorem release_opens {thread : κ} {gate : Gate}
    (taken : s.threadStep thread (.release (gateId gate)) = some after) :
    after.IsOpen gate ∧ ∀ other, s.IsOpen other → after.IsOpen other := by
  simp only [threadStep] at taken
  split at taken
  · obtain ⟨⟨prev, set⟩, fetched, rfl⟩ := Option.map_eq_some_iff.mp taken
    rw [chunkOf_gateId, bitOf_gateId] at fetched
    obtain ⟨word, present, same⟩ := Option.map_eq_some_iff.mp fetched
    obtain ⟨rfl, rfl⟩ := Prod.mk.inj same
    have opens (other : Gate) : inMask (word ||| bit 64 gate) other =
        (inMask word other || decide ((other : Nat) = gate)) := getLsbD_or_bit gate.isLt
    constructor
    · dsimp only
      split <;> exact (isOpen_set present _ _).mpr (by rw [opens]; simp)
    · intro other before
      rw [isOpen_iff present] at before
      dsimp only
      split <;> exact (isOpen_set present _ _).mpr (by rw [opens, before, Bool.true_or])
  · cases taken

/-- `lock_mask` closes the gates of its mask and no others. -/
theorem lockMask_keeps {thread : κ} {mask : Word}
    (taken : s.threadStep thread (.lockMask mask) = some after) :
    (∀ gate, inMask mask gate = false → s.IsOpen gate → after.IsOpen gate) ∧
      after.threads = s.threads := by
  simp only [threadStep] at taken
  split at taken
  · obtain ⟨set, locked, rfl⟩ := Option.map_eq_some_iff.mp taken
    refine ⟨fun gate outside before => ?_, rfl⟩
    simp only [SignalSet.lockMask, SignalSet.lockChunkMask] at locked
    obtain ⟨⟨prev, closed⟩, fetched, rfl⟩ := Option.map_eq_some_iff.mp locked
    obtain ⟨word, present, same⟩ := Option.map_eq_some_iff.mp fetched
    obtain ⟨rfl, rfl⟩ := Prod.mk.inj same
    rw [isOpen_iff present] at before
    refine (isOpen_set present _ _).mpr ?_
    simp only [inMask] at before outside ⊢
    rw [BitVec.getLsbD_and, BitVec.getLsbD_not, before, outside]
    simp
  · cases taken

theorem wake_keeps {thread : κ} (taken : s.threadStep thread .tick = some after) :
    after.set.chunks = s.set.chunks := by
  simp only [threadStep] at taken
  split at taken <;> cases taken
  rfl

theorem threads_of_threadStep {thread other : κ} {action : ThreadAction}
    (taken : s.threadStep thread action = some after) (different : other ≠ thread) :
    after.threads other = s.threads other := by
  cases action with
  | tick =>
      simp only [threadStep] at taken
      split at taken <;> cases taken
      exact Function.update_of_ne different _ _
  | release id =>
      simp only [threadStep] at taken
      split at taken
      · obtain ⟨⟨prev, set⟩, -, rfl⟩ := Option.map_eq_some_iff.mp taken
        dsimp only
        split
        · exact Function.update_of_ne different _ _
        · rfl
      · cases taken
  | lock id | lockMask mask | lockChunkMask chunk mask =>
      simp only [threadStep] at taken
      split at taken
      · obtain ⟨set, -, rfl⟩ := Option.map_eq_some_iff.mp taken
        rfl
      · cases taken

end GateState

namespace DrainState

variable {α ι : Type*} [DecidableEq ι] {nBits : Nat} {mask : Word} {s after : DrainState α ι}

/-- What a step of the system does. -/
inductive Move (s after : DrainState α ι) : DrainAction α ι → Prop
  | append {producer : ι} {gate : Gate} {item : α} (idle : s.producers producer = .idle)
      (next : after =
        (s.setQueue gate (s.queues gate ++ [item])).producerAt producer (.appended gate)) :
      Move s after (.append producer gate item)
  | release {producer : ι} {gate : Gate} {gates : GateState (Option ι)}
      (appended : s.producers producer = .appended gate)
      (released : s.gates.threadStep (some producer) (.release (gateId gate)) = some gates)
      (next : after = (s.withGates gates).producerAt producer .idle) :
      Move s after (.release producer)
  | wake {producer : ι} {gates : GateState (Option ι)}
      (woken : s.gates.threadStep (some producer) .tick = some gates)
      (next : after = s.withGates gates) : Move s after (.wake producer)
  -- a step inside `acquire_any`
  | wait {action : DrainAction α ι} {move : AcquireAction} {gates : GateState (Option ι)}
      {pc : DrainLoop} (moved : s.gates.consumerStep move = some gates)
      (next : after = (s.withGates gates).consumerAt pc) : Move s after action
  -- a step of the loop that touches neither the gates nor the queues
  | loop {action : DrainAction α ι} {pc : DrainLoop} (next : after = s.consumerAt pc) :
      Move s after action
  | pop {gate : Gate} {item : α} {items : List α} (queued : s.queues gate = item :: items)
      (next : after = s.setQueue gate items) : Move s after .tick
  | lock {state : Word} {gates : GateState (Option ι)} (drained : s.consumer = .drain state [])
      (locked : s.gates.threadStep none (.lockMask state) = some gates)
      (next : after = (s.withGates gates).consumerAt .head) : Move s after .tick

theorem move_of_tick (taken : s.tick mask = some after) : Move s after .tick := by
  unfold tick at taken
  cases pcEq : s.consumer with
  | head =>
      simp only [pcEq] at taken
      obtain ⟨gates, moved, rfl⟩ := Option.map_eq_some_iff.mp taken
      have called : s.gates.consumerStep (.call (.any mask)) = some gates := moved
      exact .wait called rfl
  | acquiring =>
      simp only [pcEq] at taken
      split at taken
      · cases taken
        exact .loop rfl
      · obtain ⟨gates, moved, rfl⟩ := Option.map_eq_some_iff.mp taken
        have ticked : s.gates.consumerStep .tick = some gates := moved
        exact .wait ticked rfl
  | loadState =>
      simp only [pcEq] at taken
      obtain ⟨state, -, rfl⟩ := Option.map_eq_some_iff.mp taken
      exact .loop rfl
  | drain state left =>
      cases left with
      | nil =>
          simp only [pcEq] at taken
          obtain ⟨gates, locked, rfl⟩ := Option.map_eq_some_iff.mp taken
          exact .lock pcEq locked rfl
      | cons gate left =>
          simp only [pcEq] at taken
          split at taken
          · cases taken
            exact .loop rfl
          · rename_i queued
            cases taken
            exact .pop queued rfl

theorem move_of_step {action : DrainAction α ι} (taken : s.step mask action = some after) :
    Move s after action := by
  cases action with
  | tick => exact move_of_tick taken
  | append producer gate item =>
      simp only [step] at taken
      split at taken <;> cases taken
      exact .append (by assumption) rfl
  | release producer =>
      simp only [step] at taken
      split at taken
      · obtain ⟨gates, released, rfl⟩ := Option.map_eq_some_iff.mp taken
        exact .release (by assumption) released rfl
      · cases taken
  | wake producer =>
      obtain ⟨gates, woken, rfl⟩ := Option.map_eq_some_iff.mp taken
      exact .wake woken rfl
  | spin =>
      obtain ⟨gates, moved, rfl⟩ := Option.map_eq_some_iff.mp taken
      have spun : s.gates.consumerStep .spin = some gates := moved
      exact .wait spun rfl
  | spurious =>
      obtain ⟨gates, moved, rfl⟩ := Option.map_eq_some_iff.mp taken
      have woken : s.gates.consumerStep .spurious = some gates := moved
      exact .wait woken rfl

/-- The signal set under the loop runs as a signal set of its own. -/
theorem gates_reachable (reached : (system nBits mask).Reachable s) :
    (GateState.system nBits).Reachable s.gates := by
  refine reached.project (fun s => s.gates) ?_ ?_
  · rintro _ rfl
    rfl
  · intro before action after _ taken
    cases move_of_step taken with
    | append idle next | loop next | pop queued next =>
        rw [next]
        exact .inl rfl
    | release appended released next =>
        rw [next]
        exact .inr ⟨.thread (some _) (.release _), released⟩
    | wake woken next =>
        rw [next]
        exact .inr ⟨.thread (some _) .tick, woken⟩
    | wait moved next =>
        rw [next]
        exact .inr ⟨.consumer _, moved⟩
    | lock drained locked next =>
        rw [next]
        exact .inr ⟨.thread none (.lockMask _), locked⟩

/-! ### No item is forgotten -/

/-- Behind every item of a gate of the mask its gate is open, or a producer is about to
release it.  The consumer's own thread releases nothing. -/
structure DrainOk (mask : Word) (s : DrainState α ι) : Prop where
  kept : ∀ gate, inMask mask gate = true → s.queues gate ≠ [] →
    s.gates.IsOpen gate ∨ ∃ producer, s.producers producer = .appended gate
  own : s.gates.threads none = .idle

omit [DecidableEq ι] in
/-- The gates do not close, the queues do not grow, and the producers stay. -/
theorem DrainOk.of_quiet (ok : DrainOk mask s)
    (opens : ∀ gate, s.gates.IsOpen gate → after.gates.IsOpen gate)
    (queues : ∀ gate, after.queues gate ≠ [] → s.queues gate ≠ [])
    (producers : after.producers = s.producers) (own : after.gates.threads none = .idle) :
    DrainOk mask after where
  kept gate masked nonempty := by
    rw [producers]
    exact (ok.kept gate masked (queues gate nonempty)).imp_left (opens gate)
  own := own

theorem DrainOk.append (ok : DrainOk mask s) {producer : ι} {gate : Gate} {item : α}
    (idle : s.producers producer = .idle) :
    DrainOk mask
      ((s.setQueue gate (s.queues gate ++ [item])).producerAt producer (.appended gate)) where
  kept other masked nonempty := by
    simp only [producerAt, setQueue] at nonempty ⊢
    by_cases same : other = gate
    · subst same
      exact .inr ⟨producer, Function.update_self ..⟩
    · rw [Function.update_of_ne same] at nonempty
      refine (ok.kept other masked nonempty).imp_right ?_
      rintro ⟨waiting, appended⟩
      have apart : waiting ≠ producer := by
        rintro rfl
        rw [idle] at appended
        cases appended
      exact ⟨waiting, by rw [Function.update_of_ne apart, appended]⟩
  own := ok.own

theorem DrainOk.release (ok : DrainOk mask s) {producer : ι} {gate : Gate}
    {gates : GateState (Option ι)} (appended : s.producers producer = .appended gate)
    (released : s.gates.threadStep (some producer) (.release (gateId gate)) = some gates) :
    DrainOk mask ((s.withGates gates).producerAt producer .idle) where
  kept other masked nonempty := by
    obtain ⟨opened, keeps⟩ := GateState.release_opens released
    simp only [producerAt, withGates] at nonempty ⊢
    by_cases same : other = gate
    · subst same
      exact .inl opened
    · rcases ok.kept other masked nonempty with before | ⟨waiting, pending⟩
      · exact .inl (keeps other before)
      · have apart : waiting ≠ producer := by
          rintro rfl
          rw [appended] at pending
          exact same (DrainProducer.appended.inj pending).symm
        exact .inr ⟨waiting, by rw [Function.update_of_ne apart, pending]⟩
  own := by
    have others := GateState.threads_of_threadStep released (Option.some_ne_none producer).symm
    exact others.trans ok.own

/-- `lock_mask`, as the condition has it. -/
theorem DrainOk.lock (ok : DrainOk mask s) {state : Word} {gates : GateState (Option ι)}
    (drained : ∀ gate, inMask mask gate = true → inMask state gate = true →
      s.queues gate = [] ∨ ∃ producer, s.producers producer = .appended gate)
    (locked : s.gates.threadStep none (.lockMask state) = some gates) :
    DrainOk mask ((s.withGates gates).consumerAt .head) where
  kept gate masked nonempty := by
    cases closes : inMask state gate with
    | true => exact .inr ((drained gate masked closes).resolve_left nonempty)
    | false =>
        refine (ok.kept gate masked nonempty).imp_left fun before => ?_
        exact (GateState.lockMask_keeps locked).1 gate closes before
  own := by
    have threads := (GateState.lockMask_keeps locked).2
    exact (congrFun threads none).trans ok.own

theorem DrainOk.step {action : DrainAction α ι} (ok : DrainOk mask s)
    (drained : s.LocksDrained mask action) (taken : s.step mask action = some after) :
    DrainOk mask after := by
  cases move_of_step taken with
  | append idle next =>
      rw [next]
      exact ok.append idle
  | release appended released next =>
      rw [next]
      exact ok.release appended released
  | wake woken next =>
      rw [next]
      have chunks := GateState.wake_keeps woken
      have others := GateState.threads_of_threadStep woken (Option.some_ne_none _).symm
      exact ok.of_quiet (fun gate => (GateState.isOpen_congr chunks).mpr) (fun _ => id) rfl
        (others.trans ok.own)
  | wait moved next =>
      rw [next]
      obtain ⟨chunks, threads⟩ := GateState.chunks_of_consumerStep moved
      exact ok.of_quiet (fun gate => (GateState.isOpen_congr chunks).mpr) (fun _ => id) rfl
        ((congrFun threads none).trans ok.own)
  | loop next =>
      rw [next]
      exact ok.of_quiet (fun _ => id) (fun _ => id) rfl ok.own
  | pop queued next =>
      rename_i gate item items
      rw [next]
      refine ok.of_quiet (fun _ => id) (fun other nonempty => ?_) rfl ok.own
      by_cases same : other = gate
      · rw [same, queued]
        exact List.cons_ne_nil _ _
      · simp only [setQueue] at nonempty
        rwa [Function.update_of_ne same] at nonempty
  | lock atLock locked next =>
      rw [next]
      exact ok.lock (drained _ (by simp [locks, atLock])) locked

theorem drainOk (reached : (lockingDrained nBits mask).Reachable s) : DrainOk mask s := by
  refine reached.invariant (DrainOk mask) ?base ?preserved
  case base =>
    rintro _ rfl
    constructor
    · intro gate _ nonempty
      exact absurd rfl nonempty
    · rfl
  case preserved =>
    rintro before action after - ok ⟨drained, taken⟩
    exact ok.step drained taken

/-- In every run in which `lock_mask` closes gates of the mask with their queues empty or
a release still to come, the consumer sleeps only when every queue whose releases are
over is empty. -/
theorem drains_all (reached : (lockingDrained nBits mask).Reachable s)
    (blocked : s.Blocked mask) {gate : Gate} (masked : inMask mask gate = true)
    (released : s.Released gate) : s.queues gate = [] := by
  obtain ⟨notAppended, noRelease⟩ := released
  have ok := drainOk reached
  by_contra nonempty
  have opened : s.gates.IsOpen gate := by
    refine (ok.kept gate masked nonempty).resolve_right ?_
    rintro ⟨producer, appended⟩
    exact notAppended producer appended
  -- the consumer has found the gate closed since its announcement: who opened it has
  -- left a token, or is still on its way to the wake
  have remembered := (GateState.waitOk (gates_reachable reached.of_guarded)).here
    (.any (bit 64 gate))
  rw [blocked.1] at remembered
  rcases remembered (narrower_any masked) with token | owed
  · rw [blocked.2] at token
    cases token
  · obtain ⟨word, present, opens⟩ := opened
    have trueAt : s.gates.TrueAt (.any (bit 64 gate)) 0 :=
      ⟨Nat.one_pos, word, present, by rw [sees_any_bit]; exact opens⟩
    obtain ⟨thread, id, prev, releasing, first, before, flipped⟩ := owed 0 Nat.one_pos trueAt
    cases thread with
    | none =>
        rw [ok.own] at releasing
        cases releasing
    | some producer =>
        have same : id = gateId gate := by
          refine eq_gateId first ?_
          rw [sees_any_bit] at before flipped
          simp only [inMask] at before flipped ⊢
          rw [BitVec.getLsbD_or, before, Bool.false_or] at flipped
          exact flipped
        rw [same] at releasing
        exact noRelease producer prev releasing

/-- One gate and one producer: an item is appended, released and drained, and the
consumer goes to sleep. -/
def drainOne : List (DrainAction Nat (Fin 1)) :=
  [DrainAction.append 0 0 7, .release 0, .wake 0] ++ List.replicate 11 DrainAction.tick

/-- The second item comes between the drain of the queue and `lock_mask`; its release is
coalesced with the first. -/
def appendBeforeLock : List (DrainAction Nat (Fin 1)) :=
  [DrainAction.append 0 0 7, .release 0, .wake 0] ++ List.replicate 6 DrainAction.tick ++
    [DrainAction.append 0 0 8, .release 0] ++ List.replicate 5 DrainAction.tick

/-- A single producer that is done has completed its releases. -/
theorem released_of_idle {s : DrainState Nat (Fin 1)} (idle : s.producers 0 = .idle)
    (outside : s.gates.threads (some 0) = .idle) (gate : Gate) : s.Released gate := by
  constructor
  · intro producer appended
    rw [Subsingleton.elim producer 0, idle] at appended
    cases appended
  · intro producer prev releasing
    rw [Subsingleton.elim producer 0, outside] at releasing
    cases releasing

theorem drains_all_drainOne :
    ∃ s : DrainState Nat (Fin 1), (lockingDrained 64 1).Reachable s ∧ s.Blocked 1 ∧
      s.Released 0 ∧ s.queues 0 = [] := by
  have ran : (Transition.execute (Transition.guardedStep
      (fun (s : DrainState Nat (Fin 1)) action => s.LocksDrained 1 action)
      (fun s action => s.step 1 action)) (new 64) drainOne).map
        (fun s => ((s.gates.consumer, s.gates.set.waiter.token),
          s.producers 0, s.gates.threads (some 0))) =
        some ((.park (.any 1), false), .idle, .idle) := by
    decide +kernel
  obtain ⟨s, ran, seen⟩ := Option.map_eq_some_iff.mp ran
  obtain ⟨⟨parked, noToken⟩, idle, outside⟩ := by simpa only [Prod.mk.injEq] using seen
  have reached : (lockingDrained 64 1).Reachable s := System.reachable_of_guarded_execute rfl ran
  have blocked : s.Blocked 1 := ⟨parked, noToken⟩
  have released : s.Released 0 := released_of_idle idle outside 0
  exact ⟨s, reached, blocked, released, drains_all reached blocked (by decide) released⟩

/-- The consumer sleeps for good with the second item in the queue. -/
theorem forgets_appendBeforeLock :
    ∃ s : DrainState Nat (Fin 1), (system 64 1).Reachable s ∧ s.Blocked 1 ∧
      inMask 1 0 = true ∧ s.Released 0 ∧ s.queues 0 = [8] := by
  have ran : (Transition.execute (fun (s : DrainState Nat (Fin 1)) action => s.step 1 action)
      (new 64) appendBeforeLock).map
        (fun s => ((s.gates.consumer, s.gates.set.waiter.token),
          (s.producers 0, s.gates.threads (some 0)), s.queues 0)) =
        some ((.park (.any 1), false), (.idle, .idle), [8]) := by
    decide +kernel
  obtain ⟨s, ran, seen⟩ := Option.map_eq_some_iff.mp ran
  obtain ⟨⟨parked, noToken⟩, ⟨idle, outside⟩, left⟩ := by
    simpa only [Prod.mk.injEq] using seen
  exact ⟨s, System.reachable_of_execute rfl ran, ⟨parked, noToken⟩, by decide,
    released_of_idle idle outside 0, left⟩

end DrainState

end ArbitroKit
