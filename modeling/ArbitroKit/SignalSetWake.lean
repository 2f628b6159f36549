import ArbitroKit.SignalSet

/-!
# The edge-coalesced wake strands nobody

Each predicate asks a chunk for more bits, so only a `release` can make it true of a
chunk, and then the released bit was clear: that `release` owes a wake.  While the
consumer is announced, a chunk its scan has found wanting is therefore either still
wanting, or its release is on the way to the wake, or the wake has left a token.
-/

namespace ArbitroKit

open WordBits Transition

namespace Acquire

/-- Clearing bits makes no predicate true. -/
theorem sees_of_and {call : Acquire} {word bits : Word}
    (seen : call.sees (word &&& bits) = true) : call.sees word = true := by
  cases call with
  | any mask =>
      simp only [sees, bne_iff_ne, ne_eq] at seen ⊢
      intro zero
      apply seen
      rw [BitVec.and_assoc, BitVec.and_comm bits, ← BitVec.and_assoc, zero]
      simp
  | all mask =>
      simp only [sees, beq_iff_eq] at seen ⊢
      apply BitVec.eq_of_getLsbD_eq
      intro k _
      have at_k := congrArg (fun w => BitVec.getLsbD w k) seen
      simp only [BitVec.getLsbD_and] at at_k ⊢
      revert at_k
      cases word.getLsbD k <;> cases bits.getLsbD k <;> cases mask.getLsbD k <;> simp
  | first | anyChunk =>
      simp only [sees, bne_iff_ne, ne_eq] at seen ⊢
      intro zero
      apply seen
      rw [zero]
      simp

/-- A `fetch_or` that makes a predicate true has flipped its bit. -/
theorem flipped_of_sees {call : Acquire} {prev : Word} {id : SignalId}
    (before : call.sees prev = false) (after : call.sees (prev ||| bitOf id) = true) :
    prev &&& bitOf id = 0 := by
  apply (and_bit_eq_zero (Nat.mod_lt _ (by omega))).mpr
  by_contra set
  rw [bitOf, or_bit_of_set (eq_true_of_ne_false set), before] at after
  cases after

/-- Whatever chunk satisfies the first predicate satisfies the second. -/
def Narrower (sub call : Acquire) : Prop :=
  ∀ word, sub.sees word = true → call.sees word = true

theorem Narrower.refl (call : Acquire) : Narrower call call := fun _ seen => seen

end Acquire

namespace GateState

variable {ι : Type*} {s after : GateState ι} {call : Acquire} {chunk : Nat}

/-- No chunk below `scanned` is forgotten: a token is there, or whoever made the
predicate true of the chunk is still on its way to the wake. -/
def Remembered (s : GateState ι) (call : Acquire) (scanned : Nat) : Prop :=
  s.set.waiter.token = true ∨
    ∀ chunk < scanned, s.TrueAt call chunk → s.Releasing call chunk

/-- The consumer has announced itself and not left since. -/
def announcedAt : AcquirePc → Bool
  | .test .announced _ _ => true
  | .park _ => true
  | .leave _ => true
  | _ => false

/-- What the consumer's place says about its wait. -/
def ConsumerAt (s : GateState ι) : AcquirePc → Prop
  | .test .announced call chunk => s.Remembered call chunk
  | .park call => s.Remembered call (call.scanned s.set.chunks.length)
  | _ => True

structure WakeOk (s : GateState ι) : Prop where
  announced : announcedAt s.consumer = true → s.set.waiter.announced = true
  here : s.ConsumerAt s.consumer

/-- What the consumer's place says about any predicate that asks for no less than the one
it waits for. -/
def Remembers (s : GateState ι) (sub : Acquire) : AcquirePc → Prop
  | .test .announced call chunk => sub.Narrower call → s.Remembered sub chunk
  | .park call => sub.Narrower call → s.Remembered sub (call.scanned s.set.chunks.length)
  | _ => True

structure WaitOk (s : GateState ι) : Prop where
  announced : announcedAt s.consumer = true → s.set.waiter.announced = true
  here : ∀ sub, s.Remembers sub s.consumer

theorem WaitOk.wakeOk (ok : WaitOk s) : WakeOk s := by
  refine ⟨ok.announced, ?_⟩
  have here := ok.here
  revert here
  cases s.consumer with
  | test phase call chunk =>
      cases phase with
      | entry => exact fun _ => trivial
      | announced => exact fun here => here call (.refl call)
  | park call => exact fun here => here call (.refl call)
  | idle | announce call | leave call => exact fun _ => trivial

/-- A thread's step with the consumer's wait in view: nothing that was remembered is
forgotten. -/
theorem WaitOk.of_thread (ok : WaitOk s) (consumer : after.consumer = s.consumer)
    (length : after.set.chunks.length = s.set.chunks.length)
    (announced : after.set.waiter.announced = s.set.waiter.announced)
    (keeps : s.set.waiter.announced = true → ∀ call scanned,
      s.Remembered call scanned → after.Remembered call scanned) :
    WaitOk after := by
  constructor
  · rw [consumer, announced]
    exact ok.announced
  · have here := ok.here
    have announced := ok.announced
    rw [consumer]
    revert here announced
    cases s.consumer with
    | test phase call chunk =>
        cases phase with
        | entry => exact fun _ _ _ => trivial
        | announced =>
            intro here announced sub narrower
            exact keeps (announced rfl) sub chunk (here sub narrower)
    | park call =>
        intro here announced sub narrower
        rw [length]
        exact keeps (announced rfl) sub _ (here sub narrower)
    | _ => exact fun _ _ _ => trivial

/-! ### Steps of the threads -/

theorem Releasing.of_threads (releasing : s.Releasing call chunk)
    (kept : ∀ thread id prev, s.threads thread = .releaseWake id prev →
      after.threads thread = .releaseWake id prev) : after.Releasing call chunk := by
  obtain ⟨thread, id, prev, here, rest⟩ := releasing
  exact ⟨thread, id, prev, kept thread id prev here, rest⟩

/-- Closing gates makes no predicate true. -/
theorem Remembered.fetchAnd {scanned cleared : Nat} {bits prev : Word} {set : SignalSet}
    (remembered : s.Remembered call scanned)
    (fetched : s.set.fetchAnd cleared bits = some (prev, set)) :
    ({ s with set := set } : GateState ι).Remembered call scanned := by
  obtain ⟨word, present, same⟩ := Option.map_eq_some_iff.mp fetched
  obtain ⟨rfl, rfl⟩ := Prod.mk.inj same
  rcases remembered with token | owed
  · exact .inl token
  · right
    rintro chunk inside ⟨bound, value, there, seen⟩
    apply (owed chunk inside ?_).of_threads fun _ _ _ here => here
    rw [List.length_set] at bound
    refine ⟨bound, ?_⟩
    by_cases same : cleared = chunk
    · subst same
      rw [List.getElem?_set_self (List.getElem?_eq_some_iff.mp present).1,
        Option.some.injEq] at there
      subst there
      exact ⟨word, present, Acquire.sees_of_and seen⟩
    · rw [List.getElem?_set_ne same] at there
      exact ⟨value, there, seen⟩

variable [DecidableEq ι]

/-- A `release` whose bit flips owes a wake from then on; one whose bit was set changes
nothing. -/
theorem Remembered.release {scanned : Nat} {thread : ι} {id : SignalId}
    (remembered : s.Remembered call scanned) (idle : s.threads thread = .idle)
    (released : s.release thread id = some after) : after.Remembered call scanned := by
  obtain ⟨⟨prev, set⟩, fetched, rfl⟩ := Option.map_eq_some_iff.mp released
  obtain ⟨word, present, same⟩ := Option.map_eq_some_iff.mp fetched
  obtain ⟨rfl, rfl⟩ := Prod.mk.inj same
  have inside := (List.getElem?_eq_some_iff.mp present).1
  have kept : ∀ other waiting seen, s.threads other = .releaseWake waiting seen →
      Function.update s.threads thread (.releaseWake id word) other =
        .releaseWake waiting seen := by
    intro other waiting seen here
    have apart : other ≠ thread := by
      intro same
      rw [same, idle] at here
      cases here
    rw [Function.update_of_ne apart]
    exact here
  rcases remembered with token | owed
  · left
    dsimp only
    split <;> exact token
  · right
    -- A chunk of which the predicate was true before keeps its release; the chunk of
    -- this release either is such a one or owes its truth to the bit that flips here.
    rintro chunk inScan ⟨bound, value, there, seen⟩
    by_cases same : chunkOf id = chunk
    · subst same
      have newWord : value = word ||| bitOf id := by
        revert there
        dsimp only
        split <;> simp [threadAt, List.getElem?_set_self inside, eq_comm]
      subst newWord
      cases before : call.sees word with
      | true =>
          have owed := owed (chunkOf id) inScan
            ⟨by revert bound; dsimp only; split <;> simp [threadAt], word, present, before⟩
          dsimp only
          split
          · exact owed.of_threads kept
          · exact owed.of_threads fun _ _ _ here => here
      | false =>
          dsimp only
          rw [if_pos (Acquire.flipped_of_sees before seen)]
          exact ⟨thread, id, word, Function.update_self .., rfl, before, seen⟩
    · have trueBefore : s.TrueAt call chunk := by
        refine ⟨by revert bound; dsimp only; split <;> simp [threadAt], value, ?_, seen⟩
        revert there
        dsimp only
        split <;> simp [threadAt, List.getElem?_set_ne same]
      have owed := owed chunk inScan trueBefore
      dsimp only
      split
      · exact owed.of_threads kept
      · exact owed.of_threads fun _ _ _ here => here

theorem length_fetchAnd {set closed : SignalSet} {chunk : Nat} {bits prev : Word}
    (fetched : set.fetchAnd chunk bits = some (prev, closed)) :
    closed.chunks.length = set.chunks.length ∧ closed.waiter = set.waiter := by
  obtain ⟨word, -, same⟩ := Option.map_eq_some_iff.mp fetched
  obtain ⟨-, rfl⟩ := Prod.mk.inj same
  exact ⟨List.length_set, rfl⟩

omit [DecidableEq ι] in
theorem WaitOk.lock {cleared : Nat} {bits : Word} {set : SignalSet} (ok : WaitOk s)
    (locked : (s.set.fetchAnd cleared bits).map Prod.snd = some set) :
    WaitOk ({ s with set := set } : GateState ι) := by
  obtain ⟨⟨prev, closed⟩, fetched, rfl⟩ := Option.map_eq_some_iff.mp locked
  obtain ⟨length, waiter⟩ := length_fetchAnd fetched
  apply ok.of_thread
  · rfl
  · exact length
  · exact congrArg Waiter.announced waiter
  · intro _ call scanned remembered
    exact remembered.fetchAnd fetched

theorem WaitOk.thread_step {thread : ι} {action : ThreadAction} (ok : WaitOk s)
    (taken : s.threadStep thread action = some after) : WaitOk after := by
  cases action with
  | tick =>
      simp only [threadStep] at taken
      split at taken
      · cases taken
      · cases taken
        apply ok.of_thread
        · rfl
        · rfl
        · exact Waiter.wake_announced _
        · intro announced call scanned _
          exact .inl (Waiter.token_wake announced)
  | release id =>
      simp only [threadStep] at taken
      split at taken
      · rename_i idle
        have kept := taken
        obtain ⟨⟨prev, set⟩, fetched, rfl⟩ := Option.map_eq_some_iff.mp taken
        obtain ⟨word, -, same⟩ := Option.map_eq_some_iff.mp fetched
        obtain ⟨-, rfl⟩ := Prod.mk.inj same
        apply ok.of_thread
        · dsimp only
          split <;> rfl
        · dsimp only
          split <;> exact List.length_set
        · dsimp only
          split <;> rfl
        · intro _ call scanned remembered
          exact remembered.release idle kept
      · cases taken
  | lock id | lockMask mask | lockChunkMask chunk mask =>
      simp only [threadStep] at taken
      split at taken
      · obtain ⟨set, locked, rfl⟩ := Option.map_eq_some_iff.mp taken
        exact ok.lock locked
      · cases taken

/-! ### Steps of the consumer -/

omit [DecidableEq ι] in
/-- One more chunk has been found wanting. -/
theorem Remembered.succ {scanned : Nat} {word : Word} (remembered : s.Remembered call scanned)
    (present : s.set.chunks[scanned]? = some word) (unseen : call.sees word = false) :
    s.Remembered call (scanned + 1) := by
  rcases remembered with token | owed
  · exact .inl token
  · right
    intro chunk inside holds
    rcases Nat.lt_succ_iff_lt_or_eq.mp inside with earlier | rfl
    · exact owed chunk earlier holds
    · obtain ⟨-, value, there, seen⟩ := holds
      rw [present, Option.some.injEq] at there
      rw [← there, unseen] at seen
      cases seen

omit [DecidableEq ι] in
theorem remembered_zero (s : GateState ι) (call : Acquire) : s.Remembered call 0 :=
  .inr fun _ inside => absurd inside (Nat.not_lt_zero _)

omit [DecidableEq ι] in
theorem Remembered.mono {scanned fewer : Nat} (remembered : s.Remembered call scanned)
    (le : fewer ≤ scanned) : s.Remembered call fewer :=
  remembered.imp_right fun owed chunk inside => owed chunk (Nat.lt_of_lt_of_le inside le)

omit [DecidableEq ι] in
theorem WaitOk.consumer_tick (ok : WaitOk s) (taken : s.consumerTick = some after) :
    WaitOk after := by
  have here := ok.here
  have announced := ok.announced
  unfold consumerTick at taken
  cases pcEq : s.consumer with
  | idle => simp [pcEq] at taken
  | test phase call chunk =>
      simp only [pcEq] at taken here announced
      split at taken
      · cases taken
      · rename_i word present
        split at taken
        · cases taken
          cases phase with
          | entry => exact ⟨fun never => absurd never Bool.false_ne_true, fun _ => trivial⟩
          | announced => exact ⟨fun _ => announced rfl, fun _ => trivial⟩
        · rename_i unseen
          have unseen (sub : Acquire) (narrower : sub.Narrower call) : sub.sees word = false :=
            eq_false_of_ne_true fun seen => unseen (narrower word seen)
          split at taken
          · cases taken
            cases phase with
            | entry => exact ⟨fun never => absurd never Bool.false_ne_true, fun _ => trivial⟩
            | announced =>
                refine ⟨fun _ => announced rfl, fun sub narrower => ?_⟩
                exact (here sub narrower).succ present (unseen sub narrower)
          · rename_i last
            cases taken
            cases phase with
            | entry => exact ⟨fun never => absurd never Bool.false_ne_true, fun _ => trivial⟩
            | announced =>
                refine ⟨fun _ => announced rfl, fun sub narrower => ?_⟩
                exact ((here sub narrower).succ present (unseen sub narrower)).mono
                  (Nat.le_of_not_lt last)
  | announce call =>
      simp only [pcEq, Option.some.injEq] at taken
      subst taken
      exact ⟨fun _ => rfl, fun sub _ => remembered_zero _ sub⟩
  | park call =>
      simp only [pcEq] at taken announced
      split at taken
      · cases taken
        exact ⟨fun _ => announced rfl, fun sub _ => remembered_zero _ sub⟩
      · cases taken
  | leave call =>
      simp only [pcEq, Option.some.injEq] at taken
      subst taken
      exact ⟨fun never => absurd never Bool.false_ne_true, fun _ => trivial⟩

omit [DecidableEq ι] in
theorem WaitOk.consumer_step {action : AcquireAction} (ok : WaitOk s)
    (taken : s.consumerStep action = some after) : WaitOk after := by
  have announced := ok.announced
  cases action with
  | tick => exact ok.consumer_tick taken
  | call call | spin =>
      simp only [consumerStep] at taken
      split at taken <;> cases taken
      exact ⟨fun never => absurd never Bool.false_ne_true, fun _ => trivial⟩
  | spurious =>
      simp only [consumerStep] at taken
      split at taken
      · rename_i pcEq
        cases taken
        rw [pcEq] at announced
        exact ⟨fun _ => announced rfl, fun sub _ => remembered_zero _ sub⟩
      · cases taken

/-! ### Every run -/

theorem waitOk {nBits : Nat} (reached : (system nBits).Reachable s) : WaitOk s := by
  apply reached.invariant WaitOk
  · rintro _ rfl
    exact ⟨fun never => absurd never Bool.false_ne_true, fun _ => trivial⟩
  · intro before action after _ ok taken
    cases action with
    | thread thread action => exact ok.thread_step taken
    | consumer action => exact ok.consumer_step taken

/-- A consumer asleep without a token while its predicate is true of the bitmap is about
to be woken: wherever in the bitmap the predicate is true, the release that made it so
has not finished its wake. -/
theorem consumer_not_stranded {nBits : Nat} (reached : (system nBits).Reachable s)
    (parked : s.consumer = .park call) (noToken : s.set.waiter.token = false)
    (holds : s.Holds call) :
    (∃ chunk, s.TrueAt call chunk ∧ s.Releasing call chunk) ∧
      ∀ chunk, s.TrueAt call chunk → s.Releasing call chunk := by
  have here := (waitOk reached).wakeOk.here
  rw [parked] at here
  have every : ∀ chunk, s.TrueAt call chunk → s.Releasing call chunk := by
    intro chunk trueAt
    rcases here with token | owed
    · rw [noToken] at token
      cases token
    · exact owed chunk trueAt.1 trueAt
  obtain ⟨chunk, trueAt⟩ := holds
  exact ⟨⟨chunk, trueAt, every chunk trueAt⟩, every⟩

/-- Two chunks: the consumer has gone to sleep in `acquire_any_chunk`, and a gate of the
second chunk has just been opened. -/
def openedBehindScan : List (GateAction Nat) :=
  [.consumer (.call .anyChunk), .consumer .tick, .consumer .tick, .consumer .tick,
    .consumer .tick, .consumer .tick, .thread 0 (.release 70)]

theorem consumer_not_stranded_openedBehindScan :
    ∃ s, Transition.execute step (new 128 : GateState Nat) openedBehindScan = some s ∧
      s.Releasing .anyChunk 1 := by
  have ran : (Transition.execute step (new 128 : GateState Nat) openedBehindScan).any
      (fun s => (s.consumer = .park .anyChunk ∧ s.set.waiter.token = false) ∧
        s.set.chunks = [0, 64]) = true := by
    decide
  obtain ⟨s, ran, facts⟩ := Option.any_eq_true _ _ |>.mp ran
  obtain ⟨⟨parked, noToken⟩, chunks⟩ := of_decide_eq_true facts
  have trueAt : s.TrueAt .anyChunk 1 := by
    rw [TrueAt, chunks]
    exact ⟨by decide, 64, rfl, rfl⟩
  exact ⟨s, ran, (consumer_not_stranded (System.reachable_of_execute rfl ran) parked noToken
    ⟨1, trueAt⟩).2 1 trueAt⟩

end GateState

end ArbitroKit
