import ArbitroKit.Holding
import ArbitroKit.MpscPool

/-!
# Leases are exclusive

A slot's bit is the mark of an exclusively held resource: whoever flips it holds the
slot, first as a running `acquire`, then as a lease, last as the drop of that lease.
Only the holder touches the cell, and the cell is full while nobody holds the slot,
before the holder has emptied it and after it has filled it again.
-/

namespace ArbitroKit

open WordBits Transition Holding

namespace MpscProducerPool

variable {P : Type*} {m word index slot : Nat}

/-- The mask of a word keeps the bits that stand for slots. -/
theorem getLsbD_liveMask (inside : index < 64) :
    (liveMask m word).getLsbD index = decide (word * 64 + index < m) := by
  have le : liveBits m word ≤ 64 := by
    unfold liveBits
    omega
  rw [liveMask, getLsbD_lowMask le inside]
  have same : index < liveBits m word ↔ word * 64 + index < m := by
    unfold liveBits
    omega
  simp only [same]

theorem occupied_at (pool : MpscProducerPool P) (inside : index < 64) :
    pool.occupied (word * 64 + index) = (pool.occupancy word).getLsbD index := by
  have quotient : (word * 64 + index) / 64 = word := by omega
  have remainder : (word * 64 + index) % 64 = index := by omega
  rw [occupied, quotient, remainder]

/-- `fetch_or` of a slot's bit. -/
theorem occupied_fetchOr (pool : MpscProducerPool P) (inside : index < 64) (other : Nat) :
    (pool.setWord word (pool.occupancy word ||| bit 64 index)).occupied other =
      (pool.occupied other || decide (other = word * 64 + index)) := by
  simp only [occupied, setWord]
  by_cases same : other / 64 = word
  · subst same
    rw [Function.update_self, getLsbD_or_bit inside]
    have atBit : other % 64 = index ↔ other = other / 64 * 64 + index := by omega
    simp only [atBit]
  · rw [Function.update_of_ne same]
    have apart : other ≠ word * 64 + index := by omega
    simp [apart]

/-- `fetch_and` with the complement of a slot's bit. -/
theorem occupied_fetchAnd (pool : MpscProducerPool P) (slot other : Nat) :
    (pool.setWord (slot / 64)
      (pool.occupancy (slot / 64) &&& ~~~(bit 64 (slot % 64)))).occupied other =
        (pool.occupied other && decide (other ≠ slot)) := by
  simp only [occupied, setWord]
  by_cases same : other / 64 = slot / 64
  · rw [same, Function.update_self,
      getLsbD_and_not_bit (Nat.mod_lt _ (by omega)) (Nat.mod_lt _ (by omega))]
    have atBit : other % 64 = slot % 64 ↔ other = slot := by omega
    simp only [ne_eq, atBit]
  · rw [Function.update_of_ne same]
    have apart : other ≠ slot := by
      rintro rfl
      exact same rfl
    simp [apart]

/-- A lost `fetch_or` changes nothing. -/
theorem setWord_lost (pool : MpscProducerPool P)
    (set : (pool.occupancy word).getLsbD index = true) :
    pool.setWord word (pool.occupancy word ||| bit 64 index) = pool := by
  rw [or_bit_of_set set, setWord, Function.update_eq_self]

/-- A free bit of a word, as `acquire` finds it. -/
theorem free_spec {pool : MpscProducerPool P}
    (free : ~~~(pool.occupancy word) &&& liveMask m word ≠ 0) :
    let index := trailingZeros (~~~(pool.occupancy word) &&& liveMask m word)
    index < 64 ∧ word * 64 + index < m ∧ pool.occupied (word * 64 + index) = false := by
  obtain ⟨inside, set⟩ := trailingZeros_spec free
  rw [BitVec.getLsbD_and, BitVec.getLsbD_not, getLsbD_liveMask inside] at set
  simp only [inside, decide_true, Bool.true_and, Bool.and_eq_true, Bool.not_eq_true',
    decide_eq_true_eq] at set
  exact ⟨inside, set.2, by rw [occupied_at pool inside, set.1]⟩

end MpscProducerPool

namespace PoolState

variable {P ι : Type*} {size : MpscSize} {producer : Nat → P} {s after : PoolState P ι}

/-- The slot a running call holds. -/
def owns : PoolPc P → Option Nat
  | .take slot => some slot
  | .returned (some lease) => some lease.slot
  | .restore lease => some lease.slot
  | .clear slot => some slot
  | _ => none

/-- The slot a running call holds with its producer in the cell: it has won the bit and
not taken yet, or restored and not cleared yet. -/
def filled : PoolPc P → Option Nat
  | .take slot => some slot
  | .clear slot => some slot
  | _ => none

/-- The producer a running call holds. -/
def carried : PoolPc P → Option (MpscProducerLease P)
  | .returned result => result
  | .restore lease => some lease
  | _ => none

def leasedSlots (s : PoolState P ι) : List Nat := s.leases.map MpscProducerLease.slot

/-- Where the local variables of a call point. -/
def InRange (m : Nat) : PoolPc P → Prop
  | .load word => word < bitmapWords ∧ word * 64 < m
  | .fetchOr word index => index < 64 ∧ word * 64 + index < m
  | .unwrapFailed => False
  | _ => True

/-- The producer a running call holds is the slot's own. -/
def Carries (producer : Nat → P) (pc : PoolPc P) : Prop :=
  ∀ lease, carried pc = some lease → lease.producer = producer lease.slot

/-- The invariant of the pool. -/
structure PoolOk (size : MpscSize) (producer : Nat → P) (s : PoolState P ι) : Prop where
  held : Exclusive size.m s.pool.occupied (owns ∘ s.threads) s.leasedSlots
  cell : ∀ slot < size.m, (s.pool.slots slot).isSome = true ↔
    s.pool.occupied slot = false ∨ ∃ thread, filled (s.threads thread) = some slot
  inRange : ∀ thread, InRange size.m (s.threads thread)
  kept : ∀ slot handle, s.pool.slots slot = some handle → handle = producer slot
  leased : ∀ lease ∈ s.leases, lease.producer = producer lease.slot
  carried : ∀ thread, Carries producer (s.threads thread)

theorem owns_of_filled {pc : PoolPc P} {slot : Nat} (has : filled pc = some slot) :
    owns pc = some slot := by
  cases pc <;> first | exact has | cases has

variable [DecidableEq ι]

theorem owns_update (threads : ι → PoolPc P) (thread : ι) (pc : PoolPc P) :
    owns ∘ Function.update threads thread pc =
      Function.update (owns ∘ threads) thread (owns pc) :=
  Function.comp_update _ _ _ _

theorem all_update (holds : PoolPc P → Prop) {threads : ι → PoolPc P} {thread : ι}
    {pc : PoolPc P} (all : ∀ other, holds (threads other)) (this : holds pc)
    (other : ι) : holds (Function.update threads thread pc other) := by
  by_cases same : other = thread
  · subst same
    rw [Function.update_self]
    exact this
  · rw [Function.update_of_ne same]
    exact all other

/-- Who fills a cell after one thread has moved. -/
theorem filled_update (threads : ι → PoolPc P) (thread : ι) (pc : PoolPc P) (slot : Nat) :
    (∃ other, filled (Function.update threads thread pc other) = some slot) ↔
      filled pc = some slot ∨
        ∃ other, other ≠ thread ∧ filled (threads other) = some slot := by
  constructor
  · rintro ⟨other, has⟩
    by_cases same : other = thread
    · subst same
      rw [Function.update_self] at has
      exact .inl has
    · rw [Function.update_of_ne same] at has
      exact .inr ⟨other, same, has⟩
  · rintro (has | ⟨other, different, has⟩)
    · exact ⟨thread, by rw [Function.update_self, has]⟩
    · exact ⟨other, by rw [Function.update_of_ne different, has]⟩

theorem filled_split (threads : ι → PoolPc P) (thread : ι) (slot : Nat) :
    (∃ other, filled (threads other) = some slot) ↔
      filled (threads thread) = some slot ∨
        ∃ other, other ≠ thread ∧ filled (threads other) = some slot := by
  have := filled_update threads thread (threads thread) slot
  rwa [Function.update_eq_self] at this

/-- A step that touches neither the bitmap nor a cell nor a lease. -/
theorem PoolOk.quiet (ok : PoolOk size producer s) {thread : ι} {pc : PoolPc P}
    (owned : owns pc = owns (s.threads thread)) (wasNot : filled (s.threads thread) = none)
    (isNot : filled pc = none) (nothing : PoolState.carried pc = none)
    (inRange : InRange size.m pc) : PoolOk size producer (s.threadAt thread pc) := by
  constructor
  · simp only [threadAt, owns_update, owned]
    rw [show owns (s.threads thread) = (owns ∘ s.threads) thread from rfl,
      Function.update_eq_self]
    exact ok.held
  · intro slot inside
    simp only [threadAt]
    rw [ok.cell slot inside, filled_update, filled_split s.threads thread, wasNot, isNot]
  · exact all_update (InRange size.m) ok.inRange inRange
  · exact ok.kept
  · exact ok.leased
  · exact all_update (Carries producer) ok.carried fun lease has => by
      rw [nothing] at has
      cases has

/-- Winning a free bit. -/
theorem PoolOk.win (ok : PoolOk size producer s) {thread : ι} {word index : Nat}
    (inside : index < 64) (small : word * 64 + index < size.m)
    (free : s.pool.occupied (word * 64 + index) = false)
    (empty : owns (s.threads thread) = none) :
    PoolOk size producer
      (({ s with pool := s.pool.setWord word (s.pool.occupancy word ||| bit 64 index) } :
        PoolState P ι).threadAt thread (.take (word * 64 + index))) := by
  have nothing : filled (s.threads thread) = none := by
    cases has : filled (s.threads thread) with
    | none => rfl
    | some slot =>
        rw [owns_of_filled has] at empty
        cases empty
  have marks : (s.pool.setWord word (s.pool.occupancy word ||| bit 64 index)).occupied =
      fun other => s.pool.occupied other || decide (other = word * 64 + index) :=
    funext fun other => s.pool.occupied_fetchOr inside other
  constructor
  · simp only [threadAt, owns_update, marks]
    exact ok.held.grab small free empty
  · intro slot slotInside
    simp only [threadAt, marks]
    rw [filled_update]
    change (s.pool.slots slot).isSome = true ↔ _
    rw [ok.cell slot slotInside, filled_split s.threads thread, nothing]
    by_cases same : slot = word * 64 + index
    · subst same
      simp [free, filled]
    · simp [same, Ne.symm same, filled]
  · exact all_update (InRange size.m) ok.inRange trivial
  · exact ok.kept
  · exact ok.leased
  · exact all_update (Carries producer) ok.carried fun lease has => by cases has

/-- The winner finds the producer in the cell and takes it out. -/
theorem PoolOk.take (ok : PoolOk size producer s) {thread : ι} {slot : Nat}
    (here : s.threads thread = .take slot) :
    ∃ handle, s.pool.slots slot = some handle ∧ PoolOk size producer
      (({ s with pool := s.pool.setSlot slot none } : PoolState P ι).threadAt thread
        (.returned (some ⟨slot, handle⟩))) := by
  have owned : (owns ∘ s.threads) thread = some slot := by simp [here, owns]
  have occupied := ok.held.marked_of_holder owned
  have full : (s.pool.slots slot).isSome = true :=
    (ok.cell slot (ok.held.small slot occupied)).mpr (.inr ⟨thread, by simp [here, filled]⟩)
  obtain ⟨handle, present⟩ := Option.isSome_iff_exists.mp full
  refine ⟨handle, present, ?_⟩
  constructor
  · simp only [threadAt, owns_update]
    rw [show owns (.returned (some ⟨slot, handle⟩)) = (owns ∘ s.threads) thread from
      owned.symm, Function.update_eq_self]
    exact ok.held
  · intro other inside
    simp only [threadAt]
    rw [filled_update]
    change (Function.update s.pool.slots slot none other).isSome = true ↔
      s.pool.occupied other = false ∨ _
    by_cases same : other = slot
    · subst same
      rw [Function.update_self, occupied]
      simp only [Option.isSome_none, Bool.false_eq_true, false_iff, not_or, filled]
      refine ⟨by simp, by simp, ?_⟩
      rintro ⟨party, different, has⟩
      exact different (ok.held.apart party thread other (owns_of_filled has) owned)
    · rw [Function.update_of_ne same, ok.cell other inside, filled_split s.threads thread, here]
      simp [filled, Ne.symm same]
  · exact all_update (InRange size.m) ok.inRange trivial
  · intro other handle' holds
    by_cases same : other = slot
    · subst same
      simp [threadAt, MpscProducerPool.setSlot] at holds
    · simp only [threadAt, MpscProducerPool.setSlot, Function.update_of_ne same] at holds
      exact ok.kept other handle' holds
  · exact ok.leased
  · apply all_update (Carries producer) ok.carried
    intro lease has
    cases has
    exact ok.kept slot handle present

/-- `acquire` returns, and its lease is live. -/
theorem PoolOk.returns (ok : PoolOk size producer s) {thread : ι}
    {result : Option (MpscProducerLease P)} (here : s.threads thread = .returned result) :
    PoolOk size producer
      (({ s with leases := s.leases ++ result.toList } : PoolState P ι).threadAt thread
        .idle) := by
  constructor
  · simp only [threadAt, owns_update, leasedSlots, List.map_append]
    cases result with
    | none =>
        rw [show owns (.idle : PoolPc P) = (owns ∘ s.threads) thread by simp [here, owns],
          Function.update_eq_self]
        simpa [leasedSlots] using ok.held
    | some lease => exact ok.held.keep (by simp [here, owns])
  · intro slot inside
    simp only [threadAt]
    rw [filled_update, ok.cell slot inside, filled_split s.threads thread, here]
    simp [filled]
  · exact all_update (InRange size.m) ok.inRange trivial
  · exact ok.kept
  · intro lease member
    rcases List.mem_append.mp member with old | new
    · exact ok.leased lease old
    · exact ok.carried thread lease (by simpa [here, PoolState.carried, eq_comm] using new)
  · exact all_update (Carries producer) ok.carried fun lease has => by cases has

/-- A live lease is dropped. -/
theorem PoolOk.dropLease (ok : PoolOk size producer s) {thread : ι} {place : Nat}
    {lease : MpscProducerLease P} (idle : s.threads thread = .idle)
    (present : s.leases[place]? = some lease) :
    PoolOk size producer
      (({ s with leases := s.leases.eraseIdx place } : PoolState P ι).threadAt thread
        (.restore lease)) := by
  constructor
  · simp only [threadAt, owns_update, leasedSlots, ← List.eraseIdx_map]
    exact ok.held.unkeep (by simp [leasedSlots, present]) (by simp [idle, owns])
  · intro slot inside
    simp only [threadAt]
    rw [filled_update, ok.cell slot inside, filled_split s.threads thread, idle]
    simp [filled]
  · exact all_update (InRange size.m) ok.inRange trivial
  · exact ok.kept
  · exact fun other member => ok.leased other (List.mem_of_mem_eraseIdx member)
  · apply all_update (Carries producer) ok.carried
    intro other has
    cases has
    exact ok.leased lease (List.mem_of_getElem? present)

/-- The drop puts the producer back into its cell. -/
theorem PoolOk.restore (ok : PoolOk size producer s) {thread : ι}
    {lease : MpscProducerLease P} (here : s.threads thread = .restore lease) :
    PoolOk size producer
      (({ s with pool := s.pool.setSlot lease.slot (some lease.producer) } :
        PoolState P ι).threadAt thread (.clear lease.slot)) := by
  have owned : (owns ∘ s.threads) thread = some lease.slot := by simp [here, owns]
  constructor
  · simp only [threadAt, owns_update]
    rw [show owns (.clear lease.slot : PoolPc P) = (owns ∘ s.threads) thread from
      owned.symm, Function.update_eq_self]
    exact ok.held
  · intro other inside
    simp only [threadAt]
    rw [filled_update]
    change (Function.update s.pool.slots lease.slot (some lease.producer) other).isSome =
      true ↔ s.pool.occupied other = false ∨ _
    by_cases same : other = lease.slot
    · subst same
      rw [Function.update_self]
      simp [filled]
    · rw [Function.update_of_ne same, ok.cell other inside, filled_split s.threads thread, here]
      simp [filled, Ne.symm same]
  · exact all_update (InRange size.m) ok.inRange trivial
  · intro other handle holds
    by_cases same : other = lease.slot
    · subst same
      simp only [threadAt, MpscProducerPool.setSlot, Function.update_self,
        Option.some.injEq] at holds
      rw [← holds]
      exact ok.carried thread lease (by simp [here, PoolState.carried])
    · simp only [threadAt, MpscProducerPool.setSlot, Function.update_of_ne same] at holds
      exact ok.kept other handle holds
  · exact ok.leased
  · exact all_update (Carries producer) ok.carried fun lease has => by cases has

/-- The drop gives the slot back. -/
theorem PoolOk.clear (ok : PoolOk size producer s) {thread : ι} {slot : Nat}
    (here : s.threads thread = .clear slot) :
    PoolOk size producer
      (({ s with
        pool := s.pool.setWord (slot / 64)
          (s.pool.occupancy (slot / 64) &&& ~~~(bit 64 (slot % 64))) } :
        PoolState P ι).threadAt thread .idle) := by
  have owned : (owns ∘ s.threads) thread = some slot := by simp [here, owns]
  have marks : (s.pool.setWord (slot / 64)
      (s.pool.occupancy (slot / 64) &&& ~~~(bit 64 (slot % 64)))).occupied =
        fun other => s.pool.occupied other && decide (other ≠ slot) :=
    funext fun other => s.pool.occupied_fetchAnd slot other
  constructor
  · simp only [threadAt, owns_update, marks]
    exact ok.held.letGo owned
  · intro other inside
    simp only [threadAt, marks]
    rw [filled_update]
    change (s.pool.slots other).isSome = true ↔ _
    rw [ok.cell other inside, filled_split s.threads thread, here]
    by_cases same : other = slot
    · subst same
      simp [filled]
    · simp [filled, same, Ne.symm same]
  · exact all_update (InRange size.m) ok.inRange trivial
  · exact ok.kept
  · exact ok.leased
  · exact all_update (Carries producer) ok.carried fun lease has => by cases has

omit [DecidableEq ι] in
theorem enterWord_spec (size : MpscSize) (word : Nat) :
    owns (enterWord size word : PoolPc P) = none ∧
      filled (enterWord size word : PoolPc P) = none ∧
        PoolState.carried (enterWord size word : PoolPc P) = none ∧
          InRange size.m (enterWord size word : PoolPc P) := by
  unfold enterWord
  split
  · rename_i more
    exact ⟨rfl, rfl, rfl, more⟩
  · exact ⟨rfl, rfl, rfl, trivial⟩

theorem PoolOk.tick (ok : PoolOk size producer s) {thread : ι}
    (taken : s.tick size thread = some after) : PoolOk size producer after := by
  have inRange := ok.inRange thread
  unfold PoolState.tick at taken
  cases pcEq : s.threads thread with
  | idle => simp [pcEq] at taken
  | unwrapFailed => simp [pcEq] at taken
  | load word =>
      simp only [pcEq] at taken inRange
      split at taken
      · cases taken
        obtain ⟨owned, fills, nothing, inside⟩ := enterWord_spec (P := P) size (word + 1)
        exact ok.quiet (by rw [owned, pcEq]; rfl) (by rw [pcEq]; rfl) fills nothing inside
      · rename_i free
        cases taken
        obtain ⟨inside, small, -⟩ := MpscProducerPool.free_spec free
        exact ok.quiet (by rw [pcEq]; rfl) (by rw [pcEq]; rfl) rfl rfl ⟨inside, small⟩
  | fetchOr word index =>
      simp only [pcEq] at taken inRange
      obtain ⟨inside, small⟩ := inRange
      have decided : s.pool.occupancy word &&& bit 64 index = 0 ↔
          (s.pool.occupancy word).getLsbD index = false := and_bit_eq_zero inside
      split at taken
      · rename_i won
        cases taken
        apply ok.win inside small
        · rw [MpscProducerPool.occupied_at s.pool inside]
          exact decided.mp won
        · rw [pcEq]
          rfl
      · rename_i lost
        cases taken
        have set : (s.pool.occupancy word).getLsbD index = true :=
          eq_true_of_ne_false fun unset => lost (decided.mpr unset)
        rw [MpscProducerPool.setWord_lost s.pool set]
        refine ok.quiet (by rw [pcEq]; rfl) (by rw [pcEq]; rfl) rfl rfl ⟨?_, by omega⟩
        have le := size.m_le
        simp only [bitmapWords]
        omega
  | take slot =>
      obtain ⟨handle, present, next⟩ := ok.take pcEq
      simp only [pcEq, present, Option.some.injEq] at taken
      subst taken
      exact next
  | returned result =>
      simp only [pcEq, Option.some.injEq] at taken
      subst taken
      exact ok.returns pcEq
  | restore lease =>
      simp only [pcEq, Option.some.injEq] at taken
      subst taken
      exact ok.restore pcEq
  | clear slot =>
      simp only [pcEq, Option.some.injEq] at taken
      subst taken
      exact ok.clear pcEq

omit [DecidableEq ι] in
theorem poolOk_new (size : MpscSize) (producer : Nat → P) :
    PoolOk size producer (new size producer : PoolState P ι) := by
  constructor
  · have marks : (new size producer : PoolState P ι).pool.occupied = fun _ => false := by
      funext slot
      simp [new, MpscProducerPool.occupied]
    rw [marks]
    exact exclusive_none size.m
  · intro slot inside
    simp [new, MpscProducerPool.occupied, inside]
  · exact fun _ => trivial
  · intro slot handle holds
    simp only [new] at holds
    split at holds <;> simp_all
  · intro lease member
    cases member
  · exact fun _ lease has => by cases has

theorem poolOk (reached : (system size producer).Reachable s) : PoolOk size producer s := by
  apply reached.invariant (PoolOk size producer)
  · rintro _ rfl
    exact poolOk_new size producer
  · intro before action after _ ok taken
    change before.step size action = some after at taken
    cases action with
    | tick thread => exact ok.tick taken
    | acquire thread =>
        simp only [step] at taken
        split at taken
        · rename_i idle
          cases taken
          obtain ⟨owned, fills, nothing, inside⟩ := enterWord_spec (P := P) size 0
          exact ok.quiet (by rw [owned, idle]; rfl) (by rw [idle]; rfl) fills nothing inside
        · cases taken
    | dropLease thread place =>
        simp only [step] at taken
        split at taken
        · rename_i idle
          obtain ⟨lease, present, rfl⟩ := Option.map_eq_some_iff.mp taken
          exact ok.dropLease idle present
        · cases taken

end PoolState

/-! ### What a caller sees when nothing runs -/

namespace MpscProducerPool

variable {P : Type*} {m : Nat}

/-- The slot exists and is not leased. -/
def isFree (pool : MpscProducerPool P) (m slot : Nat) : Bool :=
  decide (slot < m) && !pool.occupied slot

theorem countP_range_add (p : Nat → Bool) (first more : Nat) :
    (List.range (first + more)).countP p =
      (List.range first).countP p + (List.range more).countP fun k => p (first + k) := by
  rw [List.range_add, List.countP_append, List.countP_map]
  rfl

/-- One word of `available` counts the free slots of the word. -/
theorem countOnes_free (pool : MpscProducerPool P) (m word : Nat) :
    countOnes (~~~(pool.occupancy word) &&& liveMask m word) =
      (List.range 64).countP fun k => pool.isFree m (word * 64 + k) := by
  apply List.countP_congr
  intro k member
  have inside := List.mem_range.mp member
  rw [BitVec.getLsbD_and, BitVec.getLsbD_not, getLsbD_liveMask inside, isFree,
    occupied_at pool inside]
  simp [inside, Bool.and_comm]

theorem isFree_of_le (pool : MpscProducerPool P) {slot : Nat} (le : m ≤ slot) :
    pool.isFree m slot = false := by
  simp [isFree, Nat.not_lt.mpr le]

theorem countP_eq_zero_of_le (pool : MpscProducerPool P) {word : Nat} (le : m ≤ word)
    (more : Nat) : ((List.range more).countP fun k => pool.isFree m (word + k)) = 0 := by
  apply List.countP_eq_zero.mpr
  intro k _
  simp [isFree_of_le pool (Nat.le_add_right_of_le le)]

theorem availableFrom_eq (pool : MpscProducerPool P) (m left word : Nat) :
    pool.availableFrom m left word =
      (List.range (left * 64)).countP fun k => pool.isFree m (word * 64 + k) := by
  induction left generalizing word with
  | zero => simp [availableFrom]
  | succ left ih =>
      rw [availableFrom]
      split
      · rename_i beyond
        rw [countP_eq_zero_of_le pool beyond]
      · rw [countOnes_free, ih, show (left + 1) * 64 = 64 + left * 64 by omega,
          countP_range_add]
        congr 1
        apply List.countP_congr
        intro k _
        rw [show (word + 1) * 64 + k = word * 64 + (64 + k) by omega]

/-- `available` counts the slots that are not leased. -/
theorem available_eq (pool : MpscProducerPool P) (le : m ≤ 256) :
    pool.available m = (List.range m).countP fun slot => !pool.occupied slot := by
  rw [available, availableFrom_eq, bitmapWords]
  simp only [Nat.zero_mul, Nat.zero_add]
  rw [show 4 * 64 = m + (256 - m) by omega, countP_range_add, countP_eq_zero_of_le pool le_rfl,
    Nat.add_zero]
  apply List.countP_congr
  intro slot member
  simp [isFree, List.mem_range.mp member]

end MpscProducerPool

namespace PoolState

variable {P ι : Type*} {size : MpscSize} {producer : Nat → P} {s after : PoolState P ι}

/-- No call is in progress. -/
def Quiet (s : PoolState P ι) : Prop := ∀ thread, s.threads thread = .idle

/-- With no call in progress the marked slots are the leased ones. -/
theorem PoolOk.occupied_iff (ok : PoolOk size producer s) (quiet : s.Quiet) (slot : Nat) :
    s.pool.occupied slot = true ↔ slot ∈ s.leasedSlots := by
  rw [ok.held.had slot]
  constructor
  · rintro (⟨thread, has⟩ | member)
    · simp [quiet thread, owns] at has
    · exact member
  · exact .inr

theorem PoolOk.available_eq (ok : PoolOk size producer s) (quiet : s.Quiet) :
    s.pool.available size.m + s.leases.length = size.m := by
  have m_le := size.m_le
  have marked : ((List.range size.m).filter s.pool.occupied).Perm s.leasedSlots := by
    apply (List.perm_ext_iff_of_nodup (List.nodup_range.filter _) ok.held.nodup).mpr
    intro slot
    rw [List.mem_filter, List.mem_range, ok.occupied_iff quiet]
    constructor
    · exact And.right
    · intro member
      exact ⟨ok.held.small slot (ok.held.marked_of_mem member), member⟩
  have leased : s.leases.length = (List.range size.m).countP s.pool.occupied := by
    rw [List.countP_eq_length_filter, marked.length_eq, leasedSlots, List.length_map]
  have split := List.length_eq_countP_add_countP (l := List.range size.m) s.pool.occupied
  rw [List.length_range] at split
  rw [MpscProducerPool.available_eq s.pool (by omega), leased]
  simp only [Bool.not_eq_true, Bool.decide_eq_false] at split
  omega

variable [DecidableEq ι]

/-- A thread takes its steps alone. -/
theorem execute_tick {count : Nat} {next last : PoolState P ι} {thread : ι}
    (taken : s.tick size thread = some next)
    (rest : Transition.execute (step size) next (List.replicate count (.tick thread)) =
      some last) :
    Transition.execute (step size) s (List.replicate (count + 1) (.tick thread)) =
      some last := by
  rw [List.replicate_succ, Transition.execute]
  exact Option.bind_eq_some_iff.mpr ⟨next, taken, rest⟩

/-- A free bit, undisturbed, becomes a lease. -/
theorem lease_of_fetchOr {thread : ι} {word index : Nat} {handle : P}
    (unset : s.pool.occupancy word &&& bit 64 index = 0)
    (present : s.pool.slots (word * 64 + index) = some handle) :
    ∃ last, Transition.execute (step size) (s.threadAt thread (.fetchOr word index))
        (List.replicate 2 (.tick thread)) = some last ∧
      last.threads thread = .returned (some ⟨word * 64 + index, handle⟩) := by
  let won : PoolState P ι :=
    ({ s with pool := s.pool.setWord word (s.pool.occupancy word ||| bit 64 index) } :
      PoolState P ι).threadAt thread (.take (word * 64 + index))
  have first : (s.threadAt thread (.fetchOr word index)).tick size thread = some won := by
    simp [PoolState.tick, threadAt, unset, won]
  have second : won.tick size thread =
      some (({ won with pool := won.pool.setSlot (word * 64 + index) none } :
        PoolState P ι).threadAt thread (.returned (some ⟨word * 64 + index, handle⟩))) := by
    have cell : won.pool.slots (word * 64 + index) = some handle := present
    have here : won.threads thread = .take (word * 64 + index) := Function.update_self ..
    simp [PoolState.tick, here, cell]
  refine ⟨_, execute_tick first (execute_tick second rfl), ?_⟩
  exact Function.update_self ..

/-- From the head of the loop on, `acquire` undisturbed finds a slot exactly if one of the
words that are left has a free one. -/
theorem acquire_from (left : Nat) {word : Nat} (words : word + left = bitmapWords)
    {thread : ι} (here : s.threads thread = enterWord size word)
    (full : ∀ slot < size.m, s.pool.occupied slot = false →
      (s.pool.slots slot).isSome = true) :
    ∃ count last result,
      Transition.execute (step size) s (List.replicate count (.tick thread)) = some last ∧
        last.threads thread = .returned result ∧
          (result.isSome = true ↔ 0 < s.pool.availableFrom size.m left word) := by
  induction left generalizing word s with
  | zero =>
      have done : enterWord size word = (.returned none : PoolPc P) := by
        apply if_neg
        omega
      exact ⟨0, s, none, rfl, here.trans done, by simp [MpscProducerPool.availableFrom]⟩
  | succ left ih =>
      by_cases beyond : size.m ≤ word * 64
      · have done : enterWord size word = (.returned none : PoolPc P) := by
          apply if_neg
          omega
        refine ⟨0, s, none, rfl, here.trans done, ?_⟩
        simp [MpscProducerPool.availableFrom, beyond]
      · have loading : s.threads thread = .load word := by
          rw [here]
          apply if_pos
          omega
        by_cases none_free :
            ~~~(s.pool.occupancy word) &&& MpscProducerPool.liveMask size.m word = 0
        · have taken : s.tick size thread =
              some (s.threadAt thread (enterWord size (word + 1))) := by
            simp [PoolState.tick, loading, none_free]
          obtain ⟨count, last, result, ran, returned, found⟩ :=
            @ih (s.threadAt thread (enterWord size (word + 1))) (word + 1) (by omega)
              (Function.update_self ..) full
          refine ⟨count + 1, last, result, execute_tick taken ran, returned, ?_⟩
          rw [found, MpscProducerPool.availableFrom, if_neg beyond, none_free]
          simp [countOnes, threadAt]
        · obtain ⟨inside, small, free⟩ := MpscProducerPool.free_spec none_free
          have chosen : s.tick size thread =
              some (s.threadAt thread (.fetchOr word (trailingZeros
                (~~~(s.pool.occupancy word) &&&
                  MpscProducerPool.liveMask size.m word)))) := by
            simp only [PoolState.tick, loading]
            exact if_neg none_free
          have counted : 0 < countOnes
              (~~~(s.pool.occupancy word) &&& MpscProducerPool.liveMask size.m word) := by
            apply List.countP_pos_iff.mpr
            obtain ⟨inside, set⟩ := trailingZeros_spec none_free
            exact ⟨_, List.mem_range.mpr inside, set⟩
          generalize trailingZeros
            (~~~(s.pool.occupancy word) &&& MpscProducerPool.liveMask size.m word) = index
            at inside small free chosen
          obtain ⟨handle, present⟩ := Option.isSome_iff_exists.mp (full _ small free)
          have unset : s.pool.occupancy word &&& bit 64 index = 0 := by
            apply (and_bit_eq_zero inside).mpr
            rw [← MpscProducerPool.occupied_at s.pool inside]
            exact free
          obtain ⟨last, ran, returned⟩ := lease_of_fetchOr unset present
          refine ⟨3, last, some ⟨word * 64 + index, handle⟩, execute_tick chosen ran, returned, ?_⟩
          rw [MpscProducerPool.availableFrom, if_neg beyond]
          simp only [Option.isSome_some, true_iff]
          omega

omit [DecidableEq ι] in
theorem PoolOk.full_of_free (ok : PoolOk size producer s) {slot : Nat}
    (inside : slot < size.m) (free : s.pool.occupied slot = false) :
    (s.pool.slots slot).isSome = true :=
  (ok.cell slot inside).mpr (.inl free)

/-- With no call in progress, `acquire` called by a thread and left alone finds a slot
exactly if `available` is positive. -/
theorem PoolOk.acquire_iff (ok : PoolOk size producer s) (quiet : s.Quiet) (thread : ι) :
    ∃ count last result,
      Transition.execute (step size) s
          (.acquire thread :: List.replicate count (.tick thread)) = some last ∧
        last.threads thread = .returned result ∧
          (result.isSome = true ↔ 0 < s.pool.available size.m) := by
  obtain ⟨count, last, result, ran, returned, found⟩ :=
    @acquire_from P ι size (s.threadAt thread (enterWord size 0)) _ bitmapWords 0 rfl thread
      (Function.update_self ..) fun _ inside free => ok.full_of_free inside free
  refine ⟨count, last, result, ?_, returned, found⟩
  rw [Transition.execute]
  refine Option.bind_eq_some_iff.mpr ⟨_, ?_, ran⟩
  simp [step, quiet thread]

/-- The contract of the pool. -/
structure LeasesExclusive (size : MpscSize) (s : PoolState P ι) : Prop where
  /-- At most one running call or live lease owns a slot. -/
  apart : ∀ first second slot, owns (s.threads first) = some slot →
    owns (s.threads second) = some slot → first = second
  notLeased : ∀ thread slot, owns (s.threads thread) = some slot → slot ∉ s.leasedSlots
  nodup : s.leasedSlots.Nodup
  /-- The bit of a slot is set exactly while it is owned. -/
  occupied : ∀ slot, s.pool.occupied slot = true ↔
    (∃ thread, owns (s.threads thread) = some slot) ∨ slot ∈ s.leasedSlots
  /-- A cell is full while its slot is free, and while its owner has won it and not
  emptied it yet, or filled it and not cleared the bit yet. -/
  cell : ∀ slot < size.m, (s.pool.slots slot).isSome = true ↔
    s.pool.occupied slot = false ∨ ∃ thread, filled (s.threads thread) = some slot
  neverFails : ∀ thread, s.threads thread ≠ .unwrapFailed
  bitsInRange : ∀ slot, s.pool.occupied slot = true → slot < size.m
  indexInRange : ∀ thread word index, s.threads thread = .fetchOr word index →
    index < 64 ∧ word * 64 + index < size.m
  slotsInRange : (∀ thread slot, owns (s.threads thread) = some slot → slot < size.m) ∧
    ∀ slot ∈ s.leasedSlots, slot < size.m
  available : s.Quiet → s.pool.available size.m + s.leases.length = size.m
  acquires : s.Quiet → ∀ thread, ∃ count last result,
    Transition.execute (step size) s
        (.acquire thread :: List.replicate count (.tick thread)) = some last ∧
      last.threads thread = .returned result ∧
        (result.isSome = true ↔ 0 < s.pool.available size.m)

/-- Leases of a pool are mutually exclusive, in every interleaving. -/
theorem leases_exclusive (reached : (system size producer).Reachable s) :
    LeasesExclusive size s := by
  have ok := poolOk reached
  constructor
  · exact ok.held.apart
  · exact ok.held.notKept
  · exact ok.held.nodup
  · exact ok.held.had
  · exact ok.cell
  · intro thread failed
    have inRange := ok.inRange thread
    rw [failed] at inRange
    exact inRange
  · exact ok.held.small
  · intro thread word index here
    have inRange := ok.inRange thread
    rw [here] at inRange
    exact inRange
  · constructor
    · exact fun thread slot has => ok.held.small slot (ok.held.marked_of_holder has)
    · exact fun slot member => ok.held.small slot (ok.held.marked_of_mem member)
  · exact ok.available_eq
  · exact fun quiet thread => ok.acquire_iff quiet thread

/-- Two slots: two threads aim at the same free bit, one of them loses and retries. -/
def raceForBit : List (PoolAction Nat) :=
  [.acquire 0, .acquire 1, .tick 0, .tick 1, .tick 1, .tick 0, .tick 0, .tick 1, .tick 1]

/-- The pool of the sample run. -/
def twoSlots : MpscSize := ⟨oneSlotCap, 2, Nat.two_pos, by decide⟩

theorem leases_exclusive_raceForBit :
    ∃ s : PoolState Nat Nat,
      Transition.execute (step twoSlots) (new twoSlots id) raceForBit = some s ∧
        (s.leasedSlots = [0] ∧ s.pool.occupied 0 = true) ∧ LeasesExclusive twoSlots s := by
  have ran : (Transition.execute (step twoSlots) (new twoSlots id : PoolState Nat Nat)
      raceForBit).any (fun s => s.leasedSlots = [0] ∧ s.pool.occupied 0 = true) = true := by
    decide
  obtain ⟨s, ran, outcome⟩ := Option.any_eq_true _ _ |>.mp ran
  exact ⟨s, ran, of_decide_eq_true outcome,
    leases_exclusive (System.reachable_of_execute rfl ran)⟩

end PoolState

end ArbitroKit
