import ArbitroKit.WordBits
import Mathlib.Data.Set.Insert

/-!
# Sets of numbers in chunks of bits

A list of words stands for the set of the numbers whose bit is set: number `k` is bit
`k % width` of word `k / width`.  An or inserts the numbers of a mask, an and with the
complement takes them out, and a test of a word against a mask is a question about the
slice of the set that lies in the word.
-/

namespace ChunkedBits

open WordBits

variable {width chunk b k : Nat} {words : List (BitVec width)} {word mask : BitVec width}

def members (words : List (BitVec width)) : Set Nat :=
  {k | ∃ word, words[k / width]? = some word ∧ word.getLsbD (k % width) = true}

/-- The numbers of a mask for one word. -/
def slice (chunk : Nat) (mask : BitVec width) : Set Nat :=
  {k | ∃ b < width, mask.getLsbD b = true ∧ k = width * chunk + b}

theorem div_mod_offset (chunk : Nat) (small : b < width) :
    (width * chunk + b) / width = chunk ∧ (width * chunk + b) % width = b := by
  constructor
  · rw [Nat.mul_add_div (Nat.zero_lt_of_lt small), Nat.div_eq_of_lt small, Nat.add_zero]
  · rw [Nat.mul_add_mod, Nat.mod_eq_of_lt small]

theorem mem_slice (pos : 0 < width) :
    k ∈ slice chunk mask ↔ k / width = chunk ∧ mask.getLsbD (k % width) = true := by
  constructor
  · rintro ⟨b, small, set, rfl⟩
    obtain ⟨here, offset⟩ := div_mod_offset chunk small
    rw [here, offset]
    exact ⟨rfl, set⟩
  · rintro ⟨rfl, set⟩
    exact ⟨k % width, Nat.mod_lt k pos, set, (Nat.div_add_mod k width).symm⟩

theorem slice_bit (pos : 0 < width) (k : Nat) :
    slice (k / width) (bit width (k % width)) = {k} := by
  have small := Nat.mod_lt k pos
  ext j
  rw [mem_slice pos, getLsbD_bit, Set.mem_singleton_iff]
  simp only [small, decide_true, Bool.true_and, decide_eq_true_eq]
  constructor
  · rintro ⟨sameChunk, sameBit⟩
    rw [← Nat.div_add_mod j width, sameChunk, ← sameBit, Nat.div_add_mod]
  · rintro rfl
    exact ⟨rfl, rfl⟩

theorem lt_of_mem (pos : 0 < width) (member : k ∈ members words) :
    k < words.length * width := by
  obtain ⟨word, present, -⟩ := member
  exact (Nat.div_lt_iff_lt_mul pos).mp (List.getElem?_eq_some_iff.mp present).1

theorem members_replicate_zero (count : Nat) :
    members (List.replicate count (0 : BitVec width)) = ∅ := by
  ext k
  simp [members, List.getElem?_replicate]

/-- A word that is put in place of another decides about its own numbers only. -/
theorem mem_members_set (inside : chunk < words.length) :
    k ∈ members (words.set chunk word) ↔
      if k / width = chunk then word.getLsbD (k % width) = true else k ∈ members words := by
  split
  · rename_i here
    simp [members, here, inside]
  · rename_i elsewhere
    simp [members, List.getElem?_set_ne (Ne.symm elsewhere)]

/-- A number of the word in view. -/
theorem mem_members (present : words[chunk]? = some word) (here : k / width = chunk) :
    k ∈ members words ↔ word.getLsbD (k % width) = true := by
  simp [members, here, present]

theorem members_set_or (pos : 0 < width) (present : words[chunk]? = some word) :
    members (words.set chunk (word ||| mask)) = members words ∪ slice chunk mask := by
  have inside := (List.getElem?_eq_some_iff.mp present).1
  ext k
  rw [mem_members_set inside, Set.mem_union, mem_slice pos]
  split
  · rename_i here
    rw [mem_members present here, BitVec.getLsbD_or, Bool.or_eq_true]
    simp only [here, true_and]
  · rename_i elsewhere
    simp only [elsewhere, false_and, or_false]

theorem members_set_and_not (pos : 0 < width) (present : words[chunk]? = some word) :
    members (words.set chunk (word &&& ~~~mask)) = members words \ slice chunk mask := by
  have inside := (List.getElem?_eq_some_iff.mp present).1
  ext k
  rw [mem_members_set inside, Set.mem_sdiff, mem_slice pos]
  split
  · rename_i here
    have small := Nat.mod_lt k pos
    rw [mem_members present here, BitVec.getLsbD_and, BitVec.getLsbD_not, Bool.and_eq_true]
    simp only [small, decide_true, Bool.true_and, here, true_and, Bool.not_eq_true',
      Bool.not_eq_true]
  · rename_i elsewhere
    simp only [elsewhere, false_and, not_false_eq_true, and_true]

/-! ### Tests of a word -/

theorem and_ne_zero_iff (pos : 0 < width) (present : words[chunk]? = some word) :
    word &&& mask ≠ BitVec.ofNat width 0 ↔ (members words ∩ slice chunk mask).Nonempty := by
  rw [ne_eq, eq_zero_iff]
  constructor
  · intro some_set
    push Not at some_set
    obtain ⟨b, small, set⟩ := some_set
    rw [ne_eq, Bool.not_eq_false, BitVec.getLsbD_and, Bool.and_eq_true] at set
    obtain ⟨here, offset⟩ := div_mod_offset chunk small
    refine ⟨width * chunk + b, ?_, b, small, set.2, rfl⟩
    rw [mem_members present here, offset]
    exact set.1
  · rintro ⟨k, member, masked⟩ unset
    obtain ⟨here, inMask⟩ := (mem_slice pos).mp masked
    have never := unset _ (Nat.mod_lt k pos)
    rw [BitVec.getLsbD_and, (mem_members present here).mp member, inMask] at never
    cases never

theorem and_eq_mask_iff (pos : 0 < width) (present : words[chunk]? = some word) :
    word &&& mask = mask ↔ slice chunk mask ⊆ members words := by
  constructor
  · intro all k masked
    obtain ⟨here, inMask⟩ := (mem_slice pos).mp masked
    rw [mem_members present here]
    rw [← all, BitVec.getLsbD_and, Bool.and_eq_true] at inMask
    exact inMask.1
  · intro included
    apply BitVec.eq_of_getLsbD_eq
    intro b small
    rw [BitVec.getLsbD_and]
    cases inMask : mask.getLsbD b with
    | false => exact Bool.and_false _
    | true =>
        obtain ⟨here, offset⟩ := div_mod_offset chunk small
        have member := included ⟨b, small, inMask, rfl⟩
        rw [mem_members present here, offset] at member
        rw [member, Bool.true_and]

/-- A word that is not zero has a number of the set. -/
theorem exists_ne_zero_iff (pos : 0 < width) :
    (∃ word ∈ words, word ≠ BitVec.ofNat width 0) ↔ (members words).Nonempty := by
  constructor
  · rintro ⟨word, member, some_set⟩
    obtain ⟨chunk, present⟩ := List.mem_iff_getElem?.mp member
    rw [ne_eq, ← BitVec.and_allOnes (x := word)] at some_set
    exact ((and_ne_zero_iff pos present).mp some_set).mono Set.inter_subset_left
  · rintro ⟨k, word, present, set⟩
    refine ⟨word, List.mem_of_getElem? present, fun zero => ?_⟩
    rw [zero, BitVec.getLsbD_zero] at set
    cases set

end ChunkedBits
