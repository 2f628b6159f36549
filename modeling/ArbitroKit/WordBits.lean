import Mathlib.Data.List.Basic

/-!
# Single bits of machine words

A word used as a set of small numbers: `bit k` is the word with only bit `k`
set, an or inserts it and an and with its complement takes it out.
-/

namespace WordBits

variable {width : Nat}

/-- `1 << k`. -/
def bit (width k : Nat) : BitVec width := BitVec.ofNat width 1 <<< k

theorem getLsbD_bit (k j : Nat) :
    (bit width k).getLsbD j = (decide (k < width) && decide (k = j)) := by
  rw [bit, ← BitVec.twoPow_eq, BitVec.getLsbD_twoPow]

/-- The test `word & (1 << k) == 0`. -/
theorem and_bit_eq_zero {word : BitVec width} {k : Nat} (small : k < width) :
    word &&& bit width k = BitVec.ofNat width 0 ↔ word.getLsbD k = false := by
  constructor
  · intro zero
    have at_k := congrArg (fun w => BitVec.getLsbD w k) zero
    simpa only [BitVec.getLsbD_and, getLsbD_bit, small, decide_true, Bool.and_true,
      BitVec.getLsbD_zero] using at_k
  · intro unset
    apply BitVec.eq_of_getLsbD_eq
    intro j _
    by_cases same : k = j
    · subst same
      simp [unset]
    · simp [getLsbD_bit, same]

/-- Setting a bit that is set changes nothing. -/
theorem or_bit_of_set {word : BitVec width} {k : Nat} (set : word.getLsbD k = true) :
    word ||| bit width k = word := by
  apply BitVec.eq_of_getLsbD_eq
  intro j _
  by_cases same : k = j
  · subst same
    simp [set]
  · simp [getLsbD_bit, same]

theorem getLsbD_or_bit {word : BitVec width} {k j : Nat} (small : k < width) :
    (word ||| bit width k).getLsbD j = (word.getLsbD j || decide (j = k)) := by
  simp only [BitVec.getLsbD_or, getLsbD_bit, small, decide_true, Bool.true_and,
    @eq_comm _ k]

theorem getLsbD_and_not_bit {word : BitVec width} {k j : Nat} (small : k < width)
    (inside : j < width) :
    (word &&& ~~~(bit width k)).getLsbD j = (word.getLsbD j && decide (j ≠ k)) := by
  simp only [BitVec.getLsbD_and, BitVec.getLsbD_not, getLsbD_bit, small, inside,
    decide_true, Bool.true_and, @eq_comm _ k, ne_eq, decide_not]

/-! ### Counting and finding bits -/

/-- `(1 << count) - 1`, or all ones where that would shift too far. -/
def lowMask (width count : Nat) : BitVec width :=
  if count = width then BitVec.allOnes width
  else (BitVec.ofNat width 1 <<< count) - BitVec.ofNat width 1

theorem getLsbD_lowMask {count k : Nat} (le : count ≤ width) (inside : k < width) :
    (lowMask width count).getLsbD k = decide (k < count) := by
  unfold lowMask
  split
  · rename_i all
    subst all
    simp [inside]
  · have small : count < width := by omega
    have value :
        ((BitVec.ofNat width 1 <<< count) - BitVec.ofNat width 1).toNat = 2 ^ count - 1 := by
      have power : 2 ^ count < 2 ^ width := Nat.pow_lt_pow_right (by omega) small
      have pos : 0 < 2 ^ count := Nat.two_pow_pos count
      have one : 1 % 2 ^ width = 1 := Nat.mod_eq_of_lt (Nat.one_lt_two_pow (by omega))
      rw [BitVec.toNat_sub, BitVec.toNat_shiftLeft, BitVec.toNat_ofNat, one,
        Nat.shiftLeft_eq, Nat.one_mul, Nat.mod_eq_of_lt power]
      rw [show 2 ^ width - 1 + 2 ^ count = 2 ^ count - 1 + 2 ^ width by omega,
        Nat.add_mod_right, Nat.mod_eq_of_lt (by omega)]
    rw [BitVec.getLsbD, value, Nat.testBit_two_pow_sub_one]

/-- `count_ones`. -/
def countOnes (word : BitVec width) : Nat := (List.range width).countP word.getLsbD

/-- `trailing_zeros`: the lowest bit that is set, or the width. -/
def trailingZeros (word : BitVec width) : Nat :=
  ((List.range width).find? word.getLsbD).getD width

/-- The lowest set bit of a word that has one. -/
theorem trailingZeros_spec {word : BitVec width} (some_set : word ≠ BitVec.ofNat width 0) :
    trailingZeros word < width ∧ word.getLsbD (trailingZeros word) = true := by
  unfold trailingZeros
  cases found : (List.range width).find? word.getLsbD with
  | none =>
      exfalso
      apply some_set
      apply BitVec.eq_of_getLsbD_eq
      intro k inside
      have unset := List.find?_eq_none.mp found k (List.mem_range.mpr inside)
      simpa using unset
  | some k =>
      constructor
      · exact List.mem_range.mp (List.mem_of_find?_eq_some found)
      · exact List.find?_some found

/-- A word is zero if none of its bits is set. -/
theorem eq_zero_iff {word : BitVec width} :
    word = BitVec.ofNat width 0 ↔ ∀ k < width, word.getLsbD k = false := by
  constructor
  · rintro rfl k -
    simp
  · intro unset
    apply BitVec.eq_of_getLsbD_eq
    intro k inside
    simpa using unset k inside

end WordBits
