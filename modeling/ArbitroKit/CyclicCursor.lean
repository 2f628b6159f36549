import Mathlib.Algebra.BigOperators.Group.Finset.Basic
import Mathlib.Data.BitVec
import Mathlib.Tactic.NormNum

/-!
# Cursors that wrap

A queue counts its items with machine words that wrap at `2 ^ width` and finds
the slot of an item by masking.  The lemmas below read such words as the
unbounded counts they stand for: as long as two counts are less than `2 ^ width`
apart, their wrapping difference and their equality are those of the counts,
and a power-of-two mask is the remainder.
-/

namespace Cyclic

variable {width : Nat}

/-- A power-of-two size that a word of the given width can represent. -/
structure Capacity (width : Nat) where
  exponent : Nat
  exponent_lt : exponent < width

namespace Capacity

def size (capacity : Capacity width) : Nat := 2 ^ capacity.exponent

def mask (capacity : Capacity width) : BitVec width :=
  BitVec.ofNat width (capacity.size - 1)

/-- The slot a cursor selects. -/
def slot (capacity : Capacity width) (cursor : BitVec width) : Nat :=
  (cursor &&& capacity.mask).toNat

theorem size_pos (capacity : Capacity width) : 0 < capacity.size :=
  Nat.two_pow_pos _

theorem size_lt (capacity : Capacity width) : capacity.size < 2 ^ width :=
  Nat.pow_lt_pow_right (by omega) capacity.exponent_lt

theorem size_dvd (capacity : Capacity width) : capacity.size ∣ 2 ^ width :=
  Nat.pow_dvd_pow 2 capacity.exponent_lt.le

theorem slot_eq_mod (capacity : Capacity width) (cursor : BitVec width) :
    capacity.slot cursor = cursor.toNat % capacity.size := by
  have small : capacity.size - 1 < 2 ^ width := by
    have := capacity.size_lt
    omega
  simp only [slot, mask, BitVec.toNat_and, BitVec.toNat_ofNat,
    Nat.mod_eq_of_lt small]
  exact Nat.and_two_pow_sub_one_eq_mod cursor.toNat capacity.exponent

/-- Masking stays contiguous across the wrap because the size divides
`2 ^ width`. -/
@[simp]
theorem slot_ofNat (capacity : Capacity width) (count : Nat) :
    capacity.slot (BitVec.ofNat width count) = count % capacity.size := by
  rw [slot_eq_mod, BitVec.toNat_ofNat]
  exact Nat.mod_mod_of_dvd count capacity.size_dvd

end Capacity

theorem ofNat_add_one (count : Nat) :
    BitVec.ofNat width count + 1 = BitVec.ofNat width (count + 1) := by
  apply BitVec.eq_of_toNat_eq
  simp

/-- Wrapping subtraction of nearby counts is their difference. -/
theorem toNat_sub_ofNat {first last : Nat} (le : first ≤ last)
    (near : last - first < 2 ^ width) :
    (BitVec.ofNat width last - BitVec.ofNat width first).toNat =
      last - first := by
  have split : last = first + (last - first) := by omega
  have difference : BitVec.ofNat width last - BitVec.ofNat width first =
      BitVec.ofNat width (last - first) := by
    conv_lhs => rw [split, BitVec.ofNat_add]
    rw [BitVec.add_comm, BitVec.add_sub_cancel]
  rw [difference, BitVec.toNat_ofNat, Nat.mod_eq_of_lt near]

/-- Wrapping subtraction of nearby counts in the wrong order is far away. -/
theorem toNat_sub_ofNat_of_lt {first last : Nat} (lt : first < last)
    (near : last - first < 2 ^ width) :
    (BitVec.ofNat width first - BitVec.ofNat width last).toNat =
      2 ^ width - (last - first) := by
  have forward := toNat_sub_ofNat lt.le near
  have negated : BitVec.ofNat width first - BitVec.ofNat width last =
      -(BitVec.ofNat width last - BitVec.ofNat width first) := by
    rw [BitVec.neg_sub, BitVec.sub_eq_add_neg, BitVec.add_comm]
  rw [negated, BitVec.toNat_neg, forward, Nat.mod_eq_of_lt (by omega)]

theorem ofNat_inj_of_near {first last : Nat} (le : first ≤ last)
    (near : last - first < 2 ^ width) :
    BitVec.ofNat width last = BitVec.ofNat width first ↔ last = first := by
  constructor
  · intro equal
    have difference := toNat_sub_ofNat le near
    rw [equal, BitVec.sub_self] at difference
    simp at difference
    omega
  · rintro rfl
    rfl

/-- A sum of words wraps as the sum of the numbers does. -/
theorem toNat_foldl_add (n : Nat) (term : Nat → BitVec width) :
    ((List.range n).foldl (fun total index => total + term index) 0).toNat =
      (∑ index ∈ Finset.range n, (term index).toNat) % 2 ^ width := by
  induction n with
  | zero => simp
  | succ n ih =>
      rw [List.range_succ, List.foldl_append, List.foldl_cons, List.foldl_nil,
        BitVec.toNat_add, ih, Finset.sum_range_succ, Nat.mod_add_mod]

/-- A cursor that has not reached its end comes closer by advancing. -/
theorem toNat_sub_add_one_lt {cursor last : BitVec width} (other : cursor ≠ last) :
    (last - (cursor + 1)).toNat < (last - cursor).toNat := by
  have nonzero : last - cursor ≠ 0 := fun zero => other (sub_eq_zero.mp zero).symm
  have positive : 0 < (last - cursor).toNat :=
    Nat.pos_of_ne_zero fun zero => nonzero (BitVec.eq_of_toNat_eq (by simpa using zero))
  have small := (last - cursor).isLt
  have step : last - (cursor + 1) = BitVec.ofNat width ((last - cursor).toNat - 1) := by
    have shifted : BitVec.ofNat width ((last - cursor).toNat - 1) + 1 = last - cursor := by
      rw [ofNat_add_one, Nat.sub_add_cancel positive, BitVec.ofNat_toNat, BitVec.setWidth_eq]
    rw [← sub_sub, sub_eq_iff_eq_add]
    exact shifted.symm
  rw [step, BitVec.toNat_ofNat, Nat.mod_eq_of_lt (by omega)]
  omega

/-- `middle` lies on the way from `low` up to `high`, modulo `2 ^ width`. -/
def Between (low middle high : BitVec width) : Prop :=
  (middle - low).toNat ≤ (high - low).toNat

instance (low middle high : BitVec width) :
    Decidable (Between low middle high) :=
  inferInstanceAs (Decidable (_ ≤ _))

theorem between_ofNat {low middle high : Nat} (lowLe : low ≤ middle)
    (leHigh : middle ≤ high) (near : high - low < 2 ^ width) :
    Between (BitVec.ofNat width low) (BitVec.ofNat width middle)
      (BitVec.ofNat width high) := by
  rw [Between, toNat_sub_ofNat lowLe (by omega),
    toNat_sub_ofNat (lowLe.trans leHigh) near]
  omega

/-- The same when the lower end is `size` below a count and may lie before the
first count of all. -/
theorem between_sub_ofNat {size top middle high : Nat} (lowLe : top ≤ middle + size)
    (leHigh : middle ≤ high) (near : high + size - top < 2 ^ width) :
    Between (BitVec.ofNat width top - BitVec.ofNat width size)
      (BitVec.ofNat width middle) (BitVec.ofNat width high) := by
  have shift (count : Nat) : BitVec.ofNat width count -
      (BitVec.ofNat width top - BitVec.ofNat width size) =
        BitVec.ofNat width (count + size) - BitVec.ofNat width top := by
    rw [sub_sub_eq_add_sub, BitVec.ofNat_add]
  rw [Between, shift, shift, toNat_sub_ofNat lowLe (by omega),
    toNat_sub_ofNat (by omega) near]
  omega

/-- A middle that lies before `low`, by less than the room left above `high`,
is not between them. -/
theorem not_between_ofNat {low middle high : Nat} (before : middle < low)
    (le : low ≤ high) (near : high - middle < 2 ^ width) :
    ¬ Between (BitVec.ofNat width low) (BitVec.ofNat width middle)
      (BitVec.ofNat width high) := by
  rw [Between, toNat_sub_ofNat_of_lt before (by omega),
    toNat_sub_ofNat le (by omega)]
  omega

end Cyclic
