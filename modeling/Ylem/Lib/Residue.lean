import Mathlib

/-!
# Words of integers

A program with integers of any size may compute with words, as long as it looks at the lowest bits only: the word of a
sum, of a difference, of a shift or of a bitwise combination depends on the words of the operands. A shift to the
right needs a mask, since the highest bits of the integer would come in (`ofInt_land_shiftRight`).
-/

namespace Ylem.Residue

theorem testBit_shiftRight (a : ℤ) (k i : ℕ) : (a >>> k).testBit i = a.testBit (k + i) := by
  cases a with
  | ofNat m => exact Nat.testBit_shiftRight m
  | negSucc m => exact congrArg (! ·) (Nat.testBit_shiftRight m)

theorem getLsbD_ofInt (w : ℕ) (a : ℤ) (i : ℕ) : (BitVec.ofInt w a).getLsbD i = (decide (i < w) && a.testBit i) := by
  cases a with
  | ofNat m =>
    show (BitVec.ofInt w (m : ℤ)).getLsbD i = (decide (i < w) && m.testBit i)
    rw [BitVec.ofInt_natCast, BitVec.getLsbD_ofNat]
  | negSucc m =>
    show (BitVec.ofInt w (Int.negSucc m)).getLsbD i = (decide (i < w) && !m.testBit i)
    rw [BitVec.ofInt_negSucc_eq_not_ofNat, BitVec.getLsbD_not, BitVec.getLsbD_ofNat]
    by_cases hi : i < w
    · rw [decide_eq_true hi, Bool.true_and, Bool.true_and, Bool.true_and]
    · rw [decide_eq_false hi, Bool.false_and, Bool.false_and]

theorem ofInt_sub (w : ℕ) (a b : ℤ) : BitVec.ofInt w (a - b) = BitVec.ofInt w a - BitVec.ofInt w b := by
  rw [Int.sub_eq_add_neg, BitVec.ofInt_add, BitVec.ofInt_neg, BitVec.sub_eq_add_neg]

theorem ofInt_xor (w : ℕ) (a b : ℤ) : BitVec.ofInt w (Int.xor a b) = BitVec.ofInt w a ^^^ BitVec.ofInt w b := by
  refine BitVec.eq_of_getLsbD_eq fun i hi => ?_
  rw [BitVec.getLsbD_xor, getLsbD_ofInt, getLsbD_ofInt, getLsbD_ofInt, Int.testBit_lxor, decide_eq_true hi,
    Bool.true_and, Bool.true_and, Bool.true_and]

theorem ofInt_shiftLeft (w : ℕ) (a : ℤ) (k : ℕ) : BitVec.ofInt w (a <<< k) = BitVec.ofInt w a <<< k := by
  have hpow : BitVec.ofInt w (2 ^ k) = BitVec.twoPow w k := by
    refine BitVec.eq_of_toNat_eq ?_
    rw [show (2 : ℤ) ^ k = ((2 ^ k : ℕ) : ℤ) by push_cast; rfl, BitVec.ofInt_natCast, BitVec.toNat_ofNat,
      BitVec.toNat_twoPow]
  rw [Int.shiftLeft_eq, BitVec.ofInt_mul, hpow, BitVec.shiftLeft_eq_mul_twoPow]

/-- A shift to the right of which the highest bits are masked. -/
theorem ofInt_land_shiftRight (w k : ℕ) (a : ℤ) :
    BitVec.ofInt w (Int.land (a >>> k) ((2 ^ (w - k) - 1 : ℕ) : ℤ)) = BitVec.ofInt w a >>> k := by
  refine BitVec.eq_of_getLsbD_eq fun i hi => ?_
  have hmask : (((2 ^ (w - k) - 1 : ℕ) : ℤ)).testBit i = decide (i < w - k) := Nat.testBit_two_pow_sub_one ..
  have hiff : i < w - k ↔ k + i < w := by omega
  rw [BitVec.getLsbD_ushiftRight, getLsbD_ofInt, getLsbD_ofInt, Int.testBit_land, testBit_shiftRight, hmask,
    decide_eq_true hi, Bool.true_and, Bool.and_comm, decide_eq_decide.mpr hiff]

end Ylem.Residue
