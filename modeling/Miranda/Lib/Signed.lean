import Mathlib.Data.Int.ModEq

/-!
# Signed machine words

The operations of 32-bit and 64-bit words agree with those of the integers modulo the
number of words, and exactly where the result is in range. Truncating division of a
negative number is described by floor division, which linear arithmetic knows.
-/

namespace Miranda.Signed

open Int32

variable {number divisor : Int}

theorem bmod_word (lower : -2 ^ 31 ≤ number) (upper : number < 2 ^ 31) :
    number.bmod (2 ^ 32) = number :=
  Int.bmod_eq_of_le (by omega) (by omega)

theorem bmod_natCast {number : Nat} (small : number < 2 ^ 31) :
    (number : Int).bmod (2 ^ 32) = number :=
  bmod_word (by omega) (by omega)

theorem bmod_long (lower : -2 ^ 63 ≤ number) (upper : number < 2 ^ 63) :
    number.bmod (2 ^ 64) = number :=
  Int.bmod_eq_of_le (by omega) (by omega)

section Words

variable (one two : Int32)

theorem add_modEq : (one + two).toInt ≡ one.toInt + two.toInt [ZMOD 2 ^ 32] := by
  rw [toInt_add]
  exact Int.bmod_emod

theorem sub_modEq : (one - two).toInt ≡ one.toInt - two.toInt [ZMOD 2 ^ 32] := by
  rw [toInt_sub]
  exact Int.bmod_emod

theorem mul_modEq : (one * two).toInt ≡ one.toInt * two.toInt [ZMOD 2 ^ 32] := by
  rw [toInt_mul]
  exact Int.bmod_emod

theorem neg_modEq : (-one).toInt ≡ -one.toInt [ZMOD 2 ^ 32] := by
  rw [toInt_neg]
  exact Int.bmod_emod

theorem toInt32_modEq (long : Int64) : long.toInt32.toInt ≡ long.toInt [ZMOD 2 ^ 32] := by
  rw [Int64.toInt_toInt32]
  exact Int.bmod_emod

/-- The next word. -/
theorem add_one_modEq : (one + 1).toInt ≡ one.toInt + 1 [ZMOD 2 ^ 32] := add_modEq one 1

/-- The word before. -/
theorem sub_one_modEq : (one - 1).toInt ≡ one.toInt - 1 [ZMOD 2 ^ 32] := sub_modEq one 1

end Words

theorem tdiv_of_nonpos (negative : number ≤ 0) :
    number.tdiv divisor = -(-number / divisor) := by
  rw [← Int.tdiv_eq_ediv_of_nonneg (by omega), Int.neg_tdiv, Int.neg_neg]

theorem tmod_of_nonpos (negative : number ≤ 0) :
    number.tmod divisor = -(-number % divisor) := by
  rw [← Int.tmod_eq_emod_of_nonneg (by omega), Int.neg_tmod, Int.neg_neg]

/-- Floor division by a positive divisor. -/
theorem ediv_parts (number : Int) (positive : 0 < divisor) :
    number % divisor + divisor * (number / divisor) = number ∧ 0 ≤ number % divisor ∧
      number % divisor < divisor :=
  ⟨Int.emod_add_mul_ediv _ _, Int.emod_nonneg _ positive.ne', Int.emod_lt_of_pos _ positive⟩

/-- Dividing and multiplying again goes towards zero. -/
theorem tdiv_mul_between (number : Int) (positive : 0 < divisor) :
    (0 ≤ number → 0 ≤ number.tdiv divisor * divisor ∧ number.tdiv divisor * divisor ≤ number) ∧
      (number ≤ 0 → number ≤ number.tdiv divisor * divisor ∧
        number.tdiv divisor * divisor ≤ 0) := by
  have general : ∀ amount : Int, 0 ≤ amount →
      0 ≤ amount / divisor * divisor ∧ amount / divisor * divisor ≤ amount := by
    intro amount nonneg
    exact ⟨Int.mul_nonneg (Int.ediv_nonneg nonneg positive.le) positive.le,
      Int.ediv_mul_le amount positive.ne'⟩
  constructor
  · intro nonneg
    rw [Int.tdiv_eq_ediv_of_nonneg nonneg]
    exact general number nonneg
  · intro nonpos
    have flipped := general (-number) (by omega)
    rw [tdiv_of_nonpos nonpos, Int.neg_mul]
    omega

/-- Truncating division by a divisor that is not zero. -/
theorem tdiv_parts (number : Int) (nonzero : divisor ≠ 0) :
    number = divisor * number.tdiv divisor + number.tmod divisor ∧
      (number.tmod divisor).natAbs < divisor.natAbs ∧ (0 ≤ number → 0 ≤ number.tmod divisor) ∧
      (number ≤ 0 → number.tmod divisor ≤ 0) := by
  have parts := Int.mul_tdiv_add_tmod number divisor
  refine ⟨parts.symm, ?_, Int.tmod_nonneg divisor, ?_⟩
  · rw [Int.natAbs_tmod]
    exact Nat.mod_lt _ (Int.natAbs_pos.mpr nonzero)
  · intro nonpos
    have flipped := Int.tmod_nonneg divisor (show 0 ≤ -number by omega)
    rw [Int.neg_tmod] at flipped
    omega

/-- A number below the divisor is the remainder of what it is congruent to on the same
side of zero. -/
theorem tmod_unique {rest : Int} (congruent : number ≡ rest [ZMOD divisor])
    (small : rest.natAbs < divisor.natAbs) (side : 0 ≤ number ∧ 0 ≤ rest ∨ number ≤ 0 ∧ rest ≤ 0) :
    number.tmod divisor = rest := by
  have general : ∀ amount part : Int, amount ≡ part [ZMOD divisor] →
      part.natAbs < divisor.natAbs → 0 ≤ amount → 0 ≤ part → amount.tmod divisor = part := by
    intro amount part same below nonneg partNonneg
    rw [Int.tmod_eq_emod_of_nonneg nonneg, same, ← Int.emod_abs, Int.abs_eq_natAbs,
      Int.emod_eq_of_lt partNonneg (by omega)]
  rcases side with ⟨nonneg, restNonneg⟩ | ⟨nonpos, restNonpos⟩
  · exact general number rest congruent small nonneg restNonneg
  · have flipped := general _ _ congruent.neg (by omega) (by omega)
      (by omega)
    rw [Int.neg_tmod] at flipped
    omega

/-- The `/` of words, which is undefined by zero and where the result does not fit. -/
def quotient (one two : Int32) : Option Int32 :=
  if two = 0 ∨ one = Int32.minValue ∧ two = -1 then none else some (one / two)

/-- The `%` of words, which is undefined where `/` is. -/
def remainder (one two : Int32) : Option Int32 :=
  if two = 0 ∨ one = Int32.minValue ∧ two = -1 then none else some (one % two)

/-- The `%` of 64-bit words. -/
def longRemainder (one two : Int64) : Option Int64 :=
  if two = 0 ∨ one = Int64.minValue ∧ two = -1 then none else some (one % two)

section Dividing

variable {one two : Int32} (nonzero : two.toInt ≠ 0)
  (inRange : ¬ (one.toInt = -2 ^ 31 ∧ two.toInt = -1))
include nonzero inRange

theorem defined : ¬ (two = 0 ∨ one = Int32.minValue ∧ two = -1) := by
  rw [← toInt_inj, ← toInt_inj, ← toInt_inj]
  rintro (zero | least)
  · exact nonzero zero
  · exact inRange least

theorem quotient_eq : ∃ result, quotient one two = some result ∧
    result.toInt = one.toInt.tdiv two.toInt := by
  have isDefined := defined nonzero inRange
  refine ⟨one / two, if_neg isDefined, ?_⟩
  by_cases least : one = .minValue
  · exact toInt_div_of_ne_right one two fun minusOne => isDefined (.inr ⟨least, minusOne⟩)
  · exact toInt_div_of_ne_left one two least

theorem remainder_eq : ∃ result, remainder one two = some result ∧
    result.toInt = one.toInt.tmod two.toInt :=
  ⟨one % two, if_neg (defined nonzero inRange), toInt_mod one two⟩

end Dividing

end Miranda.Signed
