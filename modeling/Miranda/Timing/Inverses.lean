import Miranda.Timing.Arithmetic

/-!
# Nanoseconds to times, and negative times

`InNS` is to take the number of nanoseconds of a time back to the time, and negation is
to be the inverse of addition. Both have to turn a negative number of nanoseconds into
seconds and a part of a second that counts forwards.

`InNS` moves the number down by one before it divides. That is right for all parts of a
second but the first two: at a negative whole second and one nanosecond after it, the
constructor gets a full second of nanoseconds, and it dies. Negation always borrows a
second, so it dies on every whole second, while `abs` does not borrow there.
-/

namespace Miranda.Timing

open Signed Int64

namespace Time

variable {nseconds : Int64}

theorem toInt_lt_zero : nseconds < 0 ↔ nseconds.toInt < 0 := by
  rw [lt_iff_toInt_lt, toInt_zero]

theorem inNS_nonneg (nonneg : 0 ≤ nseconds.toInt) :
    ∃ result, inNS nseconds = some result ∧ Stands result nseconds.toInt := by
  have upper := nseconds.toInt_lt
  have second : kNSecInSec.toInt64.toInt = 1000000000 := rfl
  have quotient : (nseconds / kNSecInSec.toInt64).toInt = nseconds.toInt / 1000000000 := by
    rw [toInt_div, second, Int.tdiv_eq_ediv_of_nonneg nonneg, bmod_long (by omega) (by omega)]
  have remainder := toInt_remainder nseconds
  rw [Int.tmod_eq_emod_of_nonneg nonneg] at remainder
  have notNegative : ¬ nseconds < 0 := by
    rw [toInt_lt_zero]
    omega
  rw [inNS, if_neg notNegative]
  apply new_stands (toInt32_modEq _) remainder (by omega) (by omega)
  omega

section Negative

variable (negative : nseconds.toInt < 0) (lower : -2 ^ 63 < nseconds.toInt)
include negative lower

/-- What `InNS` hands to the constructor for a negative number. -/
theorem inNS_parts :
    ((nseconds - 1) / kNSecInSec.toInt64 - 1).toInt = -((1 - nseconds.toInt) / 1000000000) - 1 ∧
    (((nseconds - 1) % kNSecInSec.toInt64 + 1) + kNSecInSec.toInt64).toInt32.toInt =
      -((1 - nseconds.toInt) % 1000000000) + 1 + 1000000000 := by
  have second : kNSecInSec.toInt64.toInt = 1000000000 := rfl
  have before : (nseconds - 1).toInt = nseconds.toInt - 1 := by
    rw [toInt_sub, toInt_one, bmod_long (by omega) (by omega)]
  have flip : -(nseconds.toInt - 1) = 1 - nseconds.toInt := by omega
  have quotient : ((nseconds - 1) / kNSecInSec.toInt64).toInt =
      -((1 - nseconds.toInt) / 1000000000) := by
    rw [toInt_div, before, second, tdiv_of_nonpos (by omega), flip,
      bmod_long (by omega) (by omega)]
  have remainder : ((nseconds - 1) % kNSecInSec.toInt64).toInt =
      -((1 - nseconds.toInt) % 1000000000) := by
    rw [toInt_mod, before, second, tmod_of_nonpos (by omega), flip]
  have next : ((nseconds - 1) % kNSecInSec.toInt64 + 1).toInt =
      -((1 - nseconds.toInt) % 1000000000) + 1 := by
    rw [toInt_add, remainder, toInt_one, bmod_long (by omega) (by omega)]
  constructor
  · rw [toInt_sub, quotient, toInt_one, bmod_long (by omega) (by omega)]
  · rw [toInt_toInt32, toInt_add, next, second, bmod_long (by omega) (by omega),
      bmod_word (by omega) (by omega)]

/-- `InNS` is right for negative numbers that are neither whole seconds nor a
nanosecond more. -/
theorem inNS_negative (part : 1 < nseconds.toInt % 1000000000) :
    ∃ result, inNS nseconds = some result ∧ Stands result nseconds.toInt := by
  obtain ⟨seconds, nanoseconds⟩ := inNS_parts negative lower
  rw [inNS, if_pos (toInt_lt_zero.mpr negative)]
  apply new_stands (toInt32_modEq _) nanoseconds (by omega) (by omega)
  omega

/-- For those it dies. -/
theorem inNS_dies (whole : nseconds.toInt % 1000000000 ≤ 1) : inNS nseconds = none := by
  obtain ⟨_, nanoseconds⟩ := inNS_parts negative lower
  rw [inNS, if_pos (toInt_lt_zero.mpr negative), new, if_pos]
  left
  rw [ge_iff_le, Int32.le_iff_toInt_le, toInt_kNSecInSec]
  omega

end Negative

/-- `InNS` works exactly from zero on and behind the first nanosecond of a second. -/
theorem inNS_exact_iff (fits : Fits nseconds.toInt) :
    (∃ result, inNS nseconds = some result ∧ Exact result nseconds.toInt) ↔
      0 ≤ nseconds.toInt ∨ 1 < nseconds.toInt % 1000000000 := by
  rcases Int.lt_or_le _ 0 with negative | nonneg
  · have lower : -2 ^ 63 < nseconds.toInt := by
      rw [Fits] at fits
      omega
    rcases Int.lt_or_le 1 _ with part | whole
    · obtain ⟨result, made, stands⟩ := inNS_negative negative lower part
      exact iff_of_true ⟨result, made, stands.exact fits⟩ (.inr part)
    · refine iff_of_false ?_ (by omega)
      rintro ⟨result, made, _⟩
      rw [inNS_dies negative lower whole] at made
      cases made
  · obtain ⟨result, made, stands⟩ := inNS_nonneg nonneg
    exact iff_of_true ⟨result, made, stands.exact fits⟩ (.inl nonneg)

variable {time rhs : Time}

theorem Exact.value_eq {nanoseconds : Int} (exact : Exact time nanoseconds) :
    time.value = nanoseconds := by
  rw [← toInt_toNSec, exact.2]

/-- What a valid time has in its fields, read off its value. -/
theorem parts_value (valid : time.Valid) :
    (0 ≤ time.value ↔ 0 ≤ time.sec.toInt) ∧ time.value % 1000000000 = time.nsec.toInt := by
  rw [valid_iff] at valid
  simp only [value]
  omega

/-- `InNS` inverts `ToNSec` from zero on and for times that are more than a nanosecond
past a whole second. At the other negative times it dies.

Proof: there the constructor gets the seconds and the part of the number (`inNS_exact_iff`). -/
theorem inNS_inverts_toNSec (nseconds : Int64) (time : Time) (fits : Fits nseconds.toInt)
    (valid : time.Valid) :
    ((∃ result, inNS nseconds = some result ∧ Exact result nseconds.toInt) ↔
      0 ≤ nseconds.toInt ∨ 1 < nseconds.toInt % 1000000000) ∧
    (inNS time.toNSec = some time ↔ 0 ≤ time.sec.toInt ∨ 1 < time.nsec.toInt) := by
  refine ⟨inNS_exact_iff fits, ?_⟩
  have exactly := @inNS_exact_iff _ (by
    rw [toInt_toNSec]
    exact fits_value valid)
  rw [toInt_toNSec, (parts_value valid).1, (parts_value valid).2] at exactly
  rw [← exactly]
  constructor
  · intro made
    exact ⟨time, made, valid, toInt_toNSec time⟩
  · rintro ⟨result, made, exact⟩
    rw [made, eq_of_value exact.1 valid exact.value_eq]

/-- Half a second before zero, there and back. -/
theorem inNS_inverts_toNSec_half :
    Fits (-500000000 : Int64).toInt ∧ (⟨-1, 500000000⟩ : Time).Valid ∧
      inNS (⟨-1, 500000000⟩ : Time).toNSec = some ⟨-1, 500000000⟩ :=
  ⟨by decide, by decide,
    (inNS_inverts_toNSec (-500000000) _ (by decide) (by decide)).2.mpr (by decide)⟩

/-- One second before zero is a time, but `InNS` dies on its nanoseconds, and on the
nanosecond after it. -/
theorem inNS_dies_at_whole_second :
    (⟨-1, 0⟩ : Time).Valid ∧ (⟨-1, 0⟩ : Time).toNSec = -1000000000 ∧
      inNS (-1000000000) = none ∧ inNS (-999999999) = none := by
  decide

/-- The unary `operator-`, with no result where the constructor dies. -/
def neg (time : Time) : Option Time := new (-time.sec - 1) (kNSecInSec - time.nsec)

theorem neg_stands (valid : time.Valid) (part : time.nsec ≠ 0) :
    ∃ result, time.neg = some result ∧ Stands result (-time.value) := by
  have bounds := valid_iff.mp valid
  have nonzero : time.nsec.toInt ≠ 0 := by
    intro same
    exact part (Int32.toInt_inj.mp same)
  apply new_stands ((sub_one_modEq _).trans ((neg_modEq _).sub_right 1)) (toInt_rest valid)
    (by omega) (by omega)
  rw [value]
  ring

theorem neg_dies (whole : time.nsec = 0) : time.neg = none := by
  rw [neg, whole, new, if_pos (by decide)]

/-- The nanoseconds of the negation of a time that has some. -/
theorem neg_part (valid : time.Valid) (negated : time.neg = some rhs) : rhs.nsec ≠ 0 := by
  have bounds := valid_iff.mp valid
  rw [neg, new] at negated
  split at negated
  · cases negated
  · cases negated
    intro (whole : kNSecInSec - time.nsec = 0)
    have rest := toInt_rest valid
    rw [whole, Int32.toInt_zero] at rest
    omega

/-- The negation of a time: a valid time of minus the nanoseconds that adds up to zero
with it, whose negation is the time again and which is its absolute value if the time
itself is not. -/
def HasInverse (time : Time) : Prop :=
  ∃ negated, time.neg = some negated ∧ Exact negated (-time.toNSec.toInt) ∧
    time + negated = kZero ∧ negated.neg = some time ∧
    (time.abs = some time ∨ time.abs = some negated)

theorem hasInverse_of_part (valid : time.Valid) (fits : Fits (-time.value))
    (part : time.nsec ≠ 0) : time.HasInverse := by
  obtain ⟨negated, made, stands⟩ := neg_stands valid part
  have opposite := stands.value_eq fits
  refine ⟨negated, made, ?_, ?_, ?_, ?_⟩
  · rw [toInt_toNSec]
    exact stands.exact fits
  · have sum := (stands_value valid).add stands
    rw [Int.add_right_neg] at sum
    exact sum.unique (stands_value valid_kZero)
  · obtain ⟨again, back, standsBack⟩ := neg_stands stands.1 (neg_part valid made)
    rw [opposite, Int.neg_neg] at standsBack
    rw [back, standsBack.unique (stands_value valid)]
  · obtain ⟨size, isSize, standsSize⟩ := abs_stands valid
    rcases Int.le_total 0 _ with nonneg | nonpos
    · rw [abs_of_nonneg nonneg] at standsSize
      left
      rw [isSize, standsSize.unique (stands_value valid)]
    · rw [abs_of_nonpos nonpos] at standsSize
      right
      rw [isSize, standsSize.unique stands]

/-- Negation is the additive inverse of exactly the times that are not whole seconds.

Proof: it borrows a second always, which leaves a full second of nanoseconds for those. -/
theorem neg_is_inverse_iff (time : Time) (valid : time.Valid)
    (fits : Fits (-time.toNSec.toInt)) : time.HasInverse ↔ time.nsec ≠ 0 := by
  rw [toInt_toNSec] at fits
  constructor
  · rintro ⟨negated, made, _⟩ whole
    rw [neg_dies whole] at made
    cases made
  · exact hasInverse_of_part valid fits

/-- A second and a half. -/
theorem neg_is_inverse_iff_half : (⟨1, 500000000⟩ : Time).Valid ∧
    Fits (-(⟨1, 500000000⟩ : Time).toNSec.toInt) ∧ (⟨1, 500000000⟩ : Time).HasInverse :=
  ⟨by decide, by decide,
    (neg_is_inverse_iff _ (by decide) (by decide)).mpr (by decide)⟩

/-- There is no negative of a second, nor of zero. -/
theorem neg_dies_at_whole_second :
    (⟨1, 0⟩ : Time).Valid ∧ Fits (-(⟨1, 0⟩ : Time).toNSec.toInt) ∧
      (⟨1, 0⟩ : Time).neg = none ∧ kZero.neg = none := by
  decide

end Time

end Miranda.Timing
