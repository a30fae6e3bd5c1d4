import Miranda.Timing.Arithmetic

/-!
# Dividing times by integers

A time is divided by an integer in its two fields: the nanoseconds of the quotient are
the remaining seconds times the nanoseconds of a second divided by the divisor, plus the
nanoseconds divided by it. The remainder is taken of all nanoseconds, and then split into
seconds again. Machine division is undefined by zero and where the quotient of the least
word does not fit; there is no result then. The other operations wrap.

The quotient is always a valid time. What it leaves over is the product of what both
divisions by the divisor drop from the seconds and from a second, plus what is dropped
from the nanoseconds.
-/

namespace Miranda.Timing

open Signed Option Int32

namespace Time

/-- How the operators get nanoseconds from the seconds. -/
def borrow (sec nsec : Int32) : Time :=
  if nsec < 0 then ⟨sec - 1, nsec + kNSecInSec⟩ else ⟨sec, nsec⟩

/-- `operator/=`. -/
def div (time : Time) (rhs : Int32) : Option Time := do
  let rest ← remainder time.sec rhs
  let unit ← quotient kNSecInSec rhs
  let part ← quotient time.nsec rhs
  let sec ← quotient time.sec rhs
  return borrow sec (rest * unit + part)

/-- `operator%=`. -/
def mod (time : Time) (rhs : Int32) : Option Time := do
  let nsec ← longRemainder time.toNSec rhs.toInt64
  let turns ← quotient rhs kNSecInSec
  let wraps ← quotient nsec.toInt32 ((turns + 1) * kNSecInSec)
  return borrow (wraps + turns) (nsec.toInt32 - kNSecInSec * wraps)

/-- What the quotient of a time leaves over. -/
def leftOver (time : Time) (divisor : Int) : Int :=
  time.sec.toInt.tmod divisor * (1000000000 : Int).tmod divisor + time.nsec.toInt.tmod divisor

section Borrowing

variable (sec nsec : Int32)

theorem valid_borrow :
    (borrow sec nsec).Valid ↔ -1000000000 ≤ nsec.toInt ∧ nsec.toInt < 1000000000 := by
  rw [valid_iff, borrow]
  by_cases negative : nsec < 0
  · rw [if_pos negative]
    rw [lt_iff_toInt_lt, toInt_zero] at negative
    have sum := add_second negative
    show 0 ≤ (nsec + kNSecInSec).toInt ∧ (nsec + kNSecInSec).toInt < 1000000000 ↔ _
    omega
  · rw [if_neg negative]
    rw [lt_iff_toInt_lt, toInt_zero] at negative
    show 0 ≤ nsec.toInt ∧ nsec.toInt < 1000000000 ↔ _
    omega

theorem value_borrow (room : -2 ^ 31 < sec.toInt ∨ 0 ≤ nsec.toInt) :
    (borrow sec nsec).value = sec.toInt * 1000000000 + nsec.toInt := by
  have upper := sec.toInt_lt
  rw [value, borrow]
  by_cases negative : nsec < 0
  · rw [if_pos negative]
    rw [lt_iff_toInt_lt, toInt_zero] at negative
    have sum := add_second negative
    have before : (sec - 1).toInt = sec.toInt - 1 := by
      rw [toInt_sub, toInt_one, bmod_word (by omega) (by omega)]
    show (sec - 1).toInt * 1000000000 + (nsec + kNSecInSec).toInt = _
    rw [sum, before]
    ring
  · rw [if_neg negative]

end Borrowing

/-- Some of the parts of a whole, rounded down, and a part of less than a whole. -/
theorem parts_lt {parts some less whole : Nat} (below : some < parts) (small : less < whole) :
    some * (whole / parts) + less / parts < whole := by
  apply Nat.lt_of_mul_lt_mul_left (a := parts)
  calc parts * (some * (whole / parts) + less / parts)
      = some * (parts * (whole / parts)) + parts * (less / parts) := by ring
    _ ≤ some * whole + less :=
        Nat.add_le_add (Nat.mul_le_mul_left _ (Nat.mul_div_le _ _)) (Nat.mul_div_le _ _)
    _ < some * whole + whole := Nat.add_lt_add_left small _
    _ = (some + 1) * whole := by ring
    _ ≤ parts * whole := Nat.mul_le_mul_right _ below

variable {time : Time} {divisor : Int32}

section Quotient

variable (valid : time.Valid) (nonzero : divisor.toInt ≠ 0)
include valid nonzero

/-- The nanoseconds of the quotient are below a second. -/
theorem natAbs_part_lt :
    (time.sec.toInt.tmod divisor.toInt * (1000000000 : Int).tdiv divisor.toInt).natAbs +
      (time.nsec.toInt.tdiv divisor.toInt).natAbs < 1000000000 := by
  rw [valid_iff] at valid
  rw [Int.natAbs_mul, Int.natAbs_tmod, Int.natAbs_tdiv, Int.natAbs_tdiv]
  exact parts_lt (Nat.mod_lt _ (Int.natAbs_pos.mpr nonzero)) (by omega)

/-- There are seconds to borrow from. -/
theorem room_to_borrow (inRange : ¬ (time.sec.toInt = -2 ^ 31 ∧ divisor.toInt = -1)) :
    -2 ^ 31 < time.sec.toInt.tdiv divisor.toInt ∨
      0 ≤ time.sec.toInt.tmod divisor.toInt * (1000000000 : Int).tdiv divisor.toInt +
        time.nsec.toInt.tdiv divisor.toInt := by
  rw [valid_iff] at valid
  have lower := time.sec.le_toInt
  have upper := time.sec.toInt_lt
  by_cases one : divisor.toInt = 1
  · right
    rw [one, Int.tmod_one, Int.zero_mul, Int.zero_add, Int.tdiv_one]
    exact valid.1
  · left
    by_cases minusOne : divisor.toInt = -1
    · rw [minusOne, Int.tdiv_neg, Int.tdiv_one]
      omega
    · have halved : (time.sec.toInt.tdiv divisor.toInt).natAbs ≤ time.sec.toInt.natAbs / 2 := by
        rw [Int.natAbs_tdiv]
        exact Nat.div_le_div_left (by omega) (by decide)
      omega

/-- Division gives a valid time, with what it leaves over. -/
theorem div_eq (inRange : ¬ (time.sec.toInt = -2 ^ 31 ∧ divisor.toInt = -1)) :
    ∃ result, time.div divisor = some result ∧ result.Valid ∧
      time.value = result.value * divisor.toInt + time.leftOver divisor.toInt := by
  have bounds := valid_iff.mp valid
  obtain ⟨rest, isRest, restInt⟩ := remainder_eq nonzero inRange
  obtain ⟨unit, isUnit, unitInt⟩ := quotient_eq nonzero
    (show ¬ (kNSecInSec.toInt = -2 ^ 31 ∧ divisor.toInt = -1) by rw [toInt_kNSecInSec]; omega)
  obtain ⟨part, isPart, partInt⟩ := quotient_eq nonzero
    (show ¬ (time.nsec.toInt = -2 ^ 31 ∧ divisor.toInt = -1) by omega)
  obtain ⟨sec, isSec, secInt⟩ := quotient_eq nonzero inRange
  have small := natAbs_part_lt valid nonzero
  have room := room_to_borrow valid nonzero inRange
  rw [toInt_kNSecInSec] at unitInt
  rw [← restInt, ← unitInt, ← partInt] at small room
  rw [← secInt] at room
  have product : (rest * unit).toInt = rest.toInt * unit.toInt := by
    rw [toInt_mul, bmod_word (by omega) (by omega)]
  have nsec : (rest * unit + part).toInt = rest.toInt * unit.toInt + part.toInt := by
    rw [toInt_add, product, bmod_word (by omega) (by omega)]
  refine ⟨borrow sec (rest * unit + part), ?_, ?_, ?_⟩
  · simp only [div, isRest, isUnit, isPart, isSec, bind, pure, bind_some]
  · rw [valid_borrow, nsec]
    omega
  · rw [value_borrow _ _ (by rw [nsec]; exact room), nsec, leftOver, ← restInt]
    have seconds := (tdiv_parts time.sec.toInt nonzero).1
    have units := (tdiv_parts 1000000000 nonzero).1
    have nanoseconds := (tdiv_parts time.nsec.toInt nonzero).1
    rw [← secInt, ← restInt] at seconds
    rw [← unitInt] at units
    rw [← partInt] at nanoseconds
    calc time.sec.toInt * 1000000000 + time.nsec.toInt
        = (divisor.toInt * sec.toInt + rest.toInt) * 1000000000 +
            (divisor.toInt * part.toInt + time.nsec.toInt.tmod _) := by
          rw [← seconds, ← nanoseconds]
      _ = divisor.toInt * sec.toInt * 1000000000 +
            rest.toInt * (divisor.toInt * unit.toInt + .tmod 1000000000 _) +
            (divisor.toInt * part.toInt + time.nsec.toInt.tmod _) := by
          rw [← units]
          ring
      _ = _ := by ring

end Quotient

/-- Division is undefined for the least seconds by minus one. -/
theorem div_undefined (least : time.sec.toInt = -2 ^ 31) (minusOne : divisor.toInt = -1) :
    time.div divisor = none := by
  have isLeast : time.sec = .minValue := toInt_inj.mp least
  have isMinusOne : divisor = -1 := toInt_inj.mp minusOne
  rw [div, remainder, if_pos (.inr ⟨isLeast, isMinusOne⟩)]
  rfl

/-- The whole seconds of a number of nanoseconds. -/
theorem seconds_parts (nanoseconds : Int) :
    ∃ surplus, nanoseconds = 1000000000 * nanoseconds.tdiv 1000000000 + surplus ∧
      -1000000000 < surplus ∧ surplus < 1000000000 ∧ (0 ≤ nanoseconds → 0 ≤ surplus) ∧
      (nanoseconds ≤ 0 → surplus ≤ 0) := by
  obtain ⟨parts, small, nonneg, nonpos⟩ :=
    tdiv_parts nanoseconds (show (1000000000 : Int) ≠ 0 by decide)
  refine ⟨_, parts, ?_, ?_, nonneg, nonpos⟩
  · omega
  · omega

section Remainder

variable (nonzero : divisor.toInt ≠ 0)
include nonzero

theorem tmod_modEq (number : Int) : number.tmod divisor.toInt ≡ number [ZMOD divisor.toInt] := by
  have parts := (tdiv_parts number nonzero).1
  apply Int.modEq_iff_dvd.mpr
  exact ⟨number.tdiv divisor.toInt, by omega⟩

/-- What is left over is a remainder of the nanoseconds up to the divisor. -/
theorem value_modEq_leftOver : time.value ≡ time.leftOver divisor.toInt [ZMOD divisor.toInt] :=
  (((tmod_modEq nonzero _).mul (tmod_modEq nonzero _)).add (tmod_modEq nonzero _)).symm

section

variable (valid : time.Valid)
include valid

/-- The remainder in nanoseconds fits a word. -/
theorem longRemainder_eq :
    ∃ rest, longRemainder time.toNSec divisor.toInt64 = some rest ∧
      rest.toInt32.toInt = time.value.tmod divisor.toInt := by
  have small := (tdiv_parts time.value nonzero).2.1
  have lower := divisor.le_toInt
  have upper := divisor.toInt_lt
  have fits := fits_value valid
  refine ⟨time.toNSec % divisor.toInt64, if_neg ?_, ?_⟩
  · rw [← Int64.toInt_inj, ← Int64.toInt_inj, toInt_toNSec, toInt_toInt64]
    rintro (zero | ⟨least, _⟩)
    · exact nonzero zero
    · rw [least] at fits
      exact absurd fits (by decide)
  · rw [Int64.toInt_toInt32, Int64.toInt_mod, toInt_toNSec, toInt_toInt64,
      bmod_word (by omega) (by omega)]

/-- How the remainder is split for a divisor of some whole seconds. The nanoseconds may
have gone around the words. -/
theorem mod_eq {turns : Int32} {count step : Int}
    (isCount : turns.toInt = count) (isTurns : divisor.toInt.tdiv 1000000000 = count)
    (isStep : ((turns + 1) * kNSecInSec).toInt = step) (large : 1000000000 ≤ step.natAbs) :
    ∃ result, time.mod divisor = some result ∧ ∃ wraps part surplus around : Int,
      (result.Valid ↔ -1000000000 ≤ part ∧ part < 1000000000) ∧
      result.value = (wraps + count) * 1000000000 + part ∧
      part = time.value.tmod divisor.toInt - 1000000000 * wraps + 2 ^ 32 * around ∧
      -2 ^ 31 ≤ part ∧ part < 2 ^ 31 ∧
      time.value.tmod divisor.toInt = step * wraps + surplus ∧ surplus.natAbs < step.natAbs ∧
      (0 ≤ time.value.tmod divisor.toInt → 0 ≤ surplus) ∧
      (time.value.tmod divisor.toInt ≤ 0 → surplus ≤ 0) := by
  subst isCount
  obtain ⟨word, isWord⟩ : ∃ word, (turns + 1) * kNSecInSec = word := ⟨_, rfl⟩
  rw [isWord] at isStep
  subst isStep
  obtain ⟨rest, isRest, restInt⟩ := longRemainder_eq nonzero valid
  have bounds := divisor.toInt_lt
  have stepNonzero : word.toInt ≠ 0 := by omega
  have positive : kNSecInSec.toInt ≠ 0 := by decide
  have notMinusOne : ¬ (divisor.toInt = -2 ^ 31 ∧ kNSecInSec.toInt = -1) := by
    rw [toInt_kNSecInSec]
    omega
  obtain ⟨whole, isWhole, wholeInt⟩ := quotient_eq positive notMinusOne
  have same : whole = turns := toInt_inj.mp (by rw [wholeInt, toInt_kNSecInSec, isTurns])
  subst same
  have inRange : ¬ (rest.toInt32.toInt = -2 ^ 31 ∧ word.toInt = -1) := by omega
  obtain ⟨wraps, isWraps, wrapsInt⟩ := quotient_eq stepNonzero inRange
  have parts := tdiv_parts rest.toInt32.toInt stepNonzero
  rw [← wrapsInt] at parts
  have few : wraps.toInt.natAbs ≤ 2 := by
    have low := rest.toInt32.le_toInt
    have high := rest.toInt32.toInt_lt
    rw [wrapsInt, Int.natAbs_tdiv]
    exact (Nat.div_le_div (show _ ≤ 2 ^ 31 by omega) large (by decide)).trans (by decide)
  have wholes : whole.toInt.natAbs ≤ 2 := by
    have low := divisor.le_toInt
    have seconds := seconds_parts divisor.toInt
    omega
  have product : (kNSecInSec * wraps).toInt = 1000000000 * wraps.toInt := by
    rw [toInt_mul, toInt_kNSecInSec, bmod_word (by omega) (by omega)]
  have sum : (wraps + whole).toInt = wraps.toInt + whole.toInt := by
    rw [toInt_add, bmod_word (by omega) (by omega)]
  have difference := sub_modEq rest.toInt32 (kNSecInSec * wraps)
  rw [product, restInt] at difference
  obtain ⟨around, isAround⟩ := Int.modEq_iff_add_fac.mp difference.symm
  refine ⟨borrow (wraps + whole) _, ?_, wraps.toInt,
    (rest.toInt32 - kNSecInSec * wraps).toInt, rest.toInt32.toInt.tmod word.toInt, around,
    valid_borrow _ _, ?_, isAround, le_toInt _, toInt_lt _, ?_⟩
  · rw [mod, isRest, bind_eq_bind, bind_some, isWhole, bind_eq_bind,
      bind_some, isWord, isWraps]
    rfl
  · rw [value_borrow _ _ (.inl (by omega)), sum]
  · rw [← restInt]
    exact parts

/-- Below a second the remainder is that of the nanoseconds. -/
theorem mod_below_second (below : divisor.toInt.natAbs < 1000000000) :
    ∃ result, time.mod divisor = some result ∧ result.Valid ∧
      result.value = time.value.tmod divisor.toInt := by
  have small := (tdiv_parts time.value nonzero).2.1
  have turns : divisor.toInt.tdiv 1000000000 = 0 := by
    have seconds := seconds_parts divisor.toInt
    omega
  obtain ⟨result, made, wraps, part, surplus, around, isValid, isValue, isPart, low, high, parts,
    lt, nonneg, nonpos⟩ := mod_eq nonzero valid toInt_zero turns
      (show _ = (1000000000 : Int) from rfl) (by decide)
  have noWraps : wraps = 0 := by omega
  have inside : -1000000000 ≤ part ∧ part < 1000000000 := by omega
  refine ⟨result, made, isValid.mpr inside, ?_⟩
  omega

/-- Between minus two seconds and minus one, the step of the remainder is zero. -/
theorem mod_undefined (low : -2000000000 < divisor.toInt)
    (high : divisor.toInt ≤ -1000000000) : time.mod divisor = none := by
  obtain ⟨rest, isRest, _⟩ := longRemainder_eq nonzero valid
  obtain ⟨turns, isTurns, turnsInt⟩ := @quotient_eq divisor kNSecInSec (by decide) (by
    omega)
  have seconds := seconds_parts divisor.toInt
  rw [toInt_kNSecInSec] at turnsInt
  have minusOne : turns = -1 := by
    apply toInt_inj.mp
    rw [show (-1 : Int32).toInt = -1 from rfl]
    omega
  subst minusOne
  rw [mod, isRest, isTurns]
  rfl

/-- For a divisor of one to two seconds, a second is added. -/
theorem mod_one_second (low : 1000000000 ≤ divisor.toInt)
    (high : divisor.toInt < 2000000000) :
    ∃ result, time.mod divisor = some result ∧
      (result.Valid ↔ -1000000000 ≤ time.value.tmod divisor.toInt ∧
        time.value.tmod divisor.toInt < 1000000000) ∧
      result.value = 1000000000 + time.value.tmod divisor.toInt := by
  have small := (tdiv_parts time.value nonzero).2.1
  have turns : divisor.toInt.tdiv 1000000000 = 1 := by
    have seconds := seconds_parts divisor.toInt
    omega
  obtain ⟨result, made, wraps, part, surplus, around, isValid, isValue, isPart, above, below, parts,
    lt, nonneg, nonpos⟩ := mod_eq nonzero valid toInt_one turns
      (show _ = (2000000000 : Int) from rfl) (by decide)
  have noWraps : wraps = 0 := by omega
  have samePart : part = time.value.tmod divisor.toInt := by omega
  rw [samePart] at isValid isValue
  refine ⟨result, made, isValid, ?_⟩
  omega

/-- From two seconds on, the step does not fit. -/
theorem mod_two_seconds (low : 2000000000 ≤ divisor.toInt) :
    ∃ result, time.mod divisor = some result ∧
      (result.Valid → -1000000000 ≤ time.value.tmod divisor.toInt ∧
        time.value.tmod divisor.toInt < 1000000000 ∧
        result.value = 2000000000 + time.value.tmod divisor.toInt) := by
  have upper := divisor.toInt_lt
  have small := (tdiv_parts time.value nonzero).2.1
  have turns : divisor.toInt.tdiv 1000000000 = 2 := by
    have seconds := seconds_parts divisor.toInt
    omega
  obtain ⟨result, made, wraps, part, surplus, around, isValid, isValue, isPart, above, below, parts,
    lt, nonneg, nonpos⟩ := mod_eq nonzero valid (show (2 : Int32).toInt = 2 from rfl) turns
      (show _ = (-1294967296 : Int) from rfl) (by decide)
  refine ⟨result, made, ?_⟩
  intro resultValid
  have inside := isValid.mp resultValid
  clear isValid
  have few : wraps = -1 ∨ wraps = 0 ∨ wraps = 1 := by omega
  rcases few with rfl | rfl | rfl
  · omega
  · omega
  · omega

/-- Up to minus two seconds, the remainder is taken twice where it is large. -/
theorem mod_minus_two_seconds (high : divisor.toInt ≤ -2000000000) :
    ∃ result, time.mod divisor = some result ∧
      (result.Valid → ∃ around : Int, -1 ≤ around ∧ around ≤ 1 ∧
        result.value = time.value.tmod divisor.toInt - 2000000000 + 2 ^ 32 * around ∧
        (around = 0 → (time.value.tmod divisor.toInt).natAbs < 1000000000)) := by
  have lower := divisor.le_toInt
  have small := (tdiv_parts time.value nonzero).2.1
  have turns : divisor.toInt.tdiv 1000000000 = -2 := by
    have seconds := seconds_parts divisor.toInt
    omega
  obtain ⟨result, made, wraps, part, surplus, around, isValid, isValue, isPart, above, below, parts,
    lt, nonneg, nonpos⟩ := mod_eq nonzero valid (show (-2 : Int32).toInt = -2 from rfl) turns
      (show _ = (-1000000000 : Int) from rfl) (by decide)
  refine ⟨result, made, ?_⟩
  intro resultValid
  have inside := isValid.mp resultValid
  clear isValid
  refine ⟨around, ?_⟩
  omega

end

end Remainder

/-- Division of times as division of nanoseconds: a valid quotient that is rounded to a
neighbouring nanosecond, and the valid remainder that goes with it. -/
def DividesBy (time : Time) (divisor : Int32) : Prop :=
  ∃ quotient rest, time.div divisor = some quotient ∧ time.mod divisor = some rest ∧
    quotient.Valid ∧ rest.Valid ∧
    (time.toNSec.toInt - quotient.toNSec.toInt * divisor.toInt).natAbs < divisor.toInt.natAbs ∧
    rest.toNSec.toInt = time.toNSec.toInt - quotient.toNSec.toInt * divisor.toInt ∧
    quotient * divisor + rest = time

section Agreement

variable (valid : time.Valid) (nonzero : divisor.toInt ≠ 0)
include valid nonzero

/-- Division is right if what is left over is smaller than the divisor and `%=` finds
it. -/
theorem dividesBy_iff : time.DividesBy divisor ↔
    ¬ (time.sec.toInt = -2 ^ 31 ∧ divisor.toInt = -1) ∧
      (time.leftOver divisor.toInt).natAbs < divisor.toInt.natAbs ∧
      ∃ rest, time.mod divisor = some rest ∧ rest.Valid ∧
        rest.value = time.leftOver divisor.toInt := by
  by_cases least : time.sec.toInt = -2 ^ 31 ∧ divisor.toInt = -1
  · refine iff_of_false ?_ (fun both => both.1 least)
    rintro ⟨quotient, rest, made, _⟩
    rw [div_undefined least.1 least.2] at made
    cases made
  · obtain ⟨quotient, made, quotientValid, isValue⟩ := div_eq valid nonzero least
    have surplus : time.value - quotient.value * divisor.toInt = time.leftOver divisor.toInt := by
      omega
    constructor
    · rintro ⟨other, rest, madeOther, madeRest, _, restValid, small, isRest, _⟩
      cases made.symm.trans madeOther
      rw [toInt_toNSec, toInt_toNSec, surplus] at small
      rw [toInt_toNSec, toInt_toNSec, toInt_toNSec, surplus] at isRest
      exact ⟨least, small, rest, madeRest, restValid, isRest⟩
    · rintro ⟨_, small, rest, madeRest, restValid, isRest⟩
      refine ⟨quotient, rest, made, madeRest, quotientValid, restValid, ?_, ?_, ?_⟩
      · rw [toInt_toNSec, toInt_toNSec, surplus]
        exact small
      · rw [toInt_toNSec, toInt_toNSec, toInt_toNSec, surplus]
        exact isRest
      · have sum := ((stands_value quotientValid).mul divisor).add (stands_value restValid)
        rw [isRest, ← isValue] at sum
        exact sum.unique (stands_value valid)

/-- Below a second the remainder has the sign of the time, and what is left over must
have it too. -/
theorem dividesBy_below_second (below : divisor.toInt.natAbs < 1000000000) :
    time.DividesBy divisor ↔ ¬ (time.sec.toInt = -2 ^ 31 ∧ divisor.toInt = -1) ∧
      (0 ≤ time.sec.toInt → time.leftOver divisor.toInt < divisor.toInt.natAbs) ∧
      (time.sec.toInt < 0 → -divisor.toInt.natAbs < time.leftOver divisor.toInt ∧
        time.leftOver divisor.toInt ≤ 0) := by
  have bounds := valid_iff.mp valid
  obtain ⟨rest, made, restValid, isRest⟩ := mod_below_second nonzero valid below
  obtain ⟨_, small, nonneg, nonpos⟩ := tdiv_parts time.value nonzero
  have sign : 0 ≤ time.value ↔ 0 ≤ time.sec.toInt := by
    rw [value]
    omega
  have found : (∃ rest, time.mod divisor = some rest ∧ rest.Valid ∧
      rest.value = time.leftOver divisor.toInt) ↔
        time.value.tmod divisor.toInt = time.leftOver divisor.toInt := by
    constructor
    · rintro ⟨other, madeOther, _, isOther⟩
      rw [made, some.injEq] at madeOther
      rw [← isRest, madeOther, isOther]
    · intro same
      exact ⟨rest, made, restValid, isRest.trans same⟩
  rw [dividesBy_iff valid nonzero, found]
  clear found
  refine and_congr_right fun _ => ?_
  constructor
  · rintro ⟨leftSmall, same⟩
    omega
  · rintro ⟨above, underneath⟩
    have leftNonneg : 0 ≤ time.sec.toInt → 0 ≤ time.leftOver divisor.toInt := by
      intro secNonneg
      exact Int.add_nonneg (Int.mul_nonneg (Int.tmod_nonneg _ secNonneg)
        (Int.tmod_nonneg _ (by decide))) (Int.tmod_nonneg _ bounds.1)
    have leftSmall : (time.leftOver divisor.toInt).natAbs < divisor.toInt.natAbs := by omega
    refine ⟨leftSmall, tmod_unique (value_modEq_leftOver nonzero) leftSmall ?_⟩
    omega

/-- For a divisor of a second, the seconds in nanoseconds leave the nanoseconds over. -/
theorem dividesBy_second (second : divisor.toInt = 1000000000) :
    time.DividesBy divisor ↔ time.sec.toInt < 0 ∧ time.nsec.toInt ≠ 0 := by
  have bounds := valid_iff.mp valid
  have size : (1000000000 : Int).natAbs = 1000000000 := rfl
  have left : time.leftOver divisor.toInt = time.nsec.toInt := by
    rw [second, leftOver, Int.tmod_self, Int.mul_zero, Int.zero_add,
      Int.tmod_eq_of_lt bounds.1 bounds.2]
  obtain ⟨rest, made, restValid, isRest⟩ :=
    mod_one_second nonzero valid (by omega) (by omega)
  obtain ⟨parts, small, nonneg, nonpos⟩ := tdiv_parts time.value nonzero
  rw [second] at small
  rw [second] at parts nonneg nonpos isRest restValid
  have isValue : time.value = time.sec.toInt * 1000000000 + time.nsec.toInt := rfl
  rw [dividesBy_iff valid nonzero]
  constructor
  · rintro ⟨_, _, other, madeOther, otherValid, isOther⟩
    cases made.symm.trans madeOther
    have inside := restValid.mp otherValid
    clear restValid otherValid
    omega
  · rintro ⟨negative, part⟩
    have inside : time.value.tmod 1000000000 = time.nsec.toInt - 1000000000 := by omega
    refine ⟨by omega, by omega, rest, made, restValid.mpr (by omega), by omega⟩

/-- From a second on, the remainder that belongs to what is left over is that of the
nanoseconds, or it is a divisor less for nanoseconds of a negative time. -/
theorem tmod_large (large : 1000000000 < divisor.toInt.natAbs)
    (small : (time.leftOver divisor.toInt).natAbs < divisor.toInt.natAbs) :
    time.value.tmod divisor.toInt = time.leftOver divisor.toInt ∨
      0 < time.nsec.toInt ∧ time.leftOver divisor.toInt = time.nsec.toInt ∧
        time.value.tmod divisor.toInt = time.nsec.toInt - divisor.toInt.natAbs := by
  have bounds := valid_iff.mp valid
  have congruent := @value_modEq_leftOver time divisor nonzero
  have second : (1000000000 : Int).tmod divisor.toInt = 1000000000 :=
    tmod_unique rfl (by omega) (by omega)
  have part : time.nsec.toInt.tmod divisor.toInt = time.nsec.toInt :=
    tmod_unique rfl (by omega) (by omega)
  have left : time.leftOver divisor.toInt =
      time.sec.toInt.tmod divisor.toInt * 1000000000 + time.nsec.toInt := by
    rw [leftOver, second, part]
  have isValue : time.value = time.sec.toInt * 1000000000 + time.nsec.toInt := rfl
  obtain ⟨_, _, nonneg, nonpos⟩ := tdiv_parts time.sec.toInt nonzero
  by_cases same : 0 ≤ time.value ∧ 0 ≤ time.leftOver divisor.toInt ∨
      time.value ≤ 0 ∧ time.leftOver divisor.toInt ≤ 0
  · exact .inl (tmod_unique congruent small same)
  · right
    have isPart : time.leftOver divisor.toInt = time.nsec.toInt := by omega
    refine ⟨by omega, isPart, tmod_unique ?_ (by omega) (by omega)⟩
    rw [isPart] at congruent
    apply congruent.trans
    apply Int.modEq_iff_dvd.mpr
    have around : time.nsec.toInt - (divisor.toInt.natAbs : Int) - time.nsec.toInt =
      -(divisor.toInt.natAbs : Int) := by omega
    rw [around, Int.dvd_neg]
    exact Int.dvd_natAbs_self

/-- Above a second and below minus one, division never agrees. -/
theorem not_dividesBy_large (large : 1000000000 < divisor.toInt.natAbs) :
    ¬ time.DividesBy divisor := by
  have bounds := valid_iff.mp valid
  have lower := divisor.le_toInt
  have upper := divisor.toInt_lt
  obtain ⟨_, small, _, _⟩ := tdiv_parts time.value nonzero
  rw [dividesBy_iff valid nonzero]
  rintro ⟨_, leftSmall, rest, made, restValid, isRest⟩
  have remainder := tmod_large valid nonzero large leftSmall
  rcases Int.lt_or_le divisor.toInt 0 with negative | nonneg
  · rcases Int.lt_or_le _ divisor.toInt with above | underneath
    · rw [mod_undefined nonzero valid above (by omega)] at made
      cases made
    · obtain ⟨other, madeOther, isOther⟩ := mod_minus_two_seconds nonzero valid underneath
      cases made.symm.trans madeOther
      obtain ⟨around, notBelow, notAbove, isValue, isSmall⟩ := isOther restValid
      omega
  · rcases Int.lt_or_le divisor.toInt 2000000000 with underneath | above
    · obtain ⟨other, madeOther, isValid, isOther⟩ :=
        mod_one_second nonzero valid (by omega) underneath
      cases made.symm.trans madeOther
      omega
    · obtain ⟨other, madeOther, isOther⟩ := mod_two_seconds nonzero valid above
      cases made.symm.trans madeOther
      obtain ⟨notBelow, notAbove, isValue⟩ := isOther restValid
      omega

end Agreement

/-- Division of times agrees with division of nanoseconds for divisors below a second,
provided that what is left over is smaller than the divisor and has the sign of the time,
and for the divisor of a second and negative times that are no whole seconds. It agrees
nowhere else.

Proof: what is left over is a remainder only if it is smaller than the divisor, and the
one that is computed only if it has the sign of the time besides. From a second on, the
remainder adds the seconds of the divisor to that of the time. -/
theorem division_agrees_iff (time : Time) (divisor : Int32) (valid : time.Valid)
    (nonzero : divisor ≠ 0) :
    time.DividesBy divisor ↔
      (divisor.toInt.natAbs < 1000000000 ∧ ¬ (time.sec.toInt = -2 ^ 31 ∧ divisor.toInt = -1) ∧
        (0 ≤ time.sec.toInt → time.leftOver divisor.toInt < divisor.toInt.natAbs) ∧
        (time.sec.toInt < 0 → -divisor.toInt.natAbs < time.leftOver divisor.toInt ∧
          time.leftOver divisor.toInt ≤ 0)) ∨
      (divisor.toInt = 1000000000 ∧ time.sec.toInt < 0 ∧ time.nsec.toInt ≠ 0) := by
  have notZero : divisor.toInt ≠ 0 := fun zero => nonzero (toInt_inj.mp zero)
  rcases Nat.lt_or_ge divisor.toInt.natAbs 1000000000 with below | large
  · have notSecond : divisor.toInt ≠ 1000000000 := by omega
    rw [dividesBy_below_second valid notZero below]
    simp only [below, notSecond, true_and, false_and, or_false]
  · by_cases second : divisor.toInt = 1000000000
    · rw [dividesBy_second valid notZero second]
      constructor
      · intro both
        exact .inr ⟨second, both⟩
      · rintro (⟨below, _⟩ | ⟨_, both⟩)
        · exact absurd below (Nat.not_lt.mpr large)
        · exact both
    · refine iff_of_false ?_ (by omega)
      rcases Nat.lt_or_ge 1000000000 _ with larger | notLarger
      · exact not_dividesBy_large valid notZero larger
      · rintro ⟨quotient, rest, _, made, _⟩
        rw [mod_undefined notZero valid (by omega) (by omega)] at made
        cases made

/-- Two and a half seconds in five parts. -/
theorem division_agrees_iff_five : (⟨2, 500000003⟩ : Time).Valid ∧
    (⟨2, 500000003⟩ : Time).DividesBy 5 :=
  ⟨by decide, (division_agrees_iff _ 5 (by decide) (by decide)).mpr (by decide)⟩

/-- Six seconds divided by seven are five nanoseconds short, and five nanoseconds have
more than a second as their remainder by a second. -/
theorem division_disagrees :
    (⟨6, 0⟩ : Time).Valid ∧ (⟨6, 0⟩ : Time).div 7 = some ⟨0, 857142852⟩ ∧
      ¬ (⟨6, 0⟩ : Time).DividesBy 7 ∧
      (⟨0, 5⟩ : Time).Valid ∧ (⟨0, 5⟩ : Time).mod 1000000000 = some ⟨1, 5⟩ := by
  refine ⟨by decide, by decide, ?_, by decide, by decide⟩
  rintro ⟨quotient, rest, made, _, _, _, small, _⟩
  rw [show (⟨6, 0⟩ : Time).div 7 = some ⟨0, 857142852⟩ by decide, some.injEq] at made
  subst made
  exact absurd small (by decide)

end Time

end Miranda.Timing
