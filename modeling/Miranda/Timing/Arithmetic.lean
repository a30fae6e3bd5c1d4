import Miranda.Lib.Signed
import Mathlib.Tactic.Ring
import Mathlib.Algebra.Order.Ring.Int

/-!
# Times in seconds and nanoseconds

A time has a 32-bit number of seconds and a 32-bit number of nanoseconds, which is
kept below a second; so the nanoseconds count forwards for negative times too. The
constructor dies on other nanoseconds, and the operators carry.

The operations are modelled on machine words as the source computes them, with the
wrapping of 32 bits and truncating division. A time stands for a number of nanoseconds
if it is valid and its value is that number modulo the range of the seconds.
-/

namespace Miranda.Timing

open Signed Bool Int32 Int64

/-- `Time`, with the fields as they are. -/
structure Time where
  sec : Int32
  nsec : Int32
  deriving DecidableEq, Repr

def kNSecInSec : Int32 := 1000000000

theorem toInt_kNSecInSec : kNSecInSec.toInt = 1000000000 := rfl

def kNSecInMSec : Int32 := 1000000

def kNSecInUSec : Int32 := 1000

def kMSecInSec : Int32 := 1000

def kUSecInSec : Int32 := 1000000

namespace Time

/-- What `Check` asks for. -/
def Valid (time : Time) : Prop := 0 ≤ time.nsec ∧ time.nsec < kNSecInSec

instance (time : Time) : Decidable time.Valid :=
  inferInstanceAs (Decidable (0 ≤ time.nsec ∧ time.nsec < kNSecInSec))

/-- The constructor, with no result where `CheckImpl` dies. -/
def new (sec nsec : Int32) : Option Time :=
  if nsec ≥ kNSecInSec ∨ nsec < 0 then none else some ⟨sec, nsec⟩

def kZero : Time := ⟨0, 0⟩

/-- The constructor for nanoseconds. -/
def inNS (nseconds : Int64) : Option Time :=
  if nseconds < 0 then
    new ((nseconds - 1) / kNSecInSec.toInt64 - 1).toInt32
      (((nseconds - 1) % kNSecInSec.toInt64 + 1) + kNSecInSec.toInt64).toInt32
  else new (nseconds / kNSecInSec.toInt64).toInt32 (nseconds % kNSecInSec.toInt64).toInt32

/-- The constructors for coarser units: how many there are in a second, and how many
nanoseconds one of them has. -/
def inUnits (inSec nsecIn number : Int32) : Option Time :=
  if number < 0 then
    new ((number + 1) / inSec - 1) (((number + 1) % inSec - 1) * nsecIn + kNSecInSec)
  else new (number / inSec) (number % inSec * nsecIn)

def inUS (useconds : Int32) : Option Time := inUnits kUSecInSec kNSecInUSec useconds

def inMS (mseconds : Int32) : Option Time := inUnits kMSecInSec kNSecInMSec mseconds

/-- `ToNSec`. -/
def toNSec (time : Time) : Int64 :=
  time.sec.toInt64 * kNSecInSec.toInt64 + time.nsec.toInt64

/-- `operator+=`. -/
def add (time rhs : Time) : Time :=
  let sec := time.sec + rhs.sec
  let nsec := time.nsec + rhs.nsec
  if nsec ≥ kNSecInSec then ⟨sec + 1, nsec - kNSecInSec⟩ else ⟨sec, nsec⟩

/-- `operator-=`. -/
def sub (time rhs : Time) : Time :=
  let sec := time.sec - rhs.sec
  let nsec := time.nsec - rhs.nsec
  if nsec < 0 then ⟨sec - 1, nsec + kNSecInSec⟩ else ⟨sec, nsec⟩

/-- `operator*=`. -/
def mul (time : Time) (rhs : Int32) : Time :=
  let temp := time.nsec.toInt64 * rhs.toInt64
  let sec := time.sec * rhs
  let nsec := (temp % kNSecInSec.toInt64).toInt32
  let sec := (sec.toInt64 + (temp - nsec.toInt64) / kNSecInSec.toInt64).toInt32
  if nsec < 0 then ⟨sec - 1, nsec + kNSecInSec⟩ else ⟨sec, nsec⟩

instance : Add Time := ⟨add⟩
instance : Sub Time := ⟨sub⟩
instance : HMul Time Int32 Time := ⟨mul⟩

/-- `operator==`. -/
def eq (time rhs : Time) : Bool := time.sec == rhs.sec && time.nsec == rhs.nsec

/-- `operator<`. -/
def lt (time rhs : Time) : Bool :=
  time.sec < rhs.sec || (time.sec == rhs.sec && time.nsec < rhs.nsec)

/-- `operator>`. -/
def gt (time rhs : Time) : Bool :=
  time.sec > rhs.sec || (time.sec == rhs.sec && time.nsec > rhs.nsec)

/-- `operator<=`. -/
def le (time rhs : Time) : Bool :=
  time.sec < rhs.sec || (time.sec == rhs.sec && time.nsec ≤ rhs.nsec)

/-- `operator>=`. -/
def ge (time rhs : Time) : Bool :=
  time.sec > rhs.sec || (time.sec == rhs.sec && time.nsec ≥ rhs.nsec)

/-- `abs`. -/
def abs (time : Time) : Option Time :=
  if time.gt kZero then some time
  else if time.nsec == 0 then new (-time.sec) 0
  else new (-time.sec - 1) (kNSecInSec - time.nsec)

/-- The number of nanoseconds. -/
def value (time : Time) : Int := time.sec.toInt * 1000000000 + time.nsec.toInt

/-- The number of nanoseconds in the range of the seconds. -/
def period : Int := 2 ^ 32 * 1000000000

/-- A number of nanoseconds whose seconds fit in 32 bits. -/
def Fits (nanoseconds : Int) : Prop :=
  -2 ^ 31 ≤ nanoseconds / 1000000000 ∧ nanoseconds / 1000000000 < 2 ^ 31

instance (nanoseconds : Int) : Decidable (Fits nanoseconds) :=
  inferInstanceAs (Decidable (_ ∧ _))

/-- A valid time for a number of nanoseconds, up to what the seconds cannot hold. -/
def Stands (time : Time) (nanoseconds : Int) : Prop :=
  time.Valid ∧ time.value ≡ nanoseconds [ZMOD period]

variable {time rhs : Time} {nanoseconds more : Int}

theorem valid_iff : time.Valid ↔ 0 ≤ time.nsec.toInt ∧ time.nsec.toInt < 1000000000 := by
  rw [Valid, Int32.le_iff_toInt_le, Int32.lt_iff_toInt_lt]
  rfl

theorem toInt_toNSec (time : Time) : time.toNSec.toInt = time.value := by
  have lower := time.sec.le_toInt
  have upper := time.sec.toInt_lt
  have low := time.nsec.le_toInt
  have high := time.nsec.toInt_lt
  have product : (time.sec.toInt64 * kNSecInSec.toInt64).toInt = time.sec.toInt * 1000000000 := by
    rw [Int64.toInt_mul, toInt_toInt64, toInt_toInt64, toInt_kNSecInSec,
      bmod_long (by omega) (by omega)]
  rw [toNSec, Int64.toInt_add, product, toInt_toInt64, bmod_long (by omega) (by omega)]
  rfl

/-- The value of a valid time has seconds that fit. -/
theorem fits_value (valid : time.Valid) : Fits time.value := by
  rw [valid_iff] at valid
  have lower := time.sec.le_toInt
  have upper := time.sec.toInt_lt
  simp only [Fits, value]
  omega

theorem stands_value (valid : time.Valid) : Stands time time.value := ⟨valid, rfl⟩

/-- A number that fits is the value of the time that stands for it. -/
theorem Stands.value_eq (stands : Stands time nanoseconds) (fits : Fits nanoseconds) :
    time.value = nanoseconds := by
  obtain ⟨valid, congruent⟩ := stands
  have bounds := fits_value valid
  simp only [Fits] at bounds fits
  rw [Int.ModEq, period] at congruent
  omega

variable {part seconds : Int} {nsec sec : Int32}

/-- A time whose seconds are right modulo their range. -/
theorem stands_of_modEq (congruent : sec.toInt ≡ seconds [ZMOD 2 ^ 32]) (isPart : nsec.toInt = part)
    (low : 0 ≤ part) (high : part < 1000000000) (same : nanoseconds = seconds * 1000000000 + part) :
    Stands ⟨sec, nsec⟩ nanoseconds := by
  rw [← isPart] at low high same
  refine ⟨valid_iff.mpr ⟨low, high⟩, ?_⟩
  rw [same]
  exact congruent.mul_right'.add_right _

theorem add_second (negative : nsec.toInt < 0) :
    (nsec + kNSecInSec).toInt = nsec.toInt + 1000000000 := by
  have lower := nsec.le_toInt
  rw [Int32.toInt_add, toInt_kNSecInSec, bmod_word (by omega) (by omega)]

/-- Negative nanoseconds borrow a second. -/
theorem stands_borrow (congruent : sec.toInt ≡ seconds [ZMOD 2 ^ 32]) (isPart : nsec.toInt = part)
    (low : -1000000000 ≤ part) (high : part < 1000000000)
    (same : nanoseconds = seconds * 1000000000 + part) :
    Stands (if nsec < 0 then ⟨sec - 1, nsec + kNSecInSec⟩ else ⟨sec, nsec⟩) nanoseconds := by
  subst isPart
  split
  · rename_i borrow
    rw [Int32.lt_iff_toInt_lt, Int32.toInt_zero] at borrow
    exact stands_of_modEq ((sub_one_modEq _).trans (congruent.sub_right 1)) (add_second borrow)
      (by omega) (by omega) (by omega)
  · rename_i nonneg
    rw [Int32.lt_iff_toInt_lt, Int32.toInt_zero] at nonneg
    exact stands_of_modEq congruent rfl (by omega) high same

theorem Stands.congr (stands : Stands time nanoseconds)
    (congruent : nanoseconds ≡ more [ZMOD period]) : Stands time more :=
  ⟨stands.1, stands.2.trans congruent⟩

theorem Stands.add (one : Stands time nanoseconds) (two : Stands rhs more) :
    Stands (time + rhs) (nanoseconds + more) := by
  apply Stands.congr _ (one.2.add two.2)
  have valid := valid_iff.mp one.1
  have alsoValid := valid_iff.mp two.1
  have sum : (time.nsec + rhs.nsec).toInt = time.nsec.toInt + rhs.nsec.toInt := by
    rw [Int32.toInt_add, bmod_word (by omega) (by omega)]
  have seconds := add_modEq time.sec rhs.sec
  change Stands (Time.add time rhs) _
  simp only [Time.add, ge_iff_le]
  split
  · rename_i carry
    rw [Int32.le_iff_toInt_le, toInt_kNSecInSec] at carry
    have rest : (time.nsec + rhs.nsec - kNSecInSec).toInt =
        time.nsec.toInt + rhs.nsec.toInt - 1000000000 := by
      rw [Int32.toInt_sub, sum, toInt_kNSecInSec, bmod_word (by omega) (by omega)]
    apply stands_of_modEq ((add_one_modEq _).trans (seconds.add_right 1)) rest (by omega) (by omega)
    rw [value, value]
    ring
  · rename_i small
    rw [Int32.le_iff_toInt_le, sum, toInt_kNSecInSec] at small
    apply stands_of_modEq seconds sum (by omega) (by omega)
    rw [value, value]
    ring

theorem Stands.sub (one : Stands time nanoseconds) (two : Stands rhs more) :
    Stands (time - rhs) (nanoseconds - more) := by
  apply Stands.congr _ (one.2.sub two.2)
  have valid := valid_iff.mp one.1
  have alsoValid := valid_iff.mp two.1
  have difference : (time.nsec - rhs.nsec).toInt = time.nsec.toInt - rhs.nsec.toInt := by
    rw [Int32.toInt_sub, bmod_word (by omega) (by omega)]
  apply stands_borrow (sub_modEq _ rhs.sec) difference (by omega) (by omega)
  rw [value, value]
  ring

/-- The product of nanoseconds and a word is a 64-bit number. -/
theorem toInt_product (valid : time.Valid) (factor : Int32) :
    (time.nsec.toInt64 * factor.toInt64).toInt = time.nsec.toInt * factor.toInt ∧
      -(2 ^ 31 * 1000000000) ≤ time.nsec.toInt * factor.toInt ∧
      time.nsec.toInt * factor.toInt ≤ 2 ^ 31 * 1000000000 := by
  rw [valid_iff] at valid
  have lower := factor.le_toInt
  have upper := factor.toInt_lt
  have above := Int.mul_nonneg valid.1 (show 0 ≤ factor.toInt + 2 ^ 31 by omega)
  have below := Int.mul_nonneg valid.1 (show 0 ≤ 2 ^ 31 - factor.toInt by omega)
  rw [Int.mul_add] at above
  rw [Int.mul_sub] at below
  refine ⟨?_, by omega, by omega⟩
  rw [Int64.toInt_mul, toInt_toInt64, toInt_toInt64, bmod_long (by omega) (by omega)]

/-- The remainder by the nanoseconds of a second fits a word. -/
theorem toInt_remainder (long : Int64) :
    (long % kNSecInSec.toInt64).toInt32.toInt = long.toInt.tmod 1000000000 := by
  have small := (tdiv_parts long.toInt (show (1000000000 : Int) ≠ 0 by decide)).2.1
  have second : kNSecInSec.toInt64.toInt = 1000000000 := rfl
  rw [toInt_toInt32, Int64.toInt_mod, second, bmod_word (by omega) (by omega)]

/-- What is left divides by it without a rest. -/
theorem toInt_quotient {long : Int64} (lower : -(2 ^ 31 * 1000000000) ≤ long.toInt)
    (upper : long.toInt ≤ 2 ^ 31 * 1000000000) :
    ((long - (long % kNSecInSec.toInt64).toInt32.toInt64) / kNSecInSec.toInt64).toInt =
      long.toInt.tdiv 1000000000 := by
  obtain ⟨parts, small, -⟩ := tdiv_parts long.toInt (show (1000000000 : Int) ≠ 0 by decide)
  have second : kNSecInSec.toInt64.toInt = 1000000000 := rfl
  have difference : (long - (long % kNSecInSec.toInt64).toInt32.toInt64).toInt =
      1000000000 * long.toInt.tdiv 1000000000 := by
    rw [Int64.toInt_sub, toInt_toInt64, toInt_remainder, bmod_long (by omega) (by omega)]
    omega
  rw [Int64.toInt_div, difference, second, Int.mul_tdiv_cancel_left _ (by decide),
    bmod_long (by omega) (by omega)]

theorem Stands.mul (one : Stands time nanoseconds) (factor : Int32) :
    Stands (time * factor) (nanoseconds * factor.toInt) := by
  apply Stands.congr _ (one.2.mul_right _)
  obtain ⟨product, lower, upper⟩ := toInt_product one.1 factor
  have remainder := toInt_remainder (time.nsec.toInt64 * factor.toInt64)
  have quotient := toInt_quotient (product ▸ lower) (product ▸ upper)
  rw [product] at remainder quotient
  obtain ⟨parts, small, -⟩ := tdiv_parts (time.nsec.toInt * factor.toInt)
    (show (1000000000 : Int) ≠ 0 by decide)
  have wholes : ((time.sec * factor).toInt64 + (time.nsec.toInt64 * factor.toInt64 -
      ((time.nsec.toInt64 * factor.toInt64) % kNSecInSec.toInt64).toInt32.toInt64) /
        kNSecInSec.toInt64).toInt32.toInt ≡
      time.sec.toInt * factor.toInt + (time.nsec.toInt * factor.toInt).tdiv 1000000000
        [ZMOD 2 ^ 32] := by
    apply (toInt32_modEq _).trans
    have low := (time.sec * factor).le_toInt
    have high := (time.sec * factor).toInt_lt
    rw [Int64.toInt_add, toInt_toInt64, quotient, bmod_long (by omega) (by omega)]
    exact (mul_modEq _ _).add_right _
  have value : time.value * factor.toInt =
      (time.sec.toInt * factor.toInt + (time.nsec.toInt * factor.toInt).tdiv 1000000000) *
        1000000000 + (time.nsec.toInt * factor.toInt).tmod 1000000000 := by
    rw [Time.value, Int.add_mul, Int.add_mul, Int.add_assoc, Int.mul_right_comm]
    omega
  exact stands_borrow wholes remainder (by omega) (by omega) value

/-- The constructor succeeds with nanoseconds below a second. -/
theorem new_stands (congruent : sec.toInt ≡ seconds [ZMOD 2 ^ 32]) (isPart : nsec.toInt = part)
    (low : 0 ≤ part) (high : part < 1000000000) (same : nanoseconds = seconds * 1000000000 + part) :
    ∃ result, new sec nsec = some result ∧ Stands result nanoseconds := by
  refine ⟨⟨sec, nsec⟩, ?_, stands_of_modEq congruent isPart low high same⟩
  have checked : ¬ (nsec ≥ kNSecInSec ∨ nsec < 0) := by
    rw [ge_iff_le, Int32.le_iff_toInt_le, Int32.lt_iff_toInt_lt, Int32.toInt_zero, toInt_kNSecInSec]
    omega
  rw [new, if_neg checked]

section Comparing

variable (valid : time.Valid) (also : rhs.Valid)
include valid also

theorem eq_iff : time.eq rhs = true ↔ time.value = rhs.value := by
  rw [valid_iff] at valid also
  simp only [eq, value, and_eq_true, beq_iff_eq, ← Int32.toInt_inj]
  omega

theorem lt_iff : time.lt rhs = true ↔ time.value < rhs.value := by
  rw [valid_iff] at valid also
  simp only [lt, value, or_eq_true, and_eq_true, beq_iff_eq, decide_eq_true_eq,
    ← Int32.toInt_inj, Int32.lt_iff_toInt_lt]
  omega

theorem gt_iff : time.gt rhs = true ↔ time.value > rhs.value := by
  rw [valid_iff] at valid also
  simp only [gt, value, or_eq_true, and_eq_true, beq_iff_eq, decide_eq_true_eq,
    ← Int32.toInt_inj, gt_iff_lt, Int32.lt_iff_toInt_lt]
  omega

theorem le_iff : time.le rhs = true ↔ time.value ≤ rhs.value := by
  rw [valid_iff] at valid also
  simp only [le, value, or_eq_true, and_eq_true, beq_iff_eq, decide_eq_true_eq,
    ← Int32.toInt_inj, Int32.lt_iff_toInt_lt, Int32.le_iff_toInt_le]
  omega

theorem ge_iff : time.ge rhs = true ↔ time.value ≥ rhs.value := by
  rw [valid_iff] at valid also
  simp only [ge, value, or_eq_true, and_eq_true, beq_iff_eq, decide_eq_true_eq,
    ← Int32.toInt_inj, gt_iff_lt, ge_iff_le, Int32.lt_iff_toInt_lt, Int32.le_iff_toInt_le]
  omega

/-- Two valid times of one value are one time. -/
theorem eq_of_value (same : time.value = rhs.value) : time = rhs := by
  have equal := (eq_iff valid also).mpr same
  simp only [eq, and_eq_true, beq_iff_eq] at equal
  cases time
  cases rhs
  simp_all

end Comparing

theorem Stands.unique (one : Stands time nanoseconds) (two : Stands rhs nanoseconds) :
    time = rhs :=
  eq_of_value one.1 two.1 ((one.congr two.2.symm).value_eq (fits_value two.1))

theorem valid_kZero : kZero.Valid := by decide

/-- What is left of a second. -/
theorem toInt_rest (valid : time.Valid) :
    (kNSecInSec - time.nsec).toInt = 1000000000 - time.nsec.toInt := by
  rw [valid_iff] at valid
  rw [Int32.toInt_sub, toInt_kNSecInSec, bmod_word (by omega) (by omega)]

/-- The absolute value of a valid time never dies. -/
theorem abs_stands (valid : time.Valid) :
    ∃ result, time.abs = some result ∧ Stands result |time.value| := by
  have bounds := valid_iff.mp valid
  have positive := gt_iff valid valid_kZero
  have zero : kZero.value = 0 := rfl
  rw [abs]
  by_cases isPositive : time.gt kZero = true
  · rw [if_pos isPositive]
    refine ⟨time, rfl, ?_⟩
    rw [abs_of_pos (positive.mp isPositive)]
    exact stands_value valid
  · rw [if_neg isPositive, abs_of_nonpos (by rw [positive] at isPositive; omega)]
    by_cases whole : time.nsec = 0
    · rw [if_pos (beq_iff_eq.mpr whole)]
      apply new_stands (neg_modEq _) Int32.toInt_zero (by decide) (by decide)
      rw [value, whole, Int32.toInt_zero]
      ring
    · rw [if_neg (fun same => whole (beq_iff_eq.mp same))]
      have part : time.nsec.toInt ≠ 0 := by
        intro same
        exact whole (Int32.toInt_inj.mp same)
      apply new_stands ((sub_one_modEq _).trans ((neg_modEq _).sub_right 1))
        (toInt_rest valid) (by omega) (by omega)
      rw [value]
      ring

theorem toInt_div_of_pos (number : Int32) {divisor : Int32} (positive : 0 < divisor.toInt) :
    (number / divisor).toInt = number.toInt.tdiv divisor.toInt := by
  refine toInt_div_of_ne_right number divisor ?_
  rintro rfl
  exact absurd positive (by decide)

section Units

variable {inSec nsecIn : Int32} (positive : 0 < nsecIn.toInt)
  (second : inSec.toInt * nsecIn.toInt = 1000000000)
include positive second

/-- A number of units below a second is a number of nanoseconds below a second. -/
theorem units_lt {units : Int} (low : 0 ≤ units) (high : units < inSec.toInt) :
    0 ≤ units * nsecIn.toInt ∧ units * nsecIn.toInt + nsecIn.toInt ≤ 1000000000 := by
  have upper := Int.mul_le_mul_of_nonneg_right (show units + 1 ≤ inSec.toInt by omega)
    (Int.le_of_lt positive)
  rw [second, Int.add_mul, Int.one_mul] at upper
  exact ⟨Int.mul_nonneg low (Int.le_of_lt positive), upper⟩

variable (several : 0 < inSec.toInt)
include several

theorem inUnits_nonneg {number : Int32} (nonneg : 0 ≤ number.toInt) :
    ∃ result, inUnits inSec nsecIn number = some result ∧
      Stands result (nsecIn.toInt * number.toInt) := by
  obtain ⟨parts, small, above, _⟩ := tdiv_parts number.toInt several.ne'
  obtain ⟨low, high⟩ := units_lt positive second (above nonneg) (by omega)
  have quotient := toInt_div_of_pos number several
  have nanoseconds : (number % inSec * nsecIn).toInt =
      number.toInt.tmod inSec.toInt * nsecIn.toInt := by
    rw [Int32.toInt_mul, Int32.toInt_mod, bmod_word (by omega) (by omega)]
  have notNegative : ¬ number < 0 := by
    rw [Int32.lt_iff_toInt_lt, Int32.toInt_zero]
    omega
  rw [inUnits, if_neg notNegative]
  apply new_stands (Int.ModEq.refl _) nanoseconds low (by omega)
  rw [quotient, ← second]
  calc nsecIn.toInt * number.toInt
      = nsecIn.toInt * (inSec.toInt * number.toInt.tdiv inSec.toInt +
          number.toInt.tmod inSec.toInt) := by rw [← parts]
    _ = number.toInt.tdiv inSec.toInt * (inSec.toInt * nsecIn.toInt) +
          number.toInt.tmod inSec.toInt * nsecIn.toInt := by ring

theorem inUnits_neg {number : Int32} (negative : number.toInt < 0) :
    ∃ result, inUnits inSec nsecIn number = some result ∧
      Stands result (nsecIn.toInt * number.toInt) := by
  have lower := number.le_toInt
  have bound := inSec.toInt_lt
  obtain ⟨parts, small, _, below⟩ := tdiv_parts (number.toInt + 1) several.ne'
  obtain ⟨low, high⟩ := units_lt positive second
    (show 0 ≤ -(number.toInt + 1).tmod inSec.toInt by omega) (by omega)
  rw [Int.neg_mul] at low high
  have inside : 0 ≤ (number.toInt + 1).tmod inSec.toInt * nsecIn.toInt - nsecIn.toInt + 1000000000 ∧
      (number.toInt + 1).tmod inSec.toInt * nsecIn.toInt - nsecIn.toInt + 1000000000 < 1000000000 :=
    ⟨by omega, by omega⟩
  have next : (number + 1).toInt = number.toInt + 1 := by
    rw [Int32.toInt_add, Int32.toInt_one, bmod_word (by omega) (by omega)]
  have quotient := toInt_div_of_pos (number + 1) several
  have before : ((number + 1) % inSec - 1).toInt = (number.toInt + 1).tmod inSec.toInt - 1 := by
    rw [Int32.toInt_sub, Int32.toInt_mod, next, Int32.toInt_one, bmod_word (by omega) (by omega)]
  have product : (((number + 1) % inSec - 1) * nsecIn).toInt =
      (number.toInt + 1).tmod inSec.toInt * nsecIn.toInt - nsecIn.toInt := by
    rw [Int32.toInt_mul, before, Int.sub_mul, Int.one_mul, bmod_word (by omega) (by omega)]
  have nanoseconds : (((number + 1) % inSec - 1) * nsecIn + kNSecInSec).toInt =
      (number.toInt + 1).tmod inSec.toInt * nsecIn.toInt - nsecIn.toInt + 1000000000 := by
    rw [Int32.toInt_add, product, toInt_kNSecInSec, bmod_word (by omega) (by omega)]
  have isNegative : number < 0 := by
    rw [Int32.lt_iff_toInt_lt]
    exact negative
  rw [inUnits, if_pos isNegative]
  apply new_stands (sub_one_modEq _) nanoseconds inside.1 inside.2
  rw [quotient, next, ← second]
  calc nsecIn.toInt * number.toInt
      = nsecIn.toInt * (number.toInt + 1) - nsecIn.toInt := by ring
    _ = nsecIn.toInt * (inSec.toInt * (number.toInt + 1).tdiv inSec.toInt +
          (number.toInt + 1).tmod inSec.toInt) - nsecIn.toInt := by rw [← parts]
    _ = ((number.toInt + 1).tdiv inSec.toInt - 1) * (inSec.toInt * nsecIn.toInt) +
          ((number.toInt + 1).tmod inSec.toInt * nsecIn.toInt - nsecIn.toInt +
            inSec.toInt * nsecIn.toInt) := by ring

/-- A number of units makes a valid time of exactly that many units. -/
theorem inUnits_stands (number : Int32) :
    ∃ result, inUnits inSec nsecIn number = some result ∧
      Stands result (nsecIn.toInt * number.toInt) := by
  rcases Int.lt_or_le _ 0 with negative | nonneg
  · exact inUnits_neg positive second several negative
  · exact inUnits_nonneg positive second several nonneg

end Units

/-- A valid time of exactly a number of nanoseconds, as `ToNSec` counts them. -/
def Exact (time : Time) (nanoseconds : Int) : Prop :=
  time.Valid ∧ time.toNSec.toInt = nanoseconds

theorem Stands.exact (stands : Stands time nanoseconds) (fits : Fits nanoseconds) :
    Exact time nanoseconds :=
  ⟨stands.1, by rw [toInt_toNSec, stands.value_eq fits]⟩

theorem inUS_exact (useconds : Int32) :
    ∃ result, inUS useconds = some result ∧ Exact result (1000 * useconds.toInt) := by
  obtain ⟨result, made, stands⟩ := inUnits_stands (show 0 < kNSecInUSec.toInt by decide)
    (show kUSecInSec.toInt * kNSecInUSec.toInt = 1000000000 from rfl) (by decide) useconds
  have lower := useconds.le_toInt
  have upper := useconds.toInt_lt
  refine ⟨result, made, stands.exact ?_⟩
  rw [Fits, show kNSecInUSec.toInt = 1000 from rfl]
  omega

theorem inMS_exact (mseconds : Int32) :
    ∃ result, inMS mseconds = some result ∧ Exact result (1000000 * mseconds.toInt) := by
  obtain ⟨result, made, stands⟩ := inUnits_stands (show 0 < kNSecInMSec.toInt by decide)
    (show kMSecInSec.toInt * kNSecInMSec.toInt = 1000000000 from rfl) (by decide) mseconds
  have lower := mseconds.le_toInt
  have upper := mseconds.toInt_lt
  refine ⟨result, made, stands.exact ?_⟩
  rw [Fits, show kNSecInMSec.toInt = 1000000 from rfl]
  omega

/-- Time arithmetic is arithmetic of nanoseconds wherever the seconds of the result
fit, and the comparisons and constructors always are.

Proof: the operations stand for those on integers (`Stands`), and a time that stands for a
number that fits has that value. -/
theorem arithmetic_is_exact (a b : Time) (k : Int32) (valid : a.Valid) (alsoValid : b.Valid) :
    (Fits (a.toNSec.toInt + b.toNSec.toInt) → Exact (a + b) (a.toNSec.toInt + b.toNSec.toInt)) ∧
    (Fits (a.toNSec.toInt - b.toNSec.toInt) → Exact (a - b) (a.toNSec.toInt - b.toNSec.toInt)) ∧
    (Fits (a.toNSec.toInt * k.toInt) → Exact (a * k) (a.toNSec.toInt * k.toInt)) ∧
    (Fits |a.toNSec.toInt| → ∃ result, a.abs = some result ∧ Exact result |a.toNSec.toInt|) ∧
    (a.eq b = true ↔ a.toNSec.toInt = b.toNSec.toInt) ∧
    (a.lt b = true ↔ a.toNSec.toInt < b.toNSec.toInt) ∧
    (a.le b = true ↔ a.toNSec.toInt ≤ b.toNSec.toInt) ∧
    (a.gt b = true ↔ a.toNSec.toInt > b.toNSec.toInt) ∧
    (a.ge b = true ↔ a.toNSec.toInt ≥ b.toNSec.toInt) ∧
    (∀ u, ∃ result, inUS u = some result ∧ Exact result (1000 * u.toInt)) ∧
    ∀ m, ∃ result, inMS m = some result ∧ Exact result (1000000 * m.toInt) := by
  rw [toInt_toNSec, toInt_toNSec]
  have one := stands_value valid
  have two := stands_value alsoValid
  refine ⟨(one.add two).exact, (one.sub two).exact, (one.mul k).exact, ?_, eq_iff valid alsoValid,
    lt_iff valid alsoValid, le_iff valid alsoValid, gt_iff valid alsoValid,
    ge_iff valid alsoValid, inUS_exact, inMS_exact⟩
  intro fits
  obtain ⟨result, made, stands⟩ := abs_stands valid
  exact ⟨result, made, stands.exact fits⟩

/-- Minus half a second times minus three, with a carry on either side of zero. -/
theorem arithmetic_is_exact_half : (⟨-1, 500000000⟩ : Time).Valid ∧
    Exact ((⟨-1, 500000000⟩ : Time) * (-3 : Int32)) 1500000000 := by
  have valid : (⟨-1, 500000000⟩ : Time).Valid := by decide
  exact ⟨valid, (arithmetic_is_exact _ kZero (-3) valid valid_kZero).2.2.1
    (by decide)⟩

/-- Times are added, subtracted and multiplied as in a module, also where the seconds wrap.

Proof: both sides stand for the same number. -/
theorem arithmetic_laws (a b c : Time) (k : Int32) (valid : a.Valid) (alsoValid : b.Valid)
    (thirdValid : c.Valid) :
    a + b = b + a ∧ a + b + c = a + (b + c) ∧ a + b - b = a ∧ a - b + b = a ∧
      (a + b) * k = a * k + b * k := by
  have one := stands_value valid
  have two := stands_value alsoValid
  have three := stands_value thirdValid
  refine ⟨(one.add two).unique ?_, ((one.add two).add three).unique ?_,
    ((one.add two).sub two).unique ?_, ((one.sub two).add two).unique ?_,
    ((one.add two).mul k).unique ?_⟩
  · rw [add_comm]
    exact two.add one
  · rw [add_assoc]
    exact one.add (two.add three)
  · rwa [add_sub_cancel_right]
  · rwa [sub_add_cancel]
  · rw [add_mul]
    exact (one.mul k).add (two.mul k)

/-- The greatest time and a nanosecond, with a sum that wraps. -/
theorem arithmetic_laws_wrap :
    (⟨2147483647, 999999999⟩ : Time) + ⟨0, 1⟩ = ⟨-2147483648, 0⟩ ∧
      (⟨2147483647, 999999999⟩ : Time) + ⟨0, 1⟩ - ⟨0, 1⟩ = ⟨2147483647, 999999999⟩ :=
  ⟨by decide, (arithmetic_laws _ _ kZero 1 (by decide) (by decide) valid_kZero).2.2.1⟩

end Time

end Miranda.Timing
