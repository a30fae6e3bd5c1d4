import Miranda.Timing.Inverses

/-!
# Finding the next phase point

A phased loop runs at a fixed offset in every interval. `Iterate` computes the next
such point after a time, checks it and counts the intervals since the last one. The
constructor's checks are fields of the loop, and `Reset` is a call of `Iterate` with an
earlier time.

The next phase point is the least time after now that is the offset plus a whole number
of intervals. `Iterate` does not always find it. The nanosecond that it adds before it
divides is right before the offset but not behind it; `InNS` dies just above and at the
negative whole seconds; and the number of intervals is cut to 32 bits. Outside of these
cases it is exact.
-/

namespace Miranda.Timing

open Signed Time Option Int64

/-- `PhasedLoop`, with what its constructor checks. -/
structure PhasedLoop where
  interval : Time
  offset : Time
  lastTime : Time
  intervalValid : interval.Valid
  offsetValid : offset.Valid
  nonneg : offset.ge kZero = true
  positive : interval.gt kZero = true
  below : offset.lt interval = true

namespace PhasedLoop

/-- The `next_time` of `Iterate`, with no result where `InNS` dies. -/
def nextTime (loop : PhasedLoop) (now : Time) : Option Time :=
  (inNS (((now - loop.offset).toNSec + 1) / loop.interval.toNSec * loop.interval.toNSec)).map
    fun base => base + (if now.lt loop.offset then kZero else loop.interval) + loop.offset

/-- The checks of `Iterate`. -/
def checks (loop : PhasedLoop) (now next : Time) (result : Int32) : Bool :=
  (next - loop.lastTime).eq (loop.interval * result) &&
    0 == (next - loop.offset).toNSec % loop.interval.toNSec &&
    next.ge now && (next - now).le loop.interval

/-- `Iterate`, with no result where a check dies. -/
def iterate (loop : PhasedLoop) (now : Time) : Option (Int32 × PhasedLoop) :=
  (loop.nextTime now).bind fun next =>
    let difference := next - loop.lastTime
    let result := (difference.toNSec / loop.interval.toNSec).toInt32
    if loop.checks now next result then some (result, { loop with lastTime := next }) else none

/-- The least phase point after a time, in nanoseconds. -/
def phaseAfter (loop : PhasedLoop) (now : Int) : Int :=
  loop.offset.value +
    ((now - loop.offset.value) / loop.interval.value + 1) * loop.interval.value

variable {loop : PhasedLoop} {now : Time}

theorem interval_pos (loop : PhasedLoop) : 0 < loop.interval.value :=
  (gt_iff loop.intervalValid valid_kZero).mp loop.positive

theorem offset_nonneg (loop : PhasedLoop) : 0 ≤ loop.offset.value :=
  (ge_iff loop.offsetValid valid_kZero).mp loop.nonneg

theorem dvd_phaseAfter (loop : PhasedLoop) (now : Int) :
    loop.interval.value ∣ loop.phaseAfter now - loop.offset.value := by
  rw [phaseAfter, add_sub_cancel_left]
  exact Int.dvd_mul_left _ _

/-- It comes after the time, and within an interval. -/
theorem phaseAfter_bounds (loop : PhasedLoop) (now : Int) :
    now < loop.phaseAfter now ∧ loop.phaseAfter now ≤ now + loop.interval.value := by
  obtain ⟨parts, low, high⟩ := ediv_parts (now - loop.offset.value) loop.interval_pos
  rw [phaseAfter, Int.add_mul, Int.mul_comm]
  omega

/-- No other phase point comes between. -/
theorem phaseAfter_le (loop : PhasedLoop) {now point : Int}
    (aligned : loop.interval.value ∣ point - loop.offset.value) (after : now < point) :
    loop.phaseAfter now ≤ point := by
  obtain ⟨number, isNumber⟩ := aligned
  have bounds := loop.phaseAfter_bounds now
  have less : (now - loop.offset.value) / loop.interval.value < number := by
    apply Int.ediv_lt_of_lt_mul loop.interval_pos
    rw [Int.mul_comm]
    omega
  have product := Int.mul_le_mul_of_nonneg_right (Int.add_one_le_iff.mpr less)
    loop.interval_pos.le
  rw [phaseAfter]
  rw [Int.mul_comm number] at product
  omega

/-- The loop sleeps until a phase point. -/
structure Aligned (loop : PhasedLoop) : Prop where
  valid : loop.lastTime.Valid
  dvd : loop.interval.value ∣ loop.lastTime.value - loop.offset.value

/-- The times that a call computes have seconds that fit. -/
structure InRange (loop : PhasedLoop) (now : Time) : Prop where
  valid : now.Valid
  since : Fits (now.value - loop.offset.value)
  next : Fits (loop.phaseAfter now.value)
  moved : Fits (loop.phaseAfter now.value - loop.lastTime.value)

/-- The calls that find the next phase point: behind the offset, now is not the last
nanosecond before a phase point; before it, the phase point after now is not a negative
number of whole seconds from the offset nor a nanosecond more; and the number of
intervals to it from the last one fits in 32 bits. -/
structure Regular (loop : PhasedLoop) (now : Time) : Prop where
  behind : loop.offset.value ≤ now.value → loop.phaseAfter now.value ≠ now.value + 1
  before : now.value < loop.offset.value → loop.phaseAfter now.value < loop.offset.value →
    1 < (loop.phaseAfter now.value - loop.offset.value) % 1000000000
  lower : -2 ^ 31 ≤ (loop.phaseAfter now.value - loop.lastTime.value) / loop.interval.value
  upper : (loop.phaseAfter now.value - loop.lastTime.value) / loop.interval.value < 2 ^ 31

/-- The number of intervals from the last phase point to the next. -/
abbrev intervals (loop : PhasedLoop) (now : Time) : Int :=
  (loop.phaseAfter now.value - loop.lastTime.value) / loop.interval.value

/-- The number that `Iterate` hands to `InNS`, before it becomes a time. -/
def base (loop : PhasedLoop) (now : Time) : Int :=
  (now.value - loop.offset.value + 1).tdiv loop.interval.value * loop.interval.value

/-- Before the offset that is the distance of the next phase point from the offset. -/
theorem base_before (early : now.value < loop.offset.value) :
    loop.base now = loop.phaseAfter now.value - loop.offset.value := by
  have positive := loop.interval_pos
  obtain ⟨parts, low, high⟩ := ediv_parts (now.value - loop.offset.value) positive
  have quotient : -(now.value - loop.offset.value + 1) / loop.interval.value =
      -((now.value - loop.offset.value) / loop.interval.value) - 1 := by
    apply ((Int.ediv_emod_unique positive (r := loop.interval.value -
      (now.value - loop.offset.value) % loop.interval.value - 1)).mpr _).1
    rw [Int.mul_sub, Int.mul_neg]
    omega
  rw [base, tdiv_of_nonpos (by omega), quotient, phaseAfter]
  ring

/-- Behind the offset it is an interval less, unless now is the last nanosecond before
the next phase point. -/
theorem base_behind (late : loop.offset.value ≤ now.value) :
    loop.base now = loop.phaseAfter now.value - loop.offset.value -
      if loop.phaseAfter now.value = now.value + 1 then 0 else loop.interval.value := by
  have positive := loop.interval_pos
  obtain ⟨parts, low, high⟩ := ediv_parts (now.value - loop.offset.value) positive
  have phase : loop.phaseAfter now.value = loop.offset.value +
      loop.interval.value * ((now.value - loop.offset.value) / loop.interval.value) +
        loop.interval.value := by
    rw [phaseAfter]
    ring
  rw [base, Int.tdiv_eq_ediv_of_nonneg (by omega)]
  split
  · rename_i last
    rw [Int.ediv_mul_cancel]
    · omega
    · rw [show now.value - loop.offset.value + 1 =
        loop.phaseAfter now.value - loop.offset.value by omega]
      exact loop.dvd_phaseAfter _
  · have quotient : (now.value - loop.offset.value + 1) / loop.interval.value =
        (now.value - loop.offset.value) / loop.interval.value := by
      apply ((Int.ediv_emod_unique positive
        (r := (now.value - loop.offset.value) % loop.interval.value + 1)).mpr
          ⟨by omega, by omega, by omega⟩).1
    rw [quotient, Int.mul_comm]
    omega

section

variable (range : loop.InRange now)
include range

/-- It is no larger than the distance from the offset. -/
theorem base_bounds :
    -(2 ^ 32 * 1000000000) ≤ loop.base now ∧ loop.base now ≤ 2 ^ 32 * 1000000000 := by
  obtain ⟨lower, upper⟩ := range.since
  obtain ⟨above, below⟩ := tdiv_mul_between (now.value - loop.offset.value + 1)
    loop.interval_pos
  rw [base]
  omega

theorem toInt_base :
    (((now - loop.offset).toNSec + 1) / loop.interval.toNSec * loop.interval.toNSec).toInt =
      loop.base now := by
  obtain ⟨lower, upper⟩ := range.since
  have bounds := base_bounds range
  have small := Int.natAbs_tdiv_le_natAbs (now.value - loop.offset.value + 1) loop.interval.value
  have since : (now - loop.offset).toNSec.toInt = now.value - loop.offset.value := by
    rw [toInt_toNSec]
    exact ((stands_value range.valid).sub (stands_value loop.offsetValid)).value_eq range.since
  have next : ((now - loop.offset).toNSec + 1).toInt = now.value - loop.offset.value + 1 := by
    rw [toInt_add, since, toInt_one, bmod_long (by omega) (by omega)]
  have quotient : (((now - loop.offset).toNSec + 1) / loop.interval.toNSec).toInt =
      (now.value - loop.offset.value + 1).tdiv loop.interval.value := by
    rw [toInt_div, next, toInt_toNSec, bmod_long (by omega) (by omega)]
  rw [toInt_mul, quotient, toInt_toNSec, ← base, bmod_long (by omega) (by omega)]

/-- What `Iterate` adds to the base. -/
theorem nextTime_stands (made : ∃ result,
      inNS (((now - loop.offset).toNSec + 1) / loop.interval.toNSec * loop.interval.toNSec) =
        some result ∧ Stands result (loop.base now)) :
    ∃ next, loop.nextTime now = some next ∧
      Stands next (loop.base now +
        (if now.value < loop.offset.value then 0 else loop.interval.value) +
          loop.offset.value) := by
  obtain ⟨start, isStart, stands⟩ := made
  rw [nextTime, isStart]
  refine ⟨_, rfl, .add (.add stands ?_) (stands_value loop.offsetValid)⟩
  by_cases early : now.value < loop.offset.value
  · rw [if_pos early, if_pos ((lt_iff range.valid loop.offsetValid).mpr early)]
    exact stands_value valid_kZero
  · rw [if_neg early, if_neg (fun less => early ((lt_iff range.valid loop.offsetValid).mp less))]
    exact stands_value loop.intervalValid

/-- Before the offset `Iterate` finds the next phase point or `InNS` dies. -/
theorem nextTime_before (early : now.value < loop.offset.value) :
    if loop.phaseAfter now.value < loop.offset.value ∧
        (loop.phaseAfter now.value - loop.offset.value) % 1000000000 ≤ 1
    then loop.nextTime now = none
    else ∃ next, loop.nextTime now = some next ∧ Stands next (loop.phaseAfter now.value) := by
  have bounds := base_bounds range
  have isBase := toInt_base range
  have distance := base_before early
  split
  · rename_i dies
    have gone := inNS_dies (by omega) (by omega)
      (show (((now - loop.offset).toNSec + 1) / loop.interval.toNSec *
        loop.interval.toNSec).toInt % 1000000000 ≤ 1 by omega)
    rw [nextTime, gone, map_none]
  · rename_i lives
    have made := nextTime_stands range (by
      rw [← isBase]
      rcases Int.lt_or_le _ 0 with negative | nonneg
      · exact inNS_negative (by omega) (by omega) (by omega)
      · exact inNS_nonneg (by omega))
    rwa [if_pos early, distance, Int.add_zero, Int.sub_add_cancel] at made

/-- Behind the offset it finds the next phase point or the one behind that. -/
theorem nextTime_behind (late : loop.offset.value ≤ now.value) :
    ∃ next, loop.nextTime now = some next ∧ Stands next (loop.phaseAfter now.value +
      if loop.phaseAfter now.value = now.value + 1 then loop.interval.value else 0) := by
  have isBase := toInt_base range
  have nonneg := ((tdiv_mul_between (now.value - loop.offset.value + 1) loop.interval_pos).1
    (by omega)).1
  obtain ⟨next, found, stands⟩ := nextTime_stands range (by
    rw [← isBase]
    exact inNS_nonneg (by rw [isBase]; exact nonneg))
  refine ⟨next, found, ?_⟩
  rw [if_neg (by omega), base_behind late] at stands
  split at stands
  · rename_i last
    rw [if_pos last]
    exact stands.congr (by ring_nf; rfl)
  · rename_i other
    rw [if_neg other]
    exact stands.congr (by ring_nf; rfl)

end

variable {result : Int32} {next : Time} {after : PhasedLoop}

/-- A product of an interval and a word that equals one that fits is of a word. -/
theorem intervals_of_product {interval number : Int} {time : Time} (positive : 0 < interval)
    (fits : Fits (interval * number)) (product : Stands time (interval * result.toInt))
    (same : interval * number = time.value) :
    -2 ^ 31 ≤ number ∧ number < 2 ^ 31 := by
  have lower := result.le_toInt
  have upper := result.toInt_lt
  rw [Fits] at fits
  apply Classical.byContradiction
  intro outside
  have small : interval ≤ 1000000000 := by
    rcases Int.lt_or_le number 0 with negative | nonneg
    · have more := Int.mul_le_mul_of_nonneg_left (show number ≤ -2 ^ 31 by omega) positive.le
      omega
    · have more := Int.mul_le_mul_of_nonneg_left (show 2 ^ 31 ≤ number by omega) positive.le
      omega
  have least := Int.mul_le_mul_of_nonneg_left lower positive.le
  have most := Int.mul_le_mul_of_nonneg_left (Int.le_sub_one_of_lt upper) positive.le
  rw [product.value_eq ⟨by omega, by omega⟩] at same
  have equal := Int.eq_of_mul_eq_mul_left positive.ne' same
  omega

section Checking

variable {next : Time} (aligned : loop.Aligned) (range : loop.InRange now) (valid : next.Valid)
  (isNext : next.value = loop.phaseAfter now.value)
include aligned range valid isNext

theorem value_moved : (next - loop.lastTime).Valid ∧
    (next - loop.lastTime).value = loop.phaseAfter now.value - loop.lastTime.value := by
  have stands := (stands_value valid).sub (stands_value aligned.valid)
  rw [isNext] at stands
  exact ⟨stands.1, stands.value_eq range.moved⟩

omit range valid isNext in
/-- From the last phase point to the next it is a whole number of intervals. -/
theorem moved_eq (now : Int) : loop.phaseAfter now - loop.lastTime.value =
    loop.interval.value *
      ((loop.phaseAfter now - loop.lastTime.value) / loop.interval.value) := by
  have whole := Int.dvd_sub (loop.dvd_phaseAfter now) aligned.dvd
  rw [show loop.phaseAfter now - loop.offset.value - (loop.lastTime.value - loop.offset.value) =
    loop.phaseAfter now - loop.lastTime.value by omega] at whole
  exact (Int.mul_ediv_cancel' whole).symm

/-- The quotient that `Iterate` computes in 64 bits is the number of intervals. -/
theorem toInt_intervals :
    ((next - loop.lastTime).toNSec / loop.interval.toNSec).toInt = loop.intervals now := by
  obtain ⟨lower, upper⟩ := range.moved
  have small := Int.natAbs_tdiv_le_natAbs (loop.phaseAfter now.value - loop.lastTime.value)
    loop.interval.value
  rw [toInt_div, toInt_toNSec, toInt_toNSec, (value_moved aligned range valid isNext).2,
    bmod_long (by omega) (by omega)]
  exact Int.tdiv_eq_ediv_of_dvd ⟨_, moved_eq aligned _⟩

/-- The checks of the next phase point pass if the movement is counted right. -/
theorem checks_next {result : Int32}
    (counted : result.toInt = loop.intervals now) : loop.checks now next result = true := by
  obtain ⟨movedValid, moved⟩ := value_moved aligned range valid isNext
  have bounds := loop.phaseAfter_bounds now.value
  have nonneg := loop.offset_nonneg
  obtain ⟨sinceLower, sinceUpper⟩ := range.since
  obtain ⟨nextLower, nextUpper⟩ := range.next
  have product := (stands_value loop.intervalValid).mul result
  have total : (loop.interval * result).value = next.value - loop.lastTime.value := by
    rw [counted, ← moved_eq aligned _] at product
    rw [product.value_eq range.moved, isNext]
  have sinceOffset := (stands_value valid).sub (stands_value loop.offsetValid)
  have ahead := (stands_value valid).sub (stands_value range.valid)
  rw [isNext] at sinceOffset ahead
  simp only [checks, Bool.and_eq_true, beq_iff_eq]
  refine ⟨⟨⟨?_, ?_⟩, ?_⟩, ?_⟩
  · rw [eq_iff movedValid product.1, moved, total, isNext]
  · rw [← toInt_inj, toInt_mod, toInt_toNSec, toInt_toNSec, sinceOffset.value_eq ⟨by omega, by omega⟩]
    exact (Int.tmod_eq_zero_of_dvd (loop.dvd_phaseAfter _)).symm
  · rw [ge_iff valid range.valid, isNext]
    omega
  · have interval := fits_value loop.intervalValid
    simp only [Fits] at interval
    rw [le_iff ahead.1 loop.intervalValid, ahead.value_eq ⟨by omega, by omega⟩]
    omega

/-- They only pass if the number of intervals fits. -/
theorem intervals_of_checks
    (passed : loop.checks now next
      ((next - loop.lastTime).toNSec / loop.interval.toNSec).toInt32 = true) :
    -2 ^ 31 ≤ loop.intervals now ∧ loop.intervals now < 2 ^ 31 := by
  obtain ⟨movedValid, moved⟩ := value_moved aligned range valid isNext
  simp only [checks, Bool.and_eq_true] at passed
  have product := (stands_value loop.intervalValid).mul
    ((next - loop.lastTime).toNSec / loop.interval.toNSec).toInt32
  have same := passed.1.1.1
  rw [eq_iff movedValid product.1, moved, moved_eq aligned _] at same
  have fits := range.moved
  rw [moved_eq aligned _] at fits
  exact intervals_of_product loop.interval_pos fits product same

end Checking

/-- A phase point too late does not pass. -/
theorem checks_late (range : loop.InRange now) (late : loop.offset.value ≤ now.value)
    (last : loop.phaseAfter now.value = now.value + 1)
    (stands : Stands next (loop.phaseAfter now.value + loop.interval.value)) (result : Int32) :
    loop.checks now next result = false := by
  have nonneg := loop.offset_nonneg
  have positive := loop.interval_pos
  obtain ⟨nextLower, nextUpper⟩ := range.next
  have interval := fits_value loop.intervalValid
  simp only [Fits] at interval
  have failed : next.ge now = false ∨ (next - now).le loop.interval = false := by
    by_cases fits : Fits (loop.phaseAfter now.value + loop.interval.value)
    · right
      have ahead := stands.sub (stands_value range.valid)
      have small : Fits (loop.phaseAfter now.value + loop.interval.value - now.value) := by
        obtain ⟨lower, upper⟩ := fits
        exact ⟨by omega, by omega⟩
      rw [← Bool.not_eq_true, le_iff ahead.1 loop.intervalValid, ahead.value_eq small]
      omega
    · left
      have wrapped := stands.2
      have bounds := fits_value stands.1
      rw [Int.ModEq, period] at wrapped
      simp only [Fits] at fits bounds
      rw [← Bool.not_eq_true, ge_iff stands.1 range.valid]
      omega
  rw [checks]
  rcases failed with isLess | isMore
  · rw [isLess, Bool.and_false, Bool.false_and]
  · rw [isMore, Bool.and_false]

/-- What a call of `Iterate` is for: the loop sleeps until the least phase point after
now, which is at most an interval away, and the result counts the intervals to it. -/
structure Advances (loop : PhasedLoop) (now : Time) (result : Int32) (next : PhasedLoop) :
    Prop where
  sameInterval : next.interval = loop.interval
  sameOffset : next.offset = loop.offset
  aligned : next.Aligned
  after : now.value < next.lastTime.value
  within : next.lastTime.value ≤ now.value + loop.interval.value
  least : ∀ point, loop.interval.value ∣ point - loop.offset.value → now.value < point →
    next.lastTime.value ≤ point
  counted : result.toInt * loop.interval.value = next.lastTime.value - loop.lastTime.value

/-- A loop that sleeps until the least phase point after now advances. -/
theorem advances_of_value (aligned : loop.Aligned) (valid : next.Valid)
    (isNext : next.value = loop.phaseAfter now.value)
    (counted : result.toInt = loop.intervals now) :
    Advances loop now result { loop with lastTime := next } where
  sameInterval := rfl
  sameOffset := rfl
  aligned := ⟨valid, by rw [isNext]; exact loop.dvd_phaseAfter _⟩
  after := by
    rw [isNext]
    exact (loop.phaseAfter_bounds _).1
  within := by
    rw [isNext]
    exact (loop.phaseAfter_bounds _).2
  least point dvd after := by
    rw [isNext]
    exact loop.phaseAfter_le dvd after
  counted := by
    rw [counted, isNext, Int.mul_comm, ← moved_eq aligned _]

/-- With the next phase point the number of intervals decides whether `Iterate` dies. -/
theorem intervals_of_iterate (aligned : loop.Aligned) (range : loop.InRange now)
    (found : loop.nextTime now = some next) (stands : Stands next (loop.phaseAfter now.value))
    (returned : loop.iterate now = some (result, after)) :
    -2 ^ 31 ≤ loop.intervals now ∧ loop.intervals now < 2 ^ 31 := by
  rw [iterate, found, bind_some] at returned
  dsimp only at returned
  split at returned
  · rename_i passed
    exact intervals_of_checks aligned range stands.1 (stands.value_eq range.next) passed
  · cases returned

/-- Only regular calls return. -/
theorem regular_of_iterate (aligned : loop.Aligned) (range : loop.InRange now)
    (returned : loop.iterate now = some (result, after)) :
    loop.Regular now := by
  rcases Int.lt_or_le _ _ with early | late
  · have outcome := nextTime_before range early
    split at outcome
    · rw [iterate, outcome] at returned
      cases returned
    · rename_i lives
      obtain ⟨next, found, stands⟩ := outcome
      obtain ⟨lower, upper⟩ := intervals_of_iterate aligned range found stands returned
      refine ⟨fun late => absurd early (Int.not_lt.mpr late), ?_, lower, upper⟩
      intro _ negative
      exact Int.not_le.mp fun dies => lives ⟨negative, dies⟩
  · obtain ⟨next, found, stands⟩ := nextTime_behind range late
    by_cases last : loop.phaseAfter now.value = now.value + 1
    · rw [if_pos last] at stands
      rw [iterate, found, bind_some] at returned
      dsimp only at returned
      rw [checks_late range late last stands] at returned
      cases returned
    · rw [if_neg last, Int.add_zero] at stands
      obtain ⟨lower, upper⟩ := intervals_of_iterate aligned range found stands returned
      exact ⟨fun _ => last, fun early => absurd early (Int.not_lt.mpr late), lower, upper⟩

/-- In a regular call `nextTime` is the next phase point. -/
theorem Regular.nextTime (regular : loop.Regular now) (range : loop.InRange now) :
    ∃ next, loop.nextTime now = some next ∧ Stands next (loop.phaseAfter now.value) := by
  rcases Int.lt_or_le _ _ with early | late
  · have outcome := nextTime_before range early
    rwa [if_neg fun dies => Int.not_le.mpr (regular.before early dies.1) dies.2] at outcome
  · have outcome := nextTime_behind range late
    rwa [if_neg (regular.behind late), Int.add_zero] at outcome

/-- A regular call returns and advances the loop. -/
theorem Regular.advances (regular : loop.Regular now) (aligned : loop.Aligned)
    (range : loop.InRange now) :
    ∃ result after, loop.iterate now = some (result, after) ∧
      Advances loop now result after := by
  obtain ⟨next, found, stands⟩ := regular.nextTime range
  have isNext := stands.value_eq range.next
  have counted : ((next - loop.lastTime).toNSec / loop.interval.toNSec).toInt32.toInt =
      loop.intervals now := by
    rw [toInt_toInt32, toInt_intervals aligned range stands.1 isNext,
      bmod_word regular.lower regular.upper]
  rw [iterate, found, bind_some]
  refine ⟨_, _, if_pos (checks_next aligned range stands.1 isNext counted), ?_⟩
  exact advances_of_value aligned stands.1 isNext counted

/-- The loops that calls in range lead to, from where the constructor starts. -/
inductive Reachable : PhasedLoop → Prop where
  | start {loop : PhasedLoop} (starts : loop.lastTime = loop.offset) : Reachable loop
  | iterate {loop next : PhasedLoop} {now : Time} {result : Int32} (before : Reachable loop)
      (range : loop.InRange now) (returned : loop.iterate now = some (result, next)) :
      Reachable next

/-- Calls one after the other, with their results. -/
def iterations (loop : PhasedLoop) : List Time → Option (List Int32 × PhasedLoop)
  | [] => some ([], loop)
  | now :: later =>
    (loop.iterate now).bind fun (result, next) =>
      (next.iterations later).map fun (results, final) => (result :: results, final)

/-- Every one of the calls is in range and regular. -/
def Regularly (loop : PhasedLoop) : List Time → Prop
  | [] => True
  | now :: later => loop.InRange now ∧ loop.Regular now ∧
    ∀ result next, loop.iterate now = some (result, next) → next.Regularly later

theorem Reachable.aligned (reachable : Reachable loop) : loop.Aligned := by
  induction reachable with
  | @start loop starts =>
    constructor
    · rw [starts]
      exact loop.offsetValid
    · rw [starts, Int.sub_self]
      exact Int.dvd_zero _
  | iterate before range returned ih =>
    have regular := regular_of_iterate ih range returned
    obtain ⟨result, after, again, advances⟩ := regular.advances ih range
    rw [returned] at again
    cases again
    exact advances.aligned

/-- The results of regular calls add up to the movement. -/
theorem iterations_sum (reachable : Reachable loop) (nows : List Time)
    (regularly : loop.Regularly nows) :
    ∃ results final, loop.iterations nows = some (results, final) ∧ Reachable final ∧
      (results.map Int32.toInt).sum * loop.interval.value =
        final.lastTime.value - loop.lastTime.value := by
  induction nows generalizing loop with
  | nil => exact ⟨[], loop, rfl, reachable, by simp⟩
  | cons now later ih =>
    obtain ⟨range, regular, others⟩ := regularly
    obtain ⟨result, next, returned, advances⟩ := regular.advances reachable.aligned range
    obtain ⟨results, final, rest, reached, sum⟩ := ih
      (reachable.iterate range returned) (others result next returned)
    refine ⟨result :: results, final, ?_, reached, ?_⟩
    · rw [iterations, returned, bind_some]
      dsimp only
      rw [rest]
      rfl
    · have first := advances.counted
      rw [advances.sameInterval] at sum
      rw [List.map_cons, List.sum_cons, Int.add_mul]
      omega

/-- A call of a reachable loop at a time in range returns with the next phase point
exactly if it is regular. Any number of regular calls return, and their results add up to
the movement of the phase point in intervals.

Proof: a regular call computes the phase point and passes its checks (`Regular.advances`);
another one dies in `InNS` or in a check (`regular_of_iterate`). -/
theorem iterate_finds_next_phase_iff (loop : PhasedLoop) (reachable : Reachable loop) :
    (∀ now, loop.InRange now →
      ((∃ result next, loop.iterate now = some (result, next) ∧ Advances loop now result next) ↔
        loop.Regular now)) ∧
    ∀ nows, loop.Regularly nows → ∃ results final,
      loop.iterations nows = some (results, final) ∧ Reachable final ∧
        (results.map Int32.toInt).sum * loop.interval.value =
          final.lastTime.value - loop.lastTime.value := by
  constructor
  · intro now range
    constructor
    · rintro ⟨result, next, returned, _⟩
      exact regular_of_iterate reachable.aligned range returned
    · intro regular
      exact regular.advances reachable.aligned range
  · intro nows regularly
    exact iterations_sum reachable nows regularly

/-- A loop every tenth of a second. -/
def tenths : PhasedLoop where
  interval := ⟨0, 100000000⟩
  offset := kZero
  lastTime := kZero
  intervalValid := by decide
  offsetValid := by decide
  nonneg := by decide
  positive := by decide
  below := by decide

/-- At a quarter of a second before zero the next tenth is found, two tenths back, and at a
quarter after zero the one five tenths on. -/
theorem iterate_finds_next_phase_quarter :
    Reachable tenths ∧ tenths.InRange ⟨-1, 750000000⟩ ∧
      (∃ result next, tenths.iterate ⟨-1, 750000000⟩ = some (result, next) ∧
        Advances tenths ⟨-1, 750000000⟩ result next) ∧
      ∃ final, tenths.iterations [⟨-1, 750000000⟩, ⟨0, 250000000⟩] = some ([-2, 5], final) ∧
        Reachable final ∧ 3 * tenths.interval.value = final.lastTime.value := by
  have reachable : Reachable tenths := .start rfl
  have range : tenths.InRange ⟨-1, 750000000⟩ := ⟨by decide, by decide, by decide, by decide⟩
  have regular : tenths.Regular ⟨-1, 750000000⟩ := ⟨by decide, by decide, by decide, by decide⟩
  obtain ⟨single, several⟩ := iterate_finds_next_phase_iff tenths reachable
  refine ⟨reachable, range, (single _ range).mpr regular, ?_⟩
  have second : tenths.iterate ⟨-1, 750000000⟩ =
      some (-2, { tenths with lastTime := ⟨-1, 800000000⟩ }) := rfl
  obtain ⟨results, final, ran, reached, sum⟩ := several [⟨-1, 750000000⟩, ⟨0, 250000000⟩] <| by
    refine ⟨range, regular, fun result next returned => ?_⟩
    cases second.symm.trans returned
    exact ⟨⟨by decide, by decide, by decide, by decide⟩,
      ⟨by decide, by decide, by decide, by decide⟩, fun _ _ _ => trivial⟩
  have counted : (tenths.iterations [⟨-1, 750000000⟩, ⟨0, 250000000⟩]).map Prod.fst =
      some [-2, 5] := by
    decide
  rw [ran] at counted
  obtain rfl := some.inj counted
  exact ⟨final, ran, reached, sum.trans (Int.sub_zero _)⟩

/-- A nanosecond before a tenth the loop dies, and so it does where the next tenth is
a second before zero. -/
theorem iterate_dies :
    Reachable tenths ∧ tenths.InRange ⟨0, 99999999⟩ ∧ tenths.iterate ⟨0, 99999999⟩ = none ∧
      tenths.InRange ⟨-2, 950000000⟩ ∧ tenths.iterate ⟨-2, 950000000⟩ = none :=
  ⟨.start rfl, ⟨by decide, by decide, by decide, by decide⟩,
    isNone_iff_eq_none.mp (by decide), ⟨by decide, by decide, by decide, by decide⟩,
    isNone_iff_eq_none.mp (by decide)⟩

end PhasedLoop

end Miranda.Timing
