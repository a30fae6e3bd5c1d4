import Mathlib.Algebra.Order.Ring.Int
import Mathlib.Tactic.Ring

/-!
# Following a slope with integers

A line rises by `minor` on its way of `major`, and `minor` is not the larger one. An error term
tells when the minor coordinate has to make a step: it grows by twice the rise with every step
of the major coordinate, and where it becomes positive it falls back by twice the way.

The error term is twice the distance of the line above the place in the middle to the next step,
times the way. So the minor coordinate is never further than a half from the line, and it
arrives at the end.
-/

namespace Miranda.Slope

/-- The steps of the minor coordinate, and the error term. -/
structure Track where
  steps : Int
  error : Int
  deriving DecidableEq, Repr

def Track.next (major minor : Int) (track : Track) : Track :=
  if 0 < track.error + minor * 2 then
    ⟨track.steps + 1, track.error + minor * 2 - major * 2⟩
  else ⟨track.steps, track.error + minor * 2⟩

/-- The track after a number of steps of the major coordinate. -/
def track (major minor : Int) : Nat → Track
  | 0 => ⟨0, -major⟩
  | count + 1 => (track major minor count).next major minor

section Following

variable {major minor : Int}

theorem steps_succ (major minor : Int) (count : Nat) :
    (track major minor (count + 1)).steps = (track major minor count).steps ∨
      (track major minor (count + 1)).steps = (track major minor count).steps + 1 := by
  rw [track, Track.next]
  split
  · exact .inr rfl
  · exact .inl rfl

theorem steps_monotone (major minor : Int) {first second : Nat} (order : first ≤ second) :
    (track major minor first).steps ≤ (track major minor second).steps := by
  induction order with
  | refl => exact Int.le_refl _
  | @step count _ ih =>
    refine Int.le_trans ih ?_
    rcases steps_succ major minor count with same | more
    · exact Int.le_of_eq same.symm
    · exact Int.le.intro 1 more.symm

theorem steps_nonneg (major minor : Int) (count : Nat) : 0 ≤ (track major minor count).steps :=
  steps_monotone major minor count.zero_le

theorem error_eq (major minor : Int) (count : Nat) : (track major minor count).error =
    2 * (count * minor) - 2 * ((track major minor count).steps * major) - major := by
  induction count with
  | zero => simp [track]
  | succ count ih =>
    rw [track, Track.next]
    split
    · dsimp only
      rw [ih]
      push_cast
      ring
    · dsimp only
      rw [ih]
      push_cast
      ring

variable (nonneg : 0 ≤ minor) (slow : minor ≤ major)
include nonneg slow

theorem error_bounds (count : Nat) :
    -2 * major ≤ (track major minor count).error ∧ (track major minor count).error ≤ 0 := by
  induction count with
  | zero =>
    rw [track]
    dsimp only
    omega
  | succ count ih =>
    rw [track, Track.next]
    split
    · dsimp only
      omega
    · dsimp only
      omega

/-- The line is within a half of the minor coordinate. -/
theorem steps_near (count : Nat) :
    -major ≤ 2 * (count * minor - (track major minor count).steps * major) ∧
      2 * (count * minor - (track major minor count).steps * major) ≤ major := by
  have equal := error_eq major minor count
  obtain ⟨above, below⟩ := error_bounds nonneg slow count
  constructor
  · omega
  · omega

/-- At the end the minor coordinate has made all of its steps. -/
theorem steps_end (count : Nat) (whole : (count : Int) = major) :
    (track major minor count).steps = minor := by
  by_cases moves : 0 < major
  · obtain ⟨above, below⟩ := steps_near nonneg slow count
    rw [whole, Int.mul_comm _ major, ← Int.mul_sub] at above below
    have atLeast : -1 < minor - (track major minor count).steps :=
      lt_of_mul_lt_mul_left (by omega) moves.le
    have atMost : minor - (track major minor count).steps < 1 :=
      lt_of_mul_lt_mul_left (by omega) moves.le
    omega
  · have none : count = 0 := by omega
    subst none
    rw [track]
    dsimp only
    omega

/-- Only a rise of more than a half makes a step behind the end. -/
theorem steps_beyond (count : Nat) (whole : (count : Int) = major) :
    (track major minor (count + 1)).steps = if 2 * minor ≤ major then minor else minor + 1 := by
  have atEnd := steps_end nonneg slow count whole
  have error := error_eq major minor count
  rw [atEnd, whole, Int.mul_comm minor major] at error
  rw [track, Track.next, atEnd]
  by_cases flat : 2 * minor ≤ major
  · rw [if_pos flat, if_neg (by omega)]
  · rw [if_neg flat, if_pos (by omega)]

end Following

end Miranda.Slope
