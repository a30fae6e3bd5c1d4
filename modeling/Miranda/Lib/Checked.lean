import Mathlib.Algebra.Group.Int.Defs
import Mathlib.Algebra.Group.Nat.Defs
import Mathlib.Logic.Basic

/-!
# Arithmetic of the type `int`

What an operation on numbers of the type `int` gives is undefined where the exact result is
no `int`. Such an operation is the exact one followed by `checked`, which then has no result,
and a computation has a result exactly if all of its operations have one.
-/

namespace Miranda.Checked

/-- `INT_MIN` -/
def intMin : Int := -2 ^ 31

/-- `INT_MAX` -/
def intMax : Nat := 2 ^ 31 - 1

def IsInt (value : Int) : Prop := intMin ≤ value ∧ value ≤ intMax

instance (value : Int) : Decidable (IsInt value) := inferInstanceAs (Decidable (_ ∧ _))

/-- The exact result of an operation, if it is an `int`. -/
def checked (value : Int) : Option Int := if IsInt value then some value else none

section Results

variable {value result : Int}

theorem checked_of_isInt (isInt : IsInt value) : checked value = some value := if_pos isInt

theorem checked_eq_none (undefined : ¬ IsInt value) : checked value = none := if_neg undefined

/-- Between two numbers of the type there are only numbers of the type. -/
theorem IsInt.between {lower upper : Int} (low : IsInt lower) (high : IsInt upper)
    (above : lower ≤ value) (below : value ≤ upper) : IsInt value :=
  ⟨Int.le_trans low.1 above, Int.le_trans below high.2⟩

end Results

theorem isInt_toInt (value : Int32) : IsInt value.toInt :=
  ⟨value.le_toInt, Int.le_sub_one_of_lt value.toInt_lt⟩

end Miranda.Checked
