import Mathlib.Algebra.BigOperators.Group.List.Basic
import Mathlib.Algebra.GroupWithZero.Nat
import Mathlib.Data.Int.ModEq
import Mathlib.Data.List.Rotate

/-!
# Sums along a closed contour: `IntegralArray`

The items are the sums of the values added so far, so the sum of the values between two places is
the difference of two items. Behind the last value comes the first one again, and where a sum goes
past it the last item is added. Any integers are places; the items are exact integers.
-/

namespace Miranda.Vision.IntegralArray

open List

/-- The remainders are those of C++. -/
def mod (a n : Int) : Int := (a.tmod n + n).tmod n

/-- An item that does not exist has no value. -/
def item (items : List Int) (i : Int) : Option Int :=
  if 0 ≤ i then items[i.toNat]? else none

def get (items : List Int) (a b : Int) : Option Int := do
  let size : Int := items.length
  let a := mod a size
  let b := mod b size
  if b < a then
    if b = 0 then
      return (← item items (size - 1)) - (← item items (a - 1))
    return (← item items (size - 1)) + (← item items (b - 1)) - (← item items (a - 1))
  if a = 0 then
    item items (b - 1)
  else
    return (← item items (b - 1)) - (← item items (a - 1))

def add (items : List Int) (t : Int) : List Int :=
  match items.getLast? with
  | none => [t]
  | some last => items ++ [t + last]

/-- The values at the places `a`, `a + 1` and so on to before `b`, around the contour. -/
def between {α : Type} (values : List α) (a b : Int) : List α :=
  (values.rotate (a % values.length).toNat).take ((b - a) % values.length).toNat

section Items

variable {values : List Int}

theorem add_items (values : List Int) :
    values.foldl add [] =
      (List.range values.length).map fun i => (values.take (i + 1)).sum := by
  induction values using List.reverseRecOn with
  | nil => rfl
  | append_singleton values t ih =>
    have total : add (values.foldl add []) t = values.foldl add [] ++ [values.sum + t] := by
      rw [ih, add]
      cases values using List.reverseRecOn with
      | nil => simp
      | append_singleton before last =>
        simp [List.range_succ, List.take_of_length_le, add_comm]
    rw [foldl_append, foldl_cons, foldl_nil, total, ih, length_append, length_singleton,
      List.range_succ, map_append]
    congr 1
    · refine map_congr_left fun i inside => ?_
      rw [take_append_of_le_length (mem_range.mp inside)]
    · simp [List.take_of_length_le]

theorem item_sum {count : Nat} (positive : 0 < count) (inside : count ≤ values.length) :
    item (values.foldl add []) (count - 1) = some (values.take count).sum := by
  obtain ⟨i, rfl⟩ := Nat.exists_eq_succ_of_ne_zero positive.ne'
  rw [add_items, item, Nat.cast_succ, add_sub_cancel_right, if_pos (Int.natCast_nonneg i),
    Int.toNat_natCast, getElem?_map, getElem?_range inside]
  rfl

theorem mod_eq (a : Int) {n : Int} (positive : 0 < n) : mod a n = a % n := by
  have bound := Int.lt_tmod_of_pos a positive
  rw [mod, Int.tmod_eq_emod_of_nonneg (by omega), Int.add_emod_right, Int.tmod_def,
    Int.sub_mul_emod_self_left]

end Items

section Sums

variable {values : List Int} {a b c : Int}

/-- The sum from one place to another, by where they are in the list. -/
theorem sum_between {first last : Nat} (firstInside : first < values.length)
    (lastInside : last < values.length) (isFirst : a % values.length = first)
    (isLast : b % values.length = last) :
    (between values a b).sum = (values.take last).sum - (values.take first).sum +
      if last < first then values.sum else 0 := by
  rw [between, Int.sub_emod, isFirst, isLast, Int.toNat_natCast,
    rotate_eq_drop_append_take firstInside.le]
  split
  · next wraps =>
    have whole : (values.take first).sum + (values.drop first).sum = values.sum := by
      rw [← sum_append, take_append_drop]
    rw [← Int.add_emod_right, Int.emod_eq_of_lt (by omega) (by omega),
      show ((last : Int) - first + values.length).toNat = (values.drop first).length + last by
        rw [length_drop]; omega,
      take_length_add_append, take_take, Nat.min_eq_left wraps.le, sum_append]
    omega
  · have front : values.take last =
        values.take first ++ (values.drop first).take (last - first) := by
      rw [← take_add, Nat.add_sub_cancel' (by omega)]
    rw [Int.emod_eq_of_lt (by omega) (by omega), ← Nat.cast_sub (by omega), Int.toNat_natCast,
      take_append_of_le_length (by rw [length_drop]; omega), front, sum_append]
    omega

variable (nonempty : values ≠ [])
include nonempty

theorem get_between (apart : ¬ a ≡ b [ZMOD values.length]) :
    get (values.foldl add []) a b = some (between values a b).sum := by
  have positive : (0 : Int) < values.length := by exact_mod_cast length_pos_iff.mpr nonempty
  have place : ∀ p : Int, ∃ q < values.length, p % values.length = (q : Nat) := fun p =>
    ⟨(p % values.length).toNat, by
      have := Int.emod_lt_of_pos p positive
      have := Int.emod_nonneg p positive.ne'
      omega⟩
  obtain ⟨first, firstInside, isFirst⟩ := place a
  obtain ⟨last, lastInside, isLast⟩ := place b
  have different : first ≠ last := by
    rintro rfl
    exact apart (isFirst.trans isLast.symm)
  have size : (values.foldl add []).length = values.length := by simp [add_items]
  have total := item_sum (length_pos_iff.mpr nonempty) le_rfl
  rw [take_length] at total
  rw [sum_between firstInside lastInside isFirst isLast]
  simp only [get, size, mod_eq _ positive, isFirst, isLast, Int.ofNat_lt, Nat.cast_eq_zero, total]
  by_cases wraps : last < first
  · rw [if_pos wraps, if_pos wraps, item_sum (by omega) firstInside.le]
    split
    · next zero =>
      rw [zero]
      simp [sub_eq_neg_add]
    · rw [item_sum (by omega) lastInside.le]
      simp
      omega
  · rw [if_neg wraps, if_neg wraps, item_sum (by omega) lastInside.le]
    split
    · next zero =>
      rw [zero]
      simp
    · rw [item_sum (by omega) firstInside.le]
      simp

theorem between_append (inOrder : (b - a) % values.length ≤ (c - a) % values.length) :
    between values a c = between values a b ++ between values b c := by
  have positive : (0 : Int) < values.length := by exact_mod_cast length_pos_iff.mpr nonempty
  have start := Int.emod_nonneg (b - a) positive.ne'
  have bound := Int.emod_lt_of_pos (c - a) positive
  have rest : (c - b) % values.length = (c - a) % values.length - (b - a) % values.length := by
    rw [← sub_sub_sub_cancel_right c b a, Int.sub_emod, Int.emod_eq_of_lt (by omega) (by omega)]
  have turned : values.rotate (b % values.length).toNat =
      (values.rotate (a % values.length).toNat).rotate ((b - a) % values.length).toNat := by
    rw [rotate_rotate, ← rotate_mod, ← rotate_mod _ (_ + _)]
    congr 1
    rw [← Int.natCast_inj, Int.natCast_emod, Int.natCast_emod, Nat.cast_add,
      Int.toNat_of_nonneg start, Int.toNat_of_nonneg (Int.emod_nonneg _ positive.ne'),
      Int.toNat_of_nonneg (Int.emod_nonneg _ positive.ne'), ← Int.add_emod, Int.emod_emod,
      add_sub_cancel]
  have length := length_rotate values (a % values.length).toNat
  rw [between, between, between, turned, rest]
  generalize values.rotate (a % values.length).toNat = contour at length ⊢
  rw [rotate_eq_drop_append_take (by omega), take_append_of_le_length (by rw [length_drop]; omega),
    ← take_add]
  congr 1
  omega

/-- `get` is the sum from one place of the contour to another, and sums add up around it.

Proof: a difference of items is the sum of the values between (`get_between`). -/
theorem circular_range_sums (apart : ¬ a ≡ b [ZMOD values.length]) :
    get (values.foldl add []) a b = some (between values a b).sum ∧
      ∀ c, (b - a) % values.length < (c - a) % values.length →
        ∃ front back, get (values.foldl add []) a b = some front ∧
          get (values.foldl add []) b c = some back ∧
          get (values.foldl add []) a c = some (front + back) := by
  refine ⟨get_between nonempty apart, fun c inOrder => ?_⟩
  have second : ¬ b ≡ c [ZMOD values.length] := fun same =>
    inOrder.ne (same.sub_right a)
  have whole : ¬ a ≡ c [ZMOD values.length] := fun same => by
    rw [(same.symm.sub_right a).eq, sub_self, Int.zero_emod] at inOrder
    exact absurd inOrder (not_lt.mpr (Int.emod_nonneg _ (by simpa using nonempty)))
  refine ⟨_, _, get_between nonempty apart, get_between nonempty second, ?_⟩
  rw [get_between nonempty whole, between_append nonempty inOrder.le, sum_append]

end Sums

/-- From before the first value past the last one. -/
theorem circular_range_sums_five :
    get ([3, -1, 4, 1, 5].foldl add []) (-2) 11 = some 9 ∧
      ∃ front back, get ([3, -1, 4, 1, 5].foldl add []) (-2) 11 = some front ∧
        get ([3, -1, 4, 1, 5].foldl add []) 11 2 = some back ∧
        get ([3, -1, 4, 1, 5].foldl add []) (-2) 2 = some (front + back) := by
  obtain ⟨sum, adds⟩ := @circular_range_sums [3, -1, 4, 1, 5] (-2) 11 (by decide) (by decide)
  exact ⟨sum, adds 2 (by decide)⟩

end Miranda.Vision.IntegralArray
