import Mathlib.Data.List.Basic
import Mathlib.Tactic.Common

/-!
# Circular buffers with one slot left empty

A buffer of `capacity` cells is read from `first` up to, but excluding, `past`,
both of them plain signed indices that wrap to zero instead of reaching the
capacity. Equal indices mean an empty window, so at most `capacity - 1` cells are
ever occupied. Cells outside the window keep whatever they held before; nothing
here clears them.

The list of occupied cells is the only observation. Pushing at `past`, popping at
`first` and looking at the newest cell are stated as equations between windows,
with the index bounds as their only assumptions.
-/

namespace Miranda.CircularBuffer

universe u
variable {α : Type u}

/-- The index after `index`, wrapping at the capacity. -/
def advance (capacity index : Int) : Int :=
  if index + 1 = capacity then 0 else index + 1

/-- How many cells lie between two indices in wrapping order. -/
def distance (capacity first past : Int) : Int :=
  if past - first < 0 then past - first + capacity else past - first

/-- The cell `offset` places after `first`; the sum wraps at most once. -/
def slot (capacity first : Int) (offset : Nat) : Int :=
  if first + offset < capacity then first + offset else first + offset - capacity

/-- The next `count` cells from `first` on, in wrapping order. -/
def contents (cells : Int → α) (capacity : Int) : Int → Nat → List α
  | _, 0 => []
  | first, count + 1 =>
      cells first :: contents cells capacity (advance capacity first) count

/-- The occupied cells, oldest first. -/
def window (cells : Int → α) (capacity first past : Int) : List α :=
  contents cells capacity first (distance capacity first past).toNat

/-- Overwrite one cell. -/
def store (cells : Int → α) (index : Int) (value : α) : Int → α :=
  fun other => if other = index then value else cells other

/-- A legal index of a buffer with `capacity` cells. -/
def Valid (capacity index : Int) : Prop := 0 ≤ index ∧ index < capacity

instance (capacity index : Int) : Decidable (Valid capacity index) :=
  inferInstanceAs (Decidable (_ ∧ _))

variable {capacity index first past : Int} {offset : Nat}

theorem advance_valid (valid : Valid capacity index) :
    Valid capacity (advance capacity index) := by
  unfold Valid advance at *
  split <;> omega

section

variable (firstValid : Valid capacity first) (pastValid : Valid capacity past)
include firstValid pastValid

theorem distance_valid :
    Valid capacity (distance capacity first past) := by
  unfold Valid distance at *
  split <;> omega

theorem distance_eq_zero :
    distance capacity first past = 0 ↔ first = past := by
  unfold Valid distance at *
  split <;> omega

/-- The window is full exactly when the advanced end meets the start. -/
theorem advance_eq_first :
    advance capacity past = first ↔ distance capacity first past = capacity - 1 := by
  unfold Valid distance advance at *
  split <;> split <;> omega

theorem distance_advance_past (room : advance capacity past ≠ first) :
    distance capacity first (advance capacity past) =
      distance capacity first past + 1 := by
  unfold Valid distance advance at *
  split at room <;> split <;> split <;> omega

theorem distance_advance_first (occupied : first ≠ past) :
    distance capacity (advance capacity first) past + 1 =
      distance capacity first past := by
  unfold Valid distance advance at *
  split <;> split <;> split <;> omega

end

theorem slot_zero (valid : Valid capacity first) :
    slot capacity first 0 = first := by
  unfold Valid slot at *
  split <;> omega

/-- Starting one cell later shifts every offset by one. -/
theorem slot_advance (offset : Nat) (bounded : (offset : Int) + 1 < capacity) :
    slot capacity (advance capacity first) offset = slot capacity first (offset + 1) := by
  unfold slot advance
  split <;> split <;> split <;> push_cast <;> omega

/-- Walking the whole distance from the start arrives at the end. -/
theorem slot_distance (firstValid : Valid capacity first) (pastValid : Valid capacity past) :
    slot capacity first (distance capacity first past).toNat = past := by
  have bounds := distance_valid firstValid pastValid
  unfold Valid slot distance at *
  split <;> split <;> omega

theorem contents_length (cells : Int → α) (capacity first : Int) (count : Nat) :
    (contents cells capacity first count).length = count := by
  induction count generalizing first with
  | zero => rfl
  | succ count ih =>
    simp only [contents, List.length_cons, ih]

/-- Offsets read the cells that `slot` names.

Proof: induction on the offset; each step of the walk moves the start to the next
cell and lowers the offset by one. -/
theorem contents_getElem? (cells : Int → α) {count : Nat} (valid : Valid capacity first)
    (bounded : (count : Int) ≤ capacity) (inside : offset < count) :
    (contents cells capacity first count)[offset]? =
      some (cells (slot capacity first offset)) := by
  induction offset generalizing first count with
  | zero =>
    cases count with
    | zero => omega
    | succ count => simp [contents, slot_zero valid]
  | succ offset ih =>
    cases count with
    | zero => omega
    | succ count =>
      simp only [contents, List.getElem?_cons_succ]
      rw [ih (advance_valid valid) (by omega) (by omega),
        slot_advance offset (by omega)]

section

variable (cells : Int → α)
include cells

/-- Extending the walk by one cell appends the cell it ends on. -/
theorem contents_succ (count : Nat) (valid : Valid capacity first)
    (bounded : (count : Int) < capacity) :
    contents cells capacity first (count + 1) =
      contents cells capacity first count ++ [cells (slot capacity first count)] := by
  induction count generalizing first with
  | zero => simp [contents, slot_zero valid]
  | succ count ih =>
    rw [contents, ih (advance_valid valid) (by omega),
      slot_advance count (by omega)]
    rfl

/-- A store outside the walked cells is invisible. -/
theorem contents_store (count : Nat) (value : α) (valid : Valid capacity first)
    (bounded : (count : Int) ≤ capacity)
    (outside : ∀ offset : Nat, offset < count → slot capacity first offset ≠ index) :
    contents (store cells index value) capacity first count =
      contents cells capacity first count := by
  apply List.ext_getElem?
  intro offset
  by_cases inside : offset < count
  · rw [contents_getElem? _ valid bounded inside, contents_getElem? _ valid bounded inside]
    simp [store, outside offset inside]
  · simp [contents_length, Nat.le_of_not_gt inside]

section

variable (firstValid : Valid capacity first) (pastValid : Valid capacity past)
include firstValid pastValid

theorem window_length :
    ((window cells capacity first past).length : Int) = distance capacity first past := by
  have bounds := distance_valid firstValid pastValid
  rw [window, contents_length]
  exact Int.toNat_of_nonneg bounds.1

theorem window_length_lt :
    ((window cells capacity first past).length : Int) < capacity := by
  rw [window_length cells firstValid pastValid]
  exact (distance_valid firstValid pastValid).2

theorem window_eq_nil :
    window cells capacity first past = [] ↔ first = past := by
  rw [← List.length_eq_zero_iff, ← distance_eq_zero firstValid pastValid,
    ← window_length cells firstValid pastValid]
  omega

/-- The advanced end meets the start exactly when every usable cell is occupied. -/
theorem window_full :
    advance capacity past = first ↔
      ((window cells capacity first past).length : Int) = capacity - 1 := by
  rw [advance_eq_first firstValid pastValid, window_length cells firstValid pastValid]

end

/-- Storing at the end and advancing it appends one element. The stored cell is
not in the old window because its offset is the window's length. -/
theorem window_push (value : α) (firstValid : Valid capacity first)
    (pastValid : Valid capacity past) (room : advance capacity past ≠ first) :
    window (store cells past value) capacity first (advance capacity past) =
      window cells capacity first past ++ [value] := by
  have bounds := distance_valid firstValid pastValid
  have grown := distance_advance_past firstValid pastValid room
  have walked := slot_distance firstValid pastValid
  have count : (distance capacity first (advance capacity past)).toNat =
      (distance capacity first past).toNat + 1 := by
    unfold Valid at bounds
    omega
  unfold window
  rw [count, contents_succ _ _ firstValid (by unfold Valid at bounds; omega), walked]
  congr 1
  · apply contents_store _ _ _ firstValid (by unfold Valid at bounds; omega)
    intro offset inside
    rw [← walked]
    unfold Valid slot at *
    split <;> split <;> omega
  · simp [store]

section

variable (firstValid : Valid capacity first) (pastValid : Valid capacity past)
include firstValid pastValid

/-- Advancing the start of an occupied window removes its oldest element. -/
theorem window_pop (occupied : first ≠ past) :
    window cells capacity first past =
      cells first :: window cells capacity (advance capacity first) past := by
  have shrunk := distance_advance_first firstValid pastValid occupied
  have bounds := distance_valid (advance_valid firstValid) pastValid
  have count : (distance capacity first past).toNat =
      (distance capacity (advance capacity first) past).toNat + 1 := by
    unfold Valid at bounds
    omega
  rw [window, count, contents, window]

/-- The element at a given offset of the window. -/
theorem window_getElem? (inside : (offset : Int) < distance capacity first past) :
    (window cells capacity first past)[offset]? =
      some (cells (slot capacity first offset)) := by
  have bounds := distance_valid firstValid pastValid
  unfold Valid at bounds
  exact contents_getElem? cells firstValid (by omega) (by omega)

/-- The newest element lies one cell before the end, or in the last cell of the
buffer when the end has wrapped. -/
theorem window_getLast? (occupied : first ≠ past) :
    (window cells capacity first past).getLast? =
      some (cells (if past - 1 < 0 then capacity - 1 else past - 1)) := by
  have bounds := distance_valid firstValid pastValid
  have length := window_length cells firstValid pastValid
  have positive : distance capacity first past ≠ 0 := by
    intro zero
    exact occupied ((distance_eq_zero firstValid pastValid).mp zero)
  unfold Valid at bounds
  rw [List.getLast?_eq_getElem?,
    window_getElem? cells firstValid pastValid (by omega)]
  congr 2
  unfold Valid slot distance at *
  split at length <;> split <;> split <;> omega

end

end

end Miranda.CircularBuffer
