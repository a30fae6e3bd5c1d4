import Mathlib.Logic.Function.Basic
import Mathlib.Data.List.Basic

/-!
# Singly linked lists in memory

A linked list is a head pointer and a map from cells to the next pointer. `Linked`
relates the two to the list of cells met when following the pointers. A cell is
pushed in front by pointing it at the old head, and popped by moving the head to
the next pointer of the first cell; writes to cells that are not on the list leave
it alone.
-/

namespace Miranda.LinkedList

universe u
variable {α : Type u}

/-- Following `next` from `head` meets exactly these cells and then ends. -/
def Linked (next : α → Option α) : Option α → List α → Prop
  | head, [] => head = none
  | head, first :: rest => head = some first ∧ Linked next (next first) rest

variable {next : α → Option α} {head : Option α} {first : α} {cells rest : List α}

/-- Only the next pointers of the cells on the list matter. -/
theorem Linked.congr {changed : α → Option α} (linked : Linked next head cells)
    (same : ∀ cell ∈ cells, changed cell = next cell) : Linked changed head cells := by
  induction cells generalizing head with
  | nil => exact linked
  | cons first rest ih =>
    obtain ⟨starts, continues⟩ := linked
    refine ⟨starts, ?_⟩
    rw [same first List.mem_cons_self]
    exact ih continues fun cell member =>
      same cell (List.mem_cons_of_mem first member)

theorem Linked.eq_nil (linked : Linked next none cells) : cells = [] := by
  cases cells with
  | nil => rfl
  | cons first rest => cases linked.1

/-- A list that starts at a cell has that cell first, and the rest behind it. -/
theorem Linked.pop (linked : Linked next (some first) cells) :
    ∃ rest, cells = first :: rest ∧ Linked next (next first) rest := by
  cases cells with
  | nil => cases linked
  | cons found rest =>
    obtain ⟨starts, continues⟩ := linked
    cases starts
    exact ⟨rest, rfl, continues⟩

/-- A cell that is not on the list may be pointed at the head and pushed. -/
theorem Linked.push [DecidableEq α] (linked : Linked next head cells) (absent : first ∉ cells) :
    Linked (Function.update next first head) (some first) (first :: cells) := by
  refine ⟨rfl, ?_⟩
  rw [Function.update_self]
  refine linked.congr ?_
  intro cell member
  have different : cell ≠ first := by
    rintro rfl
    exact absent member
  exact Function.update_of_ne different head next

end Miranda.LinkedList
