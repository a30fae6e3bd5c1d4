import Mathlib.Algebra.GroupWithZero.Nat
import Mathlib.Algebra.BigOperators.Group.List.Basic
import Mathlib.Data.List.Basic

/-!
# Items laid out on pages

Items of different weights are put one after another on pages that start at
multiples of a stride and have the same room each. A page is closed when the next
item does not fit any more, or because somebody asks for a new page; closed pages
are never empty and no item crosses the end of its page.

A layout carries these facts as fields, so every layout that can be built has
them. Its placements are the addresses of all items in order. Weights, room and
stride are arbitrary natural numbers, and nothing is said about what an item is.
-/

namespace Miranda.Paged

open List

universe u
variable {α : Type u}

/-- How much of a page its items take up. -/
def extent (weight : α → Nat) (items : List α) : Nat := (items.map weight).sum

/-- The items of one page with their addresses. -/
def placedFrom (weight : α → Nat) (address : Nat) : List α → List (Nat × α)
  | [] => []
  | item :: rest => (address, item) :: placedFrom weight (address + weight item) rest

/-- The items of consecutive pages with their addresses; the first page has the
given number. -/
def placedPages (weight : α → Nat) (stride number : Nat) : List (List α) → List (Nat × α)
  | [] => []
  | page :: rest =>
    placedFrom weight (number * stride) page ++ placedPages weight stride (number + 1) rest

section Placements

variable {weight : α → Nat} {stride number address place : Nat} {item : α} {items : List α}
  {pages : List (List α)}

@[simp] theorem extent_nil : extent weight ([] : List α) = 0 := rfl

@[simp] theorem extent_cons : extent weight (item :: items) = weight item + extent weight items := by
  simp [extent]

@[simp] theorem extent_append (more : List α) :
    extent weight (items ++ more) = extent weight items + extent weight more := by
  simp [extent]

theorem dvd_extent {unit : Nat} (weights : ∀ item, unit ∣ weight item) :
    unit ∣ extent weight items := by
  induction items with
  | nil => exact Nat.dvd_zero unit
  | cons item rest ih =>
    exact Nat.dvd_add (weights item) ih

theorem placedFrom_append (more : List α) :
    placedFrom weight address (items ++ more) =
      placedFrom weight address items ++
        placedFrom weight (address + extent weight items) more := by
  induction items generalizing address with
  | nil => simp [placedFrom]
  | cons item rest ih =>
    simp [placedFrom, ih, Nat.add_assoc]

theorem placedPages_append (more : List (List α)) :
    placedPages weight stride number (pages ++ more) =
      placedPages weight stride number pages ++
        placedPages weight stride (number + pages.length) more := by
  induction pages generalizing number with
  | nil => simp [placedPages]
  | cons page rest ih =>
    simp [placedPages, ih, Nat.add_assoc, Nat.add_comm 1]

theorem map_snd_placedFrom : (placedFrom weight address items).map Prod.snd = items := by
  induction items generalizing address with
  | nil => rfl
  | cons item rest ih => simp [placedFrom, ih]

theorem map_snd_placedPages :
    (placedPages weight stride number pages).map Prod.snd = pages.flatten := by
  induction pages generalizing number with
  | nil => rfl
  | cons page rest ih =>
    simp [placedPages, ih, map_snd_placedFrom]

/-- An item of a page lies between the page's first address and its extent. -/
theorem mem_placedFrom (member : (place, item) ∈ placedFrom weight address items) :
    address ≤ place ∧ place + weight item ≤ address + extent weight items := by
  induction items generalizing address with
  | nil => cases member
  | cons first rest ih =>
    rcases mem_cons.mp member with same | later
    · cases same
      simp
    · have bounds := ih later
      simp only [extent_cons]
      omega

/-- Items of one page follow one another. -/
theorem placedFrom_pairwise :
    (placedFrom weight address items).Pairwise fun first second =>
      first.1 + weight first.2 ≤ second.1 := by
  induction items generalizing address with
  | nil => exact .nil
  | cons item rest ih =>
    apply Pairwise.cons
    · rintro ⟨place, other⟩ later
      exact (mem_placedFrom later).1
    · exact ih

/-- Addresses are aligned when the start and all weights are. -/
theorem placedFrom_aligned {unit : Nat} (start : unit ∣ address)
    (weights : ∀ item, unit ∣ weight item)
    (member : (place, item) ∈ placedFrom weight address items) : unit ∣ place := by
  induction items generalizing address with
  | nil => cases member
  | cons first rest ih =>
    rcases mem_cons.mp member with same | later
    · cases same
      exact start
    · exact ih (Nat.dvd_add start (weights first)) later

/-- Every placed item belongs to one of the pages. -/
theorem mem_placedPages (member : (place, item) ∈ placedPages weight stride number pages) :
    ∃ index page, pages[index]? = some page ∧
      (place, item) ∈ placedFrom weight ((number + index) * stride) page := by
  induction pages generalizing number with
  | nil => cases member
  | cons page rest ih =>
    rcases mem_append.mp member with here | later
    · exact ⟨0, page, rfl, here⟩
    · obtain ⟨index, found, isPage, inside⟩ := ih later
      refine ⟨index + 1, found, isPage, ?_⟩
      rwa [Nat.add_assoc, Nat.add_comm 1] at inside

/-- The items of every page are placed. -/
theorem placedFrom_subset {index : Nat} {page : List α} (isPage : pages[index]? = some page)
    (member : (place, item) ∈ placedFrom weight ((number + index) * stride) page) :
    (place, item) ∈ placedPages weight stride number pages := by
  induction pages generalizing number index with
  | nil => cases isPage
  | cons first rest ih =>
    apply mem_append.mpr
    cases index with
    | zero =>
      cases isPage
      exact .inl member
    | succ index =>
      rw [Nat.add_comm index 1, ← Nat.add_assoc] at member
      exact .inr (ih isPage member)

end Placements

section Bounded

variable {weight : α → Nat} {stride number place room : Nat} {item : α} {pages : List (List α)}

/-- An item lies on one page, below the page's room. -/
theorem placedPages_inside (fits : ∀ page ∈ pages, extent weight page ≤ room)
    (member : (place, item) ∈ placedPages weight stride number pages) :
    ∃ index < pages.length, (number + index) * stride ≤ place ∧
      place + weight item ≤ (number + index) * stride + room := by
  obtain ⟨index, page, isPage, inside⟩ := mem_placedPages member
  obtain ⟨within, rfl⟩ := List.getElem?_eq_some_iff.mp isPage
  have bounds := mem_placedFrom inside
  have small := fits _ (getElem_mem within)
  exact ⟨index, within, bounds.1, by omega⟩

theorem le_of_mem_placedPages (member : (place, item) ∈ placedPages weight stride number pages) :
    number * stride ≤ place := by
  obtain ⟨index, page, _, inside⟩ := mem_placedPages member
  have bounds := mem_placedFrom inside
  rw [Nat.add_mul] at bounds
  omega

/-- Items of several pages follow one another as well. -/
theorem placedPages_pairwise (fits : ∀ page ∈ pages, extent weight page ≤ stride)
    (number : Nat) :
    (placedPages weight stride number pages).Pairwise fun first second =>
      first.1 + weight first.2 ≤ second.1 := by
  induction pages generalizing number with
  | nil => exact .nil
  | cons page rest ih =>
    have fitsRest : ∀ other ∈ rest, extent weight other ≤ stride :=
      fun other inside => fits other (mem_cons_of_mem _ inside)
    apply pairwise_append.mpr
    refine ⟨placedFrom_pairwise, ih fitsRest _, ?_⟩
    rintro ⟨place, item⟩ here ⟨later, other⟩ after
    have bounds := mem_placedFrom here
    have small := fits page mem_cons_self
    have far := le_of_mem_placedPages after
    rw [Nat.add_mul] at far
    show place + weight item ≤ later
    omega

/-- The items from a page on are those at or after the page's first address. -/
theorem placedPages_drop (fits : ∀ page ∈ pages, extent weight page < stride) (number count : Nat)
    (positive : ∀ item, 0 < weight item) :
    (placedPages weight stride number pages).filter (fun entry =>
        decide ((number + count) * stride ≤ entry.1)) =
      placedPages weight stride (number + count) (pages.drop count) := by
  induction pages generalizing number count with
  | nil => simp [placedPages]
  | cons page rest ih =>
    have fitsRest : ∀ other ∈ rest, extent weight other < stride :=
      fun other inside => fits other (mem_cons_of_mem _ inside)
    cases count with
    | zero =>
      rw [filter_eq_self.mpr]
      · rfl
      · rintro ⟨place, item⟩ member
        simpa using le_of_mem_placedPages member
    | succ count =>
      have later := ih fitsRest (number + 1) count
      rw [Nat.add_assoc, Nat.add_comm 1] at later
      have none : (placedFrom weight (number * stride) page).filter (fun entry =>
          decide ((number + (count + 1)) * stride ≤ entry.1)) = [] := by
        apply filter_eq_nil_iff.mpr
        rintro ⟨place, item⟩ member
        have bounds := mem_placedFrom member
        have small := fits page mem_cons_self
        have some := positive item
        have expand : (number + (count + 1)) * stride =
            number * stride + (count * stride + stride) := by
          rw [Nat.add_mul, Nat.succ_mul]
        simp only [decide_eq_true_eq]
        omega
      rw [placedPages, filter_append, none, nil_append, later, drop_succ_cons]

end Bounded

/-- Closed pages and the page being filled. -/
structure Layout (weight : α → Nat) (room : Nat) where
  closed : List (List α)
  current : List α
  closedFilled : ∀ page ∈ closed, page ≠ []
  closedFits : ∀ page ∈ closed, extent weight page ≤ room
  currentFits : extent weight current ≤ room

namespace Layout

variable {weight : α → Nat} {room : Nat}

/-- One empty page. -/
def empty (weight : α → Nat) (room : Nat) : Layout weight room where
  closed := []
  current := []
  closedFilled := by simp
  closedFits := by simp
  currentFits := by simp

def pages (layout : Layout weight room) : List (List α) := layout.closed ++ [layout.current]

theorem pages_fit (layout : Layout weight room) : ∀ page ∈ layout.pages, extent weight page ≤ room :=
  List.forall_mem_append.mpr ⟨layout.closedFits, List.forall_mem_singleton.mpr layout.currentFits⟩

/-- Every item with its address. -/
def placed (layout : Layout weight room) (stride : Nat) : List (Nat × α) :=
  placedPages weight stride 0 layout.pages

/-- The address after the last item of the current page. -/
def cursor (layout : Layout weight room) (stride : Nat) : Nat :=
  layout.closed.length * stride + extent weight layout.current

/-- Close the current page. -/
def turn (layout : Layout weight room) (filled : layout.current ≠ []) : Layout weight room where
  closed := layout.pages
  current := []
  closedFilled :=
    List.forall_mem_append.mpr ⟨layout.closedFilled, List.forall_mem_singleton.mpr filled⟩
  closedFits := layout.pages_fit
  currentFits := by simp

/-- Put an item on the current page. -/
def add (layout : Layout weight room) (item : α)
    (fits : extent weight layout.current + weight item ≤ room) : Layout weight room where
  closed := layout.closed
  current := layout.current ++ [item]
  closedFilled := layout.closedFilled
  closedFits := layout.closedFits
  currentFits := by simpa using fits

/-- A page on which an item of admissible weight does not fit is not empty. -/
theorem filled_of_full {layout : Layout weight room} {item : α} (fits : weight item ≤ room)
    (full : ¬extent weight layout.current + weight item ≤ room) : layout.current ≠ [] := by
  intro nothing
  rw [nothing] at full
  simp only [extent_nil, Nat.zero_add] at full
  exact full fits

/-- Put an item on the current page if it fits there and on a new page if not. -/
def append (layout : Layout weight room) (item : α) (fits : weight item ≤ room) :
    Layout weight room :=
  if room : extent weight layout.current + weight item ≤ room then layout.add item room
  else (layout.turn (filled_of_full fits room)).add item (by simpa [turn] using fits)

variable (layout : Layout weight room) {stride : Nat} {item : α}

/-- A new page changes no placement. -/
theorem placed_turn (filled : layout.current ≠ []) :
    (layout.turn filled).placed stride = layout.placed stride := by
  unfold placed
  rw [pages, placedPages_append]
  simp [turn, placedPages, placedFrom]

/-- A new item is placed at the cursor, after all others. -/
theorem placed_add (fits : extent weight layout.current + weight item ≤ room) :
    (layout.add item fits).placed stride =
      layout.placed stride ++ [(layout.cursor stride, item)] := by
  unfold placed pages
  rw [placedPages_append, placedPages_append]
  simp [add, placedPages, placedFrom, placedFrom_append, cursor]

/-- Everything placed lies before the cursor. -/
theorem placed_before_cursor (bounded : room ≤ stride) {place : Nat}
    (member : (place, item) ∈ layout.placed stride) :
    place + weight item ≤ layout.cursor stride := by
  unfold placed pages at member
  rw [placedPages_append] at member
  unfold cursor
  rcases mem_append.mp member with old | new
  · obtain ⟨index, within, _, below⟩ := placedPages_inside layout.closedFits old
    have last : (0 + index + 1) * stride ≤ layout.closed.length * stride :=
      Nat.mul_le_mul_right stride (by omega)
    rw [Nat.add_mul] at last
    omega
  · simp only [placedPages, append_nil, Nat.zero_add] at new
    exact (mem_placedFrom new).2

end Layout

end Miranda.Paged
