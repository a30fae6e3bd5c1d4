import Mathlib.Data.List.Basic
import Mathlib.Data.List.Range

/-!
# Layouts of nested records

A layout lists the fields of a record in order. A field is a leaf of some kind or
a group of fields of its own, and a field may be there once or as an array. In
front of the fields of a group there may be a gap that belongs to no field.

From the widths of the kinds follow the size of a layout, the place of every leaf
and the sequence of visits that a walk over the record makes. Without gaps the
places tile the range the layout covers, and the visits of a walk show everything
about a layout but its gaps.

Kinds, names and values are arbitrary; nothing here says how a record is stored.
-/

namespace Miranda.Layouts

open List

/-- The fields of a record. A count of zero is a field that is no array. -/
inductive Layout (ν κ : Type) where
  | nil
  | leaf (name : ν) (count : Nat) (kind : κ) (rest : Layout ν κ)
  | group (name : ν) (count gap : Nat) (body rest : Layout ν κ)
  deriving DecidableEq, Repr

/-- The names from the outermost record to a leaf, each with the array index. -/
abbrev Path (ν : Type) := List (ν × Option Nat)

/-- Where a leaf stands in the record and in the bytes. -/
structure Place (ν κ : Type) where
  path : Path ν
  kind : κ
  offset : Nat
  deriving DecidableEq, Repr

/-- What a walk comes across: a field, the value of a leaf, the start and the end
of a group. -/
inductive Visit (ν κ α : Type) where
  | field (name : ν) (count : Nat)
  | value (kind : κ) (shown : α)
  | opened
  | closed
  deriving DecidableEq, Repr

/-- The same visit under another name. -/
def Visit.rename {ν μ κ α : Type} (naming : ν → μ) : Visit ν κ α → Visit μ κ α
  | .field name count => .field (naming name) count
  | .value kind shown => .value kind shown
  | .opened => .opened
  | .closed => .closed

/-- How many elements a field has. -/
def copies (count : Nat) : Nat := if count = 0 then 1 else count

/-- The index of an element, which a field that is no array does not have. -/
def index (count element : Nat) : Option Nat := if count = 0 then none else some element

theorem copies_pos (count : Nat) : 0 < copies count := by
  simp only [copies]
  split <;> omega

namespace Layout

variable {ν μ κ α β : Type}

/-- The number of bytes the fields take up. -/
def size (width : κ → Nat) : Layout ν κ → Nat
  | nil => 0
  | leaf _ count kind rest => copies count * width kind + rest.size width
  | group _ count gap body rest => copies count * (gap + body.size width) + rest.size width

/-- The places of the leaves, in order. -/
def places (width : κ → Nat) : Layout ν κ → Path ν → Nat → List (Place ν κ)
  | nil, _, _ => []
  | leaf name count kind rest, path, start =>
    ((List.range (copies count)).map fun element =>
      ⟨path ++ [(name, index count element)], kind, start + element * width kind⟩) ++
      rest.places width path (start + copies count * width kind)
  | group name count gap body rest, path, start =>
    ((List.range (copies count)).flatMap fun element =>
      body.places width (path ++ [(name, index count element)])
        (start + element * (gap + body.size width) + gap)) ++
      rest.places width path (start + copies count * (gap + body.size width))

/-- The visits of a walk over the fields, in order. -/
def visits (width : κ → Nat) (value : Place ν κ → α) :
    Layout ν κ → Path ν → Nat → List (Visit ν κ α)
  | nil, _, _ => []
  | leaf name count kind rest, path, start =>
    .field name count :: ((List.range (copies count)).map fun element =>
      .value kind (value ⟨path ++ [(name, index count element)], kind,
        start + element * width kind⟩)) ++
      rest.visits width value path (start + copies count * width kind)
  | group name count gap body rest, path, start =>
    .field name count :: ((List.range (copies count)).flatMap fun element =>
      .opened :: body.visits width value (path ++ [(name, index count element)])
        (start + element * (gap + body.size width) + gap) ++ [.closed]) ++
      rest.visits width value path (start + copies count * (gap + body.size width))

/-- The same fields under other names. -/
def rename (naming : ν → μ) : Layout ν κ → Layout μ κ
  | nil => nil
  | leaf name count kind rest => leaf (naming name) count kind (rest.rename naming)
  | group name count gap body rest =>
    group (naming name) count gap (body.rename naming) (rest.rename naming)

/-- The same fields without the gaps. -/
def close : Layout ν κ → Layout ν κ
  | nil => nil
  | leaf name count kind rest => leaf name count kind rest.close
  | group name count _ body rest => group name count 0 body.close rest.close

end Layout

/-- Pieces, given by where they start and how long they are, follow one another
from a start to a stop without gap or overlap. -/
def Tiles : Nat → Nat → List (Nat × Nat) → Prop
  | start, stop, [] => start = stop
  | start, stop, (offset, length) :: rest => offset = start ∧ Tiles (start + length) stop rest

section Tiling

variable {start middle stop : Nat} {first second : List (Nat × Nat)}

theorem Tiles.append (one : Tiles start middle first) (other : Tiles middle stop second) :
    Tiles start stop (first ++ second) := by
  induction first generalizing start with
  | nil => simpa [Tiles] using one ▸ other
  | cons piece rest ih => exact ⟨one.1, ih one.2⟩

/-- Equally long stretches that are tiled one by one are tiled together. -/
theorem tiles_flatMap (stretch : Nat) (pieces : Nat → List (Nat × Nat)) (start number : Nat)
    (each : ∀ element < number,
      Tiles (start + element * stretch) (start + (element + 1) * stretch) (pieces element)) :
    Tiles start (start + number * stretch) ((List.range number).flatMap pieces) := by
  induction number with
  | zero => simp [Tiles]
  | succ number ih =>
    rw [range_succ, flatMap_append, flatMap_singleton]
    apply Tiles.append
    · apply ih
      intro element inside
      exact each element (Nat.lt_succ_of_lt inside)
    · exact each number (Nat.lt_succ_self number)

end Tiling

namespace Layout

variable {ν μ κ α β : Type} {width : κ → Nat}

@[simp] theorem size_rename (naming : ν → μ) (layout : Layout ν κ) :
    (layout.rename naming).size width = layout.size width := by
  induction layout with
  | nil => rfl
  | leaf name count kind rest ih => simp [rename, size, ih]
  | group name count gap body rest bodyHypothesis restHypothesis =>
    simp [rename, size, bodyHypothesis, restHypothesis]

/-- Without gaps the leaves tile the range that the layout covers, in order. -/
theorem tiles_places (layout : Layout ν κ) (closed : layout.close = layout) (path : Path ν)
    (start : Nat) :
    Tiles start (start + layout.size width)
      ((layout.places width path start).map fun place => (place.offset, width place.kind)) := by
  induction layout generalizing path start with
  | nil => simp [places, size, Tiles]
  | leaf name count kind rest ih =>
    simp only [close, leaf.injEq, true_and] at closed
    simp only [places, map_append, size, ← Nat.add_assoc]
    apply Tiles.append _ (ih closed path _)
    rw [map_map, map_eq_flatMap]
    apply tiles_flatMap
    intro element _
    simp [Tiles, Nat.add_mul, Nat.add_assoc]
  | group name count gap body rest bodyHypothesis restHypothesis =>
    simp only [close, group.injEq, true_and] at closed
    obtain ⟨noGap, bodyClosed, restClosed⟩ := closed
    simp only [places, map_append, size, ← Nat.add_assoc, ← noGap, Nat.zero_add,
      Nat.add_zero]
    apply Tiles.append _ (restHypothesis restClosed path _)
    rw [map_flatMap]
    apply tiles_flatMap
    intro element _
    have tiled := bodyHypothesis bodyClosed (path ++ [(name, index count element)])
      (start + element * body.size width)
    rwa [Nat.add_assoc, ← Nat.succ_mul] at tiled

variable {other value : Place ν κ → α}

/-- A walk only depends on the values at the places of the layout. -/
theorem visits_congr (layout : Layout ν κ) (path : Path ν) (start : Nat)
    (same : ∀ place ∈ layout.places width path start, value place = other place) :
    layout.visits width value path start = layout.visits width other path start := by
  induction layout generalizing path start with
  | nil => rfl
  | leaf name count kind rest ih =>
    simp only [places, mem_append] at same
    simp only [visits]
    rw [ih _ _ fun place member => same place (.inr member)]
    congr 2
    apply map_congr_left
    intro element inside
    rw [same _ (.inl (mem_map_of_mem inside))]
  | group name count gap body rest bodyHypothesis restHypothesis =>
    simp only [places, mem_append] at same
    simp only [visits]
    rw [restHypothesis _ _ fun place member => same place (.inr member)]
    congr 2
    apply flatMap_congr
    intro element inside
    rw [bodyHypothesis _ _ fun place member =>
      same place (.inl (mem_flatMap.mpr ⟨element, inside, member⟩))]

/-- A walk that reads by kind and offset does not depend on the path it starts from. -/
theorem visits_path (read : κ → Nat → α) (layout : Layout ν κ) (path other : Path ν)
    (start : Nat) :
    layout.visits width (fun place => read place.kind place.offset) path start =
      layout.visits width (fun place => read place.kind place.offset) other start := by
  induction layout generalizing path other start with
  | nil => rfl
  | leaf name count kind rest ih =>
    simp only [visits]
    rw [ih path other]
  | group name count gap body rest bodyHypothesis restHypothesis =>
    simp only [visits]
    rw [restHypothesis path other]
    congr 2
    apply flatMap_congr
    intro element _
    rw [bodyHypothesis _ _]

/-- A walk that reads by kind and offset makes the same visits under other names. -/
theorem visits_rename (naming : ν → μ) (read : κ → Nat → α) (layout : Layout ν κ)
    (path : Path ν) (other : Path μ) (start : Nat) :
    (layout.rename naming).visits width (fun place => read place.kind place.offset) other start =
      (layout.visits width (fun place => read place.kind place.offset) path start).map
        (Visit.rename naming) := by
  induction layout generalizing path other start with
  | nil => rfl
  | leaf name count kind rest ih =>
    simp [rename, visits, Visit.rename, ih path other]
  | group name count gap body rest bodyHypothesis restHypothesis =>
    simp only [rename, visits, map_append, map_cons, map_flatMap, size_rename,
      Visit.rename, restHypothesis path other]
    congr 2
    apply flatMap_congr
    intro element _
    rw [bodyHypothesis _]
    rfl

theorem rename_injective {naming : ν → μ} (injective : Function.Injective naming) :
    Function.Injective (rename naming : Layout ν κ → Layout μ κ) := by
  intro layout
  induction layout with
  | nil =>
    intro other same
    cases other with
    | nil => rfl
    | leaf => simp [rename] at same
    | group => simp [rename] at same
  | leaf name count kind rest ih =>
    intro other same
    cases other with
    | nil => simp [rename] at same
    | leaf otherName otherCount otherKind otherRest =>
      simp only [rename, leaf.injEq] at same
      obtain ⟨names, rfl, rfl, rests⟩ := same
      rw [injective names, ih rests]
    | group => simp [rename] at same
  | group name count gap body rest bodyHypothesis restHypothesis =>
    intro other same
    cases other with
    | nil => simp [rename] at same
    | leaf => simp [rename] at same
    | group otherName otherCount otherGap otherBody otherRest =>
      simp only [rename, group.injEq] at same
      obtain ⟨names, rfl, rfl, bodies, rests⟩ := same
      rw [injective names, bodyHypothesis bodies, restHypothesis rests]

theorem close_rename (naming : ν → μ) (layout : Layout ν κ) :
    (layout.rename naming).close = layout.close.rename naming := by
  induction layout with
  | nil => rfl
  | leaf name count kind rest ih => simp [rename, close, ih]
  | group name count gap body rest bodyHypothesis restHypothesis =>
    simp [rename, close, bodyHypothesis, restHypothesis]

theorem size_close_le (width : κ → Nat) (layout : Layout ν κ) :
    layout.close.size width ≤ layout.size width := by
  induction layout with
  | nil => exact Nat.le_refl _
  | leaf name count kind rest ih =>
    exact Nat.add_le_add_left ih _
  | group name count gap body rest bodyHypothesis restHypothesis =>
    exact Nat.add_le_add (Nat.mul_le_mul_left _ (by omega)) restHypothesis

/-- A layout that is as small as its fields allow has no gaps. -/
theorem close_eq_of_size (layout : Layout ν κ)
    (small : layout.size width = layout.close.size width) : layout.close = layout := by
  induction layout with
  | nil => rfl
  | leaf name count kind rest ih =>
    rw [close, ih (Nat.add_left_cancel small)]
  | group name count gap body rest bodyHypothesis restHypothesis =>
    simp only [close, size, Nat.zero_add] at small
    have inner := body.size_close_le width
    have outer := rest.size_close_le width
    have elements : copies count * body.close.size width ≤
        copies count * (gap + body.size width) := Nat.mul_le_mul_left _ (by omega)
    have element : body.close.size width = gap + body.size width :=
      Nat.eq_of_mul_eq_mul_left (copies_pos count) (by omega)
    rw [close, bodyHypothesis (by omega), restHypothesis (by omega), show gap = 0 by omega]

/-- What comes after the visits of the fields of a record is no field. -/
def Ends (visits : List (Visit ν κ α)) : Prop :=
  ∀ name count later, visits ≠ .field name count :: later

theorem ends_closed (later : List (Visit ν κ α)) : Ends (.closed :: later) := by
  intro name count others
  simp

/-- What each element of two lists gives can be told apart from what follows, so
the whole can. -/
theorem flatMap_peel {γ δ : Type} (claim : Prop) {first second : γ → List δ}
    (each : ∀ element before after, first element ++ before = second element ++ after →
      claim ∧ before = after) (elements : List γ) (before after : List δ)
    (same : elements.flatMap first ++ before = elements.flatMap second ++ after) :
    (elements ≠ [] → claim) ∧ before = after := by
  induction elements with
  | nil => exact ⟨fun absurd => (absurd rfl).elim, same⟩
  | cons element rest ih =>
    simp only [flatMap_cons, append_assoc] at same
    obtain ⟨holds, remaining⟩ := each element _ _ same
    exact ⟨fun _ => holds, (ih remaining).2⟩

theorem range_copies (count : Nat) : ∃ others, List.range (copies count) = 0 :: others := by
  obtain ⟨number, successor⟩ := Nat.exists_eq_succ_of_ne_zero (copies_pos count).ne'
  rw [successor, range_succ_eq_map]
  exact ⟨_, rfl⟩

/-- The visits of a walk show the layout, gaps apart, and where it ends. -/
theorem visits_inj (one two : Layout ν κ) (path place : Path ν) (start begins : Nat)
    (later after : List (Visit ν κ α)) (ends : Ends later) (stops : Ends after)
    (same : one.visits width value path start ++ later =
      two.visits width other place begins ++ after) :
    one.close = two.close ∧ later = after := by
  induction one generalizing two path place start begins later after with
  | nil =>
    cases two with
    | nil => exact ⟨rfl, same⟩
    | leaf => exact (ends _ _ _ same).elim
    | group => exact (ends _ _ _ same).elim
  | leaf name count kind rest ih =>
    obtain ⟨others, elements⟩ := range_copies count
    cases two with
    | nil => exact (stops _ _ _ same.symm).elim
    | leaf otherName otherCount otherKind otherRest =>
      simp only [visits, cons_append, append_assoc, cons.injEq,
        Visit.field.injEq] at same
      obtain ⟨⟨rfl, rfl⟩, same⟩ := same
      obtain ⟨values, remaining⟩ := append_inj same (by simp)
      obtain ⟨rests, tails⟩ := ih _ _ _ _ _ _ _ ends stops remaining
      simp only [elements, map_cons, cons.injEq, Visit.value.injEq] at values
      rw [close, rests, values.1.1]
      exact ⟨rfl, tails⟩
    | group otherName otherCount otherGap otherBody otherRest =>
      simp only [visits, cons_append, cons.injEq, Visit.field.injEq] at same
      obtain ⟨⟨rfl, rfl⟩, same⟩ := same
      simp [elements] at same
  | group name count gap body rest bodyHypothesis restHypothesis =>
    obtain ⟨others, elements⟩ := range_copies count
    cases two with
    | nil => exact (stops _ _ _ same.symm).elim
    | leaf otherName otherCount otherKind otherRest =>
      simp only [visits, cons_append, cons.injEq, Visit.field.injEq] at same
      obtain ⟨⟨rfl, rfl⟩, same⟩ := same
      simp [elements] at same
    | group otherName otherCount otherGap otherBody otherRest =>
      simp only [visits, cons_append, append_assoc, cons.injEq,
        Visit.field.injEq] at same
      obtain ⟨⟨rfl, rfl⟩, same⟩ := same
      obtain ⟨bodies, remaining⟩ := flatMap_peel _ (by
        intro element before following inner
        simp only [cons_append, append_assoc, cons.injEq, true_and] at inner
        obtain ⟨closes, tails⟩ := bodyHypothesis _ _ _ _ _ _ _ (ends_closed _) (ends_closed _)
          inner
        exact ⟨closes, by simpa using tails⟩) _ _ _ same
      obtain ⟨rests, tails⟩ := restHypothesis _ _ _ _ _ _ _ ends stops remaining
      rw [close, close, bodies (by simp [elements]), rests]
      exact ⟨rfl, tails⟩

end Layout

end Miranda.Layouts
