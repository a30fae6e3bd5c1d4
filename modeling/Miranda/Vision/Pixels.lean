import Miranda.Vision.Threshold
import Mathlib.Tactic.Linarith

/-!
# The pixels of an image

A pixel is addressed by its column and its row. `get_px` leaves the program for a point that is
not in the image. The index of a pixel is computed as an `int`, which is possible if the number of
pixels of the image is one.
-/

namespace Miranda.Vision

open Checked

structure Pt where
  x : Int
  y : Int
  deriving DecidableEq

/-- One of the eight points around a point. -/
def Pt.Neighbour (p q : Pt) : Prop := p ≠ q ∧ |q.x - p.x| ≤ 1 ∧ |q.y - p.y| ≤ 1

def ImageFormat.Inside (fmt : ImageFormat) (p : Pt) : Prop :=
  (0 ≤ p.y ∧ p.y < fmt.h) ∧ 0 ≤ p.x ∧ p.x < fmt.w

instance (fmt : ImageFormat) (p : Pt) : Decidable (fmt.Inside p) :=
  inferInstanceAs (Decidable (_ ∧ _))

/-- The place of a pixel in the data. -/
def ImageFormat.offset (fmt : ImageFormat) (p : Pt) : Nat := (p.x + p.y * fmt.w).toNat

/-- The index that `get_px` computes. -/
def ImageFormat.index (fmt : ImageFormat) (p : Pt) : Option Nat := do
  let row ← checked (p.y * fmt.w)
  let index ← checked (p.x + row)
  return index.toNat

section Places

variable {fmt : ImageFormat} {p q : Pt}

theorem ImageFormat.index_div (left : 0 ≤ p.x) (right : p.x < fmt.w) :
    (p.x + p.y * fmt.w) / fmt.w = p.y := by
  rw [Int.add_mul_ediv_right _ _ (by omega), Int.ediv_eq_zero_of_lt left right, Int.zero_add]

/-- The places of an image are those before its end. -/
theorem ImageFormat.Inside.offset_lt (inside : fmt.Inside p) :
    0 ≤ p.y * fmt.w ∧ p.x + p.y * fmt.w < fmt.w * fmt.h := by
  obtain ⟨⟨top, bottom⟩, _, right⟩ := inside
  have rows : p.y * fmt.w + fmt.w ≤ fmt.w * fmt.h := by
    have step : (p.y + 1) * fmt.w ≤ fmt.h * fmt.w :=
      Int.mul_le_mul_of_nonneg_right bottom (Int.natCast_nonneg _)
    linarith
  exact ⟨Int.mul_nonneg top (Int.natCast_nonneg _), by omega⟩

/-- The rows do not overlap. -/
theorem ImageFormat.offset_injective (here : fmt.Inside p) (there : fmt.Inside q)
    (same : fmt.offset p = fmt.offset q) : p = q := by
  have nonneg := here.offset_lt.1
  have nonneg' := there.offset_lt.1
  obtain ⟨_, left, right⟩ := here
  obtain ⟨_, left', right'⟩ := there
  rw [ImageFormat.offset, ImageFormat.offset] at same
  have equal : p.x + p.y * fmt.w = q.x + q.y * fmt.w := by omega
  have rows : p.y = q.y := by
    rw [← ImageFormat.index_div left right, equal, ImageFormat.index_div left' right']
  have columns : p.x = q.x := by
    rw [rows] at equal
    omega
  cases p
  cases q
  exact Pt.mk.injEq .. ▸ ⟨columns, rows⟩

/-- In an image whose size is an `int` nothing overflows. -/
theorem ImageFormat.index_eq (small : fmt.w * fmt.h ≤ intMax) (inside : fmt.Inside p) :
    fmt.index p = some (fmt.offset p) := by
  obtain ⟨nonneg, below⟩ := inside.offset_lt
  obtain ⟨_, left, _⟩ := inside
  have bound := (fmt.isInt_size.mpr small).2
  have low : intMin ≤ 0 := by decide
  have isIntRow : IsInt (p.y * fmt.w) := ⟨by omega, by omega⟩
  have isIntIndex : IsInt (p.x + p.y * fmt.w) := ⟨by omega, by omega⟩
  simp only [index, checked_of_isInt isIntRow, checked_of_isInt isIntIndex, Option.bind_eq_bind,
    Option.bind_some]
  rfl

end Places

section Access

variable {α : Type}

/-- `get_px`, where it returns. -/
def Image.getPx (img : Image α) (p : Pt) : Option α :=
  if img.fmt.Inside p then (img.fmt.index p).bind (img.data[·]?) else none

/-- The image with another value at a place. -/
def Image.set (img : Image α) (place : Nat) (px : α) : Image α where
  fmt := img.fmt
  data := img.data.set place px
  size := List.length_set.trans img.size

/-- An assignment to the result of `get_px`. -/
def Image.setPx (img : Image α) (p : Pt) (px : α) : Option (Image α) :=
  (img.fmt.index p).map fun index => img.set index px

theorem Image.offset_lt (img : Image α) {p : Pt} (inside : img.fmt.Inside p) :
    img.fmt.offset p < img.data.length := by
  obtain ⟨nonneg, below⟩ := inside.offset_lt
  obtain ⟨_, left, _⟩ := inside
  rw [img.size, ImageFormat.offset]
  omega

theorem Image.getPx_set (img : Image α) {p : Pt} (q : Pt) (px : α) (inside : img.fmt.Inside p)
    (small : img.fmt.w * img.fmt.h ≤ intMax) :
    (img.set (img.fmt.offset p) px).getPx q = if q = p then some px else img.getPx q := by
  by_cases same : q = p
  · subst same
    rw [if_pos rfl, Image.getPx, Image.set, if_pos inside, ImageFormat.index_eq small inside,
      Option.bind_some, List.getElem?_set_self (img.offset_lt inside)]
  · rw [if_neg same, Image.getPx, Image.getPx, Image.set]
    by_cases there : img.fmt.Inside q
    · rw [if_pos there, if_pos there, ImageFormat.index_eq small there, Option.bind_some,
        Option.bind_some, List.getElem?_set_ne]
      exact fun equal => same (ImageFormat.offset_injective there inside equal.symm)
    · rw [if_neg there, if_neg there]

end Access

end Miranda.Vision
