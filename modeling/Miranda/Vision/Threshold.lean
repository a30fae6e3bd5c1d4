import Mathlib.Data.Int.Order.Basic
import Mathlib.Data.List.Pairwise
import Miranda.Lib.Checked

/-!
# Thresholding: `do_threshold`

The pixels of an image that satisfy a predicate, as ranges of columns in each row. An
image is given by its size and its pixels, row by row. The iterator over the rows is
modelled with its end test, a comparison of pointers, and the end is `w * h` pixels from
the start, a product of `int`s. What a range image caches about its corners and its area
is not modelled.
-/

namespace Miranda.Vision

open Checked List

structure ImageFormat where
  w : Nat
  h : Nat
  deriving DecidableEq

theorem ImageFormat.isInt_size (fmt : ImageFormat) :
    IsInt ((fmt.w : Int) * fmt.h) ↔ fmt.w * fmt.h ≤ intMax := by
  rw [IsInt, ← Int.natCast_mul, Int.ofNat_le]
  refine and_iff_right (Int.le_trans ?_ (Int.natCast_nonneg _))
  decide

/-- `ImagePtr`, for any type of pixels. -/
structure Image (α : Type) where
  fmt : ImageFormat
  data : List α
  size : data.length = fmt.w * fmt.h

/-- The columns from `st` on and before `ed`. -/
structure ImageRange where
  st : Int
  ed : Int
  deriving DecidableEq

def ImageRange.last (range : ImageRange) : Int := range.ed - 1

structure RangeImage where
  /-- The first row. -/
  mini : Nat := 0
  ranges : List (List ImageRange) := []
  deriving DecidableEq

section Thresholding

variable {α : Type}

/-- The iterator moves on by `w` pixels until it is at the end, `w * h` pixels from the
start. Without columns it is there at once. -/
def Image.rows (img : Image α) : List (List α) :=
  if img.fmt.w = 0 then []
  else (List.range img.fmt.h).map fun y => (img.data.drop (y * img.fmt.w)).take img.fmt.w

/-- The rows between the two iterators of `by_row()`. -/
def Image.byRow (img : Image α) : Option (List (List α)) :=
  (checked ((img.fmt.w : Int) * img.fmt.h)).map fun _ => img.rows

/-- The variables of the loop over a row. -/
structure Scan where
  score : Bool := false
  start : Int := -1
  rngs : List ImageRange := []
  x : Int := 0

def Scan.next (fn : α → Bool) (scan : Scan) (px : α) : Scan :=
  if fn px ≠ scan.score then
    if scan.score then
      { scan with
        rngs := scan.rngs ++ [⟨scan.start, scan.x⟩], score := !scan.score, x := scan.x + 1 }
    else { scan with start := scan.x, score := !scan.score, x := scan.x + 1 }
  else { scan with x := scan.x + 1 }

def thresholdRow (fn : α → Bool) (w : Nat) (row : List α) : List ImageRange :=
  let scan := row.foldl (Scan.next fn) {}
  if scan.score then scan.rngs ++ [⟨scan.start, w⟩] else scan.rngs

def doThreshold (img : Image α) (fn : α → Bool) : Option RangeImage :=
  img.byRow.map fun rows => { ranges := rows.map (thresholdRow fn img.fmt.w) }

end Thresholding

/-! ### Rows of ranges -/

def ImageRange.Has (range : ImageRange) (x : Int) : Prop := range.st ≤ x ∧ x < range.ed

/-- Ranges from left to right with at least one column between them. -/
structure Spaced (line : List ImageRange) : Prop where
  proper : ∀ range ∈ line, range.st < range.ed
  apart : line.Pairwise fun left right => left.ed < right.st

/-- The ranges of a row, given which of its columns are on. -/
structure RowOf (on : Int → Prop) (line : List ImageRange) : Prop extends Spaced line where
  covers : ∀ x, on x ↔ ∃ range ∈ line, range.Has x

section Scanning

variable {α : Type} {fn : α → Bool}

theorem spaced_nil : Spaced [] := ⟨nofun, .nil⟩

variable {line : List ImageRange} {seen : List α} {px : α} {scan : Scan}

/-- A range further right. -/
theorem Spaced.concat {range : ImageRange} (spaced : Spaced line) (proper : range.st < range.ed)
    (right : ∀ left ∈ line, left.ed < range.st) :
    Spaced (line ++ [range]) where
  proper found member := by
    rcases mem_append.mp member with before | last
    · exact spaced.proper found before
    · rw [mem_singleton.mp last]
      exact proper
  apart := by
    refine pairwise_append.mpr ⟨spaced.apart, pairwise_singleton _ _, ?_⟩
    intro left member found last
    rw [mem_singleton.mp last]
    exact right left member

theorem Spaced.apart_of_ne {left right : ImageRange} (spaced : Spaced line) (here : left ∈ line)
    (there : right ∈ line) (different : left ≠ right) :
    left.ed < right.st ∨ right.ed < left.st := by
  have either : line.Pairwise fun left right => left.ed < right.st ∨ right.ed < left.st :=
    spaced.apart.imp .inl
  have symmetric : Std.Symm fun left right : ImageRange =>
    left.ed < right.st ∨ right.ed < left.st := ⟨fun _ _ => .symm⟩
  exact either.forall here there different

/-- The columns of a row where the predicate holds. -/
def OnIn (fn : α → Bool) (row : List α) (x : Int) : Prop :=
  ∃ k px, x = (k : Nat) ∧ row[k]? = some px ∧ fn px = true

/-- What has been found of a row so far, with the range that is open closed here. -/
structure Scanned (fn : α → Bool) (seen : List α) (scan : Scan) : Prop where
  x : scan.x = seen.length
  closed : Spaced scan.rngs
  covers : ∀ x, OnIn fn seen x ↔
    (∃ range ∈ scan.rngs, range.Has x) ∨ scan.score = true ∧ scan.start ≤ x ∧ x < scan.x
  behind : ∀ range ∈ scan.rngs, range.ed < if scan.score then scan.start else scan.x
  opened : scan.score = true → scan.start < scan.x

theorem onIn_concat {x : Int} :
    OnIn fn (seen ++ [px]) x ↔ OnIn fn seen x ∨ x = seen.length ∧ fn px = true := by
  constructor
  · rintro ⟨k, found, rfl, there, on⟩
    by_cases inside : k < seen.length
    · rw [getElem?_append_left inside] at there
      exact .inl ⟨k, found, rfl, there, on⟩
    · have last : k = seen.length := by
        have bound := (List.getElem?_eq_some_iff.mp there).1
        rw [length_append, length_singleton] at bound
        omega
      subst last
      rw [getElem?_concat_length] at there
      cases there
      exact .inr ⟨rfl, on⟩
  · rintro (⟨k, found, rfl, there, on⟩ | ⟨rfl, on⟩)
    · have inside := (List.getElem?_eq_some_iff.mp there).1
      exact ⟨k, found, rfl, by rw [getElem?_append_left inside, there], on⟩
    · exact ⟨seen.length, px, rfl, getElem?_concat_length, on⟩

theorem scanned_nil (fn : α → Bool) : Scanned fn [] {} where
  x := rfl
  closed := spaced_nil
  covers x := by
    refine iff_of_false ?_ ?_
    · rintro ⟨k, px, rfl, there, _⟩
      cases there
    · rintro (⟨range, member, _⟩ | ⟨score, _⟩)
      · cases member
      · cases score
  behind := nofun
  opened := nofun

section

variable (scanned : Scanned fn seen scan)
include scanned

/-- A pixel that does not turn the scan on or off. -/
theorem Scanned.same (same : fn px = scan.score) :
    Scanned fn (seen ++ [px]) { scan with x := scan.x + 1 } where
  x := by
    rw [scanned.x, length_append]
    rfl
  closed := scanned.closed
  covers x := by
    rw [onIn_concat, scanned.covers, same, ← scanned.x]
    have opened := scanned.opened
    dsimp only
    constructor
    · rintro ((closed | ⟨score, after, before⟩) | ⟨rfl, score⟩)
      · exact .inl closed
      · exact .inr ⟨score, after, by omega⟩
      · exact .inr ⟨score, by have := opened score; omega, by omega⟩
    · rintro (closed | ⟨score, after, before⟩)
      · exact .inl (.inl closed)
      · by_cases last : x = scan.x
        · exact .inr ⟨last, score⟩
        · exact .inl (.inr ⟨score, after, by omega⟩)
  behind range member := by
    have behind := scanned.behind range member
    dsimp only
    split at behind
    · next score => rwa [if_pos score]
    · next score =>
      rw [if_neg score]
      omega
  opened score := by
    have opened := scanned.opened score
    show scan.start < scan.x + 1
    omega

theorem Scanned.close (score : scan.score = true)
    (off : fn px = false) :
    Scanned fn (seen ++ [px]) { scan with
      rngs := scan.rngs ++ [⟨scan.start, scan.x⟩], score := !scan.score, x := scan.x + 1 } where
  x := by
    rw [scanned.x, length_append]
    rfl
  closed := by
    refine scanned.closed.concat (scanned.opened score) ?_
    intro range member
    have behind := scanned.behind range member
    rwa [if_pos score] at behind
  covers x := by
    rw [onIn_concat, scanned.covers, off, score]
    constructor
    · rintro ((⟨range, member, has⟩ | ⟨_, has⟩) | ⟨_, on⟩)
      · exact .inl ⟨range, mem_append_left _ member, has⟩
      · exact .inl ⟨_, mem_append_right _ mem_cons_self, has⟩
      · cases on
    · rintro (⟨range, member, has⟩ | ⟨on, _⟩)
      · rcases mem_append.mp member with before | last
        · exact .inl (.inl ⟨range, before, has⟩)
        · rw [mem_singleton.mp last] at has
          exact .inl (.inr ⟨rfl, has⟩)
      · cases on
  behind range member := by
    dsimp only
    rw [score, if_neg nofun]
    rcases mem_append.mp member with before | last
    · have behind := scanned.behind range before
      have opened := scanned.opened score
      omega
    · rw [mem_singleton.mp last]
      exact Int.lt_succ _
  opened on := by
    rw [score] at on
    cases on

theorem Scanned.open (score : scan.score = false)
    (on : fn px = true) :
    Scanned fn (seen ++ [px])
      { scan with start := scan.x, score := !scan.score, x := scan.x + 1 } where
  x := by
    rw [scanned.x, length_append]
    rfl
  closed := scanned.closed
  covers x := by
    rw [onIn_concat, scanned.covers, on, score, ← scanned.x]
    dsimp only
    constructor
    · rintro ((closed | ⟨other, _⟩) | ⟨rfl, _⟩)
      · exact .inl closed
      · cases other
      · exact .inr ⟨rfl, le_rfl, Int.lt_succ _⟩
    · rintro (closed | ⟨_, after, before⟩)
      · exact .inl (.inl closed)
      · exact .inr ⟨by omega, rfl⟩
  behind range member := by
    have behind := scanned.behind range member
    rw [score] at behind
    rwa [score]
  opened _ := Int.lt_succ _

theorem Scanned.next (px : α) :
    Scanned fn (seen ++ [px]) (scan.next fn px) := by
  unfold Scan.next
  split
  · next turns =>
    split
    · next score =>
      rw [score] at turns
      exact scanned.close score (Bool.eq_false_iff.mpr turns)
    · next score =>
      rw [Bool.eq_false_iff.mpr score] at turns
      exact scanned.open (Bool.eq_false_iff.mpr score) (Bool.ne_false_iff.mp turns)
  · next same => exact scanned.same (Classical.not_not.mp same)

theorem Scanned.foldl (rest : List α) :
    Scanned fn (seen ++ rest) (rest.foldl (Scan.next fn) scan) := by
  induction rest generalizing seen scan with
  | nil => rwa [append_nil]
  | cons px rest ih =>
    rw [append_cons]
    exact ih (scanned.next px)

end

/-- The ranges of a row are its columns where the predicate holds. -/
theorem thresholdRow_rowOf {row : List α} {w : Nat} (width : row.length = w) :
    RowOf (OnIn fn row) (thresholdRow fn w row) := by
  have scanned := (scanned_nil fn).foldl row
  rw [nil_append] at scanned
  unfold thresholdRow
  dsimp only
  split
  · next score =>
    have opened := scanned.opened score
    rw [scanned.x, width] at opened
    have covers := scanned.covers
    rw [score, scanned.x, width] at covers
    refine ⟨scanned.closed.concat opened ?_, ?_⟩
    · intro range member
      have behind := scanned.behind range member
      rwa [if_pos score] at behind
    · intro x
      rw [covers]
      constructor
      · rintro (⟨range, member, has⟩ | ⟨_, has⟩)
        · exact ⟨range, mem_append_left _ member, has⟩
        · exact ⟨_, mem_append_right _ mem_cons_self, has⟩
      · rintro ⟨range, member, has⟩
        rcases mem_append.mp member with before | last
        · exact .inl ⟨range, before, has⟩
        · rw [mem_singleton.mp last] at has
          exact .inr ⟨rfl, has⟩
  · next score =>
    refine ⟨scanned.closed, ?_⟩
    intro x
    rw [scanned.covers]
    exact or_iff_left fun opened => score opened.1

end Scanning

end Miranda.Vision
