import Miranda.Lib.Checked
import Miranda.Vision.Codec
import Mathlib.Data.List.Sort

/-!
# Merging range images

`MergeRangeImage` goes through the rows from the first row of any image on. To each row it
collects the ranges of all images in that row and sorts them, and it stops with the first row
that is behind all images. A single image is returned as it is.

Here the first row of an image is an `int`, as in the source, and may be negative. Overflow is
undefined and has no result. `std::sort` belongs to the library: it rearranges a list so that
no range starts before the range in front of it, and more is not known of it. Sizes of vectors
are converted to `int`, and what comes of one that is too large is left open: there is no result.

The row behind all images has to be an `int`, and so has its distance from the first row, which
is at least the number of rows of each image. Then the result has exactly the pixels of the
images, and otherwise there is no result.
-/

namespace Miranda.Vision

open Checked List

/-- `RangeImage` with the first row as it is stored. -/
structure RangeImage32 where
  mini : Int32
  ranges : List (List ImageRange)
  deriving DecidableEq

/-- `std::sort` with `operator<` of the ranges. -/
structure StdSort where
  sort : List ImageRange → List ImageRange
  perm : ∀ ranges, (sort ranges).Perm ranges
  sorted : ∀ ranges, (sort ranges).Pairwise fun (first second : ImageRange) =>
    first.st ≤ second.st

namespace RangeImage32

def Has (rimg : RangeImage32) (x y : Int) : Prop :=
  ∃ (j : Nat) (line : List ImageRange), rimg.ranges[j]? = some line ∧ y = rimg.mini.toInt + j ∧
    ∃ range ∈ line, range.Has x

/-- The row behind the image. -/
def maxi (rimg : RangeImage32) : Int := rimg.mini.toInt + rimg.ranges.length

/-- The ranges of the image in a row. -/
def line (rimg : RangeImage32) (y : Int) : List ImageRange :=
  if rimg.mini.toInt ≤ y then rimg.ranges.getD (y - rimg.mini.toInt).toNat [] else []

end RangeImage32

/-- The variables of the loop over the images. -/
structure Gathering where
  rangeLst : List ImageRange
  nMissing : Nat
  deriving DecidableEq

/-- The body of the loop over the images. -/
def gatherStep (i : Int) (state : Gathering) (subrimg : RangeImage32) : Option Gathering :=
  if i < subrimg.mini.toInt then some state
  else do
    let ri ← checked (i - subrimg.mini.toInt)
    if ri < subrimg.ranges.length then
      let spans ← subrimg.ranges[ri.toNat]?
      return { state with rangeLst := state.rangeLst ++ spans }
    else return { state with nMissing := state.nMissing + 1 }

/-- What the images have in a row, and how many of them are above it. -/
def gather (blobl : List RangeImage32) (i : Int) : Option Gathering :=
  blobl.foldlM (gatherStep i) ⟨[], 0⟩

/-- The loop that looks for the first row of all images. -/
def minMini (i : Int32) (blobl : List RangeImage32) : Int32 :=
  blobl.foldl (fun i subrimg => if i > subrimg.mini then subrimg.mini else i) i

/-- The loop over the rows. -/
def mergeRows (sort : StdSort) (blobl : List RangeImage32) (i : Int)
    (ranges : List (List ImageRange)) : Option (List (List ImageRange)) :=
  match gather blobl i with
  | none => none
  | some ⟨rangeLst, nMissing⟩ =>
    let ranges := ranges ++ [sort.sort rangeLst]
    if nMissing = blobl.length then some ranges
    else if IsInt (i + 1) then mergeRows sort blobl (i + 1) ranges
    else none
termination_by (intMax - i).toNat
decreasing_by
  rename_i isInt
  have bound := isInt.2
  omega

/-- `MergeRangeImage`, which needs an image. -/
def mergeRangeImage (sort : StdSort) : List RangeImage32 → Option RangeImage32
  | [] => none
  | [blob] => some blob
  | first :: blobl =>
    let mini := minMini first.mini (first :: blobl)
    if (first :: blobl).length ≤ intMax then
      (mergeRows sort (first :: blobl) mini.toInt []).map fun ranges => ⟨mini, ranges⟩
    else none

section Rows

variable {blobl : List RangeImage32} {i : Int}

variable {x y : Int} {rimg : RangeImage32}

theorem RangeImage32.has_iff :
    rimg.Has x y ↔ ∃ range ∈ rimg.line y, range.Has x := by
  constructor
  · rintro ⟨j, line, found, rfl, range, member, inside⟩
    refine ⟨range, ?_, inside⟩
    rw [RangeImage32.line, if_pos (by omega), show rimg.mini.toInt + j - rimg.mini.toInt = j by omega,
      Int.toNat_natCast, getD_eq_getElem?_getD, found]
    exact member
  · rintro ⟨range, member, inside⟩
    rw [RangeImage32.line] at member
    split at member
    · next above =>
      rw [getD_eq_getElem?_getD] at member
      cases found : rimg.ranges[(y - rimg.mini.toInt).toNat]? with
      | none =>
        rw [found] at member
        cases member
      | some line =>
        rw [found] at member
        exact ⟨_, line, found, by omega, range, member, inside⟩
    · cases member

/-- The rows of an image are before its end. -/
theorem RangeImage32.Has.bounds (has : rimg.Has x y) :
    rimg.mini.toInt ≤ y ∧ y < rimg.maxi := by
  obtain ⟨j, line, found, rfl, _⟩ := has
  have inside := (List.getElem?_eq_some_iff.mp found).1
  rw [RangeImage32.maxi]
  omega

/-- An image adds its ranges in the row, or is counted if it is above the row. -/
theorem gatherStep_eq (state : Gathering) (subrimg : RangeImage32) :
    gatherStep i state subrimg =
      if i < subrimg.mini.toInt ∨ IsInt (i - subrimg.mini.toInt) then
        some ⟨state.rangeLst ++ subrimg.line i,
          state.nMissing + if subrimg.maxi ≤ i then 1 else 0⟩
      else none := by
  by_cases below : i < subrimg.mini.toInt
  · have notLater : ¬ subrimg.maxi ≤ i := by
      rw [RangeImage32.maxi]
      omega
    rw [gatherStep, if_pos below, if_pos (.inl below), RangeImage32.line,
      if_neg (Int.not_le.mpr below), if_neg notLater, append_nil, Nat.add_zero]
  · rw [gatherStep, if_neg below]
    by_cases isInt : IsInt (i - subrimg.mini.toInt)
    · rw [checked_of_isInt isInt, if_pos (.inr isInt), Option.bind_eq_bind, Option.bind_some]
      by_cases inside : i - subrimg.mini.toInt < subrimg.ranges.length
      · have notLater : ¬ subrimg.maxi ≤ i := by
          rw [RangeImage32.maxi]
          omega
        have index : (i - subrimg.mini.toInt).toNat < subrimg.ranges.length := by omega
        rw [if_pos inside, if_neg notLater, RangeImage32.line, if_pos (Int.not_lt.mp below),
          getD_eq_getElem?_getD, getElem?_eq_getElem index]
        rfl
      · have later : subrimg.maxi ≤ i := by
          rw [RangeImage32.maxi]
          omega
        have index : subrimg.ranges.length ≤ (i - subrimg.mini.toInt).toNat := by omega
        rw [if_neg inside, if_pos later, RangeImage32.line, if_pos (Int.not_lt.mp below),
          getD_eq_getElem?_getD, getElem?_eq_none index, Option.getD_none,
          append_nil]
        rfl
    · rw [checked_eq_none isInt, if_neg (not_or.mpr ⟨below, isInt⟩)]
      rfl

theorem foldlM_gatherStep (state : Gathering)
    (distances : ∀ subrimg ∈ blobl, i < subrimg.mini.toInt ∨ IsInt (i - subrimg.mini.toInt)) :
    blobl.foldlM (gatherStep i) state =
      some ⟨state.rangeLst ++ blobl.flatMap (RangeImage32.line · i),
        state.nMissing + blobl.countP (·.maxi ≤ i)⟩ := by
  induction blobl generalizing state with
  | nil =>
    rw [flatMap_nil, append_nil]
    rfl
  | cons subrimg blobl ih =>
    rw [forall_mem_cons] at distances
    rw [foldlM_cons, gatherStep_eq, if_pos distances.1, Option.bind_eq_bind, Option.bind_some,
      ih _ distances.2, flatMap_cons, append_assoc, countP_cons]
    simp only [decide_eq_true_eq, Option.some.injEq, Gathering.mk.injEq, true_and]
    omega

theorem foldlM_gatherStep_none (state : Gathering) {subrimg : RangeImage32} (member : subrimg ∈ blobl)
    (above : subrimg.mini.toInt ≤ i) (undefined : ¬ IsInt (i - subrimg.mini.toInt)) :
    blobl.foldlM (gatherStep i) state = none := by
  induction blobl generalizing state with
  | nil => cases member
  | cons first blobl ih =>
    rw [foldlM_cons, gatherStep_eq]
    rcases mem_cons.mp member with rfl | later
    · rw [if_neg (not_or.mpr ⟨Int.not_lt.mpr above, undefined⟩)]
      rfl
    · split
      · exact ih _ later
      · rfl

theorem nMissing_eq {rangeLst : List ImageRange} {nMissing : Nat}
    (gathered : gather blobl i = some ⟨rangeLst, nMissing⟩) :
    nMissing = blobl.countP (·.maxi ≤ i) := by
  by_cases distances : ∀ subrimg ∈ blobl, i < subrimg.mini.toInt ∨ IsInt (i - subrimg.mini.toInt)
  · rw [gather, foldlM_gatherStep _ distances, Nat.zero_add] at gathered
    cases gathered
    rfl
  · push Not at distances
    obtain ⟨subrimg, member, above, undefined⟩ := distances
    rw [gather, foldlM_gatherStep_none _ member above undefined] at gathered
    cases gathered

end Rows

/-- The first row of some images and the row behind them. -/
structure Spans (blobl : List RangeImage32) (first last : Int) : Prop where
  below : ∀ subrimg ∈ blobl, first ≤ subrimg.mini.toInt
  attained : ∃ subrimg ∈ blobl, subrimg.mini.toInt = first
  above : ∀ subrimg ∈ blobl, subrimg.maxi ≤ last
  reached : ∃ subrimg ∈ blobl, subrimg.maxi = last

section Spanning

variable {sort : StdSort} {blobl : List RangeImage32} {first last i : Int}
  {ranges : List (List ImageRange)}

theorem RangeImage32.mini_le_maxi (rimg : RangeImage32) : rimg.mini.toInt ≤ rimg.maxi := by
  rw [RangeImage32.maxi]
  omega

section

variable (spans : Spans blobl first last)
include spans

/-- Before the last row an image is not counted. -/
theorem Spans.countP_ne (before : i < last) :
    blobl.countP (·.maxi ≤ i) ≠ blobl.length := by
  obtain ⟨subrimg, member, reaches⟩ := spans.reached
  intro all
  have counted := countP_eq_length.mp all subrimg member
  rw [decide_eq_true_eq] at counted
  omega

/-- In the last row all images are counted. -/
theorem Spans.countP_eq :
    blobl.countP (·.maxi ≤ last) = blobl.length := by
  rw [countP_eq_length]
  intro subrimg member
  rw [decide_eq_true_eq]
  exact spans.above subrimg member

theorem Spans.gather_eq (inside : i ≤ last)
    (distance : last - first ≤ intMax) :
    gather blobl i =
      some ⟨blobl.flatMap (RangeImage32.line · i), blobl.countP (·.maxi ≤ i)⟩ := by
  rw [gather, foldlM_gatherStep, nil_append, Nat.zero_add]
  intro subrimg member
  have below := spans.below subrimg member
  by_cases later : i < subrimg.mini.toInt
  · exact .inl later
  · have low : intMin ≤ 0 := by decide
    exact .inr ⟨by omega, by omega⟩

theorem Spans.exists_rest : ∃ rest : Nat, first + rest = last := by
  obtain ⟨subrimg, member, begins⟩ := spans.attained
  have above := spans.above subrimg member
  have order := subrimg.mini_le_maxi
  exact ⟨(last - first).toNat, by omega⟩

/-- The loop goes on to the row behind all images. -/
theorem Spans.mergeRows_eq (isInt : last ≤ intMax)
    (distance : last - first ≤ intMax) (first_le : intMin ≤ i) {rest : Nat}
    (toLast : i + rest = last) :
    mergeRows sort blobl i ranges = some (ranges ++ (List.range (rest + 1)).map fun (k : Nat) =>
      sort.sort (blobl.flatMap (RangeImage32.line · (i + k)))) := by
  induction rest generalizing i ranges with
  | zero =>
    rw [mergeRows, spans.gather_eq (by omega) distance]
    have here : i = last := by omega
    subst here
    simp [spans.countP_eq]
  | succ rest ih =>
    rw [mergeRows, spans.gather_eq (by omega) distance]
    dsimp only
    rw [if_neg (spans.countP_ne (by omega)), if_pos ⟨by omega, by omega⟩,
      ih (by omega) (by omega), append_assoc,
      show List.range (rest + 1 + 1) = _ from range_succ_eq_map]
    simp only [map_cons, map_map, singleton_append, Function.comp_def]
    congr 3
    · simp
    · refine map_congr_left fun k _ => ?_
      rw [show i + 1 + (k : Int) = i + (k.succ : Nat) by omega]

/-- The loop has no result if the last row or its distance from the first is no `int`. -/
theorem Spans.mergeRows_none (undefined : ¬ (last ≤ intMax ∧ last - first ≤ intMax))
    (isInt : IsInt i) (firstLe : first ≤ i)
    {rest : Nat} (toLast : i + rest = last) : mergeRows sort blobl i ranges = none := by
  induction rest generalizing i ranges with
  | zero =>
    obtain ⟨subrimg, member, begins⟩ := spans.attained
    have high := isInt.2
    have far : ¬ IsInt (i - subrimg.mini.toInt) := fun distance => undefined ⟨by omega, by
      have bound := distance.2
      omega⟩
    rw [mergeRows, gather, foldlM_gatherStep_none _ member (by omega) far]
  | succ rest ih =>
    rw [mergeRows]
    split
    · rfl
    · next rangeLst nMissing found =>
      have counted : nMissing ≠ blobl.length := by
        rw [nMissing_eq found]
        exact spans.countP_ne (by omega)
      rw [if_neg counted]
      split
      · next inside => exact ih inside (by omega) (by omega)
      · rfl

end

end Spanning

theorem minMini_spec (i : Int32) (blobl : List RangeImage32) :
    (minMini i blobl).toInt ≤ i.toInt ∧
      (∀ subrimg ∈ blobl, (minMini i blobl).toInt ≤ subrimg.mini.toInt) ∧
      (minMini i blobl = i ∨ ∃ subrimg ∈ blobl, subrimg.mini = minMini i blobl) := by
  induction blobl generalizing i with
  | nil => exact ⟨Int.le_refl _, nofun, .inl rfl⟩
  | cons subrimg blobl ih =>
    rw [minMini, foldl_cons, ← minMini]
    by_cases smaller : i > subrimg.mini
    · rw [if_pos smaller]
      obtain ⟨low, below, attained⟩ := ih _
      have less := Int32.lt_iff_toInt_lt.mp smaller
      refine ⟨by omega, forall_mem_cons.mpr ⟨low, below⟩, .inr ?_⟩
      rcases attained with same | ⟨other, member, same⟩
      · exact ⟨subrimg, mem_cons_self, same.symm⟩
      · exact ⟨other, mem_cons_of_mem _ member, same⟩
    · rw [if_neg smaller]
      obtain ⟨low, below, attained⟩ := ih i
      rw [gt_iff_lt, Int32.lt_iff_toInt_lt] at smaller
      refine ⟨low, forall_mem_cons.mpr ⟨by omega, below⟩, attained.imp_right ?_⟩
      rintro ⟨other, member, same⟩
      exact ⟨other, mem_cons_of_mem _ member, same⟩

/-- Some image ends last. -/
theorem exists_last (first : RangeImage32) (blobl : List RangeImage32) :
    ∃ last ∈ first :: blobl, ∀ subrimg ∈ first :: blobl, subrimg.maxi ≤ last.maxi := by
  induction blobl generalizing first with
  | nil =>
    refine ⟨first, mem_singleton_self _, ?_⟩
    rw [forall_mem_singleton]
  | cons second blobl ih =>
    obtain ⟨last, member, above⟩ := ih second
    by_cases later : first.maxi ≤ last.maxi
    · exact ⟨last, mem_cons_of_mem _ member, forall_mem_cons.mpr ⟨later, above⟩⟩
    · refine ⟨first, mem_cons_self, forall_mem_cons.mpr ⟨Int.le_refl _, ?_⟩⟩
      intro subrimg inside
      have bound := above subrimg inside
      omega

/-- The images span the rows from the first row on. -/
theorem exists_spans (first : RangeImage32) (blobl : List RangeImage32) :
    ∃ last, Spans (first :: blobl) (minMini first.mini (first :: blobl)).toInt last := by
  obtain ⟨last, member, above⟩ := exists_last first blobl
  obtain ⟨-, below, attained⟩ := minMini_spec _ _
  refine ⟨last.maxi, below, ?_, above, last, member, rfl⟩
  rcases attained with same | ⟨subrimg, inside, same⟩
  · exact ⟨first, mem_cons_self, congrArg _ same.symm⟩
  · exact ⟨subrimg, inside, congrArg _ same⟩

/-- A row is sorted by where its ranges start. -/
def SortedRow (row : List ImageRange) : Prop :=
  row.Pairwise fun first second => first.st ≤ second.st

/-- An image has the pixels of all images, starts with the first row of them and has sorted
rows. A single image stays as it is, with its rows. -/
structure Merged (blobl : List RangeImage32) (rimg : RangeImage32) : Prop where
  pixels : ∀ x y, rimg.Has x y ↔ ∃ subrimg ∈ blobl, subrimg.Has x y
  below : ∀ subrimg ∈ blobl, rimg.mini ≤ subrimg.mini
  attained : ∃ subrimg ∈ blobl, rimg.mini = subrimg.mini
  single : ∀ subrimg, blobl = [subrimg] → rimg = subrimg
  sorted : blobl.length ≠ 1 ∨ (∀ subrimg ∈ blobl, ∀ row ∈ subrimg.ranges, SortedRow row) →
    ∀ row ∈ rimg.ranges, SortedRow row

/-- The row behind all images and its distance from the first row are of the type `int`. -/
def LastRowFits (blobl : List RangeImage32) : Prop :=
  ∀ subrimg ∈ blobl, subrimg.maxi ≤ intMax ∧
    ∀ other ∈ blobl, subrimg.maxi - other.mini.toInt ≤ intMax

instance (blobl : List RangeImage32) : Decidable (LastRowFits blobl) :=
  inferInstanceAs (Decidable (∀ subrimg ∈ blobl, _ ∧ ∀ other ∈ blobl, _))

theorem merged_single (blob : RangeImage32) : Merged [blob] blob where
  pixels x y := by simp
  below := by simp
  attained := ⟨blob, mem_singleton_self _, rfl⟩
  single subrimg same := (singleton_inj.mp same)
  sorted := by
    rintro (several | sorted)
    · exact absurd rfl several
    · exact sorted blob (mem_singleton_self _)

/-- The pixels of an image whose rows are listed. -/
theorem has_listed {mini : Int32} {count : Nat} {row : Nat → List ImageRange} {x y : Int} :
    (⟨mini, (List.range count).map row⟩ : RangeImage32).Has x y ↔
      ∃ k < count, y = mini.toInt + k ∧ ∃ range ∈ row k, range.Has x := by
  constructor
  · rintro ⟨k, line, found, place, range, member, inside⟩
    have bound := (List.getElem?_eq_some_iff.mp found).1
    rw [length_map, length_range] at bound
    rw [getElem?_map, getElem?_range bound] at found
    cases found
    exact ⟨k, bound, place, range, member, inside⟩
  · rintro ⟨k, bound, place, range, member, inside⟩
    refine ⟨k, row k, ?_, place, range, member, inside⟩
    rw [getElem?_map, getElem?_range bound]
    rfl

section Merging

variable {sort : StdSort} {blobl : List RangeImage32} {mini : Int32} {last : Int}

theorem Spans.lastRowFits_iff (spans : Spans blobl mini.toInt last) :
    LastRowFits blobl ↔ last ≤ intMax ∧ last - mini.toInt ≤ intMax := by
  constructor
  · intro fits
    obtain ⟨subrimg, member, reaches⟩ := spans.reached
    obtain ⟨lowest, inside, begins⟩ := spans.attained
    obtain ⟨bound, distance⟩ := fits subrimg member
    rw [← reaches, ← begins]
    exact ⟨bound, distance lowest inside⟩
  · rintro ⟨bound, distance⟩ subrimg member
    have above := spans.above subrimg member
    refine ⟨by omega, ?_⟩
    intro other inside
    have below := spans.below other inside
    omega

/-- The rows up to the last one have the pixels of all images. -/
theorem Spans.merged (spans : Spans blobl mini.toInt last) (several : blobl.length ≠ 1) {rest : Nat}
    (toLast : mini.toInt + rest = last) :
    Merged blobl ⟨mini, (List.range (rest + 1)).map fun (k : Nat) =>
      sort.sort (blobl.flatMap (RangeImage32.line · (mini.toInt + k)))⟩ := by
  refine ⟨fun x y => ?_, ?_, ?_, ?_, ?_⟩
  · rw [has_listed]
    constructor
    · rintro ⟨k, _, rfl, range, member, inside⟩
      rw [(sort.perm _).mem_iff, mem_flatMap] at member
      obtain ⟨subrimg, inList, inLine⟩ := member
      exact ⟨subrimg, inList, RangeImage32.has_iff.mpr ⟨range, inLine, inside⟩⟩
    · rintro ⟨subrimg, inList, has⟩
      have bounds := has.bounds
      have below := spans.below subrimg inList
      have above := spans.above subrimg inList
      obtain ⟨range, inLine, inside⟩ := RangeImage32.has_iff.mp has
      have place : y = mini.toInt + (y - mini.toInt).toNat := by omega
      refine ⟨(y - mini.toInt).toNat, by omega, place, range, ?_, inside⟩
      rw [(sort.perm _).mem_iff, mem_flatMap, ← place]
      exact ⟨subrimg, inList, inLine⟩
  · intro subrimg member
    rw [Int32.le_iff_toInt_le]
    exact spans.below subrimg member
  · obtain ⟨subrimg, member, begins⟩ := spans.attained
    exact ⟨subrimg, member, Int32.toInt_inj.mp begins.symm⟩
  · rintro subrimg rfl
    exact absurd rfl several
  · intro _ row member
    obtain ⟨k, _, rfl⟩ := mem_map.mp member
    exact sort.sorted _

end Merging

variable {blobl : List RangeImage32}

/-- Two images or more are merged row by row. -/
theorem mergeRangeImage_several (sort : StdSort) (some_image : blobl ≠ [])
    (several : blobl.length ≠ 1) :
    ∃ mini last rest, Spans blobl mini.toInt last ∧ mini.toInt + (rest : Nat) = last ∧
      mergeRangeImage sort blobl = if blobl.length ≤ intMax then
        (mergeRows sort blobl mini.toInt []).map fun ranges => ⟨mini, ranges⟩ else none := by
  match blobl, some_image, several with
  | [_], _, single => exact absurd rfl single
  | first :: second :: blobl, _, _ =>
    obtain ⟨last, spans⟩ := exists_spans first _
    obtain ⟨rest, toLast⟩ := spans.exists_rest
    exact ⟨_, last, rest, spans, toLast, rfl⟩

theorem mergeRangeImage_none (sort : StdSort) (some_image : blobl ≠ []) (several : blobl.length ≠ 1)
    (undefined : ¬ (blobl.length ≤ intMax ∧ LastRowFits blobl)) :
    mergeRangeImage sort blobl = none := by
  obtain ⟨mini, last, rest, spans, toLast, merges⟩ :=
    mergeRangeImage_several sort some_image several
  rw [spans.lastRowFits_iff] at undefined
  rw [merges]
  split
  · next few =>
    have leaves := fun fits => undefined ⟨few, fits⟩
    rw [spans.mergeRows_none leaves (isInt_toInt mini) (Int.le_refl _) toLast]
    rfl
  · rfl

/-- Images are merged exactly if their number, the row behind them and its distance from the first
row are of the type `int`, or if there is only one image.

Proof: the loop runs from the first row of all images to the row behind them (`Spans`), and in
each of these rows it collects what the images have there. It stops before an overflow exactly if
the last row fits. -/
theorem merge_images_iff (sort : StdSort) (blobl : List RangeImage32) (some_image : blobl ≠ []) :
    (∃ rimg, mergeRangeImage sort blobl = some rimg ∧ Merged blobl rimg) ↔
      blobl.length = 1 ∨ blobl.length ≤ intMax ∧ LastRowFits blobl := by
  by_cases single : blobl.length = 1
  · obtain ⟨blob, rfl⟩ := length_eq_one_iff.mp single
    exact iff_of_true ⟨blob, rfl, merged_single blob⟩ (.inl rfl)
  · rw [or_iff_right single]
    by_cases fits : blobl.length ≤ intMax ∧ LastRowFits blobl
    · refine iff_of_true ?_ fits
      obtain ⟨mini, last, rest, spans, toLast, merges⟩ :=
        mergeRangeImage_several sort some_image single
      rw [spans.lastRowFits_iff] at fits
      obtain ⟨few, bound, distance⟩ := fits
      rw [merges, if_pos few, spans.mergeRows_eq bound distance (isInt_toInt mini).1 toLast]
      exact ⟨_, rfl, spans.merged single toLast⟩
    · refine iff_of_false ?_ fits
      rw [mergeRangeImage_none sort some_image single fits]
      rintro ⟨rimg, merged, _⟩
      cases merged

/-- A sorting function of Lean in place of `std::sort`. -/
def mergeSorted : StdSort where
  sort ranges := ranges.mergeSort fun first second => decide (first.st ≤ second.st)
  perm ranges := List.mergeSort_perm ranges _
  sorted ranges := by
    have sorted : (ranges.mergeSort fun first second => decide (first.st ≤ second.st)).Pairwise
        fun first second => decide (first.st ≤ second.st) = true :=
      List.pairwise_mergeSort (fun first second third => by simpa using Int.le_trans)
        (fun first second => by simpa using Int.le_total first.st second.st) ranges
    simpa using sorted

/-- An image that starts in the row of another one. -/
theorem merge_images_iff_two :
    (∃ rimg, mergeRangeImage mergeSorted [⟨-1, [[⟨0, 1⟩], [⟨0, 2⟩]]⟩, ⟨0, [[⟨3, 4⟩]]⟩] = some rimg ∧
        Merged [⟨-1, [[⟨0, 1⟩], [⟨0, 2⟩]]⟩, ⟨0, [[⟨3, 4⟩]]⟩] rimg) ∧
      LastRowFits [⟨-1, [[⟨0, 1⟩], [⟨0, 2⟩]]⟩, ⟨0, [[⟨3, 4⟩]]⟩] := by
  have fits : LastRowFits [⟨-1, [[⟨0, 1⟩], [⟨0, 2⟩]]⟩, ⟨0, [[⟨3, 4⟩]]⟩] := by decide
  exact ⟨(merge_images_iff mergeSorted _ (cons_ne_nil _ _)).mpr (.inr ⟨by decide, fits⟩), fits⟩

/-- Two pixels in the last row that there is. -/
theorem merge_images_overflows :
    mergeRangeImage mergeSorted
      [⟨Int32.maxValue, [[⟨0, 1⟩]]⟩, ⟨Int32.maxValue, [[⟨2, 3⟩]]⟩] = none :=
  mergeRangeImage_none mergeSorted (cons_ne_nil _ _) (by decide) (by decide)

end Miranda.Vision
