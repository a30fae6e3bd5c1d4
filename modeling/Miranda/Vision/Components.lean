import Miranda.Vision.Sweep

/-!
# Blobs are the connected components

Pixels are neighbours if they are side by side in a row or in a column. Two pixels of an
image are connected, along neighbours that are on, exactly if their ranges are, along
ranges of adjacent rows that touch. So the blobs, which are the classes of ranges, are
the components of the pixels.
-/

namespace Miranda.Vision

open Checked Relation Grouping List

/-- A column and a row. -/
abbrev Pixel := Int × Nat

def Neighbours (p q : Pixel) : Prop :=
  (p.2 = q.2 ∧ (q.1 = p.1 + 1 ∨ p.1 = q.1 + 1)) ∨ (p.1 = q.1 ∧ (q.2 = p.2 + 1 ∨ p.2 = q.2 + 1))

/-- There is a way from one pixel to another along neighbours that are on. -/
def Connected (on : Pixel → Prop) : Pixel → Pixel → Prop :=
  ReflTransGen fun p q => on p ∧ on q ∧ Neighbours p q

/-- The pixels of a blob. -/
def RangeImage.Has (blob : RangeImage) (p : Pixel) : Prop :=
  ∃ j range, p.2 = blob.mini + j ∧ range ∈ line blob.ranges j ∧ range.Has p.1

/-- The pixels of an image that satisfy the predicate. -/
def Image.On {α : Type} (img : Image α) (fn : α → Bool) (p : Pixel) : Prop :=
  ∃ x px, p.1 = (x : Nat) ∧ x < img.fmt.w ∧ p.2 < img.fmt.h ∧
    img.data[p.2 * img.fmt.w + x]? = some px ∧ fn px = true

/-- A list of blobs is the list of the components of the pixels that are on. -/
structure Components (on : Pixel → Prop) (blobs : List RangeImage) : Prop where
  disjoint : blobs.Pairwise fun left right => ∀ p, left.Has p → ¬ right.Has p
  covers : ∀ p, on p ↔ ∃ blob ∈ blobs, blob.Has p
  nonempty : ∀ blob ∈ blobs, ∃ p, blob.Has p
  component : ∀ blob ∈ blobs, ∀ p q, blob.Has p → (blob.Has q ↔ on q ∧ Connected on p q)
  rows : ∀ blob ∈ blobs, blob.ranges ≠ [] ∧ ∀ line ∈ blob.ranges, line ≠ [] ∧ Spaced line

/-! ### Pixels and ranges -/

/-- The pixels of the ranges of an image. -/
def OnRows (rows : Nat → List ImageRange) (p : Pixel) : Prop :=
  ∃ range ∈ rows p.2, range.Has p.1

section Pixels

variable {rows : Nat → List ImageRange} {p q : Pixel} {left right : ImageRange} {x z : Int}
  {y : Nat}

theorem Neighbours.symm (near : Neighbours p q) : Neighbours q p := by
  rcases near with ⟨row, columns⟩ | ⟨column, rows⟩
  · exact .inl ⟨row.symm, columns.symm⟩
  · exact .inr ⟨column.symm, rows.symm⟩

theorem Connected.symm {on : Pixel → Prop} (connected : Connected on p q) : Connected on q p := by
  induction connected with
  | refl => exact .refl
  | tail _ step ih =>
    exact .head ⟨step.2.1, step.1, step.2.2.symm⟩ ih

/-- Ranges of a row with pixels that are the same or side by side are the same. -/
theorem Spaced.eq_of_near {line : List ImageRange} (spaced : Spaced line) (here : left ∈ line)
    (there : right ∈ line) (has : left.Has x) (also : right.Has z) (near : z = x ∨ z = x + 1) :
    left = right := by
  refine Classical.byContradiction fun different => ?_
  have apart := spaced.apart_of_ne here there different
  obtain ⟨begins, ends⟩ := has
  obtain ⟨beginsAlso, endsAlso⟩ := also
  omega

theorem touches_iff (first : left.st < left.ed) (second : right.st < right.ed) :
    left.Touches right ↔ ∃ x, left.Has x ∧ right.Has x := by
  unfold ImageRange.Touches ImageRange.last ImageRange.Has
  constructor
  · rintro ⟨begins, ends⟩
    exact ⟨max left.st right.st, by omega, by omega⟩
  · rintro ⟨x, has, also⟩
    omega

/-- Along a range. -/
theorem connected_right (member : left ∈ rows y) (has : left.Has x) (count : Nat)
    (also : left.Has (x + count)) : Connected (OnRows rows) (x, y) (x + count, y) := by
  induction count with
  | zero =>
    rw [Int.natCast_zero, Int.add_zero]
    exact .refl
  | succ count ih =>
    have inside : left.Has (x + count) := by
      obtain ⟨begins, _⟩ := has
      obtain ⟨_, ends⟩ := also
      constructor <;> omega
    refine (ih inside).tail ⟨⟨left, member, inside⟩, ⟨left, member, also⟩, ?_⟩
    refine .inl ⟨rfl, .inl ?_⟩
    push_cast
    omega

theorem connected_within (member : left ∈ rows y) (has : left.Has x) (also : left.Has z) :
    Connected (OnRows rows) (x, y) (z, y) := by
  by_cases order : x ≤ z
  · obtain ⟨count, rfl⟩ := Int.le.dest order
    exact connected_right member has count also
  · obtain ⟨count, rfl⟩ := Int.le.dest (Int.le_of_lt (Int.not_le.mp order))
    exact (connected_right member also count has).symm

/-! ### Ways along pixels and along ranges -/

/-- A range of the image. -/
def IsNode (rows : Nat → List ImageRange) (node : Node) : Prop := node.2 ∈ rows node.1

variable {a b : Node}

theorem Edge.nodes (edge : Edge rows a b) : IsNode rows a ∧ IsNode rows b := by
  obtain ⟨⟨_, below⟩, first, second, _⟩ := edge
  refine ⟨first, ?_⟩
  rw [IsNode, below]
  exact second

theorem isNode_iff (connected : EqvGen (Edge rows) a b) :
    IsNode rows a ↔ IsNode rows b := by
  induction connected with
  | rel _ _ edge => exact iff_of_true edge.nodes.1 edge.nodes.2
  | refl => exact .rfl
  | symm _ _ _ ih => exact ih.symm
  | trans _ _ _ _ _ first second => exact first.trans second

theorem edge_of_column (first : left ∈ rows y) (second : right ∈ rows (y + 1)) (has : left.Has x)
    (also : right.Has x) : Edge rows (y, left) (y + 1, right) := by
  have touches : left.Touches right := by
    obtain ⟨begins, ends⟩ := has
    obtain ⟨beginsAlso, endsAlso⟩ := also
    unfold ImageRange.Touches ImageRange.last
    omega
  exact ⟨⟨rfl, rfl⟩, first, second, touches⟩

/-- Neighbouring pixels are in one range or in ranges that touch. -/
theorem eqvGen_of_neighbours (spaced : ∀ i, Spaced (rows i)) (near : Neighbours p q)
    (first : left ∈ rows p.2) (has : left.Has p.1) (second : right ∈ rows q.2)
    (also : right.Has q.1) : EqvGen (Edge rows) (p.2, left) (q.2, right) := by
  obtain ⟨x, y⟩ := p
  obtain ⟨z, v⟩ := q
  unfold Neighbours at near
  dsimp only at near first second has also ⊢
  rcases near with ⟨rfl, columns⟩ | ⟨rfl, rowsNear⟩
  · rcases columns with after | before
    · rw [(spaced y).eq_of_near first second has also (.inr after)]
      exact .refl _
    · rw [(spaced y).eq_of_near second first also has (.inr before)]
      exact .refl _
  · rcases rowsNear with rfl | rfl
    · exact .rel _ _ (edge_of_column first second has also)
    · exact .symm _ _ (.rel _ _ (edge_of_column second first also has))

theorem eqvGen_of_connected (spaced : ∀ i, Spaced (rows i))
    (connected : Connected (OnRows rows) p q) (first : left ∈ rows p.2) (has : left.Has p.1)
    (second : right ∈ rows q.2) (also : right.Has q.1) :
    EqvGen (Edge rows) (p.2, left) (q.2, right) := by
  induction connected generalizing right with
  | refl =>
    rw [(spaced p.2).eq_of_near first second has also (.inl rfl)]
    exact .refl _
  | tail _ step ih =>
    obtain ⟨⟨middle, member, inside⟩, _, near⟩ := step
    exact .trans _ _ _ (ih member inside)
      (eqvGen_of_neighbours spaced near member inside second also)

theorem connected_of_eqvGen (spaced : ∀ i, Spaced (rows i)) (connected : EqvGen (Edge rows) a b)
    (node : IsNode rows a) (has : a.2.Has x) (also : b.2.Has z) :
    Connected (OnRows rows) (x, a.1) (z, b.1) := by
  induction connected generalizing x z with
  | rel a b edge =>
    obtain ⟨⟨_, below⟩, first, second, touches⟩ := edge
    have proper := (spaced _).proper _ first
    have properAlso := (spaced _).proper _ second
    obtain ⟨column, inFirst, inSecond⟩ := (touches_iff proper properAlso).mp touches
    rw [below]
    have down : Connected (OnRows rows) (column, a.1) (column, a.1 + 1) :=
      .single ⟨⟨a.2, first, inFirst⟩, ⟨b.2, second, inSecond⟩, .inr ⟨rfl, .inl rfl⟩⟩
    exact ((connected_within first has inFirst).trans down).trans
      (connected_within second inSecond also)
  | refl a => exact connected_within node has also
  | symm a b between ih =>
    exact (ih ((isNode_iff between).mpr node) also has).symm
  | trans a b c before _ first second =>
    have middle := (isNode_iff before).mp node
    have proper := (spaced b.1).proper b.2 middle
    have inside : b.2.Has b.2.st := ⟨le_rfl, proper⟩
    exact (first node has inside).trans (second middle inside also)

end Pixels

/-! ### The list of blobs -/

section Blobs

variable {rows : Nat → List ImageRange} {blobs : BlobDisjointSet} {item : BlobBuilder}
  {bid : Nat} {blob : RangeImage} {p : Pixel}

/-- The entries of the roots. -/
theorem live_iff {up : Int} (there : blobs.djSet.ufindl[bid]? = some up) :
    blobs.Live bid ↔ up < 0 := by
  have inside := (List.getElem?_eq_some_iff.mp there).1
  rw [BlobDisjointSet.Live, and_iff_right inside, parent, there]
  dsimp only
  constructor
  · intro top
    split at top
    · omega
    · cases top
  · intro low
    rw [if_pos (by omega)]

/-- An entry of the list that `get_blobs` goes through. -/
theorem getElem?_blobs {pair : BlobBuilder × Int} {k : Nat} {img : RangeImage}
    (found : (blobs.items.zip blobs.djSet.ufindl)[k]? = some pair)
    (kept : (if pair.2 < 0 then some pair.1.img else none) = some img) :
    blobs.Live k ∧ blobs.items[k]? = some pair.1 ∧ pair.1.img = img := by
  obtain ⟨first, second⟩ := getElem?_zip_eq_some.mp found
  split at kept
  · next low => exact ⟨(live_iff second).mpr low, first, Option.some.inj kept⟩
  · cases kept

theorem mem_getBlobs :
    blob ∈ blobs.getBlobs ↔
      ∃ bid item, blobs.Live bid ∧ blobs.items[bid]? = some item ∧ item.img = blob := by
  rw [BlobDisjointSet.getBlobs, mem_filterMap]
  constructor
  · rintro ⟨pair, member, kept⟩
    obtain ⟨k, found⟩ := mem_iff_getElem?.mp member
    exact ⟨k, pair.1, getElem?_blobs found kept⟩
  · rintro ⟨bid, item, live, there, rfl⟩
    obtain ⟨up, entry⟩ : ∃ up, blobs.djSet.ufindl[bid]? = some up :=
      ⟨_, getElem?_eq_getElem live.1⟩
    refine ⟨(item, up), mem_of_getElem? (getElem?_zip_eq_some.mpr ⟨there, entry⟩), ?_⟩
    exact if_pos ((live_iff entry).mp live)

theorem Built.has_iff (built : Built rows item) :
    item.img.Has p ↔ ∃ range, item.Has (p.2, range) ∧ range.Has p.1 := by
  unfold RangeImage.Has BlobBuilder.Has
  rw [built.mini]
  constructor
  · rintro ⟨j, range, place, member, has⟩
    refine ⟨range, ⟨?_, ?_⟩, has⟩
    · show item.mini ≤ p.2
      omega
    · show range ∈ line _ _
      rwa [place, Nat.add_sub_cancel_left]
  · rintro ⟨range, ⟨above, member⟩, has⟩
    exact ⟨p.2 - item.mini, range, (Nat.add_sub_cancel' above).symm, member, has⟩

theorem Built.spaced (built : Built rows item) (spaced : ∀ i, Spaced (rows i)) :
    item.img.ranges ≠ [] ∧ ∀ line ∈ item.img.ranges, line ≠ [] ∧ Spaced line := by
  refine ⟨ne_nil_of_length_pos built.nonempty, ?_⟩
  intro found member
  obtain ⟨j, inside, rfl⟩ := mem_iff_getElem.mp member
  have same : line _ j = item.img.ranges[j] := getD_eq_getElem _ _ inside
  rw [← same]
  refine ⟨built.filled j inside, ?_, built.ordered j⟩
  intro range here
  exact (spaced _).proper range (built.inside j range here)

/-- The blobs of a finished sweep. -/
theorem Sound.components (sound : Sound rows (IsNode rows) (Edge rows) blobs)
    (spaced : ∀ i, Spaced (rows i)) : Components (OnRows rows) blobs.getBlobs where
  disjoint := by
    rw [BlobDisjointSet.getBlobs, pairwise_filterMap, pairwise_iff_getElem]
    intro j k first second order left keptLeft right keptRight p has also
    obtain ⟨live, there, rfl⟩ := getElem?_blobs (getElem?_eq_getElem first) keptLeft
    obtain ⟨liveAlso, thereAlso, rfl⟩ := getElem?_blobs (getElem?_eq_getElem second) keptRight
    obtain ⟨range, member, inside⟩ := (sound.built _ _ there).has_iff.mp has
    obtain ⟨other, memberAlso, insideAlso⟩ := (sound.built _ _ thereAlso).has_iff.mp also
    have first := (sound.built _ _ there).mem_rows member
    have second := (sound.built _ _ thereAlso).mem_rows memberAlso
    cases (spaced p.2).eq_of_near first second inside insideAlso (.inl rfl)
    have same := sound.classes.disjoint j k _ live liveAlso ⟨_, there, member⟩
      ⟨_, thereAlso, memberAlso⟩
    omega
  covers p := by
    constructor
    · rintro ⟨range, member, has⟩
      obtain ⟨bid, live, item, there, inside⟩ := (sound.classes.covers (p.2, range)).mp member
      exact ⟨item.img, mem_getBlobs.mpr ⟨bid, item, live, there, rfl⟩,
        (sound.built bid item there).has_iff.mpr ⟨range, inside, has⟩⟩
    · rintro ⟨blob, member, has⟩
      obtain ⟨bid, item, live, there, rfl⟩ := mem_getBlobs.mp member
      obtain ⟨range, inside, within⟩ := (sound.built bid item there).has_iff.mp has
      exact ⟨range, (sound.built bid item there).mem_rows inside, within⟩
  nonempty blob member := by
    obtain ⟨bid, item, live, there, rfl⟩ := mem_getBlobs.mp member
    have built := sound.built bid item there
    obtain ⟨range, found⟩ := exists_mem_of_ne_nil _ (built.filled 0 built.nonempty)
    have proper := (spaced _).proper range (built.inside 0 range found)
    exact ⟨(range.st, item.img.mini), 0, range, rfl, found, le_rfl, proper⟩
  component blob member p q has := by
    obtain ⟨bid, item, live, there, rfl⟩ := mem_getBlobs.mp member
    have built := sound.built bid item there
    obtain ⟨range, inside, within⟩ := built.has_iff.mp has
    have node := built.mem_rows inside
    have group : blobs.Group bid _ := ⟨item, there, inside⟩
    rw [built.has_iff]
    constructor
    · rintro ⟨other, also, withinAlso⟩
      have connected := (sound.classes.group_iff live group).mp ⟨item, there, also⟩
      exact ⟨⟨other, built.mem_rows also, withinAlso⟩,
        connected_of_eqvGen spaced connected node within withinAlso⟩
    · rintro ⟨⟨other, also, withinAlso⟩, connected⟩
      have classes := eqvGen_of_connected spaced connected node within also withinAlso
      have reached := (sound.classes.group_iff live group).mpr classes
      exact ⟨other, (group_iff there).mp reached, withinAlso⟩
  rows blob member := by
    obtain ⟨bid, item, live, there, rfl⟩ := mem_getBlobs.mp member
    exact (sound.built bid item there).spaced spaced

end Blobs

/-! ### Images -/

section Images

variable {α : Type} {img : Image α} {fn : α → Bool} {y : Nat}

/-- The ranges of an image. -/
def Image.ranges (img : Image α) (fn : α → Bool) : RangeImage where
  ranges := img.rows.map (thresholdRow fn img.fmt.w)

theorem doThreshold_eq (small : img.fmt.w * img.fmt.h ≤ intMax) :
    doThreshold img fn = some (img.ranges fn) := by
  rw [doThreshold, Image.byRow, checked_of_isInt (img.fmt.isInt_size.mpr small)]
  rfl

theorem doThreshold_none (large : ¬ img.fmt.w * img.fmt.h ≤ intMax) :
    doThreshold img fn = none := by
  rw [doThreshold, Image.byRow, checked_eq_none fun isInt => large (img.fmt.isInt_size.mp isInt)]
  rfl

theorem length_rows (columns : 0 < img.fmt.w) : img.rows.length = img.fmt.h := by
  rw [Image.rows, if_neg (Nat.ne_of_gt columns), length_map, length_range]

/-- The pixels of a row. -/
theorem getElem?_row (x : Nat) :
    ((img.data.drop (y * img.fmt.w)).take img.fmt.w)[x]? =
      if x < img.fmt.w then img.data[y * img.fmt.w + x]? else none := by
  rw [getElem?_take, getElem?_drop]

theorem length_row (inside : y < img.fmt.h) :
    ((img.data.drop (y * img.fmt.w)).take img.fmt.w).length = img.fmt.w := by
  have fits : (y + 1) * img.fmt.w ≤ img.fmt.h * img.fmt.w := Nat.mul_le_mul_right _ inside
  rw [Nat.succ_mul, Nat.mul_comm img.fmt.h, ← img.size] at fits
  rw [length_take, length_drop]
  omega

theorem row_ranges (columns : 0 < img.fmt.w) (inside : y < img.fmt.h) :
    (img.ranges fn).row y =
      thresholdRow fn img.fmt.w ((img.data.drop (y * img.fmt.w)).take img.fmt.w) := by
  rw [RangeImage.row, line, getD_eq_getElem?_getD, Image.ranges, getElem?_map,
    Image.rows, if_neg (Nat.ne_of_gt columns), getElem?_map, getElem?_range inside]
  rfl

theorem row_beyond (beyond : ¬ y < img.fmt.h) (columns : 0 < img.fmt.w) :
    (img.ranges fn).row y = [] := by
  refine line_of_length_le ?_
  rw [Image.ranges, length_map, length_rows columns]
  exact Nat.le_of_not_lt beyond

theorem ranges_spaced (columns : 0 < img.fmt.w) (y : Nat) :
    Spaced ((img.ranges fn).row y) := by
  by_cases inside : y < img.fmt.h
  · rw [row_ranges columns inside]
    exact (thresholdRow_rowOf (length_row inside)).toSpaced
  · rw [row_beyond inside columns]
    exact spaced_nil

theorem onRows_ranges (columns : 0 < img.fmt.w) :
    OnRows (img.ranges fn).row = img.On fn := by
  funext p
  obtain ⟨x, y⟩ := p
  refine propext ?_
  unfold OnRows Image.On
  by_cases inside : y < img.fmt.h
  · rw [row_ranges columns inside, ← (thresholdRow_rowOf (length_row inside)).covers]
    refine exists_congr fun k => exists_congr fun px => and_congr_right fun _ => ?_
    rw [getElem?_row]
    constructor
    · rintro ⟨there, on⟩
      split at there
      · next short => exact ⟨short, inside, there, on⟩
      · cases there
    · rintro ⟨short, _, there, on⟩
      rw [if_pos short]
      exact ⟨there, on⟩
  · rw [row_beyond inside columns]
    exact iff_of_false (fun ⟨_, member, _⟩ => nomatch member) fun ⟨_, _, _, _, short, _⟩ =>
      inside short

/-- For every image with rows: the blobs that `find_blobs` finds in the ranges of
`do_threshold` are the components of the pixels that satisfy the predicate, with their
rows in order, exactly if the image has columns and its number of pixels is an `int`.
Without columns there is no first row to read.

Proof: the ranges of each row are those of its pixels that are on (`onRows_ranges`), the
blobs are the classes of ranges that touch (`findBlobs_sound`), and ranges touch exactly
if their pixels are connected (`Sound.components`). -/
theorem find_blobs_components_iff (img : Image α) (fn : α → Bool) (rows : 0 < img.fmt.h) :
    (∃ blobs, (doThreshold img fn).bind findBlobs = some blobs ∧ Components (img.On fn) blobs) ↔
      0 < img.fmt.w ∧ img.fmt.w * img.fmt.h ≤ intMax := by
  constructor
  · rintro ⟨blobs, found, _⟩
    have small : img.fmt.w * img.fmt.h ≤ intMax := by
      by_contra large
      rw [doThreshold_none large] at found
      cases found
    refine ⟨Nat.pos_of_ne_zero fun none => ?_, small⟩
    have empty : (img.ranges fn).ranges = [] := by
      rw [Image.ranges, Image.rows, if_pos none]
      rfl
    rw [doThreshold_eq small, Option.bind_some, findBlobs, empty] at found
    cases found
  · rintro ⟨columns, small⟩
    have spaced : ∀ i, Spaced ((img.ranges fn).row i) := ranges_spaced columns
    have nonempty : (img.ranges fn).ranges ≠ [] := by
      refine ne_nil_of_length_pos ?_
      rw [Image.ranges, length_map, length_rows columns]
      exact rows
    obtain ⟨blobs, found, sound⟩ := findBlobs_sound spaced nonempty
    refine ⟨blobs.getBlobs, ?_, ?_⟩
    · rw [doThreshold_eq small, Option.bind_some, found]
    · rw [← onRows_ranges columns]
      exact Sound.components sound spaced

/-- Two pixels one above the other, and one apart from them. -/
def corner : Image Bool := ⟨⟨3, 2⟩, [true, false, true, true, false, false], rfl⟩

theorem find_blobs_components_corner :
    0 < corner.fmt.h ∧ 0 < corner.fmt.w ∧ corner.fmt.w * corner.fmt.h ≤ intMax ∧
      ∃ blobs, (doThreshold corner id).bind findBlobs = some blobs ∧
        Components (corner.On id) blobs :=
  ⟨by decide, by decide, by decide,
    (find_blobs_components_iff corner id (by decide)).mpr (by decide)⟩

/-- One row without pixels. -/
def hairline : Image Bool := ⟨⟨0, 1⟩, [], rfl⟩

theorem find_blobs_without_columns :
    0 < hairline.fmt.h ∧
      ¬ ∃ blobs, (doThreshold hairline id).bind findBlobs = some blobs ∧
        Components (hairline.On id) blobs := by
  refine ⟨by decide, ?_⟩
  rintro ⟨blobs, found, _⟩
  have none : (doThreshold hairline id).bind findBlobs = none := rfl
  cases none.symm.trans found

end Images

end Miranda.Vision
