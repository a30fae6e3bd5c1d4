import Mathlib.Data.List.GetD
import Miranda.Vision.FindBlob

/-!
# What a blob under construction has

The rows of a blob are seen through `line`, which is empty where there is no row. What
`add` and `merge` do to the lines and to the number of rows decides which ranges the blob
has, that no row of it is empty and that its rows stay in order.
-/

namespace Miranda.Vision

open List

/-- A range with its row. -/
abbrev Node := Nat × ImageRange

/-- A row, empty if there is none. -/
def line (ranges : List (List ImageRange)) (j : Nat) : List ImageRange := ranges.getD j []

def BlobBuilder.Has (builder : BlobBuilder) (node : Node) : Prop :=
  builder.mini ≤ node.1 ∧ node.2 ∈ line builder.img.ranges (node.1 - builder.mini)

/-- A blob made of ranges of an image, without empty rows and in order. -/
structure Lined (rows : Nat → List ImageRange) (builder : BlobBuilder) : Prop where
  mini : builder.img.mini = builder.mini
  filled : ∀ j < builder.img.ranges.length, line builder.img.ranges j ≠ []
  ordered : ∀ j, (line builder.img.ranges j).Pairwise fun left right => left.ed < right.st
  inside : ∀ j, ∀ range ∈ line builder.img.ranges j, range ∈ rows (builder.mini + j)

/-- The same with at least one row. -/
structure Built (rows : Nat → List ImageRange) (builder : BlobBuilder) : Prop extends
    Lined rows builder where
  nonempty : 0 < builder.img.ranges.length

/-! ### Lines -/

section Lines

variable {ranges rows : List (List ImageRange)} {i j : Nat}

theorem line_of_length_le (beyond : ranges.length ≤ j) : line ranges j = [] := by
  rw [line, getD_eq_getElem?_getD, getElem?_eq_none beyond]
  rfl

variable {range : ImageRange} {change : List ImageRange → List ImageRange}
  {cur prev : List ImageRange}

theorem lt_length_of_mem (member : range ∈ line ranges j) :
    j < ranges.length := by
  refine Nat.lt_of_not_le fun beyond => ?_
  rw [line_of_length_le beyond] at member
  cases member

theorem line_growRows (ranges : List (List ImageRange)) (i j : Nat) :
    line (growRows ranges i) j = line ranges j := by
  unfold growRows
  by_cases inside : j < ranges.length
  · rw [line, line, getD_append _ _ _ _ inside]
  · have beyond := Nat.le_of_not_lt inside
    rw [line_of_length_le beyond, line, getD_append_right _ _ _ _ beyond]
    exact getElem?_getD_replicate_default_eq _ _ _

theorem length_growRows (ranges : List (List ImageRange)) (i : Nat) :
    (growRows ranges i).length = max ranges.length (i + 1) := by
  rw [growRows, length_append, length_replicate]
  omega

theorem line_modify (inside : i < ranges.length) :
    line (ranges.modify i change) j = if j = i then change (line ranges i) else line ranges j := by
  rw [line, line, line, getD_eq_getElem?_getD, getD_eq_getElem?_getD,
    getD_eq_getElem?_getD]
  by_cases same : j = i
  · subst same
    rw [if_pos rfl, getElem?_modify_eq, getElem?_eq_getElem inside]
    rfl
  · rw [if_neg same, getElem?_modify_ne _ _ (.symm same)]

/-- A row that is there or that `growRows` adds is changed. -/
theorem line_grow_modify :
    line ((growRows ranges i).modify i change) j =
      if j = i then change (line ranges i) else line ranges j := by
  rw [line_modify, line_growRows, line_growRows]
  rw [length_growRows]
  omega

theorem length_grow_modify :
    ((growRows ranges i).modify i change).length = max ranges.length (i + 1) := by
  rw [length_modify, length_growRows]

theorem mergeRow_nil (cur : List ImageRange) : mergeRow cur [] = cur :=
  merge_right _

theorem mem_mergeRow :
    range ∈ mergeRow cur prev ↔ range ∈ cur ∨ range ∈ prev :=
  mem_merge

theorem mergeRow_ne_nil (either : cur ≠ [] ∨ prev ≠ []) :
    mergeRow cur prev ≠ [] := by
  rw [← length_pos_iff, mergeRow, length_merge]
  rw [← length_pos_iff, ← length_pos_iff] at either
  omega

theorem line_mergeRows (rows : List (List ImageRange)) :
    line (BlobBuilder.mergeRows ranges i rows) j =
      if i ≤ j then mergeRow (line ranges j) (line rows (j - i)) else line ranges j := by
  induction rows generalizing ranges i with
  | nil =>
    have none : line [] (j - i) = [] := line_of_length_le (Nat.zero_le _)
    rw [BlobBuilder.mergeRows, none, mergeRow_nil, ite_self]
  | cons prev rest ih =>
    rw [BlobBuilder.mergeRows, ih, line_grow_modify]
    by_cases same : j = i
    · subst same
      rw [if_neg (Nat.not_succ_le_self j), if_pos rfl, if_pos (Nat.le_refl j), Nat.sub_self]
      rfl
    · rw [if_neg same]
      by_cases after : i ≤ j
      · have shift : j - i = (j - (i + 1)) + 1 := by omega
        rw [if_pos (by omega), if_pos after, shift]
        rfl
      · rw [if_neg (by omega), if_neg after]

theorem length_mergeRows (rows : List (List ImageRange)) (reaches : i ≤ ranges.length) :
    (BlobBuilder.mergeRows ranges i rows).length = max ranges.length (i + rows.length) := by
  induction rows generalizing ranges i with
  | nil =>
    rw [BlobBuilder.mergeRows, length_nil]
    omega
  | cons prev rest ih =>
    rw [BlobBuilder.mergeRows, ih, length_grow_modify, length_cons]
    · omega
    · rw [length_grow_modify]
      omega

/-- Two rows in order, whose ranges are apart, are in order together. -/
theorem mergeRow_ordered (proper : ∀ range, range ∈ cur ∨ range ∈ prev → range.st < range.ed)
    (first : cur.Pairwise fun left right => left.ed < right.st)
    (second : prev.Pairwise fun left right => left.ed < right.st)
    (apart : ∀ left ∈ cur, ∀ right ∈ prev, left.ed < right.st ∨ right.ed < left.st) :
    (mergeRow cur prev).Pairwise fun left right => left.ed < right.st := by
  induction cur generalizing prev with
  | nil =>
    rw [mergeRow, nil_merge]
    exact second
  | cons left lefts outer =>
    induction prev with
    | nil =>
      rw [mergeRow_nil]
      exact first
    | cons right rights inner =>
      obtain ⟨headFirst, tailFirst⟩ := pairwise_cons.mp first
      obtain ⟨headSecond, tailSecond⟩ := pairwise_cons.mp second
      have between := apart left mem_cons_self right mem_cons_self
      have leftProper := proper left (.inl mem_cons_self)
      have rightProper := proper right (.inr mem_cons_self)
      rw [mergeRow, cons_merge_cons]
      split
      · next earlier =>
        have before : left.st < right.st := of_decide_eq_true earlier
        refine pairwise_cons.mpr ⟨?_, outer ?_ tailFirst second ?_⟩
        · intro range member
          rcases mem_mergeRow.mp member with later | later
          · exact headFirst range later
          · rcases mem_cons.mp later with rfl | further
            · omega
            · have := headSecond range further
              omega
        · intro range member
          exact proper range (member.imp (mem_cons_of_mem left) id)
        · intro found member
          exact apart found (mem_cons_of_mem left member)
      · next later =>
        have after : ¬ left.st < right.st := fun before => later (decide_eq_true before)
        refine pairwise_cons.mpr ⟨?_, inner ?_ tailSecond ?_⟩
        · intro range member
          rcases mem_mergeRow.mp member with found | found
          · rcases mem_cons.mp found with rfl | further
            · omega
            · have := headFirst range further
              omega
          · exact headSecond range found
        · intro range member
          exact proper range (member.imp id (mem_cons_of_mem right))
        · intro found member range inside
          exact apart found member range (mem_cons_of_mem right inside)

end Lines

/-! ### Blobs -/

section Blobs

variable {rows : Nat → List ImageRange} {builder other : BlobBuilder} {i : Nat}
  {rng : ImageRange} {node : Node}

theorem Built.reaches (has : builder.Has node) :
    node.1 < builder.mini + builder.img.ranges.length := by
  have inside := lt_length_of_mem has.2
  have above := has.1
  omega

theorem Built.mem_rows (built : Built rows builder) (has : builder.Has node) :
    node.2 ∈ rows node.1 := by
  have member := built.inside _ _ has.2
  rwa [Nat.add_sub_cancel' has.1] at member

theorem has_add (below : builder.mini ≤ i) :
    (builder.add i rng).Has node ↔ builder.Has node ∨ node = (i, rng) := by
  obtain ⟨row, range⟩ := node
  show _ ∧ range ∈ line ((growRows _ _).modify _ _) (row - builder.mini) ↔ _
  rw [line_grow_modify]
  by_cases same : row = i
  · subst same
    rw [if_pos rfl, mem_append, mem_singleton, Prod.mk.injEq, and_or_left]
    exact or_congr .rfl ⟨fun both => ⟨rfl, both.2⟩, fun both => ⟨below, both.2⟩⟩
  · rw [Prod.mk.injEq, or_iff_left fun both => same both.1]
    refine and_congr_right fun above => ?_
    change builder.mini ≤ row at above
    rw [if_neg (by omega)]

theorem Lined.add (lined : Lined rows builder) (below : builder.mini ≤ i)
    (reaches : i ≤ builder.mini + builder.img.ranges.length) (member : rng ∈ rows i)
    (right : ∀ range, builder.Has (i, range) → range.ed < rng.st) :
    Built rows (builder.add i rng) where
  mini := lined.mini
  filled j short := by
    change j < ((growRows _ _).modify _ _).length at short
    show line ((growRows _ _).modify _ _) j ≠ []
    rw [length_grow_modify] at short
    rw [line_grow_modify]
    split
    · exact concat_ne_nil _ _
    · exact lined.filled j (by omega)
  ordered j := by
    show (line ((growRows _ _).modify _ _) j).Pairwise _
    rw [line_grow_modify]
    split
    · refine pairwise_append.mpr ⟨lined.ordered _, pairwise_singleton _ _, ?_⟩
      intro left inside range last
      rw [mem_singleton.mp last]
      exact right left ⟨below, inside⟩
    · exact lined.ordered j
  inside j range found := by
    change range ∈ line ((growRows _ _).modify _ _) j at found
    show range ∈ rows (builder.mini + j)
    rw [line_grow_modify] at found
    split at found
    · next same =>
      subst same
      rw [Nat.add_sub_cancel' below]
      rcases mem_append.mp found with before | last
      · have old := lined.inside _ _ before
        rwa [Nat.add_sub_cancel' below] at old
      · rwa [mem_singleton.mp last]
    · exact lined.inside j range found
  nonempty := by
    show 0 < ((growRows _ _).modify _ _).length
    rw [length_grow_modify]
    omega

theorem has_new : ((BlobBuilder.new i).add i rng).Has node ↔ node = (i, rng) := by
  rw [has_add (Nat.le_refl i)]
  refine or_iff_right ?_
  rintro ⟨_, member⟩
  cases member

theorem built_new (member : rng ∈ rows i) : Built rows ((BlobBuilder.new i).add i rng) := by
  have none : ∀ j, line (BlobBuilder.new i).img.ranges j = [] := fun j =>
    line_of_length_le (Nat.zero_le j)
  have lined : Lined rows (.new i) := by
    refine ⟨rfl, nofun, ?_, ?_⟩
    · intro j
      exact .nil
    · intro j range found
      cases found
  refine lined.add (Nat.le_refl i) (Nat.le_refl i) member ?_
  rintro range ⟨_, found⟩
  cases found

theorem has_merge (below : builder.mini ≤ other.mini) :
    (builder.merge other).Has node ↔ builder.Has node ∨ other.Has node := by
  obtain ⟨row, range⟩ := node
  show builder.mini ≤ row ∧ range ∈ line (BlobBuilder.mergeRows _ _ _) (row - builder.mini) ↔
    builder.mini ≤ row ∧ _ ∨ other.mini ≤ row ∧ range ∈ line _ _
  rw [line_mergeRows]
  by_cases above : other.mini ≤ row
  · have shift : row - builder.mini - (other.mini - builder.mini) = row - other.mini := by omega
    rw [if_pos (by omega), shift, mem_mergeRow, and_or_left, and_iff_right above]
    exact or_congr .rfl (and_iff_right (Nat.le_trans below above))
  · rw [or_iff_left fun both => above both.1]
    refine and_congr_right fun inside => ?_
    rw [if_neg (by omega)]

/-- Two blobs without a gap between their rows, whose ranges are apart. -/
theorem Built.merge (built : Built rows builder) (second : Built rows other)
    (below : builder.mini ≤ other.mini)
    (reaches : other.mini ≤ builder.mini + builder.img.ranges.length)
    (spaced : ∀ i, Spaced (rows i)) (apart : ∀ node, builder.Has node → ¬ other.Has node) :
    Built rows (builder.merge other) := by
  have lines : ∀ j, line (builder.merge other).img.ranges j =
      if other.mini - builder.mini ≤ j then mergeRow _
        _
      else line _ j := fun j => line_mergeRows _
  have length : (builder.merge other).img.ranges.length = max _
      _ :=
    length_mergeRows _ (by omega)
  have same : ∀ j, other.mini - builder.mini ≤ j →
      other.mini + (j - (other.mini - builder.mini)) = builder.mini + j := by
    intro j after
    omega
  refine ⟨⟨built.mini, ?_, ?_, ?_⟩, ?_⟩
  · intro j short
    rw [lines]
    split
    · refine mergeRow_ne_nil ?_
      by_cases first : j < builder.img.ranges.length
      · exact .inl (built.filled j first)
      · exact .inr (second.filled _ (by omega))
    · exact built.filled j (by omega)
  · intro j
    rw [lines]
    split
    · next after =>
      have first := built.inside j
      have later := second.inside (j - (other.mini - builder.mini))
      rw [same j after] at later
      refine mergeRow_ordered ?_ (built.ordered j) (second.ordered _) ?_
      · rintro range (member | member)
        · exact (spaced _).proper range (first range member)
        · exact (spaced _).proper range (later range member)
      · intro left here right there
        refine (spaced _).apart_of_ne (first left here) (later right there) ?_
        rintro rfl
        refine apart (builder.mini + j, left) ⟨Nat.le_add_right _ _, ?_⟩ ⟨by omega, ?_⟩
        · rwa [Nat.add_sub_cancel_left]
        · rwa [← same j after, Nat.add_sub_cancel_left]
    · exact built.ordered j
  · intro j range member
    rw [lines] at member
    split at member
    · next after =>
      rcases mem_mergeRow.mp member with here | there
      · exact built.inside j range here
      · have later := second.inside _ range there
        rwa [same j after] at later
    · exact built.inside j range member
  · have nonempty := built.nonempty
    omega

end Blobs

end Miranda.Vision
