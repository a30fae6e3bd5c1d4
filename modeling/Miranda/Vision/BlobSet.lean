import Miranda.Lib.Forest
import Miranda.Lib.Grouping
import Miranda.Vision.Builder

/-!
# The blobs as classes of ranges

The disjoint set is a forest whose roots are the blobs. `Sound` says that the blobs under
construction are the classes of the ranges placed so far, connected by the edges drawn so
far. The three operations on the set are described by what they place and draw, and by
that the number of a blob goes on standing for the ranges it stood for.
-/

namespace Miranda.Vision

open Forest Grouping List Function Finset

/-! ### The forest -/

/-- The parent of an element that is not a root. -/
def parent (ufindl : List Int) (bid : Nat) : Option Nat :=
  match ufindl[bid]? with
  | none => none
  | some tid => if tid ≤ -1 then none else some tid.toNat

/-- What the entries of a disjoint set have to be. -/
abbrev Rooted (ufindl : List Int) : Prop :=
  IsForest (parent ufindl) (Finset.range ufindl.length)

/-- What `find` may do to the entries. -/
structure Compressed (ufindl stored : List Int) : Prop where
  length : stored.length = ufindl.length
  rooted : Rooted stored
  roots : ∀ bid, parent stored bid = none ↔ parent ufindl bid = none
  leads : ∀ bid root steps, Leads (parent ufindl) bid root steps →
    ∃ near ≤ steps, Leads (parent stored) bid root near

section Entries

variable {ufindl stored : List Int} {bid root steps fuel : Nat}

theorem parent_add (ufindl : List Int) : parent (ufindl ++ [-1]) = parent ufindl := by
  funext bid
  unfold parent
  by_cases inside : bid < ufindl.length
  · rw [getElem?_append_left inside]
  · have beyond := Nat.le_of_not_lt inside
    rw [getElem?_eq_none beyond]
    by_cases last : bid = ufindl.length
    · rw [last, getElem?_concat_length]
      rfl
    · rw [getElem?_eq_none]
      rw [length_append, length_singleton]
      omega

theorem parent_set (inside : bid < ufindl.length) (root : Nat) :
    parent (ufindl.set bid root) = Function.update (parent ufindl) bid (some root) := by
  funext other
  by_cases same : other = bid
  · subst same
    rw [update_self, parent, getElem?_set_self inside]
    dsimp only
    rw [if_neg (by omega), Int.toNat_natCast]
  · rw [update_of_ne same, parent, parent, getElem?_set_ne (.symm same)]

theorem Rooted.add (rooted : Rooted ufindl) : Rooted (ufindl ++ [-1]) := by
  have grown := rooted.grow notMem_range_self
  rw [Rooted, parent_add, length_append, length_singleton, range_add_one]
  exact grown

theorem Compressed.refl (rooted : Rooted ufindl) : Compressed ufindl ufindl where
  length := rfl
  rooted := rooted
  roots _ := .rfl
  leads _ _ steps leads := ⟨steps, le_rfl, leads⟩

/-- The store to an entry on the way. -/
theorem Compressed.store (compressed : Compressed ufindl stored) (inside : bid < ufindl.length)
    (leads : Leads (parent ufindl) bid root steps) (below : bid ≠ root) :
    Compressed ufindl (stored.set bid root) := by
  have here : bid < stored.length := by
    rw [compressed.length]
    exact inside
  obtain ⟨near, _, known⟩ := compressed.leads bid root steps leads
  have rooted := compressed.rooted.compress (Finset.mem_range.mpr here) known below
  refine ⟨by rw [length_set, compressed.length], ?_, ?_, ?_⟩
  · rw [Rooted, parent_set here, length_set]
    exact rooted
  · intro other
    rw [parent_set here, ← compressed.roots]
    by_cases same : other = bid
    · subst same
      rw [update_self]
      refine iff_of_false nofun ?_
      intro top
      exact below (Leads.unique (.root top) known)
    · rw [update_of_ne same]
  · intro other found far away
    obtain ⟨nearer, fewer, there⟩ := compressed.leads other found far away
    obtain ⟨nearest, fewest, reached⟩ := there.compress known below
    rw [parent_set here]
    exact ⟨nearest, fewest.trans fewer, reached⟩

theorem findIn_spec (rooted : Rooted ufindl) (leads : Leads (parent ufindl) bid root steps)
    (inside : bid < ufindl.length) (enough : steps < fuel) :
    ∃ stored, DisjointSet.findIn fuel ufindl bid = some (root, stored) ∧
      Compressed ufindl stored := by
  induction leads generalizing fuel with
  | @root bid top =>
    obtain ⟨fuel, rfl⟩ := Nat.exists_eq_succ_of_ne_zero (Nat.ne_of_gt enough)
    refine ⟨ufindl, ?_, .refl rooted⟩
    rw [parent, getElem?_eq_getElem inside] at top
    rw [DisjointSet.findIn, getElem?_eq_getElem inside]
    dsimp only at top ⊢
    split at top
    · next low => rw [if_pos low]
    · cases top
  | @step bid above root steps points rest ih =>
    obtain ⟨fuel, rfl⟩ := Nat.exists_eq_succ_of_ne_zero (Nat.ne_of_gt (Nat.zero_lt_of_lt enough))
    have leads := Leads.step points rest
    have there := Finset.mem_range.mp (rooted.inside bid above points).2
    have shorter : steps < fuel := Nat.lt_of_succ_lt_succ enough
    obtain ⟨stored, found, compressed⟩ := ih there shorter
    have below : bid ≠ root := by
      rintro rfl
      cases leads.top.symm.trans points
    refine ⟨stored.set bid root, ?_, compressed.store inside leads below⟩
    rw [parent, getElem?_eq_getElem inside] at points
    rw [DisjointSet.findIn, getElem?_eq_getElem inside]
    dsimp only at points ⊢
    split at points
    · cases points
    · next high =>
      rw [if_neg high, Option.some.inj points, found]

theorem find_spec {set : DisjointSet} (rooted : Rooted set.ufindl)
    (inside : bid < set.ufindl.length) :
    ∃ root steps stored, set.find bid = some (root, ⟨stored⟩) ∧
      Leads (parent set.ufindl) bid root steps ∧ Compressed set.ufindl stored := by
  obtain ⟨root, steps, leads, bound⟩ := rooted.leads bid (Finset.mem_range.mpr inside)
  have few := bound.trans (inner_card_le _ _)
  rw [card_range] at few
  obtain ⟨stored, found, compressed⟩ := findIn_spec rooted leads inside (Nat.lt_succ_of_le few)
  refine ⟨root, steps, stored, ?_, leads, compressed⟩
  rw [DisjointSet.find, found]
  rfl

end Entries

/-! ### Blobs -/

namespace BlobDisjointSet

/-- The numbers of the blobs. -/
def Live (blobs : BlobDisjointSet) (bid : Nat) : Prop :=
  bid < blobs.djSet.ufindl.length ∧ parent blobs.djSet.ufindl bid = none

def Group (blobs : BlobDisjointSet) (bid : Nat) (node : Node) : Prop :=
  ∃ item, blobs.items[bid]? = some item ∧ item.Has node

/-- The ranges that are in the blob which a number leads to. -/
def Stands (blobs : BlobDisjointSet) (bid : Nat) (node : Node) : Prop :=
  bid < blobs.djSet.ufindl.length ∧
    ∃ root steps, Leads (parent blobs.djSet.ufindl) bid root steps ∧ blobs.Group root node

end BlobDisjointSet

/-- The blobs are the classes of the ranges placed, by the edges drawn. -/
structure Sound (rows : Nat → List ImageRange) (placed : Node → Prop) (edge : Node → Node → Prop)
    (blobs : BlobDisjointSet) : Prop where
  rooted : Rooted blobs.djSet.ufindl
  length : blobs.items.length = blobs.djSet.ufindl.length
  built : ∀ (bid : Nat) item, blobs.items[bid]? = some item → Built rows item
  classes : Classes blobs.Live blobs.Group edge placed

section Operations

variable {rows : Nat → List ImageRange} {placed : Node → Prop} {edge : Node → Node → Prop}
  {blobs : BlobDisjointSet} {stored : List Int} {bid root steps i : Nat} {rng : ImageRange}
  {node : Node}

theorem sound_empty (rows : Nat → List ImageRange) :
    Sound rows (fun _ => False) (fun _ _ => False) {} where
  rooted := ⟨nofun, nofun⟩
  length := rfl
  built := nofun
  classes := classes_empty (fun _ live => nomatch live.1) _

/-- `find` changes nothing about the blobs. -/
theorem Sound.compress (sound : Sound rows placed edge blobs)
    (compressed : Compressed blobs.djSet.ufindl stored) :
    Sound rows placed edge ⟨⟨stored⟩, blobs.items⟩ where
  rooted := compressed.rooted
  length := sound.length.trans compressed.length.symm
  built := sound.built
  classes := by
    refine sound.classes.congr ?_ fun _ _ _ => .rfl
    intro bid
    show bid < stored.length ∧ _ ↔ _
    rw [compressed.length]
    exact and_congr_right fun _ => compressed.roots bid

theorem stands_compress (compressed : Compressed blobs.djSet.ufindl stored)
    (stands : blobs.Stands bid node) :
    BlobDisjointSet.Stands ⟨⟨stored⟩, blobs.items⟩ bid node := by
  obtain ⟨inside, root, steps, leads, group⟩ := stands
  obtain ⟨near, _, there⟩ := compressed.leads bid root steps leads
  refine ⟨?_, root, near, there, group⟩
  show bid < stored.length
  rw [compressed.length]
  exact inside

theorem BlobDisjointSet.Live.compress (live : blobs.Live root)
    (compressed : Compressed blobs.djSet.ufindl stored) :
    BlobDisjointSet.Live ⟨⟨stored⟩, blobs.items⟩ root := by
  refine ⟨?_, (compressed.roots root).mpr live.2⟩
  show root < stored.length
  rw [compressed.length]
  exact live.1

/-- The root that a number leads to is a blob. -/
theorem Sound.live (sound : Sound rows placed edge blobs)
    (inside : bid < blobs.djSet.ufindl.length)
    (leads : Leads (parent blobs.djSet.ufindl) bid root steps) : blobs.Live root :=
  ⟨Finset.mem_range.mp (leads.mem sound.rooted (Finset.mem_range.mpr inside)), leads.top⟩

/-- What `find` gives for a number that stands for a range. -/
theorem Sound.find (sound : Sound rows placed edge blobs) (stands : blobs.Stands bid node) :
    ∃ root stored, blobs.djSet.find bid = some (root, ⟨stored⟩) ∧
      Compressed blobs.djSet.ufindl stored ∧ blobs.Live root ∧ blobs.Group root node ∧
      ∃ steps, Leads (parent blobs.djSet.ufindl) bid root steps := by
  obtain ⟨inside, root, _, leads, group⟩ := stands
  obtain ⟨found, steps, stored, finds, also, compressed⟩ := find_spec sound.rooted inside
  cases leads.unique also
  exact ⟨root, stored, finds, compressed, sound.live inside leads, group, steps, also⟩

variable {changed item : BlobBuilder} {a b : Node} {other : BlobBuilder} {second : Nat}
  {above : ImageRange}

/-- Only the blob with the given number changes. -/
theorem group_set {set : DisjointSet} (there : blobs.items[root]? = some item) (bid : Nat)
    (node : Node) :
    BlobDisjointSet.Group ⟨set, blobs.items.set root changed⟩ bid node ↔
      if bid = root then changed.Has node else blobs.Group bid node := by
  have inside := (List.getElem?_eq_some_iff.mp there).1
  unfold BlobDisjointSet.Group
  by_cases same : bid = root
  · subst same
    rw [if_pos rfl, getElem?_set_self inside]
    exact ⟨fun ⟨_, found, has⟩ => Option.some.inj found ▸ has, fun has => ⟨changed, rfl, has⟩⟩
  · rw [if_neg same, getElem?_set_ne (.symm same)]

theorem built_set {items : List BlobBuilder}
    (built : ∀ (bid : Nat) item, items[bid]? = some item → Built rows item)
    (new : Built rows changed) (bid : Nat) (item : BlobBuilder)
    (found : (items.set root changed)[bid]? = some item) : Built rows item := by
  rw [getElem?_set] at found
  split at found
  · split at found
    · cases found
      exact new
    · cases found
  · exact built bid item found

theorem group_iff (there : blobs.items[bid]? = some item) :
    blobs.Group bid node ↔ item.Has node :=
  ⟨fun ⟨_, found, has⟩ => Option.some.inj (found.symm.trans there) ▸ has,
    fun has => ⟨item, there, has⟩⟩

/-- A range is put into a blob that has one which it touches. -/
theorem Sound.extend (sound : Sound rows placed edge blobs) (live : blobs.Live root)
    (there : blobs.items[root]? = some item) (member : item.Has a) (fresh : ¬ placed b)
    (built : Built rows changed) (grown : ∀ node, changed.Has node ↔ item.Has node ∨ node = b) :
    Sound rows (fun node => placed node ∨ node = b) (fun x y => edge x y ∨ x = a ∧ y = b)
      ⟨blobs.djSet, blobs.items.set root changed⟩ where
  rooted := sound.rooted
  length := by
    rw [length_set]
    exact sound.length
  built := built_set sound.built built
  classes := by
    refine sound.classes.extend fresh live ((group_iff there).mpr member) ?_ ?_
      (fun _ _ => .rfl) fun _ => .rfl
    · intro bid _ different node
      rw [group_set there, if_neg different]
    · intro node
      rw [group_set there, if_pos rfl, grown, group_iff there]

/-- One blob goes into another. -/
theorem Sound.join (sound : Sound rows placed edge blobs) (first : blobs.Live root)
    (last : blobs.Live second) (different : root ≠ second) (there : blobs.items[root]? = some item)
    (also : blobs.items[second]? = some other) (built : Built rows changed)
    (both : ∀ node, changed.Has node ↔ item.Has node ∨ other.Has node)
    (ends : item.Has a ∧ other.Has b ∨ other.Has a ∧ item.Has b) :
    Sound rows placed (fun x y => edge x y ∨ x = a ∧ y = b)
      ⟨⟨blobs.djSet.ufindl.set second root⟩, blobs.items.set root changed⟩ where
  rooted := by
    have linked := sound.rooted.link (Finset.mem_range.mpr last.1) (Finset.mem_range.mpr first.1)
      last.2 first.2 different.symm
    rw [Rooted, length_set, parent_set last.1]
    exact linked
  length := by
    rw [length_set, length_set]
    exact sound.length
  built := built_set sound.built built
  classes := by
    refine sound.classes.merge first last different ?_ ?_ ?_ ?_ fun _ _ => .rfl
    · intro bid
      show bid < List.length _ ∧ _ ↔ _
      rw [length_set, parent_set last.1]
      by_cases same : bid = second
      · subst same
        rw [update_self]
        exact iff_of_false (fun live => nomatch live.2) fun live => live.2 rfl
      · rw [update_of_ne same]
        exact (and_iff_left same).symm
    · intro bid _ apart _ node
      rw [group_set there, if_neg apart]
    · intro node
      rw [group_set there, if_pos rfl, both, group_iff there, group_iff also]
    · rw [group_iff there, group_iff also, group_iff there, group_iff also]
      exact ends

/-- Numbers keep what they stand for when a blob grows. -/
theorem stands_extend (stands : blobs.Stands bid node) (there : blobs.items[root]? = some item)
    (more : ∀ node, item.Has node → changed.Has node) :
    BlobDisjointSet.Stands ⟨blobs.djSet, blobs.items.set root changed⟩ bid node := by
  obtain ⟨inside, found, steps, leads, group⟩ := stands
  refine ⟨inside, found, steps, leads, ?_⟩
  rw [group_set there]
  split
  · next same =>
    subst same
    exact more node ((group_iff there).mp group)
  · exact group

theorem stands_join (stands : blobs.Stands bid node) (first : blobs.Live root)
    (last : blobs.Live second) (different : root ≠ second) (there : blobs.items[root]? = some item)
    (also : blobs.items[second]? = some other)
    (both : ∀ node, changed.Has node ↔ item.Has node ∨ other.Has node) :
    BlobDisjointSet.Stands
      ⟨⟨blobs.djSet.ufindl.set second root⟩, blobs.items.set root changed⟩ bid node := by
  obtain ⟨inside, found, steps, leads, group⟩ := stands
  have linked := leads.link last.2 first.2 different.symm
  rw [← parent_set last.1] at linked
  refine ⟨?_, ?_⟩
  · show bid < List.length _
    rw [length_set]
    exact inside
  · split at linked
    · next same =>
      subst same
      refine ⟨root, steps + 1, linked, ?_⟩
      rw [group_set there, if_pos rfl]
      exact (both node).mpr (.inr ((group_iff also).mp group))
    · refine ⟨found, steps, linked, ?_⟩
      rw [group_set there]
      split
      · next same =>
        subst same
        exact (both node).mpr (.inl ((group_iff there).mp group))
      · exact group

section

variable (sound : Sound rows placed edge blobs)
include sound

theorem addBlob_sound (fresh : ¬ placed (i, rng))
    (member : rng ∈ rows i) :
    Sound rows (fun node => placed node ∨ node = (i, rng)) edge (blobs.addBlob i rng).2 ∧
      (blobs.addBlob i rng).2.Stands (blobs.addBlob i rng).1 (i, rng) ∧
      ∀ bid node, blobs.Stands bid node → (blobs.addBlob i rng).2.Stands bid node := by
  have old : ∀ (bid : Nat) node, bid < blobs.djSet.ufindl.length →
      ((blobs.addBlob i rng).2.Group bid node ↔ blobs.Group bid node) := by
    intro bid node inside
    rw [← sound.length] at inside
    show (∃ item, (_ ++ _)[bid]? = _ ∧ _) ↔ _
    rw [getElem?_append_left inside]
    rfl
  have new : ∀ node, (blobs.addBlob i rng).2.Group blobs.djSet.ufindl.length node ↔
      node = (i, rng) := by
    intro node
    have there : (blobs.addBlob i rng).2.items[blobs.djSet.ufindl.length]? =
        some ((BlobBuilder.new i).add i rng) := by
      rw [← sound.length]
      exact getElem?_concat_length
    rw [group_iff there, has_new]
  have top : parent blobs.djSet.ufindl blobs.djSet.ufindl.length = none := by
    rw [parent, getElem?_eq_none (Nat.le_refl _)]
  have live : ∀ bid, (blobs.addBlob i rng).2.Live bid ↔
      blobs.Live bid ∨ bid = blobs.djSet.ufindl.length := by
    intro bid
    show bid < (_ ++ _ : List Int).length ∧ parent (_ ++ [-1]) bid = none ↔ _
    rw [parent_add, length_append, length_singleton, Nat.lt_succ_iff_lt_or_eq,
      or_and_right]
    refine or_congr Iff.rfl (and_iff_left_of_imp ?_)
    rintro rfl
    exact top
  refine ⟨⟨sound.rooted.add, ?_, ?_, ?_⟩, ?_, ?_⟩
  · show (_ ++ _ : List BlobBuilder).length = (_ ++ _ : List Int).length
    rw [length_append, length_append, sound.length]
    rfl
  · intro bid item found
    rcases mem_append.mp (mem_of_getElem? found) with before | last
    · obtain ⟨place, there⟩ := mem_iff_getElem?.mp before
      exact sound.built place item there
    · rw [List.mem_singleton.mp last]
      exact built_new member
  · refine sound.classes.alone fresh live (fun bid alive => Nat.ne_of_lt alive.1)
      (fun bid alive node => old bid node alive.1) new fun _ => .rfl
  · have alive := (live _).mpr (.inr rfl)
    exact ⟨alive.1, _, 0, .root alive.2, (new _).mpr rfl⟩
  · rintro bid node ⟨inside, root, steps, leads, group⟩
    have alive := sound.live inside leads
    refine ⟨?_, root, steps, ?_, (old root node alive.1).mpr group⟩
    · show bid < (_ ++ _ : List Int).length
      rw [length_append]
      exact Nat.lt_add_right _ inside
    · show Leads (parent (_ ++ [-1])) bid root steps
      rw [parent_add]
      exact leads

/-- The range is put into a blob of the row above, right of what is placed in its row. -/
theorem addToBlob_sound (stands : blobs.Stands bid (i, above)) (fresh : ¬ placed (i + 1, rng))
    (member : rng ∈ rows (i + 1)) (right : ∀ range, placed (i + 1, range) → range.ed < rng.st) :
    ∃ root after, blobs.addToBlob bid (i + 1) rng = some (root, after) ∧
      Sound rows (fun node => placed node ∨ node = (i + 1, rng))
        (fun x y => edge x y ∨ x = (i, above) ∧ y = (i + 1, rng)) after ∧
      after.Stands root (i + 1, rng) ∧
      ∀ bid node, blobs.Stands bid node → after.Stands bid node := by
  obtain ⟨root, stored, finds, compressed, live, group, _⟩ := sound.find stands
  obtain ⟨item, there, has⟩ := group
  have below : item.mini ≤ i + 1 := Nat.le_succ_of_le has.1
  have reaches : i + 1 ≤ item.mini + item.img.ranges.length := Built.reaches has
  have grown : ∀ node, (item.add _ rng).Has node ↔ item.Has node ∨ node = (i + 1, rng) :=
    fun node => has_add below
  have built : Built rows (item.add (i + 1) rng) := by
    refine (sound.built root item there).toLined.add below reaches member ?_
    intro range inside
    exact right range ((sound.classes.covers _).mpr ⟨root, live, item, there, inside⟩)
  have tidy := sound.compress compressed
  have top := live.compress compressed
  refine ⟨root, ⟨⟨stored⟩, blobs.items.set root _⟩, ?_,
    tidy.extend top there has fresh built grown, ?_, ?_⟩
  · rw [BlobDisjointSet.addToBlob, finds]
    show (blobs.items[root]?).bind _ = _
    rw [there]
    rfl
  · refine ⟨top.1, root, 0, .root top.2, ?_⟩
    rw [group_set there, if_pos rfl]
    exact (grown _).mpr (.inr rfl)
  · intro bid node before
    have more : ∀ node, item.Has node → (item.add _ rng).Has node := fun node inside =>
      (grown node).mpr (.inl inside)
    have kept := stands_extend (stands_compress compressed before) there more
    exact kept

/-- An edge within a blob. -/
theorem Sound.same (live : blobs.Live root)
    (first : blobs.Group root a) (second : blobs.Group root b) :
    Sound rows placed (fun x y => edge x y ∨ x = a ∧ y = b) blobs :=
  ⟨sound.rooted, sound.length, sound.built,
    sound.classes.same live first second fun _ _ => .rfl⟩

/-- Two blobs that have ranges in the same row or in adjacent ones can be merged. -/
theorem Sound.built_merge {j k : Nat} {left right : ImageRange}
    (spaced : ∀ i, Spaced (rows i)) (first : blobs.Live root)
    (last : blobs.Live second) (different : root ≠ second) (there : blobs.items[root]? = some item)
    (also : blobs.items[second]? = some other) (has : item.Has (j, left))
    (hasOther : other.Has (k, right)) (near : k ≤ j + 1) (below : item.mini ≤ other.mini) :
    Built rows (item.merge other) := by
  have reaches : j < item.mini + item.img.ranges.length := Built.reaches has
  have starts : other.mini ≤ k := hasOther.1
  refine (sound.built root item there).merge (sound.built second other also) below (by omega)
    spaced ?_
  intro node inside outside
  exact different (sound.classes.disjoint root second node first last
    ((group_iff there).mpr inside) ((group_iff also).mpr outside))

/-- Numbers of two ranges that touch. -/
theorem mergeInBlob_sound {cbid pbid : Nat} (spaced : ∀ i, Spaced (rows i))
    (current : blobs.Stands cbid (i + 1, rng))
    (previous : blobs.Stands pbid (i, above)) :
    ∃ after, blobs.mergeInBlob cbid pbid = some after ∧
      Sound rows placed (fun x y => edge x y ∨ x = (i, above) ∧ y = (i + 1, rng)) after ∧
      ∀ bid node, blobs.Stands bid node → after.Stands bid node := by
  obtain ⟨croot, first, finds, firstly, clive, cgroup, _⟩ := sound.find current
  have middle := sound.compress firstly
  obtain ⟨proot, second, findsAgain, secondly, plive, pgroup, _⟩ :=
    middle.find (stands_compress firstly previous)
  have tidy := middle.compress secondly
  have kept : ∀ bid node, blobs.Stands bid node →
      BlobDisjointSet.Stands ⟨⟨second⟩, blobs.items⟩ bid node := by
    intro bid node stands
    have once := stands_compress firstly stands
    have twice := stands_compress secondly once
    exact twice
  have ctop := (clive.compress firstly).compress secondly
  have ptop := plive.compress secondly
  obtain ⟨item, there, has⟩ := cgroup
  obtain ⟨other, also, hasOther⟩ := pgroup
  have found : blobs.mergeInBlob cbid pbid =
      if croot ≠ proot then
        if item.mini > other.mini then
          some ⟨⟨second.set croot proot⟩, blobs.items.set proot (other.merge item)⟩
        else some ⟨⟨second.set proot croot⟩, blobs.items.set croot (item.merge other)⟩
      else some ⟨⟨second⟩, blobs.items⟩ := by
    simp only [BlobDisjointSet.mergeInBlob, finds, findsAgain, there, also, Option.bind_eq_bind,
      Option.bind_some]
  rw [found]
  by_cases same : croot = proot
  · subst same
    rw [if_neg fun different => different rfl]
    exact ⟨_, rfl, tidy.same ctop ⟨other, also, hasOther⟩ ⟨item, there, has⟩, kept⟩
  · rw [if_pos same]
    by_cases lower : item.mini > other.mini
    · have both : ∀ node, (other.merge item).Has node ↔ other.Has node ∨ item.Has node :=
        fun node => has_merge (Nat.le_of_lt lower)
      have built := tidy.built_merge spaced ptop ctop (.symm same) also there hasOther has
        (Nat.le_refl _) (Nat.le_of_lt lower)
      rw [if_pos lower]
      refine ⟨_, rfl, tidy.join ptop ctop (.symm same) also there built both
        (.inl ⟨hasOther, has⟩), ?_⟩
      intro bid node stands
      have joined := stands_join (kept bid node stands) ptop ctop (.symm same) also there both
      exact joined
    · have upper := Nat.le_of_not_lt lower
      have both : ∀ node, (item.merge other).Has node ↔ item.Has node ∨ other.Has node :=
        fun node => has_merge upper
      have built := tidy.built_merge spaced ctop ptop same there also has hasOther
        (by omega) upper
      rw [if_neg lower]
      refine ⟨_, rfl, tidy.join ctop ptop same there also built both (.inr ⟨hasOther, has⟩), ?_⟩
      intro bid node stands
      have joined := stands_join (kept bid node stands) ctop ptop same there also both
      exact joined

end

end Operations

end Miranda.Vision
