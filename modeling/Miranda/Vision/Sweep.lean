import Miranda.Vision.BlobSet

/-!
# The sweep over the rows

When the sweep has passed a row, all its ranges are placed and every range of the row
above has an edge to each one that it touches. `Sweeping` is what holds between two
steps; the two pointers never step over a pair of ranges that touch, because the ranges
of a row are in order.
-/

namespace Miranda.Vision

open List

/-- The ranges have a column in common. -/
def ImageRange.Touches (above range : ImageRange) : Prop :=
  above.st ≤ range.last ∧ range.st ≤ above.last

theorem ImageRange.Touches.symm {above range : ImageRange} (touches : above.Touches range) :
    range.Touches above :=
  And.symm touches

/-- The edges between two parts of adjacent rows. -/
def Drawn (i : Nat) (prevs curs : List ImageRange) (x y : Node) : Prop :=
  (x.1 = i ∧ y.1 = i + 1) ∧ x.2 ∈ prevs ∧ y.2 ∈ curs ∧ x.2.Touches y.2

section Edges

variable {i : Nat} {prevs curs : List ImageRange} {p c : ImageRange} {x y : Node}

theorem drawn_nil_left : ¬ Drawn i [] curs x y := fun drawn => nomatch drawn.2.1

theorem drawn_nil_right : ¬ Drawn i prevs [] x y := fun drawn => nomatch drawn.2.2.1

variable {only : ImageRange → Prop}

/-- A range of the lower row touches only those that are named. -/
theorem drawn_cons_right (touches : ∀ above ∈ prevs, above.Touches c ↔ only above) :
    Drawn i prevs (c :: curs) x y ↔
      (x.1 = i ∧ y = (i + 1, c) ∧ x.2 ∈ prevs ∧ only x.2) ∨ Drawn i prevs curs x y := by
  obtain ⟨row, above⟩ := x
  obtain ⟨next, range⟩ := y
  constructor
  · rintro ⟨⟨rfl, rfl⟩, first, second, meets⟩
    rcases mem_cons.mp second with rfl | later
    · exact .inl ⟨rfl, rfl, first, (touches above first).mp meets⟩
    · exact .inr ⟨⟨rfl, rfl⟩, first, later, meets⟩
  · rintro (⟨rfl, ⟨⟩, first, meets⟩ | ⟨rows, first, later, meets⟩)
    · exact ⟨⟨rfl, rfl⟩, first, mem_cons_self, (touches above first).mpr meets⟩
    · exact ⟨rows, first, mem_cons_of_mem c later, meets⟩

theorem drawn_cons_left (touches : ∀ range ∈ curs, range.Touches p ↔ only range) :
    Drawn i (p :: prevs) curs x y ↔
      (x = (i, p) ∧ y.1 = i + 1 ∧ y.2 ∈ curs ∧ only y.2) ∨ Drawn i prevs curs x y := by
  obtain ⟨row, above⟩ := x
  obtain ⟨next, range⟩ := y
  constructor
  · rintro ⟨⟨rfl, rfl⟩, first, second, meets⟩
    rcases mem_cons.mp first with rfl | later
    · exact .inl ⟨rfl, rfl, second, (touches range second).mp meets.symm⟩
    · exact .inr ⟨⟨rfl, rfl⟩, later, second, meets⟩
  · rintro (⟨⟨⟩, rfl, second, meets⟩ | ⟨rows, later, second, meets⟩)
    · exact ⟨⟨rfl, rfl⟩, mem_cons_self, second, ((touches range second).mpr meets).symm⟩
    · exact ⟨rows, mem_cons_of_mem p later, second, meets⟩

/-! A range of one row is compared with the first of what is left of the other row. -/

section

variable (spaced : Spaced (p :: prevs))
include spaced

theorem Spaced.le_st {found : ImageRange}
    (member : found ∈ p :: prevs) : p.st ≤ found.st ∧ (found = p ∨ p.ed < found.st) := by
  have proper := spaced.proper p mem_cons_self
  rcases mem_cons.mp member with rfl | later
  · exact ⟨le_rfl, .inl rfl⟩
  · have apart := (pairwise_cons.mp spaced.apart).1 found later
    exact ⟨by omega, .inr apart⟩

theorem not_touches_of_left (left : c.last < p.st)
    (found : ImageRange) (member : found ∈ p :: prevs) : found.Touches c ↔ False := by
  have order := (spaced.le_st member).1
  refine iff_of_false ?_ id
  rintro ⟨begins, _⟩
  omega

theorem touches_only_first (touches : p.Touches c)
    (ends : c.last ≤ p.last) (found : ImageRange) (member : found ∈ p :: prevs) :
    found.Touches c ↔ found = p := by
  constructor
  · rintro ⟨begins, _⟩
    refine (spaced.le_st member).2.resolve_right fun apart => ?_
    unfold ImageRange.last at begins ends
    omega
  · rintro rfl
    exact touches

/-- A range that ends first touches nothing further right. -/
theorem drawn_touch_right (touches : p.Touches c)
    (ends : c.last < p.last) :
    Drawn i (p :: prevs) (c :: curs) x y ↔
      (x = (i, p) ∧ y = (i + 1, c)) ∨ Drawn i (p :: prevs) curs x y := by
  rw [drawn_cons_right (touches_only_first spaced touches ends.le)]
  refine or_congr ?_ .rfl
  obtain ⟨row, above⟩ := x
  constructor
  · rintro ⟨rfl, rfl, _, rfl⟩
    exact ⟨rfl, rfl⟩
  · rintro ⟨⟨⟩, rfl⟩
    exact ⟨rfl, rfl, mem_cons_self, rfl⟩

theorem Spaced.tail : Spaced prevs :=
  ⟨fun found member => spaced.proper found (mem_cons_of_mem p member),
    (pairwise_cons.mp spaced.apart).2⟩

end

theorem drawn_touch_left (spaced : Spaced (c :: curs)) (touches : p.Touches c)
    (ends : ¬ c.last < p.last) :
    Drawn i (p :: prevs) (c :: curs) x y ↔
      (x = (i, p) ∧ y = (i + 1, c)) ∨ Drawn i prevs (c :: curs) x y := by
  rw [drawn_cons_left (touches_only_first spaced touches.symm (Int.not_lt.mp ends))]
  refine or_congr ?_ .rfl
  obtain ⟨row, range⟩ := y
  constructor
  · rintro ⟨rfl, rfl, _, rfl⟩
    exact ⟨rfl, rfl⟩
  · rintro ⟨rfl, ⟨⟩⟩
    exact ⟨rfl, rfl, mem_cons_self, rfl⟩

theorem Spaced.drop (spaced : Spaced curs) (count : Nat) : Spaced (curs.drop count) :=
  ⟨fun found member => spaced.proper found (mem_of_mem_drop member),
    spaced.apart.sublist (drop_sublist count curs)⟩

end Edges

/-- What holds while the sweep is at a range of the lower row. The ranges before it have
their numbers, and it may have one itself. -/
structure Sweeping (rows : Nat → List ImageRange) (i mj : Nat) (cids : List Nat)
    (placed : Node → Prop) (edge : Node → Node → Prop) (blobs : BlobDisjointSet) : Prop where
  sound : Sound rows placed edge blobs
  count : cids.length = mj ∨ cids.length = mj + 1
  within : cids.length ≤ (rows i).length
  marked : ∀ (k : Nat) id, cids[k]? = some id →
    ∃ rng, (rows i)[k]? = some rng ∧ blobs.Stands id (i, rng)
  placed : ∀ rng, placed (i, rng) ↔ rng ∈ (rows i).take cids.length

section Steps

variable {rows : Nat → List ImageRange} {i mj : Nat} {cids : List Nat} {placed : Node → Prop}
  {edge : Node → Node → Prop} {blobs : BlobDisjointSet} {rcur : ImageRange}

variable {drawn : Node → Node → Prop} {filled : Node → Prop} {whole : List ImageRange}
  {after : BlobDisjointSet}

theorem Sound.congr (sound : Sound rows placed edge blobs)
    (places : ∀ node, filled node ↔ placed node) (edges : ∀ x y, drawn x y ↔ edge x y) :
    Sound rows filled drawn blobs := by
  have samePlaced : filled = placed := funext fun node => propext (places node)
  have sameEdge : drawn = edge := funext fun x => funext fun y => propext (edges x y)
  rwa [samePlaced, sameEdge]

/-- What comes before a range of a row is left of it. -/
theorem Spaced.lt_of_mem_take {rng : ImageRange} (spaced : Spaced whole)
    (there : whole[mj]? = some rcur) (before : rng ∈ whole.take mj) : rng.ed < rcur.st := by
  obtain ⟨inside, rfl⟩ := List.getElem?_eq_some_iff.mp there
  obtain ⟨k, earlier, rfl⟩ := mem_take_iff_getElem.mp before
  exact pairwise_iff_getElem.mp spaced.apart k mj _ inside (by omega)

theorem Spaced.not_mem_take (spaced : Spaced whole) (there : whole[mj]? = some rcur) :
    rcur ∉ whole.take mj := by
  intro before
  have left := spaced.lt_of_mem_take there before
  have proper := spaced.proper rcur (mem_of_mem_take before)
  omega

theorem mem_take_succ (there : whole[mj]? = some rcur) (rng : ImageRange) :
    rng ∈ whole.take (mj + 1) ↔ rng ∈ whole.take mj ∨ rng = rcur := by
  obtain ⟨inside, rfl⟩ := List.getElem?_eq_some_iff.mp there
  rw [take_succ_eq_append_getElem inside, mem_append, mem_singleton]

section

variable (sweeping : Sweeping rows i mj cids placed edge blobs)
include sweeping

/-- The range that the sweep is at has got its number. -/
theorem Sweeping.mark {bid : Nat} (none : cids.length = mj) (there : (rows i)[mj]? = some rcur)
    (sound : Sound rows (fun node => placed node ∨ node = (i, rcur)) drawn after)
    (stands : after.Stands bid (i, rcur))
    (kept : ∀ bid node, blobs.Stands bid node → after.Stands bid node) :
    Sweeping rows i mj (cids ++ [bid]) (fun node => placed node ∨ node = (i, rcur)) drawn after where
  sound := sound
  count := .inr (by rw [length_append, none]; rfl)
  within := by
    have inside := (List.getElem?_eq_some_iff.mp there).1
    rw [length_append, none]
    exact inside
  marked k id found := by
    by_cases before : k < cids.length
    · rw [getElem?_append_left before] at found
      obtain ⟨rng, here, was⟩ := sweeping.marked k id found
      exact ⟨rng, here, kept id _ was⟩
    · have last : k = mj := by
        have bound := (List.getElem?_eq_some_iff.mp found).1
        rw [length_append, length_singleton] at bound
        omega
      subst last
      rw [← none, getElem?_concat_length] at found
      cases found
      exact ⟨rcur, there, stands⟩
  placed rng := by
    rw [length_append, length_singleton, none, mem_take_succ there, ← none,
      sweeping.placed]
    exact or_congr .rfl ⟨fun same => (Prod.mk.inj same).2, fun same => by rw [same]⟩

/-- The sweep goes on to the next range. -/
theorem Sweeping.next (marked : cids.length = mj + 1) :
    Sweeping rows i (mj + 1) cids placed edge blobs :=
  ⟨sweeping.sound, .inl marked, sweeping.within, sweeping.marked, sweeping.placed⟩

/-- The range has its number already. -/
theorem Sweeping.again (marked : cids.length = mj + 1) (there : (rows i)[mj]? = some rcur)
    (sound : Sound rows placed drawn after)
    (kept : ∀ bid node, blobs.Stands bid node → after.Stands bid node) :
    Sweeping rows i mj cids (fun node => placed node ∨ node = (i, rcur)) drawn after := by
  have already : placed (i, rcur) := by
    rw [sweeping.placed, marked, mem_take_succ there]
    exact .inr rfl
  have same : ∀ node, placed node ∨ node = (i, rcur) ↔ placed node := by
    intro node
    refine or_iff_left_of_imp ?_
    rintro rfl
    exact already
  refine ⟨sound.congr same fun _ _ => .rfl, sweeping.count, sweeping.within, ?_, ?_⟩
  · intro k id found
    obtain ⟨rng, here, was⟩ := sweeping.marked k id found
    exact ⟨rng, here, kept id _ was⟩
  · intro rng
    rw [same]
    exact sweeping.placed rng

theorem Sweeping.place (spaced : ∀ i, Spaced (rows i)) (there : (rows i)[mj]? = some rcur) :
    Sweeping rows i mj (place i rcur mj cids blobs).1
        (fun node => placed node ∨ node = (i, rcur)) edge (place i rcur mj cids blobs).2 ∧
      (place i rcur mj cids blobs).1.length = mj + 1 ∧
      ∀ bid node, blobs.Stands bid node → (place i rcur mj cids blobs).2.Stands bid node := by
  unfold Vision.place
  split
  · next none =>
    have fresh : ¬ placed (i, rcur) := by
      rw [sweeping.placed, none]
      exact (spaced i).not_mem_take there
    obtain ⟨sound, stands, kept⟩ :=
      addBlob_sound sweeping.sound fresh (mem_of_getElem? there)
    refine ⟨sweeping.mark none there sound stands kept, ?_, kept⟩
    rw [length_append, none]
    rfl
  · next some =>
    have marked := sweeping.count.resolve_left some
    exact ⟨sweeping.again marked there sweeping.sound fun _ _ => id, marked, fun _ _ => id⟩

end

theorem Sweeping.touch {above : ImageRange} {pid : Nat}
    (sweeping : Sweeping rows (i + 1) mj cids placed edge blobs)
    (spaced : ∀ i, Spaced (rows i)) (there : (rows (i + 1))[mj]? = some rcur)
    (stands : blobs.Stands pid (i, above)) :
    ∃ marked after, touch (i + 1) rcur pid mj cids blobs = some (marked, after) ∧
      Sweeping rows (i + 1) mj marked (fun node => placed node ∨ node = (i + 1, rcur))
        (fun x y => edge x y ∨ x = (i, above) ∧ y = (i + 1, rcur)) after ∧
      marked.length = mj + 1 ∧
      ∀ bid node, blobs.Stands bid node → after.Stands bid node := by
  unfold Vision.touch
  rcases sweeping.count with none | marked
  · have fresh : ¬ placed (i + 1, rcur) := by
      rw [sweeping.placed, none]
      exact (spaced _).not_mem_take there
    have right : ∀ range, placed (i + 1, range) → range.ed < rcur.st := by
      intro range before
      rw [sweeping.placed, none] at before
      exact (spaced _).lt_of_mem_take there before
    obtain ⟨root, after, found, sound, marks, kept⟩ :=
      addToBlob_sound sweeping.sound stands fresh (mem_of_getElem? there) right
    rw [if_neg (by omega), found]
    refine ⟨cids ++ [root], after, rfl, sweeping.mark none there sound marks kept, ?_, kept⟩
    rw [length_append, none]
    rfl
  · have inside : mj < cids.length := by omega
    obtain ⟨rng, here, current⟩ := sweeping.marked mj _ (getElem?_eq_getElem inside)
    cases here.symm.trans there
    obtain ⟨after, found, sound, kept⟩ :=
      mergeInBlob_sound sweeping.sound spaced current stands
    rw [if_pos inside, getElem?_eq_getElem inside]
    refine ⟨cids, after, ?_, sweeping.again marked there sound kept, marked, kept⟩
    show (blobs.mergeInBlob _ pid).bind _ = _
    rw [found]
    rfl

theorem Sweeping.congr (sweeping : Sweeping rows i mj cids placed edge blobs)
    (places : ∀ node, filled node ↔ placed node) (edges : ∀ x y, drawn x y ↔ edge x y) :
    Sweeping rows i mj cids filled drawn blobs :=
  { sweeping with
    sound := sweeping.sound.congr places edges
    placed rng := (places _).trans (sweeping.placed rng) }

end Steps

/-! ### Loops -/

section Loops

variable {rows : Nat → List ImageRange} {i mj : Nat} {cids : List Nat} {placed : Node → Prop}
  {edge : Node → Node → Prop} {blobs : BlobDisjointSet} {curs : List ImageRange}

/-- The ranges of a row that have been placed once those of the rest are. -/
theorem filled_cons (placed : Node → Prop) (i : Nat) (rcur : ImageRange) (curs : List ImageRange)
    (node : Node) :
    placed node ∨ node.1 = i ∧ node.2 ∈ rcur :: curs ↔
      (placed node ∨ node = (i, rcur)) ∨ node.1 = i ∧ node.2 ∈ curs := by
  obtain ⟨row, range⟩ := node
  rw [mem_cons, and_or_left, or_assoc, Prod.mk.injEq]

theorem drop_cons {whole : List ImageRange} {rcur : ImageRange}
    (rest : rcur :: curs = whole.drop mj) :
    whole[mj]? = some rcur ∧ curs = whole.drop (mj + 1) := by
  constructor
  · rw [← head?_drop, ← rest]
    rfl
  · rw [← tail_drop, ← rest]
    rfl

theorem Sweeping.done (sweeping : Sweeping rows i mj cids placed edge blobs)
    (none : [] = (rows i).drop mj) : mj = (rows i).length := by
  have beyond := drop_eq_nil_iff.mp none.symm
  have within := sweeping.within
  rcases sweeping.count with count | count <;> omega

theorem Sweeping.placeRest (sweeping : Sweeping rows i mj cids placed edge blobs)
    (spaced : ∀ i, Spaced (rows i)) (rest : curs = (rows i).drop mj) :
    Sweeping rows i (rows i).length (placeRest i curs mj cids blobs).1
      (fun node => placed node ∨ node.1 = i ∧ node.2 ∈ curs) edge
      (placeRest i curs mj cids blobs).2 := by
  induction curs generalizing mj cids placed blobs with
  | nil =>
    rw [← sweeping.done rest]
    refine sweeping.congr ?_ fun _ _ => .rfl
    intro node
    exact or_iff_left fun both => nomatch both.2
  | cons rcur curs ih =>
    obtain ⟨there, later⟩ := drop_cons rest
    obtain ⟨placing, marked, _⟩ := sweeping.place spaced there
    have finished := ih (placing.next marked) later
    exact finished.congr (filled_cons placed i rcur curs) fun _ _ => .rfl

end Loops

/-- Every pair of ranges that touch is met, and only such pairs. -/
theorem sweep_sweeping {rows : Nat → List ImageRange} {i mj : Nat} {cids : List Nat}
    {placed : Node → Prop} {edge : Node → Node → Prop} {blobs : BlobDisjointSet}
    {prevs : List (ImageRange × Nat)} {curs : List ImageRange}
    (sweeping : Sweeping rows (i + 1) mj cids placed edge blobs)
    (spaced : ∀ i, Spaced (rows i)) (rest : curs = (rows (i + 1)).drop mj)
    (above : Spaced (prevs.map Prod.fst))
    (stands : ∀ entry ∈ prevs, blobs.Stands entry.2 (i, entry.1)) :
    ∃ marked after, sweep (i + 1) prevs curs mj cids blobs = some (marked, after) ∧
      Sweeping rows (i + 1) (rows (i + 1)).length marked
        (fun node => placed node ∨ node.1 = i + 1 ∧ node.2 ∈ curs)
        (fun x y => edge x y ∨ Drawn i (prevs.map Prod.fst) curs x y) after := by
  match prevs, curs with
  | [], curs =>
    refine ⟨_, _, by rw [sweep]; simp, (sweeping.placeRest spaced rest).congr
      (fun _ => .rfl) fun x y => or_iff_left drawn_nil_left⟩
  | (rprev, pid) :: prevs, [] =>
    refine ⟨_, _, by rw [sweep]; simp, (sweeping.placeRest spaced rest).congr
      (fun _ => .rfl) fun x y => or_iff_left drawn_nil_right⟩
  | (rprev, pid) :: prevs, rcur :: curs =>
    have here := (spaced (i + 1)).drop mj
    rw [← rest] at here
    obtain ⟨there, later⟩ := drop_cons rest
    rw [sweep]
    by_cases left : rcur.last < rprev.st
    · rw [if_pos left]
      obtain ⟨placing, marked, kept⟩ := sweeping.place spaced there
      obtain ⟨marks, after, found, finished⟩ := sweep_sweeping (placing.next marked) spaced later
        above fun entry member => kept _ _ (stands entry member)
      refine ⟨marks, after, found, finished.congr (filled_cons placed _ rcur curs) ?_⟩
      intro x y
      rw [map_cons, drawn_cons_right (not_touches_of_left above left)]
      exact or_congr .rfl (or_iff_right fun first => first.2.2.2)
    · rw [if_neg left]
      by_cases right : rprev.last < rcur.st
      · rw [if_pos right]
        obtain ⟨marks, after, found, finished⟩ := sweep_sweeping sweeping spaced rest above.tail
          fun entry member => stands entry (mem_cons_of_mem _ member)
        refine ⟨marks, after, found, finished.congr (fun _ => .rfl) ?_⟩
        intro x y
        rw [map_cons, drawn_cons_left (not_touches_of_left here right)]
        exact or_congr .rfl (or_iff_right fun first => first.2.2.2)
      · have touches : rprev.Touches rcur := ⟨Int.not_lt.mp left, Int.not_lt.mp right⟩
        obtain ⟨marks, middle, meets, touching, marked, kept⟩ :=
          sweeping.touch spaced there (stands _ mem_cons_self)
        rw [if_neg right, meets]
        dsimp only
        by_cases ends : rcur.last < rprev.last
        · obtain ⟨final, after, found, finished⟩ := sweep_sweeping (touching.next marked) spaced
            later above fun entry member => kept _ _ (stands entry member)
          rw [if_pos ends]
          refine ⟨final, after, found, finished.congr (filled_cons placed _ rcur curs) ?_⟩
          intro x y
          rw [map_cons, drawn_touch_right above touches ends, or_assoc]
        · obtain ⟨final, after, found, finished⟩ := sweep_sweeping touching spaced rest above.tail
            fun entry member => kept _ _ (stands entry (mem_cons_of_mem _ member))
          rw [if_neg ends]
          refine ⟨final, after, found, finished.congr ?_ ?_⟩
          · intro node
            rw [or_assoc]
            refine or_congr .rfl (or_iff_right_of_imp ?_).symm
            rintro rfl
            exact ⟨rfl, mem_cons_self⟩
          · intro x y
            rw [map_cons, drawn_touch_left here touches ends, or_assoc]
  termination_by prevs.length + curs.length

/-! ### The whole image -/

/-- The rows of an image, empty where there are none. -/
def RangeImage.row (rimg : RangeImage) (i : Nat) : List ImageRange := line rimg.ranges i

/-- The edges between ranges of adjacent rows that touch. -/
def Edge (rows : Nat → List ImageRange) (x y : Node) : Prop :=
  Drawn x.1 (rows x.1) (rows (x.1 + 1)) x y

section Images

variable {rows : Nat → List ImageRange} {i : Nat} {pids : List Nat} {blobs : BlobDisjointSet}

/-- The ranges of the rows up to the given one, with their edges. -/
structure Swept (rows : Nat → List ImageRange) (i : Nat) (pids : List Nat)
    (blobs : BlobDisjointSet) : Prop where
  sound : Sound rows (fun node => node.1 ≤ i ∧ node.2 ∈ rows node.1)
    (fun x y => x.1 < i ∧ Edge rows x y) blobs
  length : pids.length = (rows i).length
  marked : ∀ (k : Nat) id, pids[k]? = some id →
    ∃ rng, (rows i)[k]? = some rng ∧ blobs.Stands id (i, rng)

theorem Swept.stands (swept : Swept rows i pids blobs) (entry : ImageRange × Nat)
    (member : entry ∈ (rows i).zip pids) : blobs.Stands entry.2 (i, entry.1) := by
  obtain ⟨k, found⟩ := mem_iff_getElem?.mp member
  obtain ⟨range, id⟩ := entry
  obtain ⟨first, second⟩ := getElem?_zip_eq_some.mp found
  obtain ⟨rng, here, stands⟩ := swept.marked k id second
  cases here.symm.trans first
  exact stands

theorem Swept.sweep (swept : Swept rows i pids blobs) (spaced : ∀ i, Spaced (rows i)) :
    ∃ cids after, sweep (i + 1) ((rows i).zip pids) (rows (i + 1)) 0 [] blobs =
      some (cids, after) ∧ Swept rows (i + 1) cids after := by
  have pairs : ((rows i).zip pids).map Prod.fst = rows i := by
    rw [map_fst_zip]
    exact Nat.le_of_eq swept.length.symm
  have start : Sweeping rows (i + 1) 0 []
      (fun node => node.1 ≤ i ∧ node.2 ∈ rows node.1)
      (fun x y => x.1 < i ∧ Edge rows x y) blobs := by
    refine ⟨swept.sound, .inl rfl, Nat.zero_le _, nofun, ?_⟩
    intro rng
    exact iff_of_false (fun both => Nat.not_succ_le_self i both.1) not_mem_nil
  obtain ⟨cids, after, found, finished⟩ := sweep_sweeping start spaced rfl
    (by rw [pairs]; exact spaced i) swept.stands
  refine ⟨cids, after, found, ?_, ?_, finished.marked⟩
  · refine finished.sound.congr ?_ ?_
    · rintro ⟨row, range⟩
      constructor
      · rintro ⟨bound, member⟩
        by_cases last : row = i + 1
        · exact .inr ⟨last, last ▸ member⟩
        · exact .inl ⟨by omega, member⟩
      · rintro (⟨bound, member⟩ | ⟨rfl, member⟩)
        · exact ⟨Nat.le_succ_of_le bound, member⟩
        · exact ⟨Nat.le_refl _, member⟩
    · intro x y
      rw [pairs]
      constructor
      · rintro ⟨bound, edge⟩
        by_cases last : x.1 = i
        · rw [Edge, last] at edge
          exact .inr edge
        · exact .inl ⟨by omega, edge⟩
      · rintro (⟨bound, edge⟩ | drawn)
        · exact ⟨Nat.lt_succ_of_lt bound, edge⟩
        · have last := drawn.1.1
          refine ⟨by omega, ?_⟩
          rw [Edge, last]
          exact drawn
  · have within := finished.within
    rcases finished.count with count | count <;> omega

theorem Swept.sweepRows {ranges : List (List ImageRange)} (swept : Swept rows i pids blobs)
    (spaced : ∀ i, Spaced (rows i))
    (rest : ∀ k line, ranges[k]? = some line → rows (i + 1 + k) = line) :
    ∃ ids after, sweepRows (i + 1) (rows i) pids ranges blobs = some after ∧
      Swept rows (i + ranges.length) ids after := by
  induction ranges generalizing i pids blobs with
  | nil => exact ⟨pids, blobs, rfl, swept⟩
  | cons cranges lines ih =>
    have here : rows _ = cranges := rest 0 cranges rfl
    obtain ⟨cids, middle, found, next⟩ := swept.sweep spaced
    have later : ∀ k line, lines[k]? = some line → rows (i + 1 + 1 + k) = line := by
      intro k line there
      have shift : i + 1 + 1 + k = i + 1 + (k + 1) := by omega
      rw [shift]
      exact rest _ line there
    obtain ⟨ids, after, finished, whole⟩ := ih next later
    have size : i + (cranges :: lines).length = i + 1 + lines.length := by
      rw [length_cons]
      omega
    refine ⟨ids, after, ?_, size ▸ whole⟩
    rw [Vision.sweepRows, ← here, found]
    exact finished

/-- The ranges of the first row are all placed, without edges. -/
theorem swept_first (spaced : ∀ i, Spaced (rows i)) :
    Swept rows 0 (placeRest 0 (rows 0) 0 [] {}).1 (placeRest 0 (rows 0) 0 [] {}).2 := by
  have start : Sweeping rows 0 0 [] _ _ {} :=
    ⟨sound_empty rows, .inl rfl, Nat.zero_le _, nofun, fun rng =>
      iff_of_false id not_mem_nil⟩
  have finished := start.placeRest spaced drop_zero.symm
  refine ⟨finished.sound.congr ?_ ?_, ?_, finished.marked⟩
  · rintro ⟨row, range⟩
    rw [false_or]
    rw [Nat.le_zero]
    exact and_congr_right fun first => by rw [first]
  · intro x y
    exact iff_of_false (fun both => Nat.not_lt_zero _ both.1) id
  · have within := finished.within
    rcases finished.count with count | count <;> omega

/-- The blobs that are found are the classes of the ranges of the image. -/
theorem findBlobs_sound {rimg : RangeImage} (spaced : ∀ i, Spaced (rimg.row i))
    (nonempty : rimg.ranges ≠ []) :
    ∃ blobs, findBlobs rimg = some blobs.getBlobs ∧
      Sound rimg.row (fun node => node.2 ∈ rimg.row node.1) (Edge rimg.row) blobs := by
  unfold findBlobs
  split
  · next none => exact absurd none nonempty
  · next first lines there =>
    have zero : rimg.row 0 = first := by
      rw [RangeImage.row, there]
      rfl
    have rest : ∀ k line, lines[k]? = some line → rimg.row (0 + 1 + k) = line := by
      intro k found inside
      rw [RangeImage.row, there, line, Nat.add_comm, getD_cons_succ,
        getD_eq_getElem?_getD, inside]
      rfl
    have start := swept_first spaced
    obtain ⟨ids, after, finished, swept⟩ := start.sweepRows spaced rest
    rw [zero] at finished
    dsimp only
    rw [finished]
    refine ⟨after, rfl, swept.sound.congr ?_ ?_⟩
    · rintro ⟨row, range⟩
      refine (and_iff_right_of_imp fun member => ?_).symm
      have bound := lt_length_of_mem member
      rw [there, length_cons] at bound
      show row ≤ 0 + lines.length
      omega
    · intro x y
      refine (and_iff_right_of_imp fun edge => ?_).symm
      have bound := lt_length_of_mem edge.2.2.1
      rw [there, length_cons] at bound
      omega

end Images

end Miranda.Vision
