import Mathlib.Logic.Relation

/-!
# Classes of connected points

Points are put into groups, and edges are drawn between them. `Classes` says that the
groups are the classes of points that the edges connect. It stays so when a point is put
into a group of its own, when one is put into the group of a point that it has an edge
to, and when an edge is drawn within a group or between two that become one.
-/

namespace Miranda.Grouping

open Relation

universe u v w

variable {α : Type u} {ι : Type v}

/-- The groups with a live name are the classes of the points that have been placed. -/
structure Classes (live : ι → Prop) (group : ι → α → Prop) (edge : α → α → Prop)
    (placed : α → Prop) : Prop where
  disjoint : ∀ i j a, live i → live j → group i a → group j a → i = j
  covers : ∀ a, placed a ↔ ∃ i, live i ∧ group i a
  joined : ∀ i a b, live i → group i a → group i b → EqvGen edge a b
  inside : ∀ a b, edge a b → placed a ∧ placed b
  closed : ∀ i a b, live i → edge a b → (group i a ↔ group i b)

section Operations

variable {live after : ι → Prop} {group target : ι → α → Prop} {edge drawn : α → α → Prop}
  {placed filled : α → Prop} {i j : ι} {a b : α}

theorem classes_empty (none : ∀ i, ¬ live i) (group : ι → α → Prop) :
    Classes live group (fun _ _ => False) fun _ => False where
  disjoint i _ _ alive := absurd alive (none i)
  covers _ := iff_of_false id fun ⟨i, alive, _⟩ => none i alive
  joined i _ _ alive := absurd alive (none i)
  inside _ _ drawn := drawn.elim
  closed i _ _ alive := absurd alive (none i)

section

variable (classes : Classes live group edge placed)
include classes

/-- Points that edges connect are in the same group. -/
theorem Classes.group_of_eqvGen (alive : live i)
    (connected : EqvGen edge a b) : group i a ↔ group i b := by
  induction connected with
  | rel a b drawn => exact classes.closed i a b alive drawn
  | refl a => exact .rfl
  | symm _ _ _ ih => exact ih.symm
  | trans _ _ _ _ _ first second => exact first.trans second

/-- The group of a point is exactly its class. -/
theorem Classes.group_iff (alive : live i)
    (member : group i a) : group i b ↔ EqvGen edge a b :=
  ⟨classes.joined i a b alive member, fun connected =>
    (classes.group_of_eqvGen alive connected).mp member⟩

theorem Classes.not_group (fresh : ¬ placed a)
    (alive : live i) : ¬ group i a :=
  fun member => fresh ((classes.covers a).mpr ⟨i, alive, member⟩)

/-- Groups under new names, which are one group where the names are the same. -/
theorem Classes.collect {κ : Type w} {after : κ → Prop} {target : κ → α → Prop} (name : ι → κ)
    (names : ∀ k, after k ↔ ∃ i, live i ∧ name i = k)
    (groups : ∀ i, live i → ∀ c, target (name i) c ↔ ∃ j, name j = name i ∧ live j ∧ group j c)
    (wider : ∀ x y, edge x y → drawn x y)
    (within : ∀ x y, drawn x y → edge x y ∨
      ∃ i j, live i ∧ live j ∧ name i = name j ∧ group i x ∧ group j y)
    (joined : ∀ i j x y, live i → live j → name i = name j → i ≠ j → group i x → group j y →
      EqvGen drawn x y) : Classes after target drawn placed where
  disjoint k l c here there one other := by
    obtain ⟨i, first, rfl⟩ := (names k).mp here
    obtain ⟨j, second, rfl⟩ := (names l).mp there
    obtain ⟨i, same, first, inside⟩ := (groups i first c).mp one
    obtain ⟨j, also, second, member⟩ := (groups j second c).mp other
    rw [← same, ← also, classes.disjoint i j c first second inside member]
  covers c := by
    rw [classes.covers]
    constructor
    · rintro ⟨i, alive, inside⟩
      exact ⟨name i, (names _).mpr ⟨i, alive, rfl⟩, (groups i alive c).mpr ⟨i, rfl, alive, inside⟩⟩
    · rintro ⟨k, alive, inside⟩
      obtain ⟨i, before, rfl⟩ := (names k).mp alive
      obtain ⟨j, _, there, member⟩ := (groups i before c).mp inside
      exact ⟨j, there, member⟩
  joined k x y alive one other := by
    obtain ⟨k, here, rfl⟩ := (names k).mp alive
    obtain ⟨i, same, first, inside⟩ := (groups k here x).mp one
    obtain ⟨j, also, second, member⟩ := (groups k here y).mp other
    by_cases equal : i = j
    · subst equal
      exact (classes.joined i x y first inside member).mono wider
    · exact joined i j x y first second (same.trans also.symm) equal inside member
  inside x y found := by
    rcases within x y found with before | ⟨i, j, first, second, _, inside, member⟩
    · exact classes.inside x y before
    · exact ⟨(classes.covers x).mpr ⟨i, first, inside⟩, (classes.covers y).mpr ⟨j, second, member⟩⟩
  closed k x y alive found := by
    obtain ⟨k, here, rfl⟩ := (names k).mp alive
    rw [groups k here, groups k here]
    rcases within x y found with before | ⟨i, j, first, second, same, inside, member⟩
    · exact exists_congr fun i => and_congr_right fun _ =>
        and_congr_right fun alive => classes.closed i x y alive before
    · constructor
      · rintro ⟨m, named, alive, has⟩
        cases classes.disjoint m i x alive first has inside
        exact ⟨j, same.symm.trans named, second, member⟩
      · rintro ⟨m, named, alive, has⟩
        cases classes.disjoint m j y alive second has member
        exact ⟨i, same.trans named, first, inside⟩

theorem Classes.congr (same : ∀ i, after i ↔ live i)
    (groups : ∀ i, live i → ∀ a, target i a ↔ group i a) :
    Classes after target edge placed := by
  refine classes.collect id ?_ ?_ (fun _ _ => id) (fun _ _ => .inl) ?_
  · simp [same]
  · simp +contextual [groups]
  · intro i j x y _ _ equal different
    exact absurd equal different

/-- An edge within a group. -/
theorem Classes.same (alive : live i)
    (first : group i a) (second : group i b)
    (edges : ∀ x y, drawn x y ↔ edge x y ∨ x = a ∧ y = b) :
    Classes live group drawn placed := by
  refine classes.collect id ?_ ?_ (fun x y => ?_) (fun x y found => ?_) ?_
  · simp
  · simp +contextual
  · exact fun before => (edges x y).mpr (.inl before)
  · refine ((edges x y).mp found).imp id ?_
    rintro ⟨rfl, rfl⟩
    exact ⟨i, i, alive, alive, rfl, first, second⟩
  · intro i j x y _ _ equal different
    exact absurd equal different

/-- An edge between two groups, of which the second goes into the first. -/
theorem Classes.merge [DecidableEq ι] (first : live i)
    (second : live j) (different : i ≠ j) (names : ∀ k, after k ↔ live k ∧ k ≠ j)
    (kept : ∀ k, live k → k ≠ i → k ≠ j → ∀ c, target k c ↔ group k c)
    (both : ∀ c, target i c ↔ group i c ∨ group j c)
    (ends : group i a ∧ group j b ∨ group j a ∧ group i b)
    (edges : ∀ x y, drawn x y ↔ edge x y ∨ x = a ∧ y = b) :
    Classes after target drawn placed := by
  have wider : ∀ x y, edge x y → drawn x y := fun x y before => (edges x y).mpr (.inl before)
  have crosses : EqvGen drawn a b := .rel _ _ ((edges a b).mpr (.inr ⟨rfl, rfl⟩))
  have bridge : ∀ x y, group i x → group j y → EqvGen drawn x y := by
    intro x y inside member
    rcases ends with ⟨head, tail⟩ | ⟨head, tail⟩
    · exact .trans _ _ _ ((classes.joined i x a first inside head).mono wider)
        (.trans _ _ _ crosses ((classes.joined j b y second tail member).mono wider))
    · exact .trans _ _ _ ((classes.joined i x b first inside tail).mono wider)
        (.trans _ _ _ crosses.symm ((classes.joined j a y second head member).mono wider))
  refine classes.collect (fun k => if k = j then i else k) ?_ ?_ wider ?_ ?_
  · grind
  · grind
  · intro x y found
    refine ((edges x y).mp found).imp id ?_
    rintro ⟨rfl, rfl⟩
    rcases ends with ⟨head, tail⟩ | ⟨head, tail⟩
    · exact ⟨i, j, first, second, by rw [if_neg different, if_pos rfl], head, tail⟩
    · exact ⟨j, i, second, first, by rw [if_neg different, if_pos rfl], head, tail⟩
  · intro k l x y _ _ same apart inside member
    split at same
    · next isSecond =>
      subst isSecond
      rw [if_neg (Ne.symm apart)] at same
      subst same
      exact (bridge y x member inside).symm
    · split at same
      · next isSecond =>
        subst same isSecond
        exact bridge x y inside member
      · exact absurd same apart

/-- A point in a group of its own, under a new name. -/
theorem Classes.add (fresh : ¬ placed a) (places : ∀ b, filled b ↔ placed b ∨ b = a) :
    Classes (Option.elim · True live) (fun i b => i.elim (b = a) (group · b)) edge filled where
  disjoint := by
    rintro (_ | i) (_ | j) b here there first second
    · rfl
    · cases first
      exact (classes.not_group fresh there second).elim
    · cases second
      exact (classes.not_group fresh here first).elim
    · exact congrArg some (classes.disjoint i j b here there first second)
  covers b := by
    rw [places, classes.covers, Option.exists, or_comm]
    exact or_congr (true_and _).symm.to_iff .rfl
  joined := by
    rintro (_ | i) b c here first second
    · cases first
      cases second
      exact .refl _
    · exact classes.joined i b c here first second
  inside b c found :=
    ⟨(places b).mpr (.inl (classes.inside b c found).1),
      (places c).mpr (.inl (classes.inside b c found).2)⟩
  closed := by
    rintro (_ | i) b c here found
    · obtain ⟨before, also⟩ := classes.inside b c found
      refine iff_of_false ?_ ?_
      · rintro rfl
        exact fresh before
      · rintro rfl
        exact fresh also
    · exact classes.closed i b c here found

/-- A point in a group of its own. -/
theorem Classes.alone (fresh : ¬ placed a)
    (names : ∀ i, after i ↔ live i ∨ i = j) (groups : ∀ i, live i → i ≠ j)
    (kept : ∀ i, live i → ∀ b, target i b ↔ group i b) (new : ∀ b, target j b ↔ b = a)
    (places : ∀ b, filled b ↔ placed b ∨ b = a) : Classes after target edge filled := by
  refine (classes.add fresh places).collect (Option.getD · j) ?_ ?_ (fun _ _ => id)
    (fun _ _ => .inl) ?_
  · intro k
    simp only [Option.exists, Option.getD, Option.elim]
    grind
  · rintro (_ | i) here c <;> simp only [Option.exists, Option.getD, Option.elim] at here ⊢ <;>
      grind
  · rintro (_ | k) (_ | l) x y here there same different <;>
      simp only [Option.getD, Option.elim] at here there same <;> grind

/-- A point in the group of one that it has an edge to. -/
theorem Classes.extend (fresh : ¬ placed b)
    (alive : live j) (member : group j a)
    (kept : ∀ i, live i → i ≠ j → ∀ c, target i c ↔ group i c)
    (grown : ∀ c, target j c ↔ group j c ∨ c = b)
    (edges : ∀ x y, drawn x y ↔ edge x y ∨ x = a ∧ y = b)
    (places : ∀ c, filled c ↔ placed c ∨ c = b) : Classes live target drawn filled := by
  have wider : ∀ x y, edge x y → drawn x y := fun x y before => (edges x y).mpr (.inl before)
  have bridge : ∀ x, group j x → EqvGen drawn x b := fun x inside =>
    .trans _ _ _ ((classes.joined j x a alive inside member).mono wider)
      (.rel _ _ ((edges a b).mpr (.inr ⟨rfl, rfl⟩)))
  refine (classes.add fresh places).collect (Option.getD · j) ?_ ?_ wider ?_ ?_
  · intro k
    simp only [Option.exists, Option.getD, Option.elim]
    grind
  · rintro (_ | i) here c <;> simp only [Option.exists, Option.getD, Option.elim] at here ⊢ <;>
      grind
  · intro x y found
    refine ((edges x y).mp found).imp id ?_
    rintro ⟨rfl, rfl⟩
    exact ⟨some j, none, alive, trivial, rfl, member, rfl⟩
  · rintro (_ | k) (_ | l) x y here there same different inside also
    · exact absurd rfl different
    · cases same
      cases inside
      exact (bridge y also).symm
    · cases same
      cases also
      exact bridge x inside
    · exact absurd (congrArg some same) different

end

end Operations

end Miranda.Grouping
