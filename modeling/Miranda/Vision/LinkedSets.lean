import Miranda.Vision.BlobSet

/-!
# Links between the roots of a disjoint set

`merge_in_blob` and `hier_merge` store into the entries of a `DisjointSet` themselves: the entry of
one root becomes the number of another root. After any such calls the entries are a forest, and two
elements are in the same tree if links connect them.
-/

namespace Miranda.Vision.DisjointSet

open Forest Relation List

/-- The constructor that takes the number of elements. -/
def ofSize (l : Nat) : DisjointSet := ⟨List.replicate l (-1)⟩

inductive Call where
  | add
  | find (bid : Nat)
  | link (lower upper : Nat)

/-- A link is the store `set[lower] = upper`, with two different roots. -/
def call (set : DisjointSet) : Call → Option DisjointSet
  | .add => some set.add.1
  | .find bid => (set.find bid).map Prod.snd
  | .link lower upper =>
    if set.ufindl[lower]? = some (-1) ∧ set.ufindl[upper]? = some (-1) ∧ lower ≠ upper then
      some ⟨set.ufindl.set lower upper⟩
    else none

/-- Every element has a root, to which edges connect it; no edge leads to another root. -/
structure Linked (set : DisjointSet) (root : Nat → Nat) (edge : Nat → Nat → Prop) : Prop where
  rooted : Rooted set.ufindl
  low : ∀ entry ∈ set.ufindl, -1 ≤ entry
  leads : ∀ bid, ∃ steps, Leads (parent set.ufindl) bid (root bid) steps
  joined : ∀ bid, EqvGen edge bid (root bid)
  closed : ∀ a b, edge a b → root a = root b

section Steps

variable {set after : DisjointSet} {root : Nat → Nat} {edge : Nat → Nat → Prop}
  {bid lower upper : Nat}

theorem linked_ofSize (l : Nat) : (ofSize l).Linked id fun _ _ => False := by
  have top : ∀ bid, parent (ofSize l).ufindl bid = none := by
    intro bid
    simp only [parent, ofSize, getElem?_replicate]
    by_cases inside : bid < l <;> simp [inside]
  refine ⟨⟨?_, ?_⟩, ?_, fun bid => ⟨0, .root (top bid)⟩, .refl, fun _ _ drawn => drawn.elim⟩
  · intro bid above points
    cases (top bid).symm.trans points
  · exact fun bid _ => ⟨bid, 0, .root (top bid), Nat.zero_le _⟩
  · intro entry member
    rw [eq_of_mem_replicate member]

theorem findIn_low {ufindl stored : List Int} {root fuel : Nat}
    (low : ∀ entry ∈ ufindl, -1 ≤ entry)
    (found : findIn fuel ufindl bid = some (root, stored)) : ∀ entry ∈ stored, -1 ≤ entry := by
  induction fuel generalizing bid root stored with
  | zero => cases found
  | succ fuel ih =>
    rw [findIn] at found
    split at found
    · cases found
    · split at found
      · cases found
        exact low
      · split at found
        · cases found
        · next inner =>
          cases found
          intro entry member
          rcases mem_or_eq_of_mem_set member with before | rfl
          · exact ih inner entry before
          · omega

variable (linked : set.Linked root edge)
include linked

theorem Linked.root_iff (bid : Nat) : set.ufindl[bid]? = some (-1) ↔
    bid < set.ufindl.length ∧ parent set.ufindl bid = none := by
  rw [parent]
  cases found : set.ufindl[bid]? with
  | none =>
    have outside := getElem?_eq_none_iff.mp found
    exact iff_of_false (by rintro ⟨⟩) fun live => Nat.not_lt_of_ge outside live.1
  | some entry =>
    have inside := (List.getElem?_eq_some_iff.mp found).1
    have least := linked.low entry (mem_of_getElem? found)
    rw [Option.some.injEq, and_iff_right inside]
    dsimp only
    split
    · exact iff_of_true (by omega) rfl
    · exact iff_of_false (by omega) (by rintro ⟨⟩)

theorem Linked.root_root (top : parent set.ufindl bid = none) : root bid = bid := by
  obtain ⟨_, leads⟩ := linked.leads bid
  exact leads.unique (.root top)

theorem Linked.add : set.add.1.Linked root edge :=
  { linked with
    rooted := linked.rooted.add
    low := forall_mem_append.mpr ⟨linked.low, forall_mem_singleton.mpr le_rfl⟩
    leads := by
      show ∀ bid, ∃ steps, Leads (parent (_ ++ [-1])) bid _ steps
      rw [parent_add]
      exact linked.leads }

theorem Linked.find (inside : bid < set.ufindl.length) :
    ∃ stored, set.find bid = some (root bid, stored) ∧ stored.Linked root edge := by
  obtain ⟨_, leads⟩ := linked.leads bid
  obtain ⟨found, _, stored, finds, also, compressed⟩ := find_spec linked.rooted inside
  obtain ⟨⟨_, _⟩, searched, pair⟩ := Option.map_eq_some_iff.mp finds
  cases pair
  rw [also.unique leads] at finds
  refine ⟨_, finds, compressed.rooted, findIn_low linked.low searched, ?_, linked.joined,
    linked.closed⟩
  intro other
  obtain ⟨steps, leads⟩ := linked.leads other
  obtain ⟨near, _, shorter⟩ := compressed.leads other _ steps leads
  exact ⟨near, shorter⟩

theorem Linked.link (bottom : set.ufindl[lower]? = some (-1)) (top : set.ufindl[upper]? = some (-1))
    (different : lower ≠ upper) :
    Linked ⟨set.ufindl.set lower upper⟩ (fun bid => if root bid = lower then upper else root bid)
      fun a b => edge a b ∨ .link a b = Call.link lower upper := by
  rw [linked.root_iff] at bottom top
  refine ⟨?_, ?_, ?_, ?_, ?_⟩
  · have forest := IsForest.link linked.rooted (Finset.mem_range.mpr bottom.1)
      (Finset.mem_range.mpr top.1) bottom.2 top.2 different
    rw [Rooted, length_set, parent_set bottom.1]
    exact forest
  · intro entry member
    rcases mem_or_eq_of_mem_set member with before | rfl
    · exact linked.low entry before
    · omega
  · intro bid
    obtain ⟨steps, leads⟩ := linked.leads bid
    have moved := leads.link bottom.2 top.2 different
    rw [← parent_set bottom.1] at moved
    split at moved
    · next isLower =>
      rw [if_pos isLower]
      exact ⟨_, moved⟩
    · next other =>
      rw [if_neg other]
      exact ⟨_, moved⟩
  · intro bid
    have old : EqvGen (fun a b => edge a b ∨ .link a b = Call.link lower upper) bid _ :=
      (linked.joined bid).mono fun _ _ => .inl
    split
    · next isLower =>
      rw [isLower] at old
      exact .trans _ _ _ old (.rel _ _ (.inr rfl))
    · exact old
  · rintro a b (before | new)
    · rw [linked.closed a b before]
    · cases new
      rw [linked.root_root bottom.2, linked.root_root top.2, if_pos rfl, if_neg different.symm]

/-- Only a link changes roots. -/
theorem Linked.call {made : Call} (done : set.call made = some after) :
    ∃ next, after.Linked next (fun a b => edge a b ∨ .link a b = made) ∧
      ((∀ lower upper, .link lower upper ≠ made) → next = root) := by
  cases made with
  | add =>
    cases done
    simp only [reduceCtorEq, or_false]
    exact ⟨root, linked.add, fun _ => rfl⟩
  | find bid =>
    obtain ⟨⟨_, _⟩, found, rfl⟩ := Option.map_eq_some_iff.mp done
    have inside : bid < set.ufindl.length := by
      by_contra outside
      rw [DisjointSet.find, findIn, getElem?_eq_none (Nat.le_of_not_lt outside)] at found
      cases found
    obtain ⟨_, finds, kept⟩ := linked.find inside
    cases found.symm.trans finds
    simp only [reduceCtorEq, or_false]
    exact ⟨root, kept, fun _ => rfl⟩
  | link lower upper =>
    rw [DisjointSet.call] at done
    split at done
    · next roots =>
      cases done
      exact ⟨_, linked.link roots.1 roots.2.1 roots.2.2, fun quiet => absurd rfl (quiet _ _)⟩
    · cases done

theorem Linked.run {calls : List Call} (ran : calls.foldlM DisjointSet.call set = some after) :
    ∃ next, after.Linked next (fun a b => edge a b ∨ .link a b ∈ calls) ∧
      ((∀ lower upper, .link lower upper ∉ calls) → next = root) := by
  induction calls generalizing set root edge with
  | nil =>
    cases ran
    simp only [not_mem_nil, or_false]
    exact ⟨root, linked, fun _ => rfl⟩
  | cons made later ih =>
    rw [foldlM_cons] at ran
    obtain ⟨_, done, rest⟩ := Option.bind_eq_some_iff.mp ran
    obtain ⟨middle, first, kept⟩ := linked.call done
    obtain ⟨final, last, still⟩ := ih first rest
    simp only [or_assoc, ← mem_cons] at last
    refine ⟨final, last, fun quiet => ?_⟩
    simp only [mem_cons, not_or] at quiet
    rw [still fun lower upper => (quiet lower upper).2, kept fun lower upper => (quiet lower upper).1]

theorem Linked.same_iff (a b : Nat) : root a = root b ↔ EqvGen edge a b := by
  constructor
  · intro same
    exact .trans _ _ _ (same ▸ linked.joined a) (.symm _ _ (linked.joined b))
  · intro connected
    induction connected with
    | rel a b drawn => exact linked.closed a b drawn
    | refl _ => rfl
    | symm _ _ _ ih => exact ih.symm
    | trans _ _ _ _ _ first second => exact first.trans second

end Steps

/-- After any calls on a new set every element has one root, whose entry is -1; it is the same for
two elements if links connect them; and `find` returns it, then and until another link is made.

Proof: by induction on the calls the entries are a forest with these roots (`Linked`). -/
theorem disjoint_set_linked (l : Nat) (calls : List Call) (set : DisjointSet)
    (ran : calls.foldlM call (ofSize l) = some set) :
    ∃ root : Nat → Nat,
      (∀ bid < set.ufindl.length, set.ufindl[root bid]? = some (-1)) ∧
      (∀ bid, set.ufindl[bid]? = some (-1) → root bid = bid) ∧
      (∀ a b, root a = root b ↔ EqvGen (fun a b => .link a b ∈ calls) a b) ∧
      ∀ (later : List Call) after, (∀ lower upper, .link lower upper ∉ later) →
        later.foldlM call set = some after →
          ∀ bid < after.ufindl.length, ∃ stored, after.find bid = some (root bid, stored) := by
  obtain ⟨root, linked, _⟩ := (linked_ofSize l).run ran
  simp only [false_or] at linked
  refine ⟨root, ?_, ?_, linked.same_iff, ?_⟩
  · intro bid inside
    obtain ⟨_, leads⟩ := linked.leads bid
    have member := leads.mem linked.rooted (Finset.mem_range.mpr inside)
    exact (linked.root_iff _).mpr ⟨Finset.mem_range.mp member, leads.top⟩
  · intro bid isRoot
    exact linked.root_root ((linked.root_iff bid).mp isRoot).2
  · intro later after quiet more bid inside
    obtain ⟨_, still, kept⟩ := linked.run more
    obtain ⟨stored, found, _⟩ := still.find inside
    rw [kept quiet] at found
    exact ⟨stored, found⟩

/-- Three elements, of which the second is linked to the third through the first: for both
`find` returns the third. -/
theorem disjoint_set_linked_three :
    ∃ set, [.add, .link 1 0, .link 0 2, .find 1].foldlM call (ofSize 2) = some set ∧
      ∀ bid ∈ [1, 2], ∃ stored, set.find bid = some (2, stored) := by
  obtain ⟨set, ran, inside, third⟩ : ∃ set,
      [.add, .link 1 0, .link 0 2, .find 1].foldlM call (ofSize 2) = some set ∧
        3 ≤ set.ufindl.length ∧ set.ufindl[2]? = some (-1) :=
    ⟨_, rfl, by decide, rfl⟩
  obtain ⟨root, _, own, same, finds⟩ := disjoint_set_linked 2 _ set ran
  have linked : root 1 = root 2 := (same 1 2).mpr <|
    .trans _ _ _ (.rel 1 0 (by simp)) (.rel 0 2 (by simp))
  refine ⟨set, ran, fun bid member => ?_⟩
  have isThird : root bid = 2 := by
    rcases List.mem_pair.mp member with rfl | rfl
    · rw [linked, own 2 third]
    · exact own 2 third
  rw [← isThird]
  exact finds [] set (by simp) rfl bid (by simp at member; omega)

end Miranda.Vision.DisjointSet
