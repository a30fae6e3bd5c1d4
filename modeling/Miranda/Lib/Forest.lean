import Mathlib.Data.Finset.Card
import Mathlib.Data.Finset.Insert
import Mathlib.Logic.Function.Basic

/-!
# Forests given by their parent pointers

A node either is a root or has a parent. `Leads` says which root the parents of a node
lead to and after how many steps. In a forest every node leads to a root, after at most
as many steps as there are nodes that are not roots. Pointing a node directly at its
root, pointing one root at another and adding a node keep it a forest.
-/

namespace Miranda.Forest

open Function Finset

universe u

variable {α : Type u}

inductive Leads (parent : α → Option α) : α → α → Nat → Prop
  | root {node : α} (top : parent node = none) : Leads parent node node 0
  | step {node above root : α} {steps : Nat} (points : parent node = some above)
      (rest : Leads parent above root steps) : Leads parent node root (steps + 1)

section Leading

variable {parent : α → Option α} {node root other : α} {steps more : Nat}

theorem Leads.top (leads : Leads parent node root steps) : parent root = none := by
  induction leads with
  | root top => exact top
  | step _ _ ih => exact ih

theorem Leads.unique (leads : Leads parent node root steps) (also : Leads parent node other more) :
    root = other := by
  induction leads generalizing more with
  | root top =>
    cases also with
    | root _ => rfl
    | step points _ => cases top.symm.trans points
  | step points _ ih =>
    cases also with
    | root top => cases top.symm.trans points
    | step again rest =>
      cases points.symm.trans again
      exact ih rest

variable [DecidableEq α]

/-- A node may point directly at its root. -/
theorem Leads.compress {start : α} {far : Nat} (leads : Leads parent start other far)
    (known : Leads parent node root steps) (below : node ≠ root) :
    ∃ near ≤ far, Leads (Function.update parent node (some root)) start other near := by
  have top : Function.update parent node (some root) root = none := by
    rw [update_of_ne below.symm]
    exact known.top
  induction leads with
  | @root place here =>
    refine ⟨0, le_rfl, .root ?_⟩
    rw [update_of_ne]
    · exact here
    · rintro rfl
      exact below (Leads.unique (.root here) known)
  | @step place above _ far points rest ih =>
    by_cases same : place = node
    · subst same
      cases (Leads.step points rest).unique known
      exact ⟨1, Nat.succ_le_succ (Nat.zero_le far), .step (update_self _ _ _) (.root top)⟩
    · obtain ⟨near, fewer, leads⟩ := ih
      refine ⟨near + 1, Nat.succ_le_succ fewer, .step ?_ leads⟩
      rw [update_of_ne same]
      exact points

/-- Pointing one root at another leads everything below it there. -/
theorem Leads.link {start lower upper : α} (leads : Leads parent start root steps)
    (bottom : parent lower = none) (top : parent upper = none) (different : lower ≠ upper) :
    if root = lower then
      Leads (Function.update parent lower (some upper)) start upper (steps + 1)
    else Leads (Function.update parent lower (some upper)) start root steps := by
  induction leads with
  | @root place here =>
    split
    · next same =>
      subst same
      refine .step (update_self _ _ _) (.root ?_)
      rw [update_of_ne different.symm]
      exact top
    · next apart =>
      refine .root ?_
      rw [update_of_ne apart]
      exact here
  | @step place above _ _ points rest ih =>
    have kept : Function.update parent lower (some upper) place = some above := by
      rw [update_of_ne]
      · exact points
      · rintro rfl
        cases bottom.symm.trans points
    split at ih
    · next same =>
      rw [if_pos same]
      exact .step kept ih
    · next apart =>
      rw [if_neg apart]
      exact .step kept ih

end Leading

/-- The nodes that are not roots. -/
def inner (parent : α → Option α) (nodes : Finset α) : Finset α :=
  nodes.filter fun node => (parent node).isSome

structure IsForest (parent : α → Option α) (nodes : Finset α) : Prop where
  inside : ∀ node above, parent node = some above → node ∈ nodes ∧ above ∈ nodes
  leads : ∀ node ∈ nodes, ∃ root steps,
    Leads parent node root steps ∧ steps ≤ (inner parent nodes).card

section Forests

variable {parent : α → Option α} {nodes : Finset α} {node root lower upper : α} {steps : Nat}

theorem inner_card_le (parent : α → Option α) (nodes : Finset α) :
    (inner parent nodes).card ≤ nodes.card :=
  card_filter_le _ _

theorem Leads.mem (leads : Leads parent node root steps) (forest : IsForest parent nodes)
    (member : node ∈ nodes) : root ∈ nodes := by
  induction leads with
  | root _ => exact member
  | step points _ ih => exact ih (forest.inside _ _ points).2

variable [DecidableEq α]

theorem IsForest.compress (forest : IsForest parent nodes) (member : node ∈ nodes)
    (known : Leads parent node root steps) (below : node ≠ root) :
    IsForest (Function.update parent node (some root)) nodes := by
  have points : (parent node).isSome = true := by
    cases known with
    | root _ => exact absurd rfl below
    | step points _ => rw [points]; rfl
  have same : inner (Function.update parent node (some root)) nodes = inner parent nodes := by
    refine filter_congr ?_
    intro other _
    by_cases here : other = node
    · subst here
      rw [update_self, points]
      rfl
    · rw [update_of_ne here]
  refine ⟨?_, ?_⟩
  · intro other above found
    by_cases here : other = node
    · subst here
      rw [update_self] at found
      cases found
      exact ⟨member, known.mem forest member⟩
    · rw [update_of_ne here] at found
      exact forest.inside other above found
  · intro other inside
    obtain ⟨found, far, leads, bound⟩ := forest.leads other inside
    obtain ⟨near, fewer, shorter⟩ := leads.compress known below
    rw [same]
    exact ⟨found, near, shorter, fewer.trans bound⟩

theorem IsForest.link (forest : IsForest parent nodes) (member : lower ∈ nodes)
    (other : upper ∈ nodes) (bottom : parent lower = none) (top : parent upper = none)
    (different : lower ≠ upper) :
    IsForest (Function.update parent lower (some upper)) nodes := by
  have more : (inner (Function.update parent lower (some upper)) nodes).card =
      (inner parent nodes).card + 1 := by
    have absent : lower ∉ inner parent nodes := by
      rw [inner, mem_filter, bottom]
      exact fun both => nomatch both.2
    rw [← card_insert_of_notMem absent]
    congr 1
    ext place
    rw [mem_insert, inner, inner, mem_filter, mem_filter]
    by_cases here : place = lower
    · subst here
      rw [update_self]
      exact iff_of_true ⟨member, rfl⟩ (.inl rfl)
    · rw [update_of_ne here]
      exact (or_iff_right here).symm
  refine ⟨?_, ?_⟩
  · intro place above found
    by_cases here : place = lower
    · subst here
      rw [update_self] at found
      cases found
      exact ⟨member, other⟩
    · rw [update_of_ne here] at found
      exact forest.inside place above found
  · intro place inside
    obtain ⟨root, steps, leads, bound⟩ := forest.leads place inside
    have linked := leads.link bottom top different
    rw [more]
    split at linked
    · exact ⟨upper, steps + 1, linked, Nat.succ_le_succ bound⟩
    · exact ⟨root, steps, linked, bound.trans (Nat.le_succ _)⟩

/-- A node that is new is a root. -/
theorem IsForest.grow (forest : IsForest parent nodes) (fresh : node ∉ nodes) :
    IsForest parent (insert node nodes) := by
  have top : parent node = none := by
    cases points : parent node with
    | none => rfl
    | some above => exact absurd (forest.inside node above points).1 fresh
  refine ⟨?_, ?_⟩
  · intro place above points
    obtain ⟨here, there⟩ := forest.inside place above points
    exact ⟨mem_insert_of_mem here, mem_insert_of_mem there⟩
  · intro place member
    rcases mem_insert.mp member with rfl | inside
    · exact ⟨place, 0, .root top, Nat.zero_le _⟩
    · obtain ⟨root, steps, leads, bound⟩ := forest.leads place inside
      refine ⟨root, steps, leads, bound.trans (card_le_card ?_)⟩
      exact filter_subset_filter _ (subset_insert node nodes)

end Forests

end Miranda.Forest
