import Mathlib.Data.List.Basic
import Mathlib.Logic.Function.Basic

/-!
# Doubly linked chains in memory

A chain starts at one node, follows the next pointers through a list of nodes and
ends at another node, which for a ring is the one it started at. The previous pointers
are kept in step with it: each node on the list points back to the one before it. A
node is put in or taken out by several stores, and the results say what the chain is
after each of them.
-/

namespace Miranda.Chain

open List Function

universe u
variable {α : Type u}

/-- Following `next` from `first` meets exactly these nodes and then `last`. -/
def Path (next : α → α) : α → List α → α → Prop
  | first, [], last => next first = last
  | first, node :: rest, last => next first = node ∧ Path next node rest last

/-- Each of the nodes points back to the one before it, the first of them to `before`. -/
def Back (previous : α → α) : α → List α → Prop
  | _, [] => True
  | before, node :: rest => previous node = before ∧ Back previous node rest

instance Path.decidable [DecidableEq α] (next : α → α) :
    (first : α) → (nodes : List α) → (last : α) → Decidable (Path next first nodes last)
  | first, [], last => inferInstanceAs (Decidable (next first = last))
  | first, node :: rest, last =>
    have := Path.decidable next node rest last
    inferInstanceAs (Decidable (next first = node ∧ Path next node rest last))

section Paths

variable {next changed : α → α} {first last node : α} {nodes front rest : List α}

theorem path_append_cons : Path next first (front ++ node :: rest) last ↔
    Path next first front node ∧ Path next node rest last := by
  induction front generalizing first with
  | nil => exact .rfl
  | cons head more ih =>
    rw [cons_append, Path, Path, ih, and_assoc]

section

variable (path : Path next first nodes last)
include path

/-- Only the next pointers of the first node and of the nodes on the way matter. -/
theorem Path.congr (same : ∀ place ∈ first :: nodes, changed place = next place) :
    Path changed first nodes last := by
  induction nodes generalizing first with
  | nil => exact (same first mem_cons_self).trans path
  | cons node rest ih =>
    refine ⟨(same first mem_cons_self).trans path.1, ih path.2 ?_⟩
    intro place member
    exact same place (mem_cons_of_mem first member)

theorem Path.next_eq : next first = nodes.headD last := by
  cases nodes with
  | nil => exact path
  | cons node rest => exact path.1

/-- The chain from a node that points where another one does. -/
theorem Path.pointing {other : α} (points : next other = next first) :
    Path next other nodes last := by
  cases nodes with
  | nil => exact points.trans path
  | cons node rest => exact ⟨points.trans path.1, path.2⟩

/-- There is only one way to follow the pointers back to where they started, past
nodes that are not the start. -/
theorem Path.unique {others : List α}
    (other : Path next first others last) (absent : last ∉ nodes) (missing : last ∉ others) :
    nodes = others := by
  induction nodes generalizing first others with
  | nil =>
    cases others with
    | nil => rfl
    | cons node rest =>
      have same : last = node := path.symm.trans other.1
      exact absurd (same ▸ mem_cons_self) missing
  | cons node rest ih =>
    cases others with
    | nil =>
      have same : last = node := other.symm.trans path.1
      exact absurd (same ▸ mem_cons_self) absent
    | cons found more =>
      obtain rfl : node = found := path.1.symm.trans other.1
      rw [ih path.2 other.2 (fun member => absent (mem_cons_of_mem _ member))
        fun member => missing (mem_cons_of_mem _ member)]

end

variable [DecidableEq α]

/-- A node that already points where the first one does is put in behind it. -/
theorem Path.push (path : Path next first nodes last) (points : next node = next first)
    (fresh : node ≠ first) (absent : first ∉ nodes) :
    Path (Function.update next first node) first (node :: nodes) last := by
  refine ⟨update_self first node next, (path.pointing points).congr ?_⟩
  intro place member
  apply update_of_ne
  rintro rfl
  rcases mem_cons.mp member with same | inside
  · exact fresh same.symm
  · exact absent inside

/-- A node is taken out by pointing the one before it past it. -/
theorem Path.unlink (path : Path next first (front ++ node :: rest) last)
    (distinct : (first :: (front ++ node :: rest)).Nodup) :
    Path (Function.update next (front.getLastD first) (next node)) first (front ++ rest) last := by
  induction front generalizing first with
  | nil =>
    have tail : Path (Function.update next first (next node)) node rest last := by
      refine path.2.congr ?_
      intro place member
      apply update_of_ne
      rintro rfl
      exact (nodup_cons.mp distinct).1 member
    refine tail.pointing ?_
    rw [update_self, update_of_ne]
    rintro rfl
    exact (nodup_cons.mp distinct).1 mem_cons_self
  | cons head more ih =>
    rw [getLastD_cons]
    refine ⟨?_, ih path.2 (nodup_cons.mp distinct).2⟩
    rw [update_of_ne]
    · exact path.1
    · rintro same
      have member : more.getLastD head ∈ head :: more := getLastD_mem_cons
      refine (nodup_cons.mp distinct).1 ?_
      rw [same]
      exact mem_append_left _ member

end Paths

section Backs

variable {previous changed : α → α} {before node : α} {nodes front rest : List α}

theorem Back.congr (back : Back previous before nodes)
    (same : ∀ place ∈ nodes, changed place = previous place) : Back changed before nodes := by
  induction nodes generalizing before with
  | nil => trivial
  | cons node rest ih =>
    refine ⟨(same node mem_cons_self).trans back.1, ih back.2 ?_⟩
    intro place member
    exact same place (mem_cons_of_mem node member)

/-- What a node points back to is on the chain too. -/
theorem Back.mem (back : Back previous before nodes) (member : node ∈ nodes) :
    previous node ∈ before :: nodes := by
  induction nodes generalizing before with
  | nil => cases member
  | cons first rest ih =>
    rcases mem_cons.mp member with rfl | later
    · rw [back.1]
      exact mem_cons_self
    · exact mem_cons_of_mem before (ih back.2 later)

theorem back_append_cons : Back previous before (front ++ node :: rest) ↔
    Back previous before front ∧ previous node = front.getLastD before ∧
      Back previous node rest := by
  induction front generalizing before with
  | nil => exact (iff_of_eq (true_and _)).symm
  | cons head more ih =>
    rw [cons_append, Back, Back, ih, and_assoc, getLastD_cons]

variable [DecidableEq α]

theorem Back.update_of_not_mem {value : α} (back : Back previous before nodes)
    (absent : node ∉ nodes) : Back (Function.update previous node value) before nodes := by
  refine back.congr ?_
  intro place member
  apply update_of_ne
  rintro rfl
  exact absent member

/-- The first of the nodes is pointed back to another one. -/
theorem Back.redirect {other : α} (back : Back previous before (node :: rest))
    (absent : node ∉ rest) :
    Back (Function.update previous node other) other (node :: rest) :=
  ⟨update_self node other previous, back.2.update_of_not_mem absent⟩

end Backs

end Miranda.Chain
