import Mathlib.Algebra.Order.Group.Multiset
import Mathlib.Tactic.Abel

/-!
# An abstract bounded first-in first-out queue

The state is the list of contents, oldest first. An operation yields what it
replies, the new contents and the items it dropped, in the order it dropped them;
an operation that would have to wait yields nothing. What dropping means is left
to the user of the specification.
-/

namespace Miranda.BoundedFifo

open List Multiset

universe u v
variable {α : Type u}

/-- What a full queue does with another item. -/
inductive WhenFull where
  | refuse
  | evict
  | wait
deriving DecidableEq

/-- The visible result of one operation. -/
structure Effect (α : Type u) (ρ : Type v) where
  reply : ρ
  contents : List α
  dropped : List α

/-- Add an item. A refused item counts as dropped. -/
def put (capacity : Nat) (whenFull : WhenFull) (contents : List α) (item : α) :
    Option (Effect α Bool) :=
  if contents.length < capacity then some ⟨true, contents ++ [item], []⟩
  else
    match whenFull with
    | .refuse => some ⟨false, contents, [item]⟩
    | .evict => some ⟨true, contents.tail ++ [item], contents.take 1⟩
    | .wait => none

/-- Add an item, evicting the oldest one if that is needed to make room. -/
def force (capacity : Nat) (contents : List α) (item : α) : List α :=
  if contents.length < capacity then contents ++ [item] else contents.tail ++ [item]

/-- Which item a read takes. -/
inductive End where
  | oldest
  | newest
deriving DecidableEq

/-- Read an item. Taking the newest drops all the others. -/
def take (whichEnd : End) (peek wait : Bool) (contents : List α) :
    Option (Effect α (Option α)) :=
  if contents = [] then
    if wait then none else some ⟨none, contents, []⟩
  else if peek then
    match whichEnd with
    | .oldest => some ⟨contents.head?, contents, []⟩
    | .newest => some ⟨contents.getLast?, contents, []⟩
  else
    match whichEnd with
    | .oldest => some ⟨contents.head?, contents.tail, []⟩
    | .newest => some ⟨contents.getLast?, [], contents.dropLast⟩

variable {contents : List α} {capacity : Nat} {item : α} {peek wait : Bool}
  {effect : Effect α (Option α)} {whichEnd : End}

/-- Adding an item neither creates nor loses one: contents and dropped items
together are the old contents and the item. -/
theorem put_conserves {whenFull : WhenFull} {effect : Effect α Bool}
    (put : put capacity whenFull contents item = some effect) :
    (effect.contents : Multiset α) + effect.dropped = (contents : Multiset α) + {item} := by
  unfold BoundedFifo.put at put
  split at put
  · cases put
    simp [← coe_add]
  · cases whenFull with
    | refuse =>
      cases put
      simp
    | evict =>
      cases put
      have parts : ((contents.take 1 : List α) : Multiset α) + contents.tail = contents := by
        cases contents <;> simp
      simp only [← coe_add, coe_singleton]
      rw [← parts]
      abel
    | wait => cases put

theorem mem_force {other : α} (member : other ∈ force capacity contents item) :
    other ∈ contents ∨ other = item := by
  unfold force at member
  split at member
  · simpa using member
  · rcases mem_append.mp member with kept | added
    · exact .inl (mem_of_mem_tail kept)
    · exact .inr (List.mem_singleton.mp added)

theorem force_nodup (nodup : contents.Nodup) (absent : item ∉ contents) :
    (force capacity contents item).Nodup := by
  have add : ∀ kept : List α, kept.Sublist contents → (kept ++ [item]).Nodup := by
    intro kept part
    rw [← concat_eq_append]
    exact (part.nodup nodup).concat fun inside => absent (part.mem inside)
  unfold force
  split
  · exact add contents (.refl _)
  · exact add _ (tail_sublist _)

/-- Reading neither creates nor loses an item: a consumed reply, the dropped items
and what stays are the old contents. A peek leaves everything in place. -/
theorem take_conserves (take : take whichEnd peek wait contents = some effect) :
    (effect.contents : Multiset α) + effect.dropped + effect.reply.toList =
        (contents : Multiset α) + (if peek then effect.reply.toList else []) ∧
      ∀ item ∈ effect.reply, item ∈ contents := by
  unfold BoundedFifo.take at take
  split at take
  · rename_i empty
    split at take
    · cases take
    · cases take
      simp
  · rename_i nonempty
    split at take
    · rename_i peeks
      cases whichEnd with
      | oldest =>
        cases take
        exact ⟨by simp [peeks], fun item found => mem_of_head? found⟩
      | newest =>
        cases take
        exact ⟨by simp [peeks], fun item found => mem_of_getLast? found⟩
    · rename_i consumes
      cases whichEnd with
      | oldest =>
        cases take
        refine ⟨?_, fun item found => mem_of_head? found⟩
        cases contents with
        | nil => exact absurd rfl nonempty
        | cons first rest =>
          simp only [tail_cons, head?_cons, Option.toList_some, consumes,
            Bool.false_eq_true, if_false, coe_nil, add_zero,
            ← cons_coe, ← singleton_add]
          abel
      | newest =>
        cases take
        refine ⟨?_, fun item found => mem_of_getLast? found⟩
        obtain ⟨first, last, rfl⟩ := eq_nil_or_concat contents |>.resolve_left nonempty
        simp [consumes, ← coe_add]

/-- A peek drops nothing. -/
theorem take_dropped (take : take whichEnd true wait contents = some effect) :
    effect.dropped = [] := by
  unfold BoundedFifo.take at take
  split at take
  · split at take <;> cases take
    rfl
  · cases whichEnd <;> cases take <;> rfl

theorem take_sublist (take : take whichEnd peek wait contents = some effect) :
    effect.contents.Sublist contents := by
  unfold BoundedFifo.take at take
  split at take
  · split at take
    · cases take
    · cases take
      exact .refl _
  · split at take
    · cases whichEnd <;> cases take <;> exact .refl _
    · cases whichEnd with
      | oldest =>
        cases take
        exact tail_sublist _
      | newest =>
        cases take
        exact nil_sublist _

end Miranda.BoundedFifo
