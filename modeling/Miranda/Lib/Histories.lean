import Mathlib.Data.List.Basic

/-!
# Histories

A history lists what has happened, oldest first. Two kinds of statement about a history
survive as it grows: that every entry was in order when it was made, given the entries
before it, and what has happened since the latest entry of some kind. Both have a rule for
one more entry.
-/

namespace Miranda.Histories

open List

universe u v
variable {α : Type u} {β : Type v}

/-- Every entry was in order, given what came before it. -/
def Always (allowed : List α → α → Prop) (history : List α) : Prop :=
  ∀ before entry later, history = before ++ entry :: later → allowed before entry

/-- The latest entry of a kind, with the entries after it. -/
def Latest (kind : α → Option β) (history : List α) (value : β) (since : List α) : Prop :=
  ∃ before entry, history = before ++ entry :: since ∧ kind entry = some value ∧
    ∀ other ∈ since, kind other = none

variable {history : List α} {last : α} {allowed : List α → α → Prop}

/-- Where an entry of a history with one more entry stands. -/
theorem snoc_eq_iff {before later : List α} {entry : α} :
    history ++ [last] = before ++ entry :: later ↔
      (later = [] ∧ history = before ∧ last = entry) ∨
        ∃ rest, later = rest ++ [last] ∧ history = before ++ entry :: rest := by
  constructor
  · intro split
    rcases eq_nil_or_concat later with rfl | ⟨rest, final, rfl⟩
    · obtain ⟨same, single⟩ := append_inj' split rfl
      exact .inl ⟨rfl, same, singleton_inj.mp single⟩
    · rw [concat_eq_append, ← cons_append, ← append_assoc] at split
      obtain ⟨same, single⟩ := append_inj' split rfl
      rw [singleton_inj.mp single]
      exact .inr ⟨rest, concat_eq_append, same⟩
  · rintro (⟨rfl, rfl, rfl⟩ | ⟨rest, rfl, rfl⟩)
    · rfl
    · simp

@[simp] theorem always_nil : Always allowed [] := by
  intro before entry later split
  simp at split

@[simp] theorem always_snoc :
    Always allowed (history ++ [last]) ↔ Always allowed history ∧ allowed history last := by
  constructor
  · intro always
    constructor
    · intro before entry later split
      exact always before entry (later ++ [last]) (by rw [split]; simp)
    · exact always history last [] rfl
  · rintro ⟨always, allows⟩ before entry later split
    rcases snoc_eq_iff.mp split with ⟨rfl, rfl, rfl⟩ | ⟨rest, rfl, earlier⟩
    · exact allows
    · exact always before entry rest earlier

theorem latest_snoc {kind : α → Option β} {since : List α} {value : β} :
    Latest kind (history ++ [last]) value since ↔
      (since = [] ∧ kind last = some value) ∨
        ∃ rest, since = rest ++ [last] ∧ kind last = none ∧ Latest kind history value rest := by
  constructor
  · rintro ⟨before, entry, split, matched, none⟩
    rcases snoc_eq_iff.mp split with ⟨rfl, rfl, rfl⟩ | ⟨rest, rfl, earlier⟩
    · exact .inl ⟨rfl, matched⟩
    · obtain ⟨none, missing⟩ := forall_mem_append.mp none
      exact .inr ⟨rest, rfl, missing last (mem_singleton_self _), before,
        entry, earlier, matched, none⟩
  · rintro (⟨rfl, matched⟩ | ⟨rest, rfl, missing, before, entry, rfl, matched, none⟩)
    · exact ⟨history, last, rfl, matched, by simp⟩
    · exact ⟨before, entry, by simp, matched,
        forall_mem_append.mpr ⟨none, forall_mem_singleton.mpr missing⟩⟩

end Miranda.Histories
