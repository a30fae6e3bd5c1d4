import Mathlib.Algebra.Group.Nat.Defs
import Mathlib.Data.List.Chain

/-!
# Counters of one byte

`WrappingCounter` rebuilds a count from its low byte. It compares the byte with the last one, which
it keeps beside the count and which neither the constructor nor `Reset` takes from the count.
-/

namespace Miranda.Common

open BitVec

structure WrappingCounter where
  count : BitVec 32
  lastCount : BitVec 8

namespace WrappingCounter

/-- The constructor. -/
def new (initialCount : BitVec 32) : WrappingCounter := ⟨initialCount, 0⟩

def reset (counter : WrappingCounter) (value : BitVec 32) : WrappingCounter :=
  { counter with count := value }

def update (counter : WrappingCounter) (current : BitVec 8) : WrappingCounter :=
  let count := if counter.lastCount > current then counter.count + 0x100 else counter.count
  ⟨(count &&& 0xffffff00) ||| current.setWidth 32, current⟩

/-- What `Update` returns for one byte after another. -/
def updates (counter : WrappingCounter) : List (BitVec 8) → List Int
  | [] => []
  | current :: later =>
    (counter.update current).count.toInt :: (counter.update current).updates later

theorem toNat_replaceByte (count : BitVec 32) (current : BitVec 8) :
    ((count &&& 0xffffff00) ||| current.setWidth 32).toNat =
      2 ^ 8 * (count.toNat / 2 ^ 8) + current.toNat := by
  have high : count.toNat &&& 0xffffff00 = 2 ^ 8 * (count.toNat / 2 ^ 8) := by
    have bound := count.isLt
    rw [← Nat.div_add_mod (count.toNat &&& 0xffffff00) _, Nat.and_div_two_pow,
      Nat.and_mod_two_pow]
    show 2 ^ 8 * (count.toNat / 2 ^ 8 &&& (2 ^ 24 - 1)) + (count.toNat % 2 ^ 8 &&& 0) = _
    rw [Nat.and_two_pow_sub_one_eq_mod, Nat.and_zero]
    omega
  rw [Nat.two_pow_add_eq_or_of_lt current.isLt, ← high, toNat_or, toNat_and,
    toNat_setWidth_of_le (by decide)]
  rfl

/-- A byte that belongs to the next count gives that count. -/
theorem toNat_update {counter : WrappingCounter} {count next : Nat}
    (isCount : counter.count.toNat = count) (grows : count ≤ next) (once : next ≤ count + 255)
    (fits : next < 2 ^ 31)
    (last : counter.lastCount.toNat = count % 256 ∨
      next = count ∧ counter.lastCount.toNat ≤ count % 256) :
    (counter.update (BitVec.ofNat 8 next)).count.toNat = next := by
  rw [update, toNat_replaceByte, toNat_ofNat]
  split
  · next wraps =>
    rw [gt_iff_lt, lt_def, toNat_ofNat] at wraps
    rw [toNat_add, isCount]
    show 2 ^ 8 * ((count + 256) % 2 ^ 32 / 2 ^ 8) + _ = _
    omega
  · next stays =>
    rw [gt_iff_lt, lt_def, toNat_ofNat] at stays
    rw [isCount]
    omega

theorem toInt_of_small {count : BitVec 32} {next : Nat} (isCount : count.toNat = next)
    (fits : next < 2 ^ 31) : count.toInt = next := by
  rw [toInt_eq_toNat_of_lt (by omega), isCount]

theorem updates_follow {counter : WrappingCounter} {count : Nat} {counts : List Nat}
    (isCount : counter.count.toNat = count) (last : counter.lastCount.toNat = count % 256)
    (grows : (count :: counts).IsChain fun count next => count ≤ next ∧ next ≤ count + 255)
    (fits : ∀ next ∈ counts, next < 2 ^ 31) :
    counter.updates (counts.map (BitVec.ofNat 8)) = counts.map Nat.cast := by
  induction counts generalizing counter count with
  | nil => rfl
  | cons next later ih =>
    obtain ⟨⟨more, once⟩, further⟩ := List.isChain_cons_cons.mp grows
    rw [List.forall_mem_cons] at fits
    have isNext := toNat_update isCount more once fits.1 (.inl last)
    rw [List.map_cons, updates, toInt_of_small isNext fits.1, ih isNext rfl further fits.2]
    rfl

/-- From the constructor, or from `Reset` while the last byte is that of the new count, `Update`
returns the count that the bytes are from.

Proof: by induction on the counts (`updates_follow`); the first byte is not below the last. -/
theorem wrapping_counter_reconstructs (counter : WrappingCounter) (count : Nat) (counts : List Nat)
    (starts : counter = new count ∨ ∃ before : WrappingCounter,
      counter = before.reset count ∧ before.lastCount = count)
    (grows : (count :: counts).IsChain fun count next => count ≤ next ∧ next ≤ count + 255)
    (fits : ∀ next ∈ count :: counts, next < 2 ^ 31) :
    counter.updates ((count :: counts).map (BitVec.ofNat 8)) = (count :: counts).map Nat.cast := by
  rw [List.forall_mem_cons] at fits
  have begins : counter.count.toNat = count ∧ counter.lastCount.toNat ≤ count % 256 := by
    have small : (count : BitVec 32).toNat = count := Nat.mod_eq_of_lt (by omega)
    rcases starts with rfl | ⟨before, rfl, isLast⟩
    · exact ⟨small, Nat.zero_le _⟩
    · refine ⟨small, Nat.le_of_eq ?_⟩
      show before.lastCount.toNat = _
      rw [isLast]
      rfl
  have isCount := toNat_update begins.1 (Nat.le_refl _) (by omega) fits.1 (.inr ⟨rfl, begins.2⟩)
  rw [List.map_cons, updates, toInt_of_small isCount fits.1, updates_follow isCount rfl grows fits.2]
  rfl

/-- From 250 over two wraps. -/
theorem wrapping_counter_reconstructs_twice :
    (new 250).updates ([250, 260, 500, 600].map (BitVec.ofNat 8)) = [250, 260, 500, 600] :=
  wrapping_counter_reconstructs _ 250 _ (.inl rfl) (by decide) (by decide)

end WrappingCounter

end Miranda.Common
