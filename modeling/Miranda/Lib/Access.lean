import Mathlib.Data.Set.Card
import Mathlib.Order.Interval.Finset.Nat
import Miranda.Lib.Bytes

/-!
# Which addresses a program touches

Images have a byte at every address, so nothing in them says where a program may read or
write. Two notions say it here.

What an operation on images touches is the set of the addresses that it writes: those
at which it changes some image. A program that stores bytes writes every address it
stores to, since some image has another byte there.

A window is the part of an image that may be read. Fetching bytes is loading them with
no result if one of them is outside, so a program that only fetches and has a result has
read inside of the window alone.
-/

namespace Miranda.Bytes

/-- The addresses that an operation writes. -/
def touched (operation : Image → Image) : Set Nat :=
  {place | ∃ image, operation image place ≠ image place}

theorem touched_id : touched (fun image => image) = ∅ := by
  ext place
  simp [touched]

/-- A store writes exactly the addresses of its bytes, besides what was written before
it. -/
theorem touched_store (operation : Image → Image) (address : Nat) (bytes : List UInt8) :
    touched (fun image => store (operation image) address bytes) =
      touched operation ∪ Set.Ico address (address + bytes.length) := by
  ext place
  rw [Set.mem_union, Set.mem_Ico]
  by_cases inside : address ≤ place ∧ place < address + bytes.length
  · refine iff_of_true ?_ (.inr inside)
    obtain ⟨index, rfl⟩ := Nat.exists_eq_add_of_le inside.1
    have within : index < bytes.length := by omega
    refine ⟨fun _ => bytes[index] + 1, ?_⟩
    show store _ address bytes _ ≠ bytes[index] + 1
    rw [store_inside index within]
    simp
  · simp only [inside, or_false]
    apply exists_congr
    intro image
    show store _ address bytes place ≠ _ ↔ _
    rw [store_outside (by omega)]

/-- How many addresses two pieces have that do not overlap. -/
theorem ncard_pieces {first second size : Nat} (apart : first ≤ second) :
    (Set.Ico 0 first ∪ Set.Ico second (second + size)).ncard = first + size := by
  rw [Set.ncard_union_eq]
  · rw [← Finset.coe_Ico, ← Finset.coe_Ico, Set.ncard_coe_finset, Set.ncard_coe_finset,
      Nat.card_Ico, Nat.card_Ico]
    omega
  · rw [Set.disjoint_left]
    intro place early late
    simp only [Set.mem_Ico] at early late
    omega

/-- The part of an image that a program may read. -/
structure Window where
  image : Image
  start : Nat
  size : Nat

namespace Window

/-- Read a number of bytes, all of them inside of the window. -/
def fetch (window : Window) (address length : Nat) : Option (List UInt8) :=
  if window.start ≤ address ∧ address + length ≤ window.start + window.size then
    some (load window.image address length)
  else none

variable {address : Nat} {window : Window} {width : Nat}

theorem fetch_inside {length : Nat} (low : window.start ≤ address)
    (high : address + length ≤ window.start + window.size) :
    window.fetch address length = some (load window.image address length) :=
  if_pos ⟨low, high⟩

/-- Read an integer of a fixed number of bytes. -/
def fetchWord (window : Window) (address width : Nat) : Option Nat :=
  (window.fetch address width).map fromLittleEndian

theorem fetchWord_inside (low : window.start ≤ address)
    (high : address + width ≤ window.start + window.size) :
    window.fetchWord address width = some (loadWord window.image address width) := by
  rw [fetchWord, fetch_inside low high]
  rfl

theorem fetchWord_outside (outside : window.start + window.size < address + width) :
    window.fetchWord address width = none := by
  rw [fetchWord, fetch, if_neg (by omega)]
  rfl

end Window

end Miranda.Bytes
