import Miranda.Lib.Bytes

/-!
# Reversing bytes in place

Exchanging the first byte of a range with the last one, the second with the last but one and
so on to the middle reverses the range. After some exchanges the bytes at both ends are
those from the other end, and the bytes between them are still where they were.
-/

namespace Miranda.Bytes

/-- `std::swap` of two bytes. -/
def swap (image : Image) (first second : Nat) : Image := fun place =>
  if place = first then image second else if place = second then image first else image place

/-- Exchange a number of bytes from the ends of a range. -/
def swapEnds (address length : Nat) (image : Image) (number : Nat) : Image :=
  (List.range number).foldl
    (fun image index => swap image (address + (length - 1 - index)) (address + index)) image

def reverseInPlace (address length : Nat) (image : Image) : Image :=
  swapEnds address length image (length / 2)

section Reversing

variable {address length number : Nat} {image : Image}

theorem swapEnds_succ : swapEnds address length image (number + 1) =
    swap (swapEnds address length image number) (address + (length - 1 - number))
      (address + number) := by
  rw [swapEnds, List.range_succ, List.foldl_append]
  rfl

/-- The bytes at the ends come from the other end. -/
theorem swapEnds_inside (half : 2 * number ≤ length) (index : Nat) (inside : index < length) :
    swapEnds address length image number (address + index) =
      if index < number ∨ length - number ≤ index then image (address + (length - 1 - index))
      else image (address + index) := by
  induction number generalizing index with
  | zero =>
    rw [if_neg (by omega)]
    rfl
  | succ number ih =>
    rw [swapEnds_succ, swap]
    by_cases last : index = length - 1 - number
    · rw [if_pos (by omega), if_pos (by omega), ih (by omega) number (by omega),
        if_neg (by omega)]
      congr 1
      omega
    · by_cases first : index = number
      · rw [if_neg (by omega), if_pos (by omega), if_pos (by omega),
          ih (by omega) _ (by omega), if_neg (by omega), first]
      · rw [if_neg (by omega), if_neg (by omega), ih (by omega) index inside]
        by_cases ends : index < number ∨ length - number ≤ index
        · rw [if_pos ends, if_pos (by omega)]
        · rw [if_neg ends, if_neg (by omega)]

theorem swapEnds_outside (half : 2 * number ≤ length) {place : Nat}
    (outside : place < address ∨ address + length ≤ place) :
    swapEnds address length image number place = image place := by
  induction number with
  | zero => rfl
  | succ number ih =>
    rw [swapEnds_succ, swap, if_neg (by omega), if_neg (by omega), ih (by omega)]

theorem reverseInPlace_outside {place : Nat}
    (outside : place < address ∨ address + length ≤ place) :
    reverseInPlace address length image place = image place :=
  swapEnds_outside (by omega) outside

/-- The range is reversed. -/
theorem holds_reverseInPlace {bytes : List UInt8} (holds : Holds image address bytes) :
    Holds (reverseInPlace address bytes.length image) address bytes.reverse := by
  have read : ∀ index (inside : index < bytes.length), image (address + index) = bytes[index] := by
    intro index inside
    have loaded : (load image address bytes.length)[index]? = bytes[index]? := by rw [holds]
    simpa [load, inside] using loaded
  rw [Holds, List.length_reverse]
  apply List.ext_getElem
  · simp
  · intro index inside within
    rw [length_load] at inside
    simp only [load, List.getElem_map, List.getElem_range, List.getElem_reverse]
    rw [reverseInPlace, swapEnds_inside (by omega) index inside, ← read _ (by omega)]
    split
    · rfl
    · congr 1
      omega

end Reversing

end Miranda.Bytes
