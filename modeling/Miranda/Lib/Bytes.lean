import Mathlib.Algebra.Group.Int.Defs
import Mathlib.Algebra.Group.Nat.Defs
import Mathlib.Data.List.Basic
import Mathlib.Data.List.GetD

/-!
# Byte images and fixed-width integers

A byte image gives every address a byte. Storing a list of bytes changes exactly
the addresses it covers and loading reads a list back, so two stores whose ranges
are disjoint do not see each other. Integers of a fixed width go to and from
lists of bytes in either byte order.

Nothing here knows what the image is backed by. Addresses are natural numbers and
every address exists; who may touch which address is the business of the program
that uses the image.
-/

namespace Miranda.Bytes

open List

abbrev Image := Nat → UInt8

/-- Every byte is zero, as in a file that was only ever extended. -/
def blank : Image := fun _ => 0

/-- Copy a list of bytes to an address. -/
def store (image : Image) (address : Nat) (bytes : List UInt8) : Image := fun place =>
  if place < address then image place else bytes[place - address]?.getD (image place)

/-- Read a number of bytes from an address. -/
def load (image : Image) (address length : Nat) : List UInt8 :=
  (List.range length).map fun index => image (address + index)

/-- Two images show the same bytes from an address on, for a number of bytes. -/
def Agree (first second : Image) (address length : Nat) : Prop :=
  ∀ index < length, first (address + index) = second (address + index)

section Images

variable {image : Image} {address place length : Nat} {bytes : List UInt8}

theorem store_outside (outside : place < address ∨ address + bytes.length ≤ place) :
    store image address bytes place = image place := by
  unfold store
  split
  · rfl
  · rw [getElem?_eq_none (by omega)]
    rfl

theorem store_inside (index : Nat) (inside : index < bytes.length) :
    store image address bytes (address + index) = bytes[index] := by
  unfold store
  rw [if_neg (by omega), Nat.add_sub_cancel_left, getElem?_eq_getElem inside]
  rfl

/-- A store is invisible to a range it does not touch. -/
theorem store_agree (disjoint : place + length ≤ address ∨ address + bytes.length ≤ place) :
    Agree (store image address bytes) image place length := by
  intro index inside
  apply store_outside
  omega

@[simp] theorem length_load : (load image address length).length = length := by
  simp [load]

theorem load_congr {other : Image} (agree : Agree image other address length) :
    load image address length = load other address length := by
  apply map_congr_left
  intro index inside
  exact agree index (mem_range.mp inside)

/-- What was stored is what is loaded. -/
theorem load_store (image : Image) (address : Nat) (bytes : List UInt8) :
    load (store image address bytes) address bytes.length = bytes := by
  apply ext_getElem
  · simp
  · intro index inside within
    simp only [load, getElem_map, getElem_range]
    exact store_inside index within

/-- Stores outside the loaded range change nothing. -/
theorem load_store_disjoint
    (disjoint : place + length ≤ address ∨ address + bytes.length ≤ place) :
    load (store image address bytes) place length = load image place length :=
  load_congr (store_agree disjoint)

/-- Two neighbouring stores are one. -/
theorem store_store (image : Image) (address : Nat) (first second : List UInt8) :
    store (store image address first) (address + first.length) second =
      store image address (first ++ second) := by
  funext place
  unfold store
  by_cases before : place < address
  · rw [if_pos (by omega), if_pos before, if_pos before]
  · by_cases inside : place < address + first.length
    · rw [if_pos inside, if_neg before, if_neg before, getElem?_append_left (by omega)]
    · rw [if_neg inside, if_neg before, if_neg before, getElem?_append_right (by omega),
        getElem?_eq_none (l := first) (by omega), Nat.sub_sub]
      rfl

theorem store_nil (image : Image) (address : Nat) : store image address [] = image := by
  funext place
  simp [store]

variable {first second : Image}

section

variable (agree : Agree first second address length)
include agree

theorem Agree.symm :
    Agree second first address length :=
  fun index inside => (agree index inside).symm

theorem Agree.trans {third : Image} (next : Agree second third address length) :
    Agree first third address length :=
  fun index inside => (agree index inside).trans (next index inside)

/-- Agreement on a range is agreement on every part of it. -/
theorem Agree.part (offset part : Nat)
    (inside : offset + part ≤ length) :
    Agree first second (address + offset) part := by
  intro index within
  have same := agree (offset + index) (by omega)
  rwa [← Nat.add_assoc] at same

end

end Images

/-- An image shows the given bytes from an address on. -/
def Holds (image : Image) (address : Nat) (bytes : List UInt8) : Prop :=
  load image address bytes.length = bytes

section Holding

variable {image other : Image} {address : Nat} {bytes first second : List UInt8}

theorem load_add (image : Image) (address length more : Nat) :
    load image address (length + more) =
      load image address length ++ load image (address + length) more := by
  simp only [load, range_add, map_append, map_map, Function.comp_def, Nat.add_assoc]

theorem holds_append : Holds image address (first ++ second) ↔
    Holds image address first ∧ Holds image (address + first.length) second := by
  unfold Holds
  rw [length_append, load_add]
  constructor
  · exact fun whole => append_inj whole length_load
  · rintro ⟨head, tail⟩
    rw [head, tail]

theorem holds_store (image : Image) (address : Nat) (bytes : List UInt8) :
    Holds (store image address bytes) address bytes :=
  load_store image address bytes

theorem Holds.congr (holds : Holds image address bytes)
    (agree : Agree other image address bytes.length) : Holds other address bytes :=
  (load_congr agree).trans holds

end Holding

/-- The bytes of a number, least significant first. -/
def littleEndian : (width value : Nat) → List UInt8
  | 0, _ => []
  | width + 1, value => UInt8.ofNat value :: littleEndian width (value / 256)

/-- The number that bytes stand for, least significant first. -/
def fromLittleEndian : List UInt8 → Nat
  | [] => 0
  | byte :: rest => byte.toNat + 256 * fromLittleEndian rest

/-- The bytes of a number, most significant first: network byte order. -/
def bigEndian (width value : Nat) : List UInt8 := (littleEndian width value).reverse

@[simp] theorem length_littleEndian (width value : Nat) :
    (littleEndian width value).length = width := by
  induction width generalizing value with
  | zero => rfl
  | succ width ih => simp [littleEndian, ih]

@[simp] theorem length_bigEndian (width value : Nat) : (bigEndian width value).length = width := by
  simp [bigEndian]

/-- A number survives the trip when the width has room for it. -/
theorem fromLittleEndian_littleEndian (width value : Nat) (fits : value < 256 ^ width) :
    fromLittleEndian (littleEndian width value) = value := by
  induction width generalizing value with
  | zero =>
    have zero : value = 0 := by simpa using fits
    exact zero.symm
  | succ width ih =>
    have quotient : value / 256 < 256 ^ width := by
      apply Nat.div_lt_of_lt_mul
      rwa [Nat.pow_succ'] at fits
    simp only [littleEndian, fromLittleEndian, ih _ quotient]
    have byte : (UInt8.ofNat value).toNat = value % 256 := UInt8.toNat_ofNat'
    omega

/-- The number that bytes stand for, most significant first. -/
def fromBigEndian (bytes : List UInt8) : Nat := fromLittleEndian bytes.reverse

theorem fromBigEndian_bigEndian (width value : Nat) (fits : value < 256 ^ width) :
    fromBigEndian (bigEndian width value) = value := by
  rw [fromBigEndian, bigEndian, reverse_reverse, fromLittleEndian_littleEndian width value fits]

theorem fromLittleEndian_lt (bytes : List UInt8) :
    fromLittleEndian bytes < 256 ^ bytes.length := by
  induction bytes with
  | nil => decide
  | cons byte rest ih =>
    have small := byte.toNat_lt
    rw [fromLittleEndian, length_cons]
    omega

/-- Bytes are recovered from the number they stand for. -/
theorem littleEndian_fromLittleEndian (bytes : List UInt8) :
    littleEndian bytes.length (fromLittleEndian bytes) = bytes := by
  induction bytes with
  | nil => rfl
  | cons byte rest ih =>
    have small : byte.toNat < 256 := byte.toNat_lt
    have low : .ofNat (byte.toNat + 256 * fromLittleEndian rest) = byte := by
      rw [← UInt8.toNat_inj, UInt8.toNat_ofNat']
      omega
    have high : (byte.toNat + 256 * fromLittleEndian rest) / 256 = fromLittleEndian rest := by
      omega
    rw [length_cons, fromLittleEndian, littleEndian, low, high, ih]

theorem fromBigEndian_lt (bytes : List UInt8) : fromBigEndian bytes < 256 ^ bytes.length := by
  rw [← length_reverse]
  exact fromLittleEndian_lt _

theorem bigEndian_fromBigEndian (bytes : List UInt8) :
    bigEndian bytes.length (fromBigEndian bytes) = bytes := by
  rw [bigEndian, fromBigEndian, ← length_reverse, littleEndian_fromLittleEndian,
    reverse_reverse]

/-- A number in network byte order is read back from where it stands. -/
theorem Holds.fromBigEndian {image : Image} {address width value : Nat}
    (holds : Holds image address (bigEndian width value)) (fits : value < 256 ^ width) :
    fromBigEndian (load image address width) = value := by
  rw [Holds, length_bigEndian] at holds
  rw [holds, fromBigEndian_bigEndian width value fits]

/-- A machine word survives the trip through as many bytes as it has. -/
theorem ofNat_fromLittleEndian {bits : Nat} (width : Nat) (word : BitVec bits)
    (fits : 2 ^ bits ≤ 256 ^ width) :
    BitVec.ofNat bits (fromLittleEndian (littleEndian width word.toNat)) = word := by
  rw [fromLittleEndian_littleEndian width _ (Nat.lt_of_lt_of_le word.isLt fits)]
  rw [BitVec.ofNat_toNat, BitVec.setWidth_eq]

/-- Store an integer of a fixed number of bytes. -/
def storeWord (image : Image) (address width value : Nat) : Image :=
  store image address (littleEndian width value)

/-- Load an integer of a fixed number of bytes. -/
def loadWord (image : Image) (address width : Nat) : Nat :=
  fromLittleEndian (load image address width)

section Words

variable {image : Image} {address place width value : Nat}

theorem storeWord_agree {length : Nat}
    (disjoint : place + length ≤ address ∨ address + width ≤ place) :
    Agree (storeWord image address width value) image place length :=
  store_agree (by simpa using disjoint)

theorem loadWord_congr {other : Image} (agree : Agree image other address width) :
    loadWord image address width = loadWord other address width := by
  rw [loadWord, load_congr agree, loadWord]

theorem loadWord_store_disjoint {bytes : List UInt8}
    (disjoint : place + width ≤ address ∨ address + bytes.length ≤ place) :
    loadWord (store image address bytes) place width = loadWord image place width :=
  loadWord_congr (store_agree disjoint)

theorem loadWord_storeWord_disjoint {size : Nat}
    (disjoint : place + size ≤ address ∨ address + width ≤ place) :
    loadWord (storeWord image address width value) place size = loadWord image place size :=
  loadWord_congr (storeWord_agree disjoint)

theorem load_storeWord_disjoint {length : Nat}
    (disjoint : place + length ≤ address ∨ address + width ≤ place) :
    load (storeWord image address width value) place length = load image place length :=
  load_congr (storeWord_agree disjoint)

theorem loadWord_storeWord (fits : value < 256 ^ width) :
    loadWord (storeWord image address width value) address width = value := by
  have same : load (store image address (littleEndian width value)) address width =
      littleEndian width value := by
    simpa using load_store image address (littleEndian width value)
  rw [loadWord, storeWord, same, fromLittleEndian_littleEndian width value fits]

theorem loadWord_blank (blank : ∀ index < width, image (address + index) = 0) :
    loadWord image address width = 0 := by
  have zeros : ∀ bytes : List UInt8, (∀ byte ∈ bytes, byte = 0) → fromLittleEndian bytes = 0 := by
    intro bytes
    induction bytes with
    | nil => intro _; rfl
    | cons byte rest ih =>
      intro zero
      have first : byte = 0 := zero byte (by simp)
      have others := ih fun other inside => zero other (by simp [inside])
      simp [fromLittleEndian, first, others]
  apply zeros
  intro byte inside
  obtain ⟨index, within, rfl⟩ := mem_map.mp inside
  exact blank index (mem_range.mp within)

end Words

end Miranda.Bytes
