import Miranda.Lib.Bytes
import Miranda.Lib.Checked
import Mathlib.Data.List.Range

/-!
# Strings that end with a zero byte

A string in an image is the bytes up to the first zero byte. Looking for its end is
limited to the memory that belongs to the string: there is no length if no zero byte is
found in it. Bytes without a zero byte, stored with a zero byte behind them, are the
string that is read back.

A program that writes is described by the list of what it writes, so that where it
writes can be told from what is there afterwards. Formatting a text is described that way,
by what the C standard says of `vsnprintf`.
-/

namespace Miranda.Bytes

/-- The number of bytes before the first zero byte, which has to come before the limit. -/
def strlen (image : Image) (address limit : Nat) : Option Nat :=
  (List.range limit).find? fun index => image (address + index) == 0

/-- The string at an address. -/
def readString (image : Image) (address limit : Nat) : Option (List UInt8) :=
  (strlen image address limit).map (load image address)

section Reading

variable {image : Image} {address limit : Nat} {text : List UInt8}

theorem strlen_eq (holds : Holds image address (text ++ [0])) (nonzero : 0 ∉ text)
    (inside : text.length < limit) : strlen image address limit = some text.length := by
  obtain ⟨front, last⟩ := holds_append.mp holds
  rw [strlen, List.find?_range_eq_some]
  refine ⟨?_, List.mem_range.mpr inside, ?_⟩
  · have zero : image (address + text.length) = 0 := (List.cons.inj last).1
    rw [zero]
    rfl
  · intro index early
    have byte : image (address + index) ∈ text := by
      rw [← front]
      exact List.mem_map_of_mem (List.mem_range.mpr early)
    have other : image _ ≠ 0 := fun zero => nonzero (zero ▸ byte)
    simpa using other

theorem readString_eq (holds : Holds image address (text ++ [0])) (nonzero : 0 ∉ text)
    (inside : text.length < limit) : readString image address limit = some text := by
  rw [readString, strlen_eq holds nonzero inside, Option.map_some, (holds_append.mp holds).1]

end Reading

/-- Bytes that are written to an address. -/
structure Write where
  address : Nat
  bytes : List UInt8
  deriving DecidableEq, Repr

/-- The bytes are written before the limit. -/
def Write.Before (limit : Nat) (write : Write) : Prop :=
  write.address + write.bytes.length ≤ limit

instance (limit : Nat) (write : Write) : Decidable (write.Before limit) :=
  inferInstanceAs (Decidable (_ ≤ _))

/-- The image after a number of writes. -/
def writeAll (image : Image) (writes : List Write) : Image :=
  writes.foldl (fun image write => store image write.address write.bytes) image

/-- What is written behind a text, followed by a zero byte, makes a longer text. -/
theorem holds_extended {image : Image} {address : Nat} {text : List UInt8}
    (holds : Holds image address text) (more : List UInt8) :
    Holds (store image (address + text.length) more) address (text ++ more) := by
  rw [holds_append]
  exact ⟨holds.congr (store_agree (.inl (Nat.le_refl _))), holds_store image _ more⟩

/-- `vsnprintf(output, size, format, ap)` for a formatted text, with its result: as much of
the text as there is room for and a zero byte, and a negative number if the length of the text
is no `int`. -/
def vsnprintf (output size : Nat) (text : List UInt8) : List Write × Int :=
  (if size = 0 then [] else [⟨output, text.take (size - 1) ++ [0]⟩],
    if text.length ≤ Checked.intMax then text.length else -1)

end Miranda.Bytes
