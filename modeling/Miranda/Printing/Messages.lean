import Miranda.Lib.Strings
import Miranda.LogFile.Accessor
import Miranda.Printing.Integers
import Miranda.QueueTypes.Printing

/-!
# Printing messages into memory

`PrintMessage`, `PrintArray` and the generated `PrintField` once more, now with the memory
they write, the pointers they move and the input they read. A call that returns false has
written and counted something by then, and reading outside of the input has an outcome of
its own. Pointers and the number of bytes that are left in the input are numbers of the
width of `size_t` and wrap around.

Values of floating point types, characters and times are formatted by `snprintf`; what it
makes of them is a parameter. Integers and truth values are printed by the source itself.
The memory that is written and the input do not overlap.
-/

namespace Miranda.Printing

open Bytes Checked Printers QCompiler
open LogFile (SizeT)
open QueueTypes (TypeId Field MessageType isPrimitive primitiveOf)

/-- What `snprintf` makes of the bytes of a value. -/
structure Formats where
  text : Primitive → List UInt8 → List UInt8
  short : ∀ type bytes, (text type bytes).length ≤ intMax

/-- The three kinds of cases in the switch of `PrintField`. -/
inductive Style where
  | boolean
  | integer (signed : Bool)
  | formatted
  deriving DecidableEq, Repr

def style : Primitive → Style
  | .bool => .boolean
  | .int8 | .int16 | .int32 | .int64 => .integer true
  | .uint8 | .uint16 | .uint32 | .uint64 => .integer false
  | .float | .double | .char | .time => .formatted

/-- The integer that bytes in network byte order stand for. -/
def integerWord (type : Primitive) (bytes : List UInt8) : BitVec (8 * type.size) :=
  BitVec.ofNat _ (fromBigEndian bytes)

/-- The call of `snprintf` in `PrintField`. -/
def printFormatted (text : List UInt8) (cursor : Cursor) : Outcome :=
  let (writes, ret) := vsnprintf cursor.output cursor.outputBytes text
  let cursor := { cursor with memory := writeAll cursor.memory writes }
  if ret < 0 then .failed cursor
  else if cursor.outputBytes ≤ ret.toNat then .failed cursor
  else .returned { cursor with outputBytes := cursor.outputBytes - ret.toNat }

/-- Read a value of a size and print it. -/
def printValue (input : Window) (size : Nat) (print : List UInt8 → Cursor → Outcome)
    (cursor : Cursor) : Outcome :=
  if cursor.inputBytes < size then .failed cursor
  else
    match input.fetch cursor.input size with
    | none => .outside
    | some bytes => print bytes { cursor with inputBytes := cursor.inputBytes - size }

/-- The case for `bool`, which looks at the room before it counts the byte. -/
def printBool (input : Window) (cursor : Cursor) : Outcome :=
  if cursor.inputBytes < 1 then .failed cursor
  else if cursor.outputBytes < 1 then .failed cursor
  else
    match input.fetch cursor.input 1 with
    | none => .outside
    | some bytes => .returned { cursor with
        memory := store cursor.memory cursor.output [if fromBigEndian bytes = 0 then 102 else 84]
        outputBytes := cursor.outputBytes - 1
        inputBytes := cursor.inputBytes - 1 }

section Printers

variable (sizeT : SizeT) (digest : List Char → BitVec 16) (formats : Formats)
  (get : TypeId → Option MessageType) (input : Window)

/-- One case of the switch. -/
def printCase (type : Primitive) : Cursor → Outcome :=
  match style type with
  | .boolean => printBool input
  | .integer signed => printValue input type.size fun bytes =>
      printInteger signed (integerWord type bytes)
  | .formatted => printValue input type.size fun bytes => printFormatted (formats.text type bytes)

/-- `PrintField`. -/
def printField (typeId : TypeId) (cursor : Cursor) : Outcome :=
  match primitiveOf digest typeId with
  | none => .failed cursor
  | some type => printCase formats input type cursor

/-- ", " -/
def separator : List UInt8 := [44, 32]

/-- One value or one message, where `message` is `PrintMessage`. -/
def printElement (message : MessageType → Cursor → Outcome) (typeId : TypeId) (cursor : Cursor) :
    Outcome :=
  if isPrimitive typeId then
    subcall sizeT.modulus [] (printField digest formats input typeId) cursor
  else
    match get typeId with
    | none => .died
    | some type => subcall sizeT.modulus [0] (message type) cursor

/-- `PrintArray`. -/
def printArray (message : MessageType → Cursor → Outcome) (typeId : TypeId) (length : Nat) :
    Cursor → Outcome :=
  andThen (andThen (put [91]) (each separator true
    (List.replicate length (printElement sizeT digest formats get input message typeId))))
    (put [93, 0])

/-- A field: its name, and its value or its values. -/
def printNamed (message : MessageType → Cursor → Outcome) (field : Field) : Cursor → Outcome :=
  andThen (put (field.name ++ [58]))
    (if 0 < field.length.toNat then
      subcall sizeT.modulus [0]
        (printArray sizeT digest formats get input message field.type field.length.toNat)
    else printElement sizeT digest formats get input message field.type)

/-- `PrintMessage`, with a bound on the nesting. -/
def printMessage : Nat → MessageType → Cursor → Outcome
  | 0, _ => fun _ => .died
  | fuel + 1, type =>
    andThen (skipInput sizeT.modulus type.superSize.toNat)
      (andThen (andThen (put (type.name ++ [123])) (each separator true
        (type.fields.map (printNamed sizeT digest formats get input (printMessage fuel)))))
        (put [125, 0]))

end Printers

/-- The text of a value. -/
def valueText (formats : Formats) (type : Primitive) (bytes : List UInt8) : List UInt8 :=
  match style type with
  | .boolean => [if fromBigEndian bytes = 0 then 102 else 84]
  | .integer signed => decimal (integerValue signed (integerWord type bytes))
  | .formatted => formats.text type bytes

section Values

variable {formats : Formats} {input : Window} {position size need : Nat} {text : List UInt8}

/-- `snprintf` needs room for a zero byte. -/
theorem printFormatted_writes (short : text.length ≤ intMax) :
    Writes (printFormatted text) (text.length + 1) text := by
  have ret : ∀ output room, (vsnprintf output room text).2 = text.length :=
    fun output room => if_pos short
  constructor
  · intro cursor room
    have writes : (vsnprintf cursor.output cursor.outputBytes text).1 =
        [⟨cursor.output, text ++ [0]⟩] := by
      rw [vsnprintf, if_neg (by omega), List.take_of_length_le (by omega)]
    refine ⟨{ cursor with
      memory := store cursor.memory cursor.output (text ++ [0])
      outputBytes := cursor.outputBytes - text.length }, ?_, ?_, ?_, ?_, rfl⟩
    · simp only [printFormatted, writes, ret, Int.toNat_natCast]
      rw [if_neg (by omega), if_neg (by omega)]
      rfl
    · exact (holds_append.mp (holds_store _ _ _)).1
    · exact sameOutside_store (by simpa using room)
    · exact Nat.sub_add_cancel (by omega)
  · intro cursor room
    refine ⟨{ cursor with
      memory := writeAll cursor.memory (vsnprintf cursor.output cursor.outputBytes text).1 },
      ?_, ?_, Nat.le_refl _⟩
    · simp only [printFormatted, ret, Int.toNat_natCast]
      rw [if_neg (by omega), if_pos (by omega)]
    · rw [vsnprintf]
      split
      · exact fun _ _ => rfl
      · apply sameOutside_store
        rw [List.length_append, List.length_take, List.length_singleton]
        omega

/-- A value is read and printed if there is enough of the input. -/
theorem printValue_follows {print : List UInt8 → Cursor → Outcome}
    (writes : Writes (print (load input.image position size)) need text) :
    Follows input (printValue input size print) position need size (Counted text size)
      (Walk.take size) := by
  have reads : ∀ {cursor : Cursor} {rest : Nat}, cursor.input = position → Inside input cursor →
      Walk.take size cursor.inputBytes = .left rest →
      rest + size = cursor.inputBytes ∧
        printValue input size print cursor = print (load input.image position size)
          { cursor with inputBytes := cursor.inputBytes - size } := by
    intro cursor rest place inside ends
    have count := Walk.take_eq_left.mp ends
    obtain ⟨low, high⟩ := inside
    refine ⟨count, ?_⟩
    rw [printValue, if_neg (by omega), Window.fetch_inside low (by omega), place]
  constructor
  · exact Walk.take_eq_left
  · intro cursor rest place inside ends room
    obtain ⟨count, reading⟩ := reads place inside ends
    obtain ⟨after, returned, counted⟩ := writes.returns
      (show need ≤ ({ cursor with inputBytes := cursor.inputBytes - size } : Cursor).outputBytes
        from room)
    have same := counted.inputBytes
    dsimp only at same
    exact ⟨after, reading.trans returned, counted.holds, counted.same, counted.outputBytes, by omega⟩
  · intro cursor rest place inside ends room
    obtain ⟨count, reading⟩ := reads place inside ends
    obtain ⟨after, failed, stopped⟩ := writes.fails
      (show ({ cursor with inputBytes := cursor.inputBytes - size } : Cursor).outputBytes < need
        from room)
    have less := stopped.inputBytes
    dsimp only at less
    exact ⟨after, reading.trans failed, stopped.same, by omega⟩
  · intro cursor place inside ends
    have less := Walk.take_eq_short.mp ends
    exact ⟨cursor, if_pos less, fun _ _ => rfl, Nat.le_refl _⟩

theorem printBool_follows : Follows input (printBool input) position 1 1
    (Counted [if fromBigEndian (load input.image position 1) = 0 then 102 else 84] 1)
    (Walk.take 1) where
  counts := Walk.take_eq_left
  returns := by
    intro cursor rest place inside ends room
    have count := Walk.take_eq_left.mp ends
    obtain ⟨low, high⟩ := inside
    refine ⟨{ cursor with
        memory := store _ _
          _
        outputBytes := cursor.outputBytes - 1
        inputBytes := cursor.inputBytes - 1 }, ?_, holds_store _ _ _, sameOutside_store room,
      Nat.sub_add_cancel room, Nat.sub_add_cancel (by omega)⟩
    rw [printBool, if_neg (by omega), if_neg (by omega), Window.fetch_inside low (by omega), place]
  fails := by
    intro cursor rest place inside ends room
    have count := Walk.take_eq_left.mp ends
    refine ⟨cursor, ?_, fun _ _ => rfl, Nat.le_refl _⟩
    rw [printBool, if_neg (by omega), if_pos room]
  short := by
    intro cursor place inside ends
    exact ⟨cursor, if_pos (Walk.take_eq_short.mp ends), fun _ _ => rfl, Nat.le_refl _⟩

/-- Every case of the switch prints the text of its value. -/
theorem printCase_follows (formats : Formats) (input : Window) (type : Primitive) (position : Nat) :
    ∃ need, (valueText formats type (load input.image position type.size)).length ≤ need ∧
      need ≤ (valueText formats type (load input.image position type.size)).length + 1 ∧
      Follows input (printCase formats input type) position need type.size
        (Counted (valueText formats type (load input.image position type.size)) type.size)
        (Walk.take type.size) := by
  rw [valueText, printCase]
  cases kind : style type with
  | boolean =>
    cases type with
    | bool => exact ⟨1, Nat.le_refl _, Nat.le_succ _, printBool_follows⟩
    | _ => cases kind
  | integer signed =>
    exact ⟨_, Nat.le_refl _, Nat.le_succ _, printValue_follows (printInteger_writes signed _)⟩
  | formatted =>
    exact ⟨_, Nat.le_succ _, Nat.le_refl _,
      printValue_follows (printFormatted_writes (formats.short type _))⟩

end Values

end Miranda.Printing
