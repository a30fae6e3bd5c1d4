import Miranda.Printing.Matrices

/-!
# Printing is exact

`PrintMessage` and `PrintMatrix` return true exactly if there is room for the whole text and a
zero byte. Then the text is in the memory and the counters have gone down by exactly what was
written and read. Otherwise they return false, and whatever they have written by then is inside
of the room that they were given.

That nothing outside of the room is written is said by what is there afterwards: for every
content of the memory it is the same as before.
-/

namespace Miranda.Printing

open Bytes Printers QCompiler
open LogFile (SizeT)
open QueueTypes (TypeId MessageType primitiveOf)

/-- A call prints a text with a zero byte behind it if there is room, and else it fails. -/
structure PrintsExactly (printer : Cursor → Outcome) (text : List UInt8) (consumed : Nat)
    (cursor : Cursor) : Prop where
  returns_iff : (∃ after, printer cursor = .returned after) ↔
    text.length + 1 ≤ cursor.outputBytes
  returned : ∀ after, printer cursor = .returned after →
    Holds after.memory cursor.output (text ++ [0]) ∧
      after.outputBytes + (text.length + 1) = cursor.outputBytes ∧
      after.inputBytes + consumed = cursor.inputBytes ∧
      SameOutside cursor.memory after.memory cursor.output cursor.outputBytes
  otherwise : (¬ ∃ after, printer cursor = .returned after) →
    ∃ after, printer cursor = .failed after ∧
      SameOutside cursor.memory after.memory cursor.output cursor.outputBytes

variable {cursor : Cursor} {printer : Cursor → Outcome} {text : List UInt8}

/-- A printer that follows a text and has enough input prints it exactly. -/
theorem printsExactly_of_follows (number : Nat) {window : Window} {size : Nat} {walk : Nat → Walk}
    (exact : FollowsExactly window number printer cursor.input (text ++ [0]) size walk)
    (inside : Inside window cursor) (enough : size ≤ cursor.inputBytes) :
    PrintsExactly printer text size cursor := by
  have length : (text ++ [0]).length = text.length + 1 := by
    rw [List.length_append, List.length_singleton]
  have ends := exact.follows.counts.mpr (Nat.sub_add_cancel enough)
  have returns := exact.follows.returns rfl inside ends
  have fails := exact.follows.fails rfl inside ends
  rw [length] at returns fails
  by_cases room : text.length + 1 ≤ cursor.outputBytes
  · obtain ⟨after, done, printed⟩ := returns room
    have written := printed.outputBytes
    rw [length] at written
    refine ⟨iff_of_true ⟨after, done⟩ room, ?_, absurd ⟨after, done⟩⟩
    intro other same
    cases done.symm.trans same
    exact ⟨printed.holds, written, printed.inputBytes, printed.same⟩
  · obtain ⟨after, failed, stopped⟩ := fails (by omega)
    have never : ¬ ∃ after, printer cursor = .returned after := by
      rintro ⟨other, same⟩
      cases failed.symm.trans same
    exact ⟨iff_of_false never room, fun other same => absurd ⟨other, same⟩ never,
      fun _ => ⟨after, failed, stopped.same⟩⟩

theorem PrintsExactly.congr {other : Cursor → Outcome} {consumed : Nat}
    (exact : PrintsExactly printer text consumed cursor) (same : other cursor = printer cursor) :
    PrintsExactly other text consumed cursor := by
  constructor
  · rw [same]
    exact exact.returns_iff
  · rw [same]
    exact exact.returned
  · rw [same]
    exact exact.otherwise

/-- **Messages and matrices are printed exactly, within the room that is given.**

Proof: the printers follow their text and consume their input (`printMessage_follows`,
`printRows_follows`), by induction on the shape. -/
theorem printing_is_exact (sizeT : SizeT) (digest : List Char → BitVec 16) (formats : Formats) :
    (∀ (get : TypeId → Option MessageType) (input : Window) (type : MessageType) (shape : Shape)
        (fuel : Nat) (cursor : Cursor),
      Resolves digest get type.fields shape → shape.depth < fuel →
      input.start + input.size < sizeT.modulus → Inside input cursor →
      messageSize type shape ≤ cursor.inputBytes →
      PrintsExactly (printMessage sizeT digest formats get input fuel type)
        (messageText formats input.image type shape cursor.input) (messageSize type shape) cursor) ∧
    ∀ (typeId : TypeId) (type : Primitive) (memory host serialized : Image) (output source : Nat)
        (rows cols : Int32) (cursor : Cursor),
      primitiveOf digest typeId = some type →
      serializeMatrix typeId memory output host source rows cols = some serialized →
      output + (rows.toInt * cols.toInt).toNat * type.size < sizeT.modulus →
      cursor.input = output →
      PrintsExactly (printMatrix sizeT digest formats
          ⟨serialized, output, (rows.toInt * cols.toInt).toNat * type.size⟩ typeId rows cols)
        (matrixText formats type rows.toInt.toNat cols.toInt.toNat fun row col =>
          (load host (source + (row + col * rows.toInt.toNat) * type.size) type.size).reverse)
        0 cursor := by
  constructor
  · intro get input type shape fuel cursor resolves deep addressable inside enough
    have large : 0 + 2 ^ 16 ≤ sizeT.modulus := by
      cases sizeT <;> decide
    exact printsExactly_of_follows 0
      (printMessage_follows addressable large resolves deep _) inside enough
  · intro typeId type memory host serialized output source rows cols cursor known done addressable
      start
    subst start
    have whole : Inside ⟨serialized, cursor.input, cursor.inputBytes⟩ cursor :=
      ⟨Nat.le_refl _, Nat.le_refl _⟩
    refine .congr (printsExactly_of_follows 0
      (printRows_follows known done addressable) whole (Nat.zero_le _)) ?_
    rw [printMatrix, if_neg (by rw [isPrimitive_of_primitiveOf known]; decide)]

/-- A message with two truth values and the other message. -/
def nestedType : MessageType where
  superSize := 0
  id := 10
  name := [66]
  fields := [⟨Primitive.typeId sumDigest .bool, 2, [121]⟩, ⟨9, 0, [122]⟩]
  fieldsCounted := by decide

/-- The message is printed as "B{y:[f, f], z:A{x:f}}" and a matrix of a row and two columns
as "[[f, f]]". -/
theorem printing_is_exact_sample :
    PrintsExactly (printMessage .bits64 sumDigest noFormats (fun _ => some sampleType)
          ⟨blank, 16, 11⟩ 2 nestedType)
        [66, 123, 121, 58, 91, 102, 44, 32, 102, 93, 44, 32, 122, 58, 65, 123, 120, 58, 102, 125,
          125] 11 ⟨blank, 0, 100, 16, 11⟩ ∧
      PrintsExactly (printMatrix .bits64 sumDigest noFormats
          ⟨store (store blank 16 [0]) 17 [0], 16, 2⟩ (Primitive.typeId sumDigest .bool) 1 2)
        [91, 91, 102, 44, 32, 102, 93, 93] 0 ⟨blank, 0, 100, 16, 0⟩ := by
  obtain ⟨messages, matrices⟩ := printing_is_exact .bits64 sumDigest noFormats
  constructor
  · exact messages _ _ nestedType (.leaf [121] 2 .bool (.group [122] 0 [65] 8 sampleShape .nil)) 2 _
      (.leaf (isPrimitive_primitive .bool) (primitiveOf_typeId sumDigest_distinct .bool)
        (.group rfl rfl sampleType_resolves .nil))
      (by decide) (by decide) ⟨by decide, by decide⟩ (by decide)
  · exact matrices _ .bool blank blank
      _ 16 0 1 2 _
      (primitiveOf_typeId sumDigest_distinct .bool) rfl (by decide) rfl

end Miranda.Printing
