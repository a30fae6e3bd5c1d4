import Miranda.Lib.Layout
import Miranda.Printing.Messages
import Miranda.QCompiler.Agreement

/-!
# What is printed of a message

A message type whose types are all known has a shape: the fields in order, each of them a
primitive type or a message again, and each of them once or as an array. The shape tells the
text of a message, the number of bytes that it takes up in the input, and the walk that
printing makes over those bytes. The walk checks the size of every value before it reads it, and
checks nothing where it skips the bytes of the parent class in front of a message.

Printing a message follows the text and the walk of its shape, whatever the nesting.
-/

namespace Miranda.Printing

open Bytes Printers QCompiler
open Layouts (copies)
open LogFile (SizeT)
open QueueTypes (TypeId Field MessageType isPrimitive primitiveOf)

/-- The fields of a message with their types. A length of zero is a field that is no
array. -/
inductive Shape where
  | nil
  | leaf (name : List UInt8) (length : Nat) (type : Primitive) (rest : Shape)
  | group (name : List UInt8) (length : Nat) (typeName : List UInt8) (superSize : Nat)
      (body rest : Shape)
  deriving DecidableEq, Repr

/-- The shape that the types of the cache give a list of fields. -/
inductive Resolves (digest : List Char → BitVec 16) (get : TypeId → Option MessageType) :
    List Field → Shape → Prop where
  | nil : Resolves digest get [] .nil
  | leaf {field : Field} {rest : List Field} {type : Primitive} {shape : Shape}
      (primitive : isPrimitive field.type = true)
      (known : primitiveOf digest field.type = some type) (tail : Resolves digest get rest shape) :
      Resolves digest get (field :: rest) (.leaf field.name field.length.toNat type shape)
  | group {field : Field} {rest : List Field} {type : MessageType} {body shape : Shape}
      (struct : isPrimitive field.type = false) (found : get field.type = some type)
      (inner : Resolves digest get type.fields body) (tail : Resolves digest get rest shape) :
      Resolves digest get (field :: rest)
        (.group field.name field.length.toNat type.name type.superSize.toNat body shape)

/-- A text, or as many texts as the length says in brackets. -/
def arrayText (length : Nat) (element : Nat → List UInt8) : List UInt8 :=
  if length = 0 then element 0
  else [91] ++ separator.intercalate ((List.range length).map element) ++ [93]

/-- The name of a message, and its fields in braces. -/
def bracedText (name : List UInt8) (fields : List (List UInt8)) : List UInt8 :=
  name ++ [123] ++ separator.intercalate fields ++ [125]

namespace Shape

/-- How deep messages are nested in the fields. -/
def depth : Shape → Nat
  | nil => 0
  | leaf _ _ _ rest => rest.depth
  | group _ _ _ _ body rest => max (body.depth + 1) rest.depth

/-- The serialized size of the fields. -/
def size : Shape → Nat
  | nil => 0
  | leaf _ length type rest => copies length * type.size + rest.size
  | group _ length _ superSize body rest => copies length * (superSize + body.size) + rest.size

/-- The texts of the fields that stand at a position of the input. -/
def texts (formats : Formats) (image : Image) : Shape → Nat → List (List UInt8)
  | nil, _ => []
  | leaf name length type rest, position =>
    (name ++ [58] ++ arrayText length fun index =>
      valueText formats type (load image (position + index * type.size) type.size)) ::
      rest.texts formats image (position + copies length * type.size)
  | group name length typeName superSize body rest, position =>
    (name ++ [58] ++ arrayText length fun index =>
      bracedText typeName (body.texts formats image
        (position + index * (superSize + body.size) + superSize))) ::
      rest.texts formats image (position + copies length * (superSize + body.size))

/-- The walk over the fields. -/
def walk : Shape → Nat → Walk
  | nil => .left
  | leaf _ length type rest =>
    Walk.andThen (Walk.repeated (Walk.take type.size) (copies length)) rest.walk
  | group _ length _ superSize body rest =>
    Walk.andThen (Walk.repeated (Walk.andThen (Walk.skip superSize) body.walk) (copies length))
      rest.walk

end Shape

/-- The text of a message at a position of the input. -/
def messageText (formats : Formats) (image : Image) (type : MessageType) (shape : Shape)
    (position : Nat) : List UInt8 :=
  bracedText type.name (shape.texts formats image (position + type.superSize.toNat))

/-- The serialized size of a message. -/
def messageSize (type : MessageType) (shape : Shape) : Nat := type.superSize.toNat + shape.size

/-- The walk over a message. -/
def messageWalk (type : MessageType) (shape : Shape) : Nat → Walk :=
  Walk.andThen (Walk.skip type.superSize.toNat) shape.walk

section Following

variable {sizeT : SizeT} {digest : List Char → BitVec 16} {formats : Formats}
  {get : TypeId → Option MessageType} {input : Window} {number : Nat}
  {message : MessageType → Cursor → Outcome}

theorem separator_ne_nil : separator ≠ [] := by
  decide

variable {typeId : TypeId} {type : MessageType} {position size : Nat} {walk : Nat → Walk}
  {fuel : Nat} {shape : Shape}

section

variable (addressable : input.start + input.size < sizeT.modulus)
include addressable

/-- A value is printed as the element of an array or as a field. -/
theorem printElement_primitive {type : Primitive} (primitive : isPrimitive typeId = true)
    (known : primitiveOf digest typeId = some type) (position : Nat) :
    FollowsText input number (printElement sizeT digest formats get input message typeId) position
      (valueText formats type (load input.image position type.size)) type.size
      (Walk.take type.size) where
  follows := by
    obtain ⟨need, low, high, follows⟩ := printCase_follows formats input type position
    have same : printElement sizeT digest formats get input message typeId =
        subcall sizeT.modulus [] (printCase formats input type) := by
      funext cursor
      rw [printElement, if_pos primitive]
      congr 1
      funext cursor
      rw [printField, known]
    rw [same]
    refine ⟨need, low, high, .subcall ?_ addressable⟩
    rwa [List.append_nil]
  overruns := fun _ ends => absurd ends Walk.take_ne_overrun

/-- A message is printed as the element of an array or as a field. -/
theorem printElement_struct (struct : isPrimitive typeId = false) (found : get typeId = some type)
    {text : List UInt8}
    (follows : FollowsExactly input number (message type) position (text ++ [0]) size walk) :
    FollowsText input number (printElement sizeT digest formats get input message typeId) position
      text size walk := by
  have same : printElement sizeT digest formats get input message typeId =
      subcall sizeT.modulus [0] (message type) := by
    funext cursor
    rw [printElement, struct, found]
    rfl
  rw [same]
  exact follows.subcall addressable

/-- A field is printed behind its name, once or in brackets. -/
theorem printNamed_follows {field : Field}
    {width : Nat} {text : Nat → List UInt8}
    (element : ∀ position, FollowsText input number
      (printElement sizeT digest formats get input message field.type) position (text position)
      width walk)
    (position : Nat) :
    FollowsText input number (printNamed sizeT digest formats get input message field) position
      (field.name ++ [58] ++ arrayText field.length.toNat fun index =>
        text (position + index * width))
      (copies field.length.toNat * width) (Walk.repeated walk (copies field.length.toNat)) := by
  apply FollowsText.behind
  by_cases isArray : 0 < field.length.toNat
  · have items := ((followAll_replicate element field.length.toNat position).each
      separator_ne_nil true).1
    have array := (items.behind [91]).andPut (List.cons_ne_nil 93 [0])
    rw [separated_eq, show ([93, 0] : List UInt8) = [93] ++ [0] from rfl,
      ← List.append_assoc] at array
    rw [if_pos isArray, arrayText, copies, if_neg isArray.ne', if_neg isArray.ne']
    exact array.subcall addressable
  · have single : field.length.toNat = 0 := by omega
    rw [single, arrayText, copies, if_pos rfl, if_pos rfl, Nat.one_mul,
      Nat.zero_mul]
    have once := element position
    rwa [← Walk.andThen_left walk] at once

section

variable (large : number + 2 ^ 16 ≤ sizeT.modulus)
include large

/-- A message is printed with its fields in braces. -/
theorem printMessage_succ {texts : List (List UInt8)}
    (fields : FollowAll input number (position + type.superSize.toNat)
      (type.fields.map (printNamed sizeT digest formats get input
        (printMessage sizeT digest formats get input fuel))) texts size walk) :
    FollowsExactly input number (printMessage sizeT digest formats get input (fuel + 1) type)
      position (bracedText type.name texts ++ [0]) (type.superSize.toNat + size)
      (Walk.andThen (Walk.skip type.superSize.toNat) walk) := by
  have items := (fields.each separator_ne_nil true).1
  have braced := (items.behind (type.name ++ [123])).andPut (List.cons_ne_nil 125 [0])
  rw [separated_eq, show ([125, 0] : List UInt8) = [125] ++ [0] from rfl,
    ← List.append_assoc] at braced
  have small := type.superSize.isLt
  refine .skip type.name.length addressable (by omega) ?_ braced
  intro cursor room
  have short : put (type.name ++ [123]) cursor = .failed cursor := by
    apply if_pos
    rw [room, List.length_append]
    exact Nat.lt_succ_self _
  rw [andThen, andThen, short]
  rfl

/-- The fields of a type that resolves are printed as their shape says. -/
theorem Resolves.follows {fields : List Field}
    (resolves : Resolves digest get fields shape) (deep : shape.depth ≤ fuel) (position : Nat) :
    FollowAll input number position
      (fields.map (printNamed sizeT digest formats get input
        (printMessage sizeT digest formats get input fuel)))
      (shape.texts formats input.image position) shape.size shape.walk := by
  induction resolves generalizing fuel position with
  | nil => exact .nil position
  | leaf primitive known tail ih =>
    exact .cons
      (printNamed_follows addressable (printElement_primitive addressable primitive known) position)
      (ih deep _)
  | @group field rest type body shape struct found inner tail bodyHypothesis restHypothesis =>
    obtain ⟨nested, beside⟩ := Nat.max_le.mp deep
    obtain ⟨less, rfl⟩ : ∃ less, fuel = less + 1 := ⟨fuel - 1, by omega⟩
    have element : ∀ position, FollowsText input number
        (printElement sizeT digest formats get input
          _ _) position
        _
        _
        _ :=
      fun position => printElement_struct addressable struct found
        (printMessage_succ addressable large (bodyHypothesis (Nat.le_of_succ_le_succ nested) _))
    exact .cons (printNamed_follows addressable element position) (restHypothesis beside _)

/-- A message whose type resolves is printed as its shape says. -/
theorem printMessage_follows (resolves : Resolves digest get type.fields shape)
    (deep : shape.depth < fuel) (position : Nat) :
    FollowsExactly input number (printMessage sizeT digest formats get input fuel type) position
      (messageText formats input.image type shape position ++ [0]) (messageSize type shape)
      (messageWalk type shape) := by
  obtain ⟨less, rfl⟩ : ∃ less, fuel = less + 1 := ⟨fuel - 1, by omega⟩
  exact printMessage_succ addressable large
    (resolves.follows addressable large (Nat.le_of_lt_succ deep) _)

end

end

end Following

/-- Nothing is formatted with `snprintf`. -/
def noFormats : Formats := ⟨fun _ _ => [], fun _ _ => by decide⟩

/-- A message with a truth value, behind a parent class of eight bytes. -/
def sampleType : MessageType where
  superSize := 8
  id := 9
  name := [65]
  fields := [⟨Primitive.typeId sumDigest .bool, 0, [120]⟩]
  fieldsCounted := by decide

def sampleShape : Shape := .leaf [120] 0 .bool .nil

theorem sampleType_resolves {get : TypeId → Option MessageType} :
    Resolves sumDigest get sampleType.fields sampleShape :=
  .leaf (isPrimitive_primitive .bool) (primitiveOf_typeId sumDigest_distinct .bool) .nil

end Miranda.Printing
