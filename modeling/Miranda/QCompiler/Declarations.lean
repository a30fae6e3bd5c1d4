import Miranda.Lib.Layout

/-!
# Declarations of the queue compiler

The queue compiler turns the message and struct declarations of a `.q` file into
C++ classes. A declaration has a name within its package and a list of members. A
member is of a primitive type or of a struct type, and either of them may stand
for an array. Arrays of arrays do not exist, and a struct is complete before
anything refers to it, so the members of a declaration are a finite tree.

From the members the compiler computes the size of the serialized form, a text
that stands for the declaration and, from the text and the size, the type id. The
digest of a text is a parameter: of the SHA-1 of the text only the first four hex
digits are used. Reading `.q` files is the subject of another module.
-/

namespace Miranda.QCompiler

open Layouts

/-- A character of a word: a letter, a digit or an underscore. -/
def isWordChar (char : Char) : Bool := char.isAlphanum || char == '_'

/-- The texts the tokenizer takes for a word. The first character is no digit. -/
def isWord : List Char → Bool
  | [] => false
  | first :: rest => (first.isAlpha || first == '_') && rest.all isWordChar

/-- A `tWord` token. -/
structure Word where
  text : List Char
  valid : isWord text = true
  deriving DecidableEq, Repr

theorem Word.ext {first second : Word} (same : first.text = second.text) : first = second := by
  cases first
  cases second
  simpa using same

theorem Word.isWordChar_of_mem (word : Word) {char : Char} (member : char ∈ word.text) :
    isWordChar char = true := by
  obtain ⟨text, valid⟩ := word
  cases text with
  | nil => simp at member
  | cons first rest =>
    simp only [isWord, Bool.and_eq_true, List.all_eq_true] at valid
    cases member with
    | head =>
      have letter := valid.1
      simp only [Bool.or_eq_true] at letter
      simp only [isWordChar, Char.isAlphanum, Bool.or_eq_true]
      exact letter.imp_left .inl
    | tail _ member => exact valid.2 char member

theorem Word.text_ne_nil (word : Word) : word.text ≠ [] := by
  intro empty
  have valid := word.valid
  rw [empty] at valid
  exact absurd valid (by decide)

/-- The length of an array. A number of the tokenizer starts with a digit from 1
to 9; one with a fraction makes the compiler fail when it computes the type id. -/
structure Length where
  value : Nat
  positive : 0 < value
  deriving DecidableEq, Repr

/-- The types in `Sizes`, and `char`. -/
inductive Primitive where
  | bool
  | float
  | double
  | time
  | char
  | int8
  | uint8
  | int16
  | uint16
  | int32
  | uint32
  | int64
  | uint64
  deriving DecidableEq, Repr

namespace Primitive

def all : List Primitive :=
  [bool, float, double, time, char, int8, uint8, int16, uint16, int32, uint32, int64, uint64]

/-- The name of the C++ type. -/
def text : Primitive → List Char
  | bool => "bool".toList
  | float => "float".toList
  | double => "double".toList
  | time => "::aos::time::Time".toList
  | char => "char".toList
  | int8 => "int8_t".toList
  | uint8 => "uint8_t".toList
  | int16 => "int16_t".toList
  | uint16 => "uint16_t".toList
  | int32 => "int32_t".toList
  | uint32 => "uint32_t".toList
  | int64 => "int64_t".toList
  | uint64 => "uint64_t".toList

/-- `Sizes`, and one byte for a `char`. -/
def size : Primitive → Nat
  | bool | char | int8 | uint8 => 1
  | int16 | uint16 => 2
  | float | int32 | uint32 => 4
  | double | time | int64 | uint64 => 8

theorem mem_all (type : Primitive) : type ∈ all := by
  cases type <;> decide

end Primitive

/-- The words from the outermost package to a declaration. -/
abbrev FullName := List Word

/-- `get_name`: every word with a dot before it. -/
def getName (name : FullName) : List Char := name.flatMap fun word => '.' :: word.text

/-- The `@members` of a declaration. A `MessageElement` has a primitive type and a
`MessageStructElement` the name and the members of a struct; a length says that the
member is a `MessageArrayElement` of such an element. -/
inductive Members where
  | nil
  | element (type : Primitive) (name : Word) (length : Option Length) (rest : Members)
  | struct (type : FullName) (body : Members) (name : Word) (length : Option Length)
      (rest : Members)
  deriving DecidableEq, Repr

namespace Members

/-- `StructBase#size`, with `size` of the elements and of the arrays. -/
def size : Members → Nat
  | nil => 0
  | element type _ none rest => type.size + rest.size
  | element type _ (some length) rest => type.size * length.value + rest.size
  | struct _ body _ none rest => body.size + rest.size
  | struct _ body _ (some length) rest => body.size * length.value + rest.size

/-- The lines of `simpleStr`, each with its newline. `MessageArrayElement#simpleStr`
puts `@name` before the bracket, an instance variable that nothing sets, and the
name of the type where `MessageStructElement#simpleStr` puts the text of the struct. -/
def lines : Members → List Char
  | nil => []
  | element type name none rest => type.text ++ ' ' :: name.text ++ '\n' :: rest.lines
  | element type _ (some length) rest =>
    type.text ++ ' ' :: '[' :: Nat.toDigits 10 length.value ++ ']' :: '\n' :: rest.lines
  | struct _ body name none rest =>
    '{' :: '\n' :: body.lines ++ '}' :: ' ' :: name.text ++ '\n' :: rest.lines
  | struct type _ _ (some length) rest =>
    getName type ++ ' ' :: '[' :: Nat.toDigits 10 length.value ++ ']' :: '\n' :: rest.lines

/-- `StructBase#simpleStr`. -/
def simpleStr (members : Members) : List Char := '{' :: '\n' :: members.lines ++ ['}']

end Members

/-- Whether a declaration is a `MessageDec` or a `StructDec`. -/
inductive Kind where
  | message
  | struct
  deriving DecidableEq, Repr

structure Declaration where
  kind : Kind
  name : FullName
  members : Members
  deriving DecidableEq, Repr

/-- What `Message::Size` returns: the size of the time a message was sent at. -/
def messageSize : Nat := 8

/-- `Size` of the parent class. Only messages have one. -/
def Kind.parentSize : Kind → Nat
  | .message => messageSize
  | .struct => 0

/-- `Size` of the generated class. -/
def Declaration.Size (declaration : Declaration) : Nat :=
  declaration.members.size + declaration.kind.parentSize

section TypeIds

variable (digest : List Char → BitVec 16)

/-- `MessageElement#getTypeID`. -/
def Primitive.getTypeID (type : Primitive) : Nat :=
  (digest type.text).toNat <<< 16 ||| 0x2000 ||| type.size

/-- `StructBase#getTypeID`. -/
def Members.getTypeID (members : Members) : Nat :=
  (digest members.simpleStr).toNat <<< 16 ||| members.size

end TypeIds

/-- The count of a member in the layout, which is zero without a length. -/
def count : Option Length → Nat
  | none => 0
  | some length => length.value

/-- The names, the primitive types and the array lengths of the members, with the
same for the members of structs. The names of the struct types do not matter. -/
def Members.layout : Members → Layout Word Primitive
  | .nil => .nil
  | .element type name length rest => .leaf name (count length) type rest.layout
  | .struct _ body name length rest => .group name (count length) 0 body.layout rest.layout

theorem Members.size_layout (members : Members) :
    members.layout.size Primitive.size = members.size := by
  induction members with
  | nil => rfl
  | element type name length rest ih =>
    cases length with
    | none => simp [layout, Layout.size, size, count, copies, ih]
    | some length =>
      simp [layout, Layout.size, size, count, copies, ih, length.positive.ne',
        Nat.mul_comm]
  | struct type body name length rest bodyHypothesis restHypothesis =>
    cases length with
    | none => simp [layout, Layout.size, size, count, copies, bodyHypothesis, restHypothesis]
    | some length =>
      simp [layout, Layout.size, size, count, copies, bodyHypothesis, restHypothesis,
        length.positive.ne', Nat.mul_comm]

theorem Members.close_layout (members : Members) : members.layout.close = members.layout := by
  induction members with
  | nil => rfl
  | element type name length rest ih =>
    simp [layout, Layout.close, ih]
  | struct type body name length rest bodyHypothesis restHypothesis =>
    simp [layout, Layout.close, bodyHypothesis, restHypothesis]

end Miranda.QCompiler
