import Mathlib.Algebra.GroupWithZero.Nat
import Mathlib.Algebra.Order.BigOperators.Group.List
import Mathlib.Algebra.Order.Group.Nat
import Mathlib.Data.List.Nodup
import Miranda.Lib.Bytes

/-!
# Message types and their serialized form

A message type describes a struct that can be logged or sent: its id, its name
and its fields, whose types are ids again. Ids carry a flag that marks primitive
types and the size of the type in their low half.

`Serialize` first adds up the size of the fields in sixteen bits, compares with
the room of the buffer and then writes one piece after another, in network byte
order. It is modelled on a byte image with the sixteen-bit arithmetic of the
source: names are cut to the length that sixteen bits show, and for types whose true
size fits sixteen bits it writes exactly the encoding of the type. Deserializing and
the text output are not in this module.

The type cache is the list of known types in the order they were added. A type is
added after the types of its fields, so nesting is well-founded.
-/

namespace Miranda.QueueTypes

open Bytes List

abbrev TypeId := BitVec 32

instance typeId_lawfulBEq : LawfulBEq TypeId := inferInstance

/-- `MessageType::IsPrimitive`. -/
def isPrimitive (typeId : TypeId) : Bool := typeId &&& 0x2000#32 != 0

/-- `MessageType::Sizeof`. -/
def sizeof (typeId : TypeId) : BitVec 32 :=
  if isPrimitive typeId then (typeId &&& 0xFFFF#32) - 0x2000#32 else typeId &&& 0xFFFF#32

/-- `MessageType::Field`. -/
structure Field where
  type : TypeId
  length : BitVec 32
  name : List UInt8
  deriving DecidableEq, Repr

/-- `MessageType`; the number of fields is a sixteen-bit number. -/
structure MessageType where
  superSize : BitVec 16
  id : TypeId
  name : List UInt8
  fields : List Field
  fieldsCounted : fields.length < 2 ^ 16
  deriving DecidableEq

/-- The size of one serialized field. -/
def Field.serializedSize (field : Field) : Nat := 4 + 4 + 2 + field.name.length

namespace MessageType

/-- `fields_size` as `Serialize` computes it, in sixteen bits. -/
def fieldsSize (type : MessageType) : Nat :=
  type.fields.foldl (fun size field => (size + field.serializedSize) % 2 ^ 16) 0

/-- Write one field and advance the buffer pointer. -/
def serializeField (output : Image × Nat) (field : Field) : Image × Nat :=
  let (buffer, position) := output
  let buffer := store buffer position (bigEndian 4 field.type.toNat)
  let buffer := store buffer (position + 4) (bigEndian 4 field.length.toNat)
  let length := field.name.length % 2 ^ 16
  let buffer := store buffer (position + 8) (bigEndian 2 length)
  (store buffer (position + 10) (field.name.take length), position + 10 + length)

/-- `Serialize`: the buffer and the number of bytes, or none for -1. -/
def serialize (type : MessageType) (buffer : Image) (maxBytes : Nat) : Option (Image × Nat) :=
  if maxBytes < 4 + 2 + 2 + 2 + type.name.length + type.fieldsSize then none
  else
    let length := type.name.length % 2 ^ 16
    let buffer := store buffer 0 (bigEndian 2 type.superSize.toNat)
    let buffer := store buffer 2 (bigEndian 4 type.id.toNat)
    let buffer := store buffer 6 (bigEndian 2 length)
    let buffer := store buffer 8 (bigEndian 2 type.fields.length)
    let buffer := store buffer 10 (type.name.take length)
    some (type.fields.foldl serializeField (buffer, 10 + type.name.length))

/-- The true serialized size. -/
def serializedSize (type : MessageType) : Nat :=
  10 + type.name.length + (type.fields.map Field.serializedSize).sum

end MessageType

/-- The bytes of one serialized field. -/
def Field.encoding (field : Field) : List UInt8 :=
  bigEndian 4 field.type.toNat ++ bigEndian 4 field.length.toNat ++
    bigEndian 2 field.name.length ++ field.name

/-- The bytes of a serialized type. -/
def MessageType.encoding (type : MessageType) : List UInt8 :=
  bigEndian 2 type.superSize.toNat ++ bigEndian 4 type.id.toNat ++
    bigEndian 2 type.name.length ++ bigEndian 2 type.fields.length ++ type.name ++
    type.fields.flatMap Field.encoding

/-- What sixteen bits leave of a field: the name is as long as its length says. -/
def Field.cut (field : Field) : Field :=
  { field with name := field.name.take (field.name.length % 2 ^ 16) }

theorem Field.length_cut (field : Field) :
    field.cut.name.length = field.name.length % 2 ^ 16 := by
  rw [Field.cut, length_take, Nat.min_eq_left (Nat.mod_le _ _)]

theorem Field.cut_eq (field : Field) (small : field.name.length < 2 ^ 16) : field.cut = field := by
  rw [Field.cut, Nat.mod_eq_of_lt small, take_length]

theorem Field.length_encoding (field : Field) : field.encoding.length = field.serializedSize := by
  simp only [Field.encoding, Field.serializedSize, length_append, length_bigEndian]

theorem length_fields_encoding (fields : List Field) :
    (fields.flatMap Field.encoding).length = (fields.map Field.serializedSize).sum := by
  simp [length_flatMap, Field.length_encoding]

namespace MessageType

theorem length_encoding (type : MessageType) : type.encoding.length = type.serializedSize := by
  simp only [encoding, serializedSize, length_append, length_bigEndian,
    length_fields_encoding]

/-- The size is computed modulo the sixteen bits. -/
theorem fieldsSize_mod (type : MessageType) :
    type.fieldsSize = (type.fields.map Field.serializedSize).sum % 2 ^ 16 := by
  have general : ∀ (fields : List Field) (start : Nat),
      fields.foldl (fun size field => (size + field.serializedSize) % 2 ^ 16) (start % 2 ^ 16) =
        (start + (fields.map Field.serializedSize).sum) % 2 ^ 16 := by
    intro fields
    induction fields with
    | nil => intro start; rfl
    | cons field rest ih =>
      intro start
      rw [foldl_cons, Nat.mod_add_mod, ih, map_cons, sum_cons,
        Nat.add_assoc]
  have sum := general type.fields 0
  rwa [Nat.zero_add] at sum

/-- One field is written as the encoding of what sixteen bits leave of it. -/
theorem serializeField_eq (buffer : Image) (position : Nat) (field : Field) :
    serializeField (buffer, position) field =
      (store buffer position field.cut.encoding, position + field.cut.serializedSize) := by
  simp only [serializeField]
  rw [Prod.mk.injEq]
  constructor
  · have first := store_store buffer position (bigEndian 4 field.type.toNat)
      (bigEndian 4 field.length.toNat)
    have second := store_store buffer position
      (bigEndian 4 field.type.toNat ++ bigEndian 4 field.length.toNat)
      (bigEndian 2 (field.name.length % 2 ^ 16))
    have third := store_store buffer position
      (bigEndian 4 field.type.toNat ++ bigEndian 4 field.length.toNat ++
        bigEndian 2 (field.name.length % 2 ^ 16)) (field.name.take (field.name.length % 2 ^ 16))
    simp only [length_append, length_bigEndian, Nat.reduceAdd] at first second third
    rw [first, second, third, Field.encoding, field.length_cut]
    rfl
  · rw [Field.serializedSize, field.length_cut]
    omega

/-- All fields are written one after another. -/
theorem serializeFields_eq (fields : List Field) (buffer : Image) (position : Nat) :
    fields.foldl serializeField (buffer, position) =
      (store buffer position ((fields.map Field.cut).flatMap Field.encoding),
        position + ((fields.map Field.cut).map Field.serializedSize).sum) := by
  induction fields generalizing buffer position with
  | nil => simp [store_nil]
  | cons field rest ih =>
    rw [foldl_cons, serializeField_eq, ih, ← Field.length_encoding,
      store_store, map_cons, flatMap_cons, map_cons, sum_cons,
      Field.length_encoding, Nat.add_assoc]

/-- What is written in front of the fields. -/
def heading (type : MessageType) : List UInt8 :=
  bigEndian 2 type.superSize.toNat ++ bigEndian 4 type.id.toNat ++
    bigEndian 2 (type.name.length % 2 ^ 16) ++ bigEndian 2 type.fields.length ++
    type.name.take (type.name.length % 2 ^ 16)

theorem length_heading (type : MessageType) :
    type.heading.length = 10 + type.name.length % 2 ^ 16 := by
  simp only [heading, length_append, length_bigEndian, length_take,
    Nat.min_eq_left (Nat.mod_le _ _)]

/-- `Serialize` compares with a size that is cut to sixteen bits, and then writes two
pieces: the heading and, behind the whole name, the fields. -/
theorem serialize_stores (type : MessageType) (buffer : Image) (maxBytes : Nat) :
    type.serialize buffer maxBytes =
      if maxBytes < 10 + type.name.length + (type.fields.map Field.serializedSize).sum % 2 ^ 16
      then none
      else some (store (store buffer 0 type.heading) (10 + type.name.length)
        ((type.fields.map Field.cut).flatMap Field.encoding),
        10 + type.name.length + ((type.fields.map Field.cut).map Field.serializedSize).sum) := by
  simp only [serialize, Nat.reduceAdd, type.fieldsSize_mod]
  split
  · rfl
  · have second := store_store buffer 0 (bigEndian 2 type.superSize.toNat)
      (bigEndian 4 type.id.toNat)
    have third := store_store buffer 0
      (bigEndian 2 type.superSize.toNat ++ bigEndian 4 type.id.toNat)
      (bigEndian 2 (type.name.length % 2 ^ 16))
    have fourth := store_store buffer 0
      (bigEndian 2 type.superSize.toNat ++ bigEndian 4 type.id.toNat ++
        bigEndian 2 (type.name.length % 2 ^ 16)) (bigEndian 2 type.fields.length)
    have fifth := store_store buffer 0
      (bigEndian 2 type.superSize.toNat ++ bigEndian 4 type.id.toNat ++
        bigEndian 2 (type.name.length % 2 ^ 16) ++ bigEndian 2 type.fields.length)
      (type.name.take (type.name.length % 2 ^ 16))
    simp only [length_append, length_bigEndian, Nat.reduceAdd, Nat.zero_add]
      at second third fourth fifth
    rw [second, third, fourth, fifth, serializeFields_eq]
    rfl

section Small

variable {type : MessageType} (small : type.serializedSize < 2 ^ 16)
include small

theorem name_small : type.name.length < 2 ^ 16 := by
  simp only [serializedSize] at small
  omega

theorem field_names_small (field : Field) (member : field ∈ type.fields) :
    field.name.length < 2 ^ 16 := by
  have part := le_sum_of_mem (mem_map_of_mem (f := Field.serializedSize) member)
  simp only [serializedSize, Field.serializedSize] at small part
  omega

/-- Nothing is cut from a type whose size fits. -/
theorem map_cut : type.fields.map Field.cut = type.fields := by
  conv_rhs => rw [← map_id type.fields]
  apply map_congr_left
  intro field member
  exact field.cut_eq (field_names_small small field member)

end Small

/-- `Serialize` writes the encoding when the buffer has room for it and the size
fits sixteen bits, and fails when the buffer is too small. -/
theorem serialize_eq (type : MessageType) (buffer : Image) (maxBytes : Nat)
    (small : type.serializedSize < 2 ^ 16) :
    type.serialize buffer maxBytes =
      if maxBytes < type.serializedSize then none
      else some (store buffer 0 type.encoding, type.serializedSize) := by
  have sizes := small
  simp only [serializedSize] at sizes
  have named : type.name.length % 2 ^ 16 = type.name.length := Nat.mod_eq_of_lt (name_small small)
  have heading := store_store buffer 0 type.heading (type.fields.flatMap Field.encoding)
  rw [length_heading, named, Nat.zero_add] at heading
  rw [serialize_stores, map_cut small, Nat.mod_eq_of_lt (by omega), heading, MessageType.heading,
    named, take_length]
  rfl

end MessageType

/-- The types the process can look up, oldest first. Ids are distinct and are not
flagged primitive, and a type comes after the types of its fields. -/
structure TypeCache where
  types : List MessageType
  distinct : (types.map MessageType.id).Nodup
  structs : ∀ type ∈ types, isPrimitive type.id = false
  nested : ∀ before type after, types = before ++ type :: after →
    ∀ field ∈ type.fields, isPrimitive field.type = false →
      field.type ∈ before.map MessageType.id

namespace TypeCache

/-- A cache nothing was added to. -/
def empty : TypeCache where
  types := []
  distinct := List.nodup_nil
  structs := by simp
  nested := by
    intro before type after parts
    simp at parts

/-- `type_cache::Add` of a type that is not in the cache, with its stated
precondition that the types of its fields are. -/
def add (cache : TypeCache) (type : MessageType)
    (fresh : type.id ∉ cache.types.map MessageType.id) (struct : isPrimitive type.id = false)
    (known : ∀ field ∈ type.fields, isPrimitive field.type = false →
      field.type ∈ cache.types.map MessageType.id) : TypeCache where
  types := cache.types ++ [type]
  distinct := by
    rw [List.map_append]
    exact cache.distinct.append (List.nodup_singleton _) (by simpa using fresh)
  structs := List.forall_mem_append.mpr ⟨cache.structs, List.forall_mem_singleton.mpr struct⟩
  nested := by
    intro before other after parts
    rcases List.eq_nil_or_concat after with rfl | ⟨earlier, last, rfl⟩
    · obtain ⟨same, isType⟩ := List.append_inj' parts rfl
      cases isType
      rw [← same]
      exact known
    · rw [List.concat_eq_append, ← List.cons_append, ← List.append_assoc] at parts
      exact cache.nested before other earlier (List.append_inj' parts rfl).1

/-- `type_cache::Get`, with none where it dies. -/
def get (cache : TypeCache) (typeId : TypeId) : Option MessageType :=
  cache.types.find? fun type => type.id == typeId

variable {type : MessageType} {cache : TypeCache} {typeId : TypeId}

theorem get_id (found : cache.get typeId = some type) : type.id = typeId := by
  simpa using find?_some found

theorem get_mem (found : cache.get typeId = some type) : type ∈ cache.types :=
  mem_of_find?_eq_some found

theorem get_struct (found : cache.get typeId = some type) : isPrimitive typeId = false := by
  rw [← get_id found]
  exact cache.structs type (get_mem found)

/-- A type among the first of the cache is found there. -/
theorem get_of_mem {first rest : List MessageType} (split : cache.types = first ++ rest)
    (member : typeId ∈ first.map MessageType.id) :
    ∃ before type after, cache.get typeId = some type ∧ cache.types = before ++ type :: after ∧
      before.length < first.length := by
  obtain ⟨known, inside, rfl⟩ := mem_map.mp member
  cases found : first.find? (fun type => type.id == known.id) with
  | none =>
    have missing := find?_eq_none.mp found known inside
    simp at missing
  | some type =>
    obtain ⟨_, before, after, parts, _⟩ := find?_eq_some_iff_append.mp found
    refine ⟨before, type, after ++ rest, ?_, ?_, ?_⟩
    · rw [get, split, find?_append, found]
      rfl
    · rw [split, parts]
      simp
    · rw [parts]
      simp

end TypeCache

end Miranda.QueueTypes
