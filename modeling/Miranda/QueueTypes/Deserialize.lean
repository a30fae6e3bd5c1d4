import Miranda.QueueTypes.MessageType

/-!
# Reading a message type back

`Deserialize` walks over the buffer with a count of the bytes that are left and gives
up as soon as the next piece is longer than that. It is modelled on a byte image: the
buffer pointer is an address, and the result is either the type with the count after
it or the count at which the function returned a null pointer.
-/

namespace Miranda.QueueTypes

open Bytes List

/-- One turn of the loop: the field, the pointer and the count after it. -/
def deserializeField (deserializeLength : Bool) (buffer : Image) (position bytes : Nat) :
    Except Nat (Field × Nat × Nat) :=
  if bytes < 4 + 2 + (if deserializeLength then 4 else 0) then .error bytes
  else
    let bytes := bytes - (4 + 2)
    let type := BitVec.ofNat 32 (fromBigEndian (load buffer position 4))
    let position := position + 4
    let (length, position, bytes) :=
      if deserializeLength then
        (BitVec.ofNat 32 (fromBigEndian (load buffer position 4)), position + 4, bytes - 4)
      else (0, position, bytes)
    let nameLength := fromBigEndian (load buffer position 2)
    let position := position + 2
    if bytes < nameLength then .error bytes
    else
      .ok (⟨type, length, load buffer position nameLength⟩, position + nameLength,
        bytes - nameLength)

/-- The loop over the fields. -/
def deserializeFields (deserializeLength : Bool) (buffer : Image) :
    (count position bytes : Nat) → Except Nat (List Field × Nat)
  | 0, _, bytes => .ok ([], bytes)
  | count + 1, position, bytes =>
    match deserializeField deserializeLength buffer position bytes with
    | .error left => .error left
    | .ok (field, position, bytes) =>
      match deserializeFields deserializeLength buffer count position bytes with
      | .error left => .error left
      | .ok (fields, bytes) => .ok (field :: fields, bytes)

theorem length_deserializeFields {deserializeLength : Bool} {buffer : Image}
    {count position bytes left : Nat} {fields : List Field}
    (read : deserializeFields deserializeLength buffer count position bytes = .ok (fields, left)) :
    fields.length = count := by
  induction count generalizing position bytes fields with
  | zero =>
    cases read
    rfl
  | succ count ih =>
    unfold deserializeFields at read
    split at read
    · cases read
    · split at read
      · cases read
      · next others =>
        cases read
        exact congrArg _ (ih others)

/-- `MessageType::Deserialize`. -/
def MessageType.deserialize (buffer : Image) (bytes : Nat) (deserializeLength : Bool) :
    Except Nat (MessageType × Nat) :=
  if bytes < 2 + 4 + 2 + 2 then .error bytes
  else
    let bytes := bytes - (2 + 4 + 2 + 2)
    let superSize := BitVec.ofNat 16 (fromBigEndian (load buffer 0 2))
    let id := BitVec.ofNat 32 (fromBigEndian (load buffer 2 4))
    let nameLength := fromBigEndian (load buffer 6 2)
    let numberFields := BitVec.ofNat 16 (fromBigEndian (load buffer 8 2))
    if bytes < nameLength then .error bytes
    else
      let bytes := bytes - nameLength
      let name := load buffer 10 nameLength
      match read : deserializeFields deserializeLength buffer numberFields.toNat (10 + nameLength)
        bytes with
      | .error left => .error left
      | .ok (fields, bytes) =>
        .ok (⟨superSize, id, name, fields, length_deserializeFields read ▸ numberFields.isLt⟩, bytes)

/-- The bytes of one field, with or without its length. -/
def Field.encodingWith (lengths : Bool) (field : Field) : List UInt8 :=
  bigEndian 4 field.type.toNat ++ (if lengths then bigEndian 4 field.length.toNat else []) ++
    bigEndian 2 field.name.length ++ field.name

/-- The bytes of a type, with or without the lengths of its fields. -/
def MessageType.encodingWith (lengths : Bool) (type : MessageType) : List UInt8 :=
  bigEndian 2 type.superSize.toNat ++ bigEndian 4 type.id.toNat ++
    bigEndian 2 type.name.length ++ bigEndian 2 type.fields.length ++ type.name ++
    type.fields.flatMap (Field.encodingWith lengths)

/-- What is read back of a field. -/
def Field.withLength (lengths : Bool) (field : Field) : Field :=
  if lengths then field else { field with length := 0 }

/-- The bytes in front of the name of a field. -/
def Field.headingSize (lengths : Bool) : Nat := 4 + 2 + (if lengths then 4 else 0)

theorem Field.length_encodingWith (lengths : Bool) (field : Field) :
    (field.encodingWith lengths).length = Field.headingSize lengths + field.name.length := by
  cases lengths with
  | false =>
    simp [Field.encodingWith, Field.headingSize]
    omega
  | true =>
    simp [Field.encodingWith, Field.headingSize]
    omega

section Fields

variable {lengths : Bool} {buffer : Image} {position : Nat} {field : Field}

/-- Where the pieces of an encoded field stand. -/
theorem holds_field (holds : Holds buffer position (field.encodingWith lengths)) :
    Holds buffer position (bigEndian 4 field.type.toNat) ∧
    Holds buffer (position + 4) (if lengths then bigEndian 4 field.length.toNat else []) ∧
    Holds buffer (position + Field.headingSize lengths - 2) (bigEndian 2 field.name.length) ∧
    Holds buffer (position + Field.headingSize lengths) field.name := by
  cases lengths with
  | false =>
    simp only [Field.encodingWith, holds_append, length_bigEndian, length_append] at holds
    obtain ⟨⟨⟨type, length⟩, nameLength⟩, name⟩ := holds
    exact ⟨type, length, nameLength, name⟩
  | true =>
    simp only [Field.encodingWith, if_true, holds_append, length_bigEndian,
      length_append] at holds
    obtain ⟨⟨⟨type, length⟩, nameLength⟩, name⟩ := holds
    exact ⟨type, length, nameLength, name⟩

theorem ofNat_fromBigEndian {bits width : Nat} {word : BitVec bits}
    (holds : Holds buffer position (bigEndian width word.toNat)) (fits : 2 ^ bits ≤ 256 ^ width) :
    BitVec.ofNat bits (fromBigEndian (load buffer position width)) = word := by
  rw [holds.fromBigEndian (Nat.lt_of_lt_of_le word.isLt fits), BitVec.ofNat_toNat,
    BitVec.setWidth_eq]

section

variable (holds : Holds buffer position (field.encodingWith lengths))
include holds

section

variable (small : field.name.length < 2 ^ 16)
include small

/-- The turn of the loop at an encoded field depends on the count alone. -/
theorem deserializeField_holds (bytes : Nat) :
    deserializeField lengths buffer position bytes =
      if bytes < Field.headingSize lengths then .error bytes
      else if bytes - Field.headingSize lengths < field.name.length then
        .error (bytes - Field.headingSize lengths)
      else .ok (field.withLength lengths, position + (field.encodingWith lengths).length,
        bytes - (field.encodingWith lengths).length) := by
  obtain ⟨type, length, nameLength, name⟩ := holds_field holds
  have typeRead := ofNat_fromBigEndian type (by decide)
  have nameLengthRead := nameLength.fromBigEndian (by simpa using small)
  rw [Holds] at name
  rw [Field.length_encodingWith]
  cases lengths with
  | false =>
    simp only [Field.headingSize, Bool.false_eq_true, if_false, Nat.reduceAdd, Nat.reduceSub,
      Nat.add_sub_assoc, Nat.reduceLeDiff] at nameLengthRead name
    simp [deserializeField, Field.headingSize, Field.withLength, typeRead, nameLengthRead,
      name, Nat.sub_sub, Nat.add_assoc]
  | true =>
    have lengthRead := ofNat_fromBigEndian length (by decide)
    simp only [Field.headingSize, if_true, Nat.reduceAdd, Nat.reduceSub,
      Nat.add_sub_assoc, Nat.reduceLeDiff] at nameLengthRead name
    simp [deserializeField, Field.headingSize, Field.withLength, typeRead, lengthRead,
      nameLengthRead, name, Nat.sub_sub, Nat.add_assoc]

theorem deserializeField_encoding {bytes : Nat}
    (room : (field.encodingWith lengths).length ≤ bytes) :
    deserializeField lengths buffer position bytes =
      .ok (field.withLength lengths, position + (field.encodingWith lengths).length,
        bytes - (field.encodingWith lengths).length) := by
  rw [deserializeField_holds holds small]
  rw [Field.length_encodingWith] at room
  rw [if_neg (by omega), if_neg (by omega)]

theorem deserializeField_short {bytes : Nat}
    (short : bytes < (field.encodingWith lengths).length) :
    ∃ left, deserializeField lengths buffer position bytes = .error left := by
  rw [deserializeField_holds holds small]
  rw [Field.length_encodingWith] at short
  split
  · exact ⟨_, rfl⟩
  · exact ⟨_, if_pos (by omega)⟩

end

end

end Fields

section Loop

variable {lengths : Bool} {buffer : Image}

/-- The first of several encoded fields, and the others behind it. -/
theorem holds_cons {position : Nat} {field : Field} {rest : List Field}
    (holds : Holds buffer position ((field :: rest).flatMap (Field.encodingWith lengths))) :
    Holds buffer position (field.encodingWith lengths) ∧
      Holds buffer (position + (field.encodingWith lengths).length)
        (rest.flatMap (Field.encodingWith lengths)) := by
  rw [flatMap_cons, holds_append] at holds
  exact holds

theorem deserializeFields_encoding (fields : List Field) (position extra : Nat)
    (small : ∀ field ∈ fields, field.name.length < 2 ^ 16)
    (holds : Holds buffer position (fields.flatMap (Field.encodingWith lengths))) :
    deserializeFields lengths buffer fields.length position
      ((fields.flatMap (Field.encodingWith lengths)).length + extra) =
        .ok (fields.map (Field.withLength lengths), extra) := by
  induction fields generalizing position with
  | nil => simp [deserializeFields]
  | cons field rest ih =>
    obtain ⟨first, later⟩ := holds_cons holds
    have total : ((field :: rest).flatMap (Field.encodingWith lengths)).length + extra =
        (field.encodingWith lengths).length +
          ((rest.flatMap (Field.encodingWith lengths)).length + extra) := by
      rw [flatMap_cons, length_append, Nat.add_assoc]
    have read := deserializeField_encoding first (small field mem_cons_self)
      (Nat.le_add_right _ ((rest.flatMap (Field.encodingWith lengths)).length + extra))
    have others := ih _
      (fun other member => small other (mem_cons_of_mem _ member)) later
    rw [length_cons, deserializeFields, total, read]
    simp only [Nat.add_sub_cancel_left, others, map_cons]

/-- At every cut the loop gives up: at the field that was cut. -/
theorem deserializeFields_short (fields : List Field) (position bytes : Nat)
    (small : ∀ field ∈ fields, field.name.length < 2 ^ 16)
    (holds : Holds buffer position (fields.flatMap (Field.encodingWith lengths)))
    (short : bytes < (fields.flatMap (Field.encodingWith lengths)).length) :
    ∃ left, deserializeFields lengths buffer fields.length position bytes = .error left := by
  induction fields generalizing position bytes with
  | nil => exact absurd short (Nat.not_lt_zero _)
  | cons field rest ih =>
    obtain ⟨first, later⟩ := holds_cons holds
    have nameSmall := small field mem_cons_self
    rw [length_cons, deserializeFields]
    by_cases room : (field.encodingWith lengths).length ≤ bytes
    · rw [deserializeField_encoding first nameSmall room]
      rw [flatMap_cons, length_append] at short
      obtain ⟨left, failed⟩ := ih
        _
        (bytes - (field.encodingWith lengths).length)
        (fun other member => small other (mem_cons_of_mem _ member)) later (by omega)
      exact ⟨left, by simp only [failed]⟩
    · obtain ⟨left, failed⟩ := deserializeField_short first nameSmall (Nat.lt_of_not_le room)
      exact ⟨left, by simp only [failed]⟩

end Loop

namespace MessageType

/-- A type whose names have lengths of sixteen bits. -/
structure Encodable (type : MessageType) : Prop where
  name : type.name.length < 2 ^ 16
  fields : ∀ field ∈ type.fields, field.name.length < 2 ^ 16

/-- What is read back of a type. -/
def withLengths (lengths : Bool) (type : MessageType) : MessageType :=
  { type with
    fields := type.fields.map (Field.withLength lengths)
    fieldsCounted := by
      rw [List.length_map]
      exact type.fieldsCounted }

variable {lengths : Bool} {type : MessageType} {buffer : Image}

theorem encodable_of_small (small : type.serializedSize < 2 ^ 16) : type.Encodable :=
  ⟨name_small small, field_names_small small⟩

theorem encodingWith_true (type : MessageType) : type.encodingWith true = type.encoding := rfl

theorem withLengths_true (type : MessageType) : type.withLengths true = type := by
  have same : type.fields.map _ = type.fields := map_id _
  cases type
  simp only [withLengths, MessageType.mk.injEq, true_and]
  exact same

theorem length_encodingWith (lengths : Bool) (type : MessageType) :
    (type.encodingWith lengths).length =
      10 + type.name.length + (type.fields.flatMap (Field.encodingWith lengths)).length := by
  simp only [encodingWith, length_append, length_bigEndian]

/-- Where the pieces of an encoded type stand. -/
theorem holds_type (holds : Holds buffer 0 (type.encodingWith lengths)) :
    Holds buffer 0 (bigEndian 2 type.superSize.toNat) ∧
    Holds buffer 2 (bigEndian 4 type.id.toNat) ∧
    Holds buffer 6 (bigEndian 2 type.name.length) ∧
    Holds buffer 8 (bigEndian 2 type.fields.length) ∧
    Holds buffer 10 type.name ∧
    Holds buffer (10 + type.name.length)
      (type.fields.flatMap (Field.encodingWith lengths)) := by
  simp only [encodingWith, holds_append, length_bigEndian, length_append, Nat.zero_add,
    Nat.reduceAdd] at holds
  obtain ⟨⟨⟨⟨⟨superSize, id⟩, nameLength⟩, count⟩, name⟩, fields⟩ := holds
  exact ⟨superSize, id, nameLength, count, name, fields⟩

/-- The count of the fields is read back. -/
theorem count_read (holds : Holds buffer 8 (bigEndian 2 type.fields.length)) :
    (BitVec.ofNat 16 (fromBigEndian (load buffer 8 2))).toNat = type.fields.length := by
  rw [holds.fromBigEndian (by simpa using type.fieldsCounted), BitVec.toNat_ofNat,
    Nat.mod_eq_of_lt type.fieldsCounted]

theorem deserialize_encoding (holds : Holds buffer 0 (type.encodingWith lengths))
    (encodable : type.Encodable) (extra : Nat) :
    deserialize buffer ((type.encodingWith lengths).length + extra) lengths =
      .ok (type.withLengths lengths, extra) := by
  obtain ⟨superSize, id, nameLength, count, name, fields⟩ := holds_type holds
  have superSizeRead := ofNat_fromBigEndian superSize (by decide)
  have idRead := ofNat_fromBigEndian id (by decide)
  have nameLengthRead := nameLength.fromBigEndian (by simpa using encodable.name)
  have fieldsRead := deserializeFields_encoding _ _ extra encodable.fields fields
  have size := type.length_encodingWith lengths
  have left : (type.encodingWith lengths).length + extra - (2 + 4 + 2 + 2) - type.name.length =
      (type.fields.flatMap (Field.encodingWith lengths)).length + extra := by
    omega
  unfold deserialize
  rw [if_neg (by omega)]
  dsimp only
  rw [if_neg (by rw [nameLengthRead]; omega)]
  split
  · next read =>
    rw [nameLengthRead, count_read count, left, fieldsRead] at read
    cases read
  · next read =>
    rw [nameLengthRead, count_read count, left, fieldsRead] at read
    cases read
    rw [Holds] at name
    simp only [superSizeRead, idRead, nameLengthRead, name, withLengths]

theorem deserialize_short (holds : Holds buffer 0 (type.encodingWith lengths))
    (encodable : type.Encodable) {bytes : Nat}
    (short : bytes < (type.encodingWith lengths).length) :
    ∃ left, deserialize buffer bytes lengths = .error left := by
  obtain ⟨_, _, nameLength, count, _, fields⟩ := holds_type holds
  have nameLengthRead := nameLength.fromBigEndian (by simpa using encodable.name)
  rw [length_encodingWith] at short
  unfold deserialize
  dsimp only
  split
  · exact ⟨_, rfl⟩
  · split
    · exact ⟨_, rfl⟩
    · next header named =>
      obtain ⟨left, failed⟩ := deserializeFields_short _ _
        (bytes - (2 + 4 + 2 + 2) - type.name.length) encodable.fields fields (by omega)
      split
      · exact ⟨_, rfl⟩
      · next read =>
        rw [nameLengthRead, count_read count, failed] at read
        cases read

/-- `Serialize` returns the size of a type into every buffer with room for it, and
`Deserialize` reads the type back from every buffer that begins with those bytes,
leaving the count of the bytes behind them. With any smaller count it returns a null
pointer.

Proof: such a buffer holds the encoding of the type, which is read piece by piece
(`deserialize_encoding`, `deserialize_short`). -/
theorem message_type_round_trip (type : MessageType) (buffer : Image) (maxBytes : Nat)
    (small : type.serializedSize < 2 ^ 16) (room : type.serializedSize ≤ maxBytes) :
    ∃ written, type.serialize buffer maxBytes = some (written, type.serializedSize) ∧
      ∀ received, Agree received written 0 type.serializedSize →
        (∀ extra, deserialize received (type.serializedSize + extra) true = .ok (type, extra)) ∧
        ∀ bytes < type.serializedSize, ∃ left, deserialize received bytes true = .error left := by
  refine ⟨store buffer 0 type.encoding, ?_, ?_⟩
  · rw [serialize_eq type buffer maxBytes small, if_neg (Nat.not_lt_of_le room)]
  · intro received agree
    rw [← length_encoding] at agree
    have holds := (holds_store buffer 0 _).congr agree
    rw [← encodingWith_true] at holds
    have encodable := encodable_of_small small
    rw [← length_encoding, ← encodingWith_true]
    constructor
    · intro extra
      rw [deserialize_encoding holds encodable, withLengths_true]
    · intro bytes short
      exact deserialize_short holds encodable short

/-- A type with a name and two fields, one of them an array. -/
def twoFields : MessageType where
  superSize := 16
  id := 0x5005
  name := [84, 49]
  fields := [⟨0x2004, 0, [97]⟩, ⟨0x2001, 10, [98, 99]⟩]
  fieldsCounted := by decide

theorem message_type_round_trip_sample :
    ∃ written, twoFields.serialize blank 64 = some (written, 35) ∧
      deserialize written 40 true = .ok (twoFields, 5) ∧
      ∃ left, deserialize written 34 true = .error left := by
  obtain ⟨written, wrote, reads⟩ := message_type_round_trip twoFields blank 64
    (by decide) (by decide)
  obtain ⟨whole, cut⟩ := reads written fun _ _ => rfl
  exact ⟨written, wrote, whole 5, cut 34 (by decide)⟩

end MessageType

end Miranda.QueueTypes
