import Miranda.Lib.Access
import Miranda.QueueTypes.MessageType

/-!
# Whether a serialized type stays in its buffer

`Serialize` is told how many bytes there are. It should refuse without writing, or write
inside of them and return how many it wrote. The size it compares with is cut to sixteen
bits, but only the length of each name is cut where it writes; so a type with many or
long fields passes the check and is written beyond the end. The name of the type is cut
when it is copied and not when the pointer moves on, so a long name leaves a gap, and the
returned number counts the gap as written.
-/

namespace Miranda.QueueTypes.MessageType

open Bytes

/-- `Serialize` keeps to the bytes it is given: it returns -1, or it writes only inside
of them and returns how many it wrote. -/
def RespectsRoom (type : MessageType) (maxBytes : Nat) : Prop :=
  (∀ buffer, type.serialize buffer maxBytes = none) ∨
    ∃ (write : Image → Image) (count : Nat),
      (∀ buffer, type.serialize buffer maxBytes = some (write buffer, count)) ∧
      touched write ⊆ Set.Iio maxBytes ∧ (touched write).ncard = count

/-- What `Serialize` writes of the fields, with every name cut to sixteen bits. -/
def fieldsWritten (type : MessageType) : Nat :=
  (type.fields.map fun field => 10 + field.name.length % 2 ^ 16).sum

variable {type : MessageType} {maxBytes : Nat}

/-- What `Serialize` does to a buffer when it does not refuse. -/
def write (type : MessageType) (buffer : Image) : Image :=
  store (store buffer 0 type.heading) (10 + type.name.length)
    ((type.fields.map Field.cut).flatMap Field.encoding)

theorem fieldsWritten_eq (type : MessageType) :
    ((type.fields.map Field.cut).map Field.serializedSize).sum = type.fieldsWritten := by
  rw [List.map_map]
  congr 1
  apply List.map_congr_left
  intro field _
  rw [Function.comp_apply, Field.serializedSize, Field.length_cut]

/-- The two pieces that are written. -/
theorem touched_write (type : MessageType) :
    touched type.write = Set.Ico 0 (10 + type.name.length % 2 ^ 16) ∪
      Set.Ico (10 + type.name.length) (10 + type.name.length + type.fieldsWritten) := by
  have first := touched_store (fun image => image) 0 type.heading
  have both := touched_store (fun image => store image 0 type.heading)
    (10 + type.name.length) ((type.fields.map .cut).flatMap Field.encoding)
  rw [length_heading, Nat.zero_add, touched_id, Set.empty_union] at first
  rw [first, length_fields_encoding, fieldsWritten_eq] at both
  exact both

theorem ncard_touched_write (type : MessageType) :
    (touched type.write).ncard = 10 + type.name.length % 2 ^ 16 + type.fieldsWritten := by
  have cut := Nat.mod_le type.name.length (2 ^ 16)
  rw [touched_write, ncard_pieces (by omega)]

theorem serialize_refuses
    (short : maxBytes <
      10 + type.name.length + (type.fields.map Field.serializedSize).sum % 2 ^ 16)
    (buffer : Image) : type.serialize buffer maxBytes = none := by
  rw [serialize_stores, if_pos short]

theorem serialize_writes
    (room : ¬ maxBytes <
      10 + type.name.length + (type.fields.map Field.serializedSize).sum % 2 ^ 16)
    (buffer : Image) : type.serialize buffer maxBytes =
      some (type.write buffer, 10 + type.name.length + type.fieldsWritten) := by
  rw [serialize_stores, if_neg room, fieldsWritten_eq]
  rfl

/-- Where the check passes, what is written must not be cut and must have room. -/
theorem respectsRoom_of_writes
    (room : ¬ maxBytes <
      10 + type.name.length + (type.fields.map Field.serializedSize).sum % 2 ^ 16) :
    type.RespectsRoom maxBytes ↔ type.name.length < 2 ^ 16 ∧
      10 + type.name.length + type.fieldsWritten ≤ maxBytes := by
  have writes := serialize_writes room
  constructor
  · rintro (refused | ⟨write, count, wrote, inside, counted⟩)
    · have wrote := writes blank
      rw [refused] at wrote
      cases wrote
    · have same : write = type.write := by
        funext buffer
        have both := (wrote buffer).symm.trans (writes buffer)
        exact congrArg Prod.fst (Option.some.inj both)
      have isCount : count = 10 + type.name.length + type.fieldsWritten := by
        have both := (wrote blank).symm.trans (writes blank)
        exact congrArg Prod.snd (Option.some.inj both)
      subst same isCount
      rw [ncard_touched_write] at counted
      have small : type.name.length < 2 ^ 16 := by omega
      refine ⟨small, ?_⟩
      have last : 10 + type.name.length + type.fieldsWritten - 1 ∈ touched type.write := by
        simp only [touched_write, Nat.mod_eq_of_lt small, Set.mem_union, Set.mem_Ico]
        omega
      have below : 10 + type.name.length + type.fieldsWritten - 1 < maxBytes := inside last
      omega
  · rintro ⟨small, enough⟩
    refine .inr ⟨type.write, _, writes, ?_, ?_⟩
    · intro place written
      simp only [touched_write, Nat.mod_eq_of_lt small, Set.mem_union, Set.mem_Ico] at written
      rw [Set.mem_Iio]
      omega
    · rw [ncard_touched_write, Nat.mod_eq_of_lt small]

/-- `Serialize` keeps to its buffer exactly if the check in sixteen bits refuses, or the
name is not cut and the buffer has room for what is written.

Proof: a type that passes the check is written to known addresses (`serialize_writes`). -/
theorem serialize_respects_room_iff (type : MessageType) (maxBytes : Nat) :
    type.RespectsRoom maxBytes ↔
      maxBytes < 10 + type.name.length +
          (type.fields.map fun field => 10 + field.name.length).sum % 2 ^ 16 ∨
        type.name.length < 2 ^ 16 ∧
          10 + type.name.length +
            (type.fields.map fun field => 10 + field.name.length % 2 ^ 16).sum ≤ maxBytes := by
  change _ ↔ maxBytes < 10 + type.name.length +
      (type.fields.map Field.serializedSize).sum % 2 ^ 16 ∨
    type.name.length < 2 ^ 16 ∧ 10 + type.name.length + type.fieldsWritten ≤ maxBytes
  by_cases short : maxBytes <
      10 + type.name.length + (type.fields.map Field.serializedSize).sum % 2 ^ 16
  · exact iff_of_true (.inl (serialize_refuses short)) (.inl short)
  · rw [respectsRoom_of_writes short]
    simp only [short, false_or]

/-- A type with one field that has a name of some length. -/
def oneField (length : Nat) : MessageType where
  superSize := 0
  id := 0x1004
  name := []
  fields := [⟨0x2004, 0, List.replicate length 97⟩]
  fieldsCounted := by simp

theorem oneField_sizes (length : Nat) :
    ((oneField length).fields.map Field.serializedSize).sum = 10 + length ∧
      (oneField length).fieldsWritten = 10 + length % 2 ^ 16 := by
  simp [oneField, fieldsWritten, Field.serializedSize]

/-- The size of a field with a name of 65526 bytes is zero in sixteen bits. The type
passes the check for the thousand bytes that the log writer has, and is written far
beyond them. -/
theorem long_field_leaves_buffer :
    (∀ buffer, (oneField 65526).serialize buffer 1024 =
        some ((oneField 65526).write buffer, 65546)) ∧
      65545 ∈ touched (oneField 65526).write ∧ ¬ (oneField 65526).RespectsRoom 1024 := by
  have named : (oneField 65526).name.length = 0 := rfl
  obtain ⟨sizes, written⟩ := oneField_sizes 65526
  have room : ¬ 1024 < 10 + (oneField 65526).name.length +
      ((oneField 65526).fields.map Field.serializedSize).sum % 2 ^ 16 := by
    rw [sizes]
    decide
  refine ⟨?_, ?_, ?_⟩
  · intro buffer
    rw [serialize_writes room, named, written, Nat.mod_eq_of_lt (by decide)]
  · rw [touched_write, written]
    exact .inr ⟨by decide, by decide⟩
  · rw [respectsRoom_of_writes room, written]
    decide

end Miranda.QueueTypes.MessageType
