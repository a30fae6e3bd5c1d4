import Miranda.Lib.Access
import Miranda.QueueTypes.Deserialize

/-!
# Reading a message type from arbitrary bytes

The bytes that `Deserialize` gets come from log files and from shared memory, so they may
be anything. Whatever they are, an image without an end begins with the encoding of some
type: the lengths in it say how long the names are, and how many fields there are.

For the addresses that are read, `Deserialize` is repeated with every access through a
window of the buffer. That version has a result for a window of as many bytes as the
count says, so nothing behind them is read, and the result is the same.
-/

namespace Miranda.QueueTypes

open Bytes Option

section Beginning

variable (lengths : Bool) (buffer : Image)

/-- There is a word at every position. -/
theorem exists_word (position bits width : Nat) (fits : 256 ^ width = 2 ^ bits) :
    ∃ word : BitVec bits, Holds buffer position (bigEndian width word.toNat) := by
  have small := fromBigEndian_lt (load buffer position width)
  have same := bigEndian_fromBigEndian (load buffer position width)
  rw [length_load, fits] at small
  rw [length_load] at same
  refine ⟨.ofNat bits (fromBigEndian (load buffer position width)), ?_⟩
  rw [Holds, length_bigEndian, BitVec.toNat_ofNat, Nat.mod_eq_of_lt small, same]

/-- There is a name a little behind its length. -/
theorem exists_name (position gap : Nat) :
    ∃ name : List UInt8, name.length < 2 ^ 16 ∧
      Holds buffer position (bigEndian 2 name.length) ∧ Holds buffer (position + gap) name := by
  have small := fromBigEndian_lt (load buffer position 2)
  have same := bigEndian_fromBigEndian (load buffer position 2)
  rw [length_load] at small same
  refine ⟨load buffer (position + gap) (fromBigEndian (load buffer position 2)), ?_, ?_, ?_⟩
  · rw [length_load]
    exact small
  · rw [Holds, length_bigEndian, length_load, same]
  · rw [Holds, length_load]

/-- There is a field at every position. -/
theorem exists_field (position : Nat) :
    ∃ field : Field, field.name.length < 2 ^ 16 ∧ field.withLength lengths = field ∧
      Holds buffer position (field.encodingWith lengths) := by
  obtain ⟨type, isType⟩ := exists_word buffer position 32 4 (by decide)
  cases lengths with
  | false =>
    obtain ⟨name, small, nameLength, isName⟩ := exists_name buffer _ 2
    refine ⟨⟨type, 0, name⟩, small, rfl, ?_⟩
    simp only [Field.encodingWith, holds_append, length_bigEndian, List.length_append]
    exact ⟨⟨⟨isType, rfl⟩, nameLength⟩, isName⟩
  | true =>
    obtain ⟨length, isLength⟩ := exists_word buffer _ 32 4 (by decide)
    obtain ⟨name, small, nameLength, isName⟩ := exists_name buffer _ 2
    refine ⟨⟨type, length, name⟩, small, rfl, ?_⟩
    simp only [Field.encodingWith, if_true, holds_append, length_bigEndian, List.length_append]
    exact ⟨⟨⟨isType, isLength⟩, nameLength⟩, isName⟩

/-- There is any number of fields. -/
theorem exists_fields (count position : Nat) :
    ∃ fields : List Field, fields.length = count ∧
      (∀ field ∈ fields, field.name.length < 2 ^ 16) ∧
      fields.map (Field.withLength lengths) = fields ∧
      Holds buffer position (fields.flatMap (Field.encodingWith lengths)) := by
  induction count generalizing position with
  | zero => exact ⟨[], rfl, by simp, rfl, rfl⟩
  | succ count ih =>
    obtain ⟨field, small, same, holds⟩ := exists_field lengths buffer position
    obtain ⟨rest, counted, allSmall, allSame, later⟩ := ih _
    refine ⟨field :: rest, ?_, List.forall_mem_cons.mpr ⟨small, allSmall⟩, ?_, ?_⟩
    · rw [List.length_cons, counted]
    · rw [List.map_cons, same, allSame]
    · rw [List.flatMap_cons, holds_append]
      exact ⟨holds, later⟩

/-- Every image begins with the encoding of a type. -/
theorem exists_type :
    ∃ type : MessageType, type.Encodable ∧ type.withLengths lengths = type ∧
      Holds buffer 0 (type.encodingWith lengths) := by
  obtain ⟨superSize, isSuperSize⟩ := exists_word buffer 0 16 2 (by decide)
  obtain ⟨id, isId⟩ := exists_word buffer 2 32 4 (by decide)
  obtain ⟨count, isCount⟩ := exists_word buffer 8 16 2 (by decide)
  obtain ⟨name, small, nameLength, isName⟩ := exists_name buffer 6 4
  obtain ⟨fields, counted, allSmall, same, isFields⟩ :=
    exists_fields lengths buffer _ _
  refine ⟨⟨superSize, id, name, fields, counted ▸ count.isLt⟩, ⟨small, allSmall⟩, ?_, ?_⟩
  · simp only [MessageType.withLengths, same]
  · simp only [MessageType.encodingWith, holds_append, length_bigEndian, List.length_append,
      Nat.zero_add, Nat.reduceAdd, counted]
    exact ⟨⟨⟨⟨⟨isSuperSize, isId⟩, nameLength⟩, isCount⟩, isName⟩, isFields⟩

end Beginning

/-- The turn of the loop with every access through a window. -/
def fetchField (deserializeLength : Bool) (window : Window) (position bytes : Nat) :
    Option (Except Nat (Field × Nat × Nat)) :=
  if bytes < 4 + 2 + (if deserializeLength then 4 else 0) then some (.error bytes)
  else do
    let bytes := bytes - (4 + 2)
    let type ← window.fetch position 4
    let position := position + 4
    let (length, position, bytes) ←
      if deserializeLength then do
        let length ← window.fetch position 4
        some (BitVec.ofNat 32 (fromBigEndian length), position + 4, bytes - 4)
      else some (0, position, bytes)
    let nameLength ← window.fetch position 2
    let nameLength := fromBigEndian nameLength
    let position := position + 2
    if bytes < nameLength then some (.error bytes)
    else do
      let name ← window.fetch position nameLength
      some (.ok (⟨BitVec.ofNat 32 (fromBigEndian type), length, name⟩, position + nameLength,
        bytes - nameLength))

/-- The loop over the fields through a window. -/
def fetchFields (deserializeLength : Bool) (window : Window) :
    (count position bytes : Nat) → Option (Except Nat (List Field × Nat))
  | 0, _, bytes => some (.ok ([], bytes))
  | count + 1, position, bytes => do
    match ← fetchField deserializeLength window position bytes with
    | .error left => some (.error left)
    | .ok (field, position, bytes) =>
      match ← fetchFields deserializeLength window count position bytes with
      | .error left => some (.error left)
      | .ok (fields, bytes) => some (.ok (field :: fields, bytes))

theorem length_fetchFields {deserializeLength : Bool} {window : Window}
    {count position bytes left : Nat} {fields : List Field}
    (read : fetchFields deserializeLength window count position bytes =
      some (.ok (fields, left))) : fields.length = count := by
  induction count generalizing position bytes fields with
  | zero =>
    cases read
    rfl
  | succ count ih =>
    obtain ⟨turn, _, read⟩ := bind_eq_some_iff.mp read
    split at read
    · cases read
    · obtain ⟨others, isOthers, read⟩ := bind_eq_some_iff.mp read
      split at read
      · cases read
      · cases read
        exact congrArg _ (ih isOthers)

/-- `Deserialize` through a window. -/
def MessageType.fetch (window : Window) (bytes : Nat) (deserializeLength : Bool) :
    Option (Except Nat (MessageType × Nat)) :=
  if bytes < 2 + 4 + 2 + 2 then some (.error bytes)
  else do
    let bytes := bytes - (2 + 4 + 2 + 2)
    let superSize ← window.fetch 0 2
    let id ← window.fetch 2 4
    let nameLength ← window.fetch 6 2
    let numberFields ← window.fetch 8 2
    let nameLength := fromBigEndian nameLength
    let numberFields := BitVec.ofNat 16 (fromBigEndian numberFields)
    if bytes < nameLength then some (.error bytes)
    else do
      let bytes := bytes - nameLength
      let name ← window.fetch 10 nameLength
      match read : fetchFields deserializeLength window numberFields.toNat (10 + nameLength)
        bytes with
      | none => none
      | some (.error left) => some (.error left)
      | some (.ok (fields, bytes)) =>
        some (.ok (⟨BitVec.ofNat 16 (fromBigEndian superSize),
          BitVec.ofNat 32 (fromBigEndian id), name, fields,
          length_fetchFields read ▸ numberFields.isLt⟩, bytes))

section Fetching

variable {lengths : Bool} {window : Window} {position bytes : Nat}

theorem fetchField_eq (low : window.start ≤ position)
    (high : position + bytes ≤ window.start + window.size) :
    fetchField lengths window position bytes =
      some (deserializeField lengths window.image position bytes) := by
  cases lengths with
  | false =>
    simp only [fetchField, deserializeField, Bool.false_eq_true, if_false]
    split
    · rfl
    · next heading =>
      have type : window.fetch position 4 = some _ :=
        Window.fetch_inside low (by omega)
      have nameLength : window.fetch (position + 4) 2 = some _ :=
        Window.fetch_inside (by omega) (by omega)
      simp only [type, nameLength, bind_eq_bind, bind_some]
      split
      · rfl
      · rw [Window.fetch_inside (by omega) (by omega)]
        rfl
  | true =>
    simp only [fetchField, deserializeField, if_true]
    split
    · rfl
    · next heading =>
      have type : window.fetch position 4 = some _ :=
        Window.fetch_inside low (by omega)
      have length : window.fetch (position + 4) 4 = some _ :=
        Window.fetch_inside (by omega) (by omega)
      have nameLength : window.fetch (position + 4 + 4) 2 =
          some _ :=
        Window.fetch_inside (by omega) (by omega)
      simp only [type, length, nameLength, bind_eq_bind, bind_some]
      split
      · rfl
      · rw [Window.fetch_inside (by omega) (by omega)]
        rfl

/-- The pointer and the count move together. -/
theorem deserializeField_moves {buffer : Image} {field : Field} {next left : Nat}
    (read : deserializeField lengths buffer position bytes = .ok (field, next, left)) :
    position ≤ next ∧ next + left = position + bytes := by
  obtain ⟨found, small, _, holds⟩ := exists_field lengths buffer position
  have size := found.length_encodingWith lengths
  rw [deserializeField_holds holds small] at read
  split at read
  · cases read
  · split at read
    · cases read
    · cases read
      omega

theorem fetchFields_eq (count : Nat) (low : window.start ≤ position)
    (high : position + bytes ≤ window.start + window.size) :
    fetchFields lengths window count position bytes =
      some (deserializeFields lengths window.image count position bytes) := by
  induction count generalizing position bytes with
  | zero => rfl
  | succ count ih =>
    rw [fetchFields, fetchField_eq low high, bind_eq_bind, bind_some,
      deserializeFields]
    cases read : deserializeField lengths _ position bytes with
    | error left => rfl
    | ok result =>
      obtain ⟨field, next, left⟩ := result
      obtain ⟨forward, together⟩ := deserializeField_moves read
      dsimp only
      rw [ih (by omega) (by omega)]
      cases deserializeFields lengths _ count next left with
      | error left => rfl
      | ok others => rfl

/-- `Deserialize` reads nothing but the first bytes of its buffer. -/
theorem MessageType.fetch_eq (lengths : Bool) (buffer : Image) (bytes : Nat) :
    MessageType.fetch ⟨buffer, 0, bytes⟩ bytes lengths =
      some (MessageType.deserialize buffer bytes lengths) := by
  unfold MessageType.fetch MessageType.deserialize
  by_cases short : bytes < 2 + 4 + 2 + 2
  · rw [if_pos short, if_pos short]
  · have inside : ∀ position length, position + length ≤ bytes →
        Window.fetch ⟨buffer, 0, bytes⟩ position length = some _ :=
      fun position length room =>
        Window.fetch_inside (Nat.zero_le _) (show position + length ≤ 0 + bytes by omega)
    rw [if_neg short]
    simp only [inside 0 2 (by omega), inside 2 4 (by omega), inside 6 2 (by omega),
      inside 8 2 (by omega), bind_eq_bind, bind_some]
    split
    · rfl
    · next named =>
      rw [inside _ _ (by omega)]
      have fields := @fetchFields_eq lengths ⟨buffer, 0, bytes⟩
        (10 + fromBigEndian (load buffer 6 2))
        (bytes - (2 + 4 + 2 + 2) - fromBigEndian (load buffer 6 2))
        (BitVec.ofNat 16 (fromBigEndian (load buffer 8 2))).toNat (Nat.zero_le _)
        (show _ ≤ 0 + bytes by omega)
      split
      · next read =>
        rw [fields] at read
        cases read
      · next left read =>
        rw [fields, some.injEq] at read
        split
        · next other =>
          rw [read] at other
          cases other
          rfl
        · next other =>
          rw [read] at other
          cases other
      · next found left read =>
        rw [fields, some.injEq] at read
        split
        · next other =>
          rw [read] at other
          cases other
        · next other =>
          rw [read] at other
          cases other
          rfl

end Fetching

namespace MessageType

/-- A result is the type that the bytes begin with. -/
theorem deserialize_ok {buffer : Image} {bytes left : Nat} {lengths : Bool} {type : MessageType}
    (read : deserialize buffer bytes lengths = .ok (type, left)) :
    type.Encodable ∧ Holds buffer 0 (type.encodingWith lengths) ∧
      left + (type.encodingWith lengths).length = bytes := by
  obtain ⟨first, encodable, same, holds⟩ := exists_type lengths buffer
  rcases Nat.lt_or_ge bytes _ with short | room
  · obtain ⟨_, failed⟩ := deserialize_short holds encodable short
    rw [read] at failed
    cases failed
  · have whole := deserialize_encoding holds encodable
      (bytes - (first.encodingWith lengths).length)
    rw [Nat.add_sub_cancel' room, same, read] at whole
    cases whole
    exact ⟨encodable, holds, by omega⟩

/-- On arbitrary bytes, `Deserialize` reads only as many as the count says, has a result
exactly if they begin with the whole encoding of a type, and moves the count by its
length. The type it finds is serialized to the bytes it was read from, as far as sixteen
bits reach.

Proof: every image begins with the encoding of some type, so `Deserialize` can only fail
because the count ends before that does (`deserialize_ok`). -/
theorem deserialize_arbitrary_bytes (buffer : Image) (bytes : Nat) (lengths : Bool) :
    fetch ⟨buffer, 0, bytes⟩ bytes lengths = some (deserialize buffer bytes lengths) ∧
    ((∃ type left, deserialize buffer bytes lengths = .ok (type, left)) ↔
      ∃ type : MessageType, type.Encodable ∧ (type.encodingWith lengths).length ≤ bytes ∧
        Holds buffer 0 (type.encodingWith lengths)) ∧
    ∀ type left, deserialize buffer bytes lengths = .ok (type, left) →
      Holds buffer 0 (type.encodingWith lengths) ∧
      left + (type.encodingWith lengths).length = bytes ∧
      (lengths = true → bytes - left < 2 ^ 16 → ∀ output maxBytes, bytes - left ≤ maxBytes →
        type.serialize output maxBytes =
          some (store output 0 (load buffer 0 (bytes - left)), bytes - left)) := by
  refine ⟨fetch_eq lengths buffer bytes, ?_, ?_⟩
  · constructor
    · rintro ⟨type, left, read⟩
      obtain ⟨encodable, holds, total⟩ := deserialize_ok read
      exact ⟨type, encodable, by omega, holds⟩
    · rintro ⟨type, encodable, room, holds⟩
      have read := deserialize_encoding holds encodable
        (bytes - (type.encodingWith lengths).length)
      rw [Nat.add_sub_cancel' room] at read
      exact ⟨_, _, read⟩
  · intro type left read
    obtain ⟨_, holds, total⟩ := deserialize_ok read
    refine ⟨holds, total, ?_⟩
    rintro rfl small output maxBytes room
    have consumed : bytes - left = type.serializedSize := by
      rw [encodingWith_true, length_encoding] at total
      omega
    rw [consumed] at small room ⊢
    rw [encodingWith_true, Holds, length_encoding] at holds
    rw [serialize_eq type output maxBytes small, if_neg (Nat.not_lt.mpr room), holds]

end MessageType

end Miranda.QueueTypes
