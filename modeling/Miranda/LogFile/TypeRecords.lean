import Mathlib.Data.List.Nodup
import Miranda.Lib.Runs
import Miranda.LogFile.Layout
import Miranda.LogFile.WriterLoop

/-!
# Which type records a struct message needs

`CheckTypeWritten` walks the fields of a type before it writes the type itself and
skips what was written before. Its effect is a list of types, computed here from
the cache and the written ids alone, that are put into the log one after another.
Everything later modules say about type records is said about that list.

Types are assumed to have a true serialized size below sixteen bits; a type that
does not fit the writer's buffer is skipped without being remembered, as in the
source. When all types can be shared between processes none is skipped, and the
written types are closed under nesting.
-/

namespace Miranda.LogFile

open Bytes Paged QueueTypes Runs List

/-- No type of the cache outgrows the sixteen-bit sizes of its encoding. -/
def Sized (cache : TypeCache) : Prop := ∀ type ∈ cache.types, type.serializedSize < 2 ^ 16

/-- `type_cache::AddShm` has room for each type. -/
def Shareable (cache : TypeCache) : Prop := ∀ type ∈ cache.types, type.serializedSize ≤ 768

theorem Shareable.sized {cache : TypeCache} (shareable : Shareable cache) : Sized cache :=
  fun type member => Nat.lt_of_le_of_lt (shareable type member) (by decide)

/-- A struct type contains itself and what the types of its fields contain. -/
inductive Contains (cache : TypeCache) : TypeId → TypeId → Prop where
  | self {typeId : TypeId} (struct : isPrimitive typeId = false) : Contains cache typeId typeId
  | nested {typeId inner : TypeId} {type : MessageType} {field : Field}
      (found : cache.get typeId = some type) (member : field ∈ type.fields)
      (contains : Contains cache field.type inner) : Contains cache typeId inner

/-- The types `CheckTypeWritten` writes, in order. -/
def pendingTypes (cache : TypeCache) : (depth : Nat) → TypeId → List TypeId → List MessageType
  | 0, _, _ => []
  | depth + 1, typeId, written =>
    if typeId ∈ written then []
    else if isPrimitive typeId then []
    else
      match cache.get typeId with
      | none => []
      | some type =>
        type.fields.foldl (fun pending field => pending ++
          pendingTypes cache depth field.type (written ++ pending.map MessageType.id)) [] ++
        if type.serializedSize ≤ WriterProcess.typeBufferSize then [type] else []

/-- The types pending for a list of fields, after some others. -/
def pendingFields (cache : TypeCache) (depth : Nat) (written : List TypeId)
    (pending : List MessageType) (fields : List Field) : List MessageType :=
  fields.foldl (fun pending field => pending ++
    pendingTypes cache depth field.type (written ++ pending.map MessageType.id)) pending

section Pending

variable {cache : TypeCache} {depth : Nat} {typeId : TypeId} {written : List TypeId}
  {type : MessageType}

/-- Nothing is pending for a type that was written. -/
theorem pendingTypes_written (known : typeId ∈ written) :
    pendingTypes cache depth typeId written = [] := by
  cases depth with
  | zero => rfl
  | succ depth => rw [pendingTypes, if_pos known]

theorem pendingTypes_primitive (primitive : isPrimitive typeId = true) :
    pendingTypes cache depth typeId written = [] := by
  cases depth with
  | zero => rfl
  | succ depth => rw [pendingTypes, if_pos primitive, ite_self]

/-- A new struct type is pending after the types of its fields. -/
theorem pendingTypes_struct (unknown : typeId ∉ written) (struct : isPrimitive typeId = false)
    (found : cache.get typeId = some type) :
    pendingTypes cache (depth + 1) typeId written =
      pendingFields cache depth written [] type.fields ++
        if type.serializedSize ≤ WriterProcess.typeBufferSize then [type] else [] := by
  rw [pendingTypes, if_neg unknown, if_neg (by simp [struct]), found]
  rfl

/-- What is pending for fields is pending for one of them. -/
theorem mem_pendingFields {before : List MessageType} {fields : List Field}
    (member : type ∈ pendingFields cache depth written before fields) :
    type ∈ before ∨ ∃ field ∈ fields, ∃ others,
      type ∈ pendingTypes cache depth field.type others := by
  induction fields generalizing before with
  | nil => exact .inl member
  | cons field rest ih =>
    rcases ih member with early | ⟨other, inside, others, pending⟩
    · rcases mem_append.mp early with old | new
      · exact .inl old
      · exact .inr ⟨field, mem_cons_self, _, new⟩
    · exact .inr ⟨other, mem_cons_of_mem _ inside, others, pending⟩

/-- Pending types are known and fit the writer's buffer. -/
theorem pendingTypes_small (pending : type ∈ pendingTypes cache depth typeId written) :
    type ∈ cache.types ∧ type.serializedSize ≤ WriterProcess.typeBufferSize := by
  induction depth generalizing typeId written with
  | zero => cases pending
  | succ depth ih =>
    by_cases known : typeId ∈ written
    · rw [pendingTypes_written known] at pending
      cases pending
    cases struct : isPrimitive typeId with
    | true =>
      rw [pendingTypes_primitive struct] at pending
      cases pending
    | false =>
      cases found : cache.get typeId with
      | none =>
        rw [pendingTypes, if_neg known, if_neg (by simp [struct]), found] at pending
        cases pending
      | some owner =>
        rw [pendingTypes_struct known struct found] at pending
        rcases mem_append.mp pending with nested | own
        · rcases mem_pendingFields nested with none | ⟨field, _, others, inner⟩
          · cases none
          · exact ih inner
        · split at own
          · next small =>
            cases mem_singleton.mp own
            exact ⟨TypeCache.get_mem found, small⟩
          · cases own

end Pending

namespace WriterProcess

variable (process : WriterProcess)

/-- Put the record of a type into the log and remember it. -/
def putType (state : LoopState) (type : MessageType) : LoopState :=
  { state with
    writer := process.put state.writer (headerSize + type.serializedSize)
      (process.typeRecord type.encoding)
    writtenTypeIds := state.writtenTypeIds ++ [type.id] }

/-- Put the records of several types into the log. -/
def putTypes (state : LoopState) (types : List MessageType) : LoopState :=
  types.foldl process.putType state

variable {process} {state final : LoopState}

theorem putTypes_append (types more : List MessageType) :
    process.putTypes state (types ++ more) = process.putTypes (process.putTypes state types) more :=
  foldl_append

theorem writtenTypeIds_putTypes (types : List MessageType) :
    (process.putTypes state types).writtenTypeIds =
      state.writtenTypeIds ++ types.map MessageType.id := by
  induction types generalizing state with
  | nil => simp [putTypes]
  | cons type rest ih =>
    have later : (process.putTypes _ rest).writtenTypeIds =
        (process.putType state type).writtenTypeIds ++ rest.map _ :=
      ih
    simpa [putTypes, putType] using later

theorem cookie_putTypes (types : List MessageType) :
    (process.putTypes state types).clearTypeIdsCookie = state.clearTypeIdsCookie := by
  induction types generalizing state with
  | nil => rfl
  | cons type rest ih =>
    have later : (process.putTypes _ rest).clearTypeIdsCookie =
        (process.putType state type).clearTypeIdsCookie := ih
    exact later

/-- A type of admissible size is written whole, or not at all when it is too large
for the buffer. -/
theorem writeType_eq {type : MessageType} (small : type.serializedSize < 2 ^ 16) :
    process.writeType state type.id type =
      process.putTypes state (if type.serializedSize ≤ typeBufferSize then [type] else []) := by
  unfold writeType
  rw [type.serialize_eq blank _ small]
  by_cases fits : type.serializedSize ≤ typeBufferSize
  · rw [if_neg (by omega), if_pos fits]
    have bytes := load_store blank 0 type.encoding
    rw [type.length_encoding] at bytes
    simp only [bytes]
    rfl
  · rw [if_pos (by omega), if_neg fits]
    rfl

/-- The loop over the fields of a type puts the types pending for them. -/
theorem checkFields_eq {depth : Nat}
    (each : ∀ typeId state final, process.checkTypeWritten depth typeId state = .ok final →
      final = process.putTypes state
        (pendingTypes process.types depth typeId state.writtenTypeIds))
    (fields : List Field) (pending : List MessageType)
    (checked : fields.foldlM (fun state field => process.checkTypeWritten depth field.type state)
      (process.putTypes state pending) = .ok final) :
    final = process.putTypes state
      (pendingFields process.types depth state.writtenTypeIds pending fields) := by
  induction fields generalizing pending with
  | nil => exact (Except.ok.inj checked).symm
  | cons field rest ih =>
    obtain ⟨middle, first, others⟩ := foldlM_cons_ok.mp checked
    have reached := each _ _ _ first
    rw [writtenTypeIds_putTypes, ← putTypes_append] at reached
    rw [reached] at others
    exact ih _ others

/-- `CheckTypeWritten` puts the pending types and does nothing else. -/
theorem checkTypeWritten_eq (sized : Sized process.types) (depth : Nat) (typeId : TypeId)
    (state final : LoopState) (checked : process.checkTypeWritten depth typeId state = .ok final) :
    final = process.putTypes state
      (pendingTypes process.types depth typeId state.writtenTypeIds) := by
  induction depth generalizing typeId state final with
  | zero => cases checked
  | succ depth ih =>
    unfold checkTypeWritten at checked
    split at checked
    · next known =>
      rw [pendingTypes_written known]
      exact (Except.ok.inj checked).symm
    next unknown =>
    split at checked
    · next primitive =>
      rw [pendingTypes_primitive primitive]
      exact (Except.ok.inj checked).symm
    next struct =>
    split at checked
    · cases checked
    next type found =>
    split at checked
    · cases checked
    next middle fields =>
    have reached := checkFields_eq ih _ [] fields
    have small := sized type (TypeCache.get_mem found)
    rw [pendingTypes_struct unknown (by simpa using struct) found, putTypes_append, ← reached,
      ← writeType_eq small, TypeCache.get_id found]
    exact (Except.ok.inj checked).symm

/-- A loop over fields returns when every pass does. -/
theorem checkFields_total (depth : Nat) (fields : List Field) (state : LoopState)
    (each : ∀ field ∈ fields, ∀ state, ∃ final,
      process.checkTypeWritten depth field.type state = .ok final) :
    ∃ final, fields.foldlM (fun state field => process.checkTypeWritten depth field.type state)
      state = .ok final := by
  induction fields generalizing state with
  | nil => exact ⟨state, rfl⟩
  | cons field rest ih =>
    obtain ⟨middle, first⟩ := each field mem_cons_self state
    obtain ⟨final, others⟩ := ih middle fun other inside =>
      each other (mem_cons_of_mem _ inside)
    exact ⟨final, foldlM_cons_ok.mpr ⟨middle, first, others⟩⟩

/-- `CheckTypeWritten` returns for every type of the cache, because nesting goes
down in the cache. The depth counts one more than the place of the type, for the
primitive types of its fields. -/
theorem checkTypeWritten_total {first rest : List MessageType}
    (split : process.types.types = first ++ rest) (typeId : TypeId)
    (known : isPrimitive typeId = true ∨ typeId ∈ first.map MessageType.id) (depth : Nat)
    (deep : first.length < depth) (state : LoopState) :
    ∃ final, process.checkTypeWritten depth typeId state = .ok final := by
  induction depth generalizing first rest typeId state with
  | zero => omega
  | succ depth ih =>
    unfold checkTypeWritten
    by_cases written : typeId ∈ state.writtenTypeIds
    · exact ⟨state, if_pos written⟩
    rw [if_neg written]
    by_cases primitive : isPrimitive typeId = true
    · exact ⟨state, if_pos primitive⟩
    rw [if_neg primitive]
    obtain ⟨before, type, after, found, parts, earlier⟩ :=
      TypeCache.get_of_mem split (known.resolve_left primitive)
    have fields := checkFields_total depth _ state fun field inside state => by
      apply ih parts _ _ (by omega)
      cases struct : isPrimitive _ with
      | true => exact .inl rfl
      | false => exact .inr (process.types.nested before type after parts field inside struct)
    obtain ⟨middle, checked⟩ := fields
    exact ⟨process.writeType middle typeId type, by rw [found]; simp only [checked]⟩

end WriterProcess

section Types

variable {cache : TypeCache} {typeId inner : TypeId}

/-- Primitive types contain nothing. -/
theorem Contains.struct (contains : Contains cache typeId inner) : isPrimitive typeId = false := by
  cases contains with
  | self struct => exact struct
  | nested found member contains => exact TypeCache.get_struct found

/-- The place of a type in the cache. -/
def place (cache : TypeCache) (typeId : TypeId) : Nat :=
  (cache.types.map MessageType.id).idxOf typeId

/-- The types of the fields were added to the cache before. -/
theorem place_field {type : MessageType} {field : Field} (found : cache.get typeId = some type)
    (member : field ∈ type.fields) (struct : isPrimitive field.type = false) :
    place cache field.type < place cache typeId := by
  obtain ⟨before, after, split⟩ := append_of_mem (TypeCache.get_mem found)
  have earlier := cache.nested before type after split field member struct
  have distinct := cache.distinct
  rw [split, map_append, map_cons, TypeCache.get_id found] at distinct
  have absent : typeId ∉ before.map MessageType.id := fun inside =>
    disjoint_of_nodup_append distinct inside mem_cons_self
  rw [place, place, split, map_append, map_cons, TypeCache.get_id found,
    idxOf_append_of_mem earlier, idxOf_append_of_notMem absent]
  exact Nat.lt_add_right _ (idxOf_lt_length_of_mem earlier)

theorem Contains.place_le (contains : Contains cache typeId inner) :
    place cache inner ≤ place cache typeId := by
  induction contains with
  | self struct => exact Nat.le_refl _
  | nested found member contains ih =>
    exact Nat.le_trans ih (Nat.le_of_lt (place_field found member contains.struct))

/-- The struct types of the fields are among these. -/
def HasParts (cache : TypeCache) (ids : List TypeId) (typeId : TypeId) : Prop :=
  ∀ type, cache.get typeId = some type → ∀ field ∈ type.fields,
    isPrimitive field.type = false → field.type ∈ ids

theorem HasParts.mono {ids more : List TypeId} (parts : HasParts cache ids typeId)
    (grows : ids ⊆ more) : HasParts cache more typeId :=
  fun type found field member struct => grows (parts type found field member struct)

/-- If whatever a type contains has its parts there once it is there, everything the type
contains is there. -/
theorem Contains.listed {ids : List TypeId} (contains : Contains cache typeId inner)
    (member : typeId ∈ ids)
    (parts : ∀ middle ∈ ids, Contains cache typeId middle → HasParts cache ids middle) :
    inner ∈ ids := by
  induction contains with
  | self struct => exact member
  | nested found inside contains ih =>
    have listed := parts _ member (.self (TypeCache.get_struct found)) _ found _ inside
      contains.struct
    exact ih listed fun middle there below => parts middle there (.nested found inside below)

/-- With every type the types of its fields were written. -/
def Closed (cache : TypeCache) (written : List TypeId) : Prop :=
  ∀ typeId ∈ written, ∀ type, cache.get typeId = some type → ∀ field ∈ type.fields,
    isPrimitive field.type = false → field.type ∈ written

/-- Then everything a written type contains was written. -/
theorem Contains.written {written : List TypeId} (contains : Contains cache typeId inner)
    (closed : Closed cache written) (member : typeId ∈ written) : inner ∈ written :=
  contains.listed member fun middle there _ => closed middle there

/-- Types are found under their own ids. -/
theorem get_self {type : MessageType} (member : type ∈ cache.types) :
    cache.get type.id = some type := by
  obtain ⟨before, other, after, found, _⟩ := TypeCache.get_of_mem
    (append_nil _).symm (mem_map_of_mem member)
  have same := inj_on_of_nodup_map cache.distinct (TypeCache.get_mem found) member
    (TypeCache.get_id found)
  rwa [same] at found

end Types

namespace WriterProcess

variable {process : WriterProcess} {state final : LoopState}

theorem writtenTypeIds_writeType (shareable : Shareable process.types) {type : MessageType}
    {typeId : TypeId} (found : process.types.get typeId = some type) :
    (process.writeType state typeId type).writtenTypeIds = state.writtenTypeIds ++ [typeId] := by
  have small := shareable type (TypeCache.get_mem found)
  have fits : type.serializedSize ≤ typeBufferSize := Nat.le_trans small (by decide)
  rw [← TypeCache.get_id found, writeType_eq (by omega), if_pos fits]
  rfl

/-- The loop over fields keeps the written types closed and adds the types of the
fields. -/
theorem checkFields_closed {depth : Nat}
    (each : ∀ typeId state final, process.checkTypeWritten depth typeId state = .ok final →
      Closed process.types state.writtenTypeIds →
      Closed process.types final.writtenTypeIds ∧ state.writtenTypeIds ⊆ final.writtenTypeIds ∧
        (isPrimitive typeId = false → typeId ∈ final.writtenTypeIds))
    (fields : List Field)
    (checked : fields.foldlM (fun state field => process.checkTypeWritten depth field.type state)
      state = .ok final) (closed : Closed process.types state.writtenTypeIds) :
    Closed process.types final.writtenTypeIds ∧ state.writtenTypeIds ⊆ final.writtenTypeIds ∧
      ∀ field ∈ fields, isPrimitive field.type = false → field.type ∈ final.writtenTypeIds := by
  induction fields generalizing state with
  | nil =>
    cases Except.ok.inj checked
    exact ⟨closed, .refl _, by simp⟩
  | cons field rest ih =>
    obtain ⟨middle, first, later⟩ := foldlM_cons_ok.mp checked
    obtain ⟨middleClosed, kept, own⟩ := each _ _ _ first closed
    obtain ⟨finalClosed, keptLater, others⟩ := ih later middleClosed
    exact ⟨finalClosed, Subset.trans kept keptLater,
      forall_mem_cons.mpr ⟨fun struct => keptLater (own struct), others⟩⟩

/-- `CheckTypeWritten` keeps the written types closed and adds its type. -/
theorem checkTypeWritten_closed (shareable : Shareable process.types) (depth : Nat)
    (typeId : TypeId) (state final : LoopState)
    (checked : process.checkTypeWritten depth typeId state = .ok final)
    (closed : Closed process.types state.writtenTypeIds) :
    Closed process.types final.writtenTypeIds ∧ state.writtenTypeIds ⊆ final.writtenTypeIds ∧
      (isPrimitive typeId = false → typeId ∈ final.writtenTypeIds) := by
  induction depth generalizing typeId state final with
  | zero => cases checked
  | succ depth ih =>
    unfold checkTypeWritten at checked
    split at checked
    · next known =>
      cases Except.ok.inj checked
      exact ⟨closed, .refl _, fun _ => known⟩
    split at checked
    · next primitive =>
      cases Except.ok.inj checked
      exact ⟨closed, .refl _, fun struct => by simp [primitive] at struct⟩
    split at checked
    · cases checked
    next type found =>
    split at checked
    · cases checked
    next middle fields =>
    obtain ⟨middleClosed, kept, nested⟩ :=
      checkFields_closed ih _ fields closed
    rw [← Except.ok.inj checked, writtenTypeIds_writeType shareable found]
    refine ⟨?_, fun other member => mem_append_left _ (kept member), fun _ => by simp⟩
    intro other member owner ownerFound field inside struct
    rcases mem_append.mp member with old | new
    · exact mem_append_left _ (middleClosed other old owner ownerFound field inside struct)
    · rw [mem_singleton.mp new, found] at ownerFound
      cases ownerFound
      exact mem_append_left _ (nested field inside struct)

end WriterProcess

end Miranda.LogFile
