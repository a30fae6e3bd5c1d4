import Miranda.QCompiler.Messages
import Miranda.QueueTypes.MessageType

/-!
# Printing messages by their types

`PrintMessage` walks over serialized bytes with a message type as its guide. A field
of a primitive type goes to `PrintField`, whose switch over the type ids is generated
by the compiler, and a field of another type to `PrintMessage` again, with the type
that the type cache has for the id; `PrintArray` does the same for every element of
an array. Output and input are counted down by what was written and read.

The text of a single value is a parameter: snprintf and the integer printer are not
part of this module. Next to the text a walk keeps a record of its visits, which the
source does not have. A call that returns false, or dies because the type cache does
not know an id, has no result here, and what it has written by then is not modelled.

A list of fields expands to a layout if every id is that of a primitive type or is
found in the cache and expands in turn. Printing such fields visits exactly their
layout and consumes exactly its size, as soon as there is room for the text.
-/

namespace Miranda.QueueTypes

open Bytes Layouts QCompiler List

/-- Subtraction in `size_t`. -/
def difference (first second : Nat) : Nat := (first + 2 ^ 64 - second) % 2 ^ 64

theorem difference_eq {first second : Nat} (le : second ≤ first) (small : first < 2 ^ 64) :
    difference first second = first - second := by
  simp only [difference]
  omega

/-- What is written so far, the bytes left in the output and in the input, and the
visits so far. -/
structure Cursor where
  output : List UInt8
  outputBytes : Nat
  inputBytes : Nat
  visits : List (Visit (List UInt8) Primitive Nat)

namespace Cursor

/-- Write a text if there is room for it. -/
def put (text : List UInt8) (cursor : Cursor) : Option Cursor :=
  if cursor.outputBytes < text.length then none
  else some { cursor with
    output := cursor.output ++ text
    outputBytes := cursor.outputBytes - text.length }

/-- Ignore the trailing NUL that a subcall put on. -/
def dropNul (cursor : Cursor) : Cursor :=
  { cursor with output := cursor.output.dropLast, outputBytes := cursor.outputBytes + 1 }

def visit (visit : Visit (List UInt8) Primitive Nat) (cursor : Cursor) : Cursor :=
  { cursor with visits := cursor.visits ++ [visit] }

/-- The separator in front of every element but the first. -/
def separate (first : Bool) (cursor : Cursor) : Option Cursor :=
  if first then some cursor else cursor.put [0x2C, 0x20]

end Cursor

section Printers

variable (digest : List Char → BitVec 16) (rendering : Primitive → List UInt8 → List UInt8)
  (get : TypeId → Option MessageType) (input : Image)

/-- The case of the switch in `PrintField` that a type id selects. -/
def primitiveOf (typeId : TypeId) : Option Primitive :=
  Primitive.all.find? fun type => BitVec.ofNat 32 (type.getTypeID digest) == typeId

/-- Whether a value is printed with snprintf, which needs room for a NUL. -/
def usesSnprintf : Primitive → Bool
  | .float | .double | .char | .time => true
  | _ => false

/-- The text of a value: T or f, or what snprintf and the integer printer write. -/
def valueText (type : Primitive) (bytes : List UInt8) : List UInt8 :=
  match type with
  | .bool => [if type.decode bytes = 0 then 0x66 else 0x54]
  | _ => rendering type bytes

/-- `PrintField`. -/
def printField (position : Nat) (typeId : TypeId) (cursor : Cursor) : Option Cursor :=
  match primitiveOf digest typeId with
  | none => none
  | some type =>
    if cursor.inputBytes < type.size then none
    else
      let bytes := load input position type.size
      let text := valueText rendering type bytes
      if usesSnprintf type && decide (cursor.outputBytes ≤ text.length) then none
      else ({ cursor with inputBytes := cursor.inputBytes - type.size }.visit
        (.value type (type.decode bytes))).put text

/-- One value or one message, where `message` prints the fields of a type. -/
def printElement (message : MessageType → Nat → Cursor → Option Cursor) (position : Nat)
    (typeId : TypeId) (cursor : Cursor) : Option Cursor :=
  if isPrimitive typeId then printField digest rendering input position typeId cursor
  else (get typeId).bind fun type => (message type position cursor).map Cursor.dropNul

/-- The loop of `PrintArray`. -/
def printElements (message : MessageType → Nat → Cursor → Option Cursor) (typeId : TypeId) :
    Nat → Bool → Nat → Cursor → Option Cursor
  | 0, _, _, cursor => some cursor
  | number + 1, first, position, cursor =>
    (cursor.separate first).bind fun before =>
      (printElement digest rendering get input message position typeId before).bind fun after =>
        printElements message typeId number false
          (position + difference before.inputBytes after.inputBytes) after

/-- `PrintArray`. -/
def printArray (message : MessageType → Nat → Cursor → Option Cursor) (position : Nat)
    (typeId : TypeId) (length : Nat) (cursor : Cursor) : Option Cursor :=
  (cursor.put [0x5B]).bind fun opened =>
    (printElements digest rendering get input message typeId length true position opened).bind
      (Cursor.put [0x5D, 0])

/-- The value of a field, behind its name. -/
def printValue (message : MessageType → Nat → Cursor → Option Cursor) (position : Nat)
    (field : Field) (cursor : Cursor) : Option Cursor :=
  if 0 < field.length.toNat then
    (printArray digest rendering get input message position field.type field.length.toNat
      cursor).map Cursor.dropNul
  else printElement digest rendering get input message position field.type cursor

/-- The loop of `PrintMessage`. -/
def printFields (message : MessageType → Nat → Cursor → Option Cursor) :
    List Field → Bool → Nat → Cursor → Option Cursor
  | [], _, _, cursor => some cursor
  | field :: rest, first, position, cursor =>
    (cursor.separate first).bind fun separated =>
      ((separated.visit (.field field.name field.length.toNat)).put (field.name ++ [0x3A])).bind
        fun before =>
          (printValue digest rendering get input message position field before).bind fun after =>
            printFields message rest false
              (position + difference before.inputBytes after.inputBytes) after

/-- `PrintMessage`, with a bound on the nesting. -/
def printMessage : Nat → MessageType → Nat → Cursor → Option Cursor
  | 0, _, _, _ => none
  | fuel + 1, type, position, cursor =>
    let skipped := { cursor with
      inputBytes := difference cursor.inputBytes type.superSize.toNat }
    ((skipped.visit .opened).put (type.name ++ [0x7B])).bind fun opened =>
      (printFields digest rendering get input (printMessage fuel) type.fields true
        (position + type.superSize.toNat) opened).bind fun printed =>
          (printed.visit .closed).put [0x7D, 0]

end Printers

/-- With enough fuel and enough room a printer writes the text, makes the visits and
consumes the bytes. -/
def Prints (printer : Nat → Cursor → Option Cursor) (text : List UInt8)
    (visits : List (Visit (List UInt8) Primitive Nat)) (consumed : Nat) : Prop :=
  ∃ depth room, text.length ≤ room ∧ ∀ fuel, depth ≤ fuel → ∀ cursor : Cursor,
    room ≤ cursor.outputBytes → consumed ≤ cursor.inputBytes → cursor.inputBytes < 2 ^ 64 →
    printer fuel cursor = some {
      output := cursor.output ++ text
      outputBytes := cursor.outputBytes - text.length
      inputBytes := cursor.inputBytes - consumed
      visits := cursor.visits ++ visits }

section Composing

variable {first second : Nat → Cursor → Option Cursor} {one two : List UInt8}
  {before after : List (Visit (List UInt8) Primitive Nat)} {consumed more : Nat}

theorem prints_put (text : List UInt8) : Prints (fun _ => Cursor.put text) text [] 0 := by
  refine ⟨0, text.length, Nat.le_refl _, ?_⟩
  intro fuel _ cursor room _ _
  simp [Cursor.put, Nat.not_lt.mpr room]

theorem prints_done : Prints (fun _ cursor => some cursor) [] [] 0 := by
  refine ⟨0, 0, Nat.le_refl _, ?_⟩
  intro fuel _ cursor _ _ _
  simp

theorem prints_separate (isFirst : Bool) :
    ∃ text, Prints (fun _ => Cursor.separate isFirst) text [] 0 := by
  cases isFirst with
  | true => exact ⟨[], prints_done⟩
  | false => exact ⟨_, prints_put [0x2C, 0x20]⟩

/-- Printers run one after the other. -/
theorem Prints.bind (start : Prints first one before consumed)
    (next : Prints second two after more) :
    Prints (fun fuel cursor => (first fuel cursor).bind (second fuel)) (one ++ two)
      (before ++ after) (consumed + more) := by
  obtain ⟨depth, room, fits, run⟩ := start
  obtain ⟨deeper, further, alsoFits, runNext⟩ := next
  refine ⟨max depth deeper, max room (one.length + further), ?_, ?_⟩
  · rw [length_append]
    omega
  · intro fuel enough cursor space input small
    dsimp only
    rw [run fuel (by omega) cursor (by omega) (by omega) small, Option.bind_some,
      runNext fuel (by omega) _ (by dsimp only; omega) (by dsimp only; omega)
        (by dsimp only; omega)]
    simp [Nat.sub_sub]

/-- The next printer starts where the one before has stopped reading. -/
theorem Prints.advance {next : Nat → Nat → Cursor → Option Cursor} {position : Nat}
    (start : Prints first one before consumed)
    (following : Prints (fun fuel => next fuel (position + consumed)) two after more) :
    Prints (fun fuel cursor => (first fuel cursor).bind fun middle =>
        next fuel (position + difference cursor.inputBytes middle.inputBytes) middle)
      (one ++ two) (before ++ after) (consumed + more) := by
  obtain ⟨depth, room, fits, run⟩ := start.bind following
  obtain ⟨least, need, _, alone⟩ := start
  refine ⟨max depth least, max room need, by omega, ?_⟩
  intro fuel enough cursor space input small
  have whole := run fuel (by omega) cursor (by omega) (by omega) small
  have begun := alone fuel (by omega) cursor (by omega) (by omega) small
  dsimp only at whole ⊢
  rw [begun, Option.bind_some] at whole ⊢
  dsimp only at whole ⊢
  rw [difference_eq (by omega) small, Nat.sub_sub_self (by omega)]
  exact whole

/-- A subcall's NUL is ignored. -/
theorem Prints.dropNul (printed : Prints first (one ++ [0]) before consumed) :
    Prints (fun fuel cursor => (first fuel cursor).map Cursor.dropNul) one before consumed := by
  obtain ⟨depth, room, fits, run⟩ := printed
  rw [length_append, length_singleton] at fits
  refine ⟨depth, room, by omega, ?_⟩
  intro fuel enough cursor space input small
  dsimp only
  rw [run fuel enough cursor space input small]
  simp only [Option.map_some, Cursor.dropNul, length_append, length_singleton,
    ← append_assoc, dropLast_concat]
  congr 2
  omega

/-- A visit that comes before the text. -/
theorem Prints.visit (printed : Prints first one before consumed)
    (shown : Visit (List UInt8) Primitive Nat) :
    Prints (fun fuel cursor => first fuel (cursor.visit shown)) one (shown :: before)
      consumed := by
  obtain ⟨depth, room, fits, run⟩ := printed
  refine ⟨depth, room, fits, ?_⟩
  intro fuel enough cursor space input small
  dsimp only
  rw [run fuel enough (cursor.visit shown) space input small]
  simp [Cursor.visit]

theorem Prints.congr (printed : Prints first one before consumed)
    (same : ∀ fuel cursor, second fuel cursor = first fuel cursor) :
    Prints second one before consumed := by
  have equal : second = first := funext fun fuel => funext (same fuel)
  rwa [equal]

end Composing

section Walking

variable {digest : List Char → BitVec 16} {rendering : Primitive → List UInt8 → List UInt8}
  {get : TypeId → Option MessageType} {input : Image}

/-- The value of a kind at an offset of the input. -/
def readValue (input : Image) (type : Primitive) (offset : Nat) : Nat :=
  type.decode (load input offset type.size)

variable (digest get) in
/-- The layout that the types of the cache give a list of fields. -/
inductive Expands : List Field → Layout (List UInt8) Primitive → Prop where
  | nil : Expands [] .nil
  | leaf {field : Field} {rest : List Field} {type : Primitive}
      {layout : Layout (List UInt8) Primitive} (primitive : isPrimitive field.type = true)
      (known : primitiveOf digest field.type = some type) (tail : Expands rest layout) :
      Expands (field :: rest) (.leaf field.name field.length.toNat type layout)
  | group {field : Field} {rest : List Field} {type : MessageType}
      {body layout : Layout (List UInt8) Primitive} (struct : isPrimitive field.type = false)
      (found : get field.type = some type) (inner : Expands type.fields body)
      (tail : Expands rest layout) :
      Expands (field :: rest)
        (.group field.name field.length.toNat type.superSize.toNat body layout)

variable {width : Nat} {shown : Nat → List (Visit (List UInt8) Primitive Nat)} {typeId : TypeId}
  {field : Field} {position : Nat}

/-- A printer for one element that consumes the same everywhere prints any number. -/
theorem prints_elements
    (element : ∀ position, ∃ text, Prints (fun fuel => printElement digest rendering get input
      (printMessage digest rendering get input fuel) position typeId) text (shown position) width)
    (number : Nat) (first : Bool) (position : Nat) :
    ∃ text, Prints (fun fuel => printElements digest rendering get input
        (printMessage digest rendering get input fuel) typeId number first position) text
      ((List.range number).flatMap fun index => shown (position + index * width))
      (number * width) := by
  induction number generalizing first position with
  | zero =>
    rw [Nat.zero_mul]
    exact ⟨[], prints_done⟩
  | succ number ih =>
    obtain ⟨separator, separates⟩ := prints_separate first
    obtain ⟨text, printed⟩ := element position
    obtain ⟨later, others⟩ := ih false (position + width)
    have whole := separates.bind (printed.advance others)
    have visits : (List.range (number + 1)).flatMap (fun index => shown (position + index * width)) =
        [] ++ (shown position ++
          (List.range number).flatMap fun index => shown (position + width + index * width)) := by
      rw [range_succ_eq_map, flatMap_cons, flatMap_map, nil_append,
        Nat.zero_mul]
      congr 1
      apply flatMap_congr
      intro index _
      rw [Nat.succ_mul, Nat.add_assoc, Nat.add_comm width]
    rw [visits, Nat.succ_mul, Nat.add_comm (number * width), ← Nat.zero_add (width + _)]
    exact ⟨_, whole⟩

/-- So does the printer for the value of a field. -/
theorem prints_value
    (element : ∀ position, ∃ text, Prints (fun fuel => printElement digest rendering get input
      (printMessage digest rendering get input fuel) position field.type) text (shown position) width)
    (position : Nat) :
    ∃ text, Prints (fun fuel => printValue digest rendering get input
        (printMessage digest rendering get input fuel) position field) text
      ((List.range (copies field.length.toNat)).flatMap fun index =>
        shown (position + index * width)) (copies field.length.toNat * width) := by
  by_cases isArray : 0 < field.length.toNat
  · simp only [copies, if_neg isArray.ne']
    obtain ⟨text, printed⟩ := prints_elements element _ true position
    have whole := (prints_put [0x5B]).bind (printed.bind (prints_put [0x5D, 0]))
    rw [append_nil, Nat.zero_add,
      show [0x5B] ++ (text ++ [0x5D, 0]) = ([0x5B] ++ text ++ [0x5D]) ++ [0] by simp] at whole
    refine ⟨_, whole.dropNul.congr ?_⟩
    intro fuel cursor
    rw [printValue, if_pos isArray]
    rfl
  · have single : field.length.toNat = 0 := by omega
    obtain ⟨text, printed⟩ := element position
    rw [single]
    simp only [copies, if_true, range_one, flatMap_singleton, Nat.zero_mul, Nat.add_zero,
      Nat.one_mul]
    refine ⟨text, printed.congr ?_⟩
    intro fuel cursor
    rw [printValue, if_neg isArray]

/-- `PrintField` prints one value of the type that its id selects. -/
theorem prints_field {type : Primitive} (primitive : isPrimitive typeId = true)
    (known : primitiveOf digest typeId = some type) (position : Nat) :
    ∃ text, Prints (fun fuel => printElement digest rendering get input
        (printMessage digest rendering get input fuel) position typeId) text
      [.value type (readValue input type position)] type.size := by
  refine ⟨valueText rendering type _, 0,
    (valueText rendering type (load input position type.size)).length + 1, Nat.le_succ _, ?_⟩
  intro fuel _ cursor room enough _
  have roomy : ¬ cursor.outputBytes ≤
      (valueText rendering type (load input position type.size)).length := by omega
  have fits : ¬ cursor.outputBytes <
      (valueText rendering type (load input position type.size)).length := by omega
  simp [printElement, primitive, printField, known, Nat.not_lt.mpr enough, roomy, Cursor.visit,
    Cursor.put, fits, readValue]

/-- `PrintMessage` prints a message whose fields it prints. -/
theorem prints_message {type : MessageType} {size : Nat} {text : List UInt8}
    {shown : List (Visit (List UInt8) Primitive Nat)}
    (fields : Prints (fun fuel => printFields digest rendering get input
      (printMessage digest rendering get input fuel) type.fields true
      (position + type.superSize.toNat)) text shown size) :
    Prints (fun fuel => printMessage digest rendering get input fuel type position)
      (type.name ++ [0x7B] ++ text ++ [0x7D] ++ [0]) (.opened :: shown ++ [.closed])
      (type.superSize.toNat + size) := by
  have opened := (prints_put (type.name ++ [0x7B])).visit .opened
  have closed := (prints_put [0x7D, 0]).visit .closed
  obtain ⟨depth, room, fits, run⟩ := opened.bind (fields.bind closed)
  refine ⟨depth + 1, room, ?_, ?_⟩
  · simpa [Nat.add_assoc] using fits
  · intro fuel enough cursor space inside small
    obtain ⟨less, rfl⟩ : ∃ less, fuel = less + 1 := ⟨fuel - 1, by omega⟩
    have skips := difference_eq (show type.superSize.toNat ≤ cursor.inputBytes by omega) small
    have whole := run less (by omega)
      { cursor with inputBytes := cursor.inputBytes - type.superSize.toNat } space
      (by dsimp only; omega) (by dsimp only; omega)
    simp only [printMessage, skips]
    dsimp only at whole
    rw [whole]
    simp [Nat.sub_sub]

/-- A field is printed behind a separator and its name. -/
theorem prints_named {rest : List Field} {consumed more : Nat}
    {shown : List (Visit (List UInt8) Primitive Nat)}
    {others : Nat → List (Visit (List UInt8) Primitive Nat)}
    (value : ∃ text, Prints (fun fuel => printValue digest rendering get input
      (printMessage digest rendering get input fuel) position field) text shown consumed)
    (fields : ∀ position, ∃ text, Prints (fun fuel => printFields digest rendering get input
      (printMessage digest rendering get input fuel) rest false position) text (others position)
      more)
    (first : Bool) :
    ∃ text, Prints (fun fuel => printFields digest rendering get input
        (printMessage digest rendering get input fuel) (field :: rest) first position) text
      (.field field.name field.length.toNat :: shown ++ others (position + consumed))
      (consumed + more) := by
  obtain ⟨separator, separates⟩ := prints_separate first
  have named := (prints_put (field.name ++ [0x3A])).visit (.field field.name field.length.toNat)
  obtain ⟨text, printed⟩ := value
  obtain ⟨later, following⟩ := fields (position + consumed)
  have whole := separates.bind (named.bind (printed.advance following))
  rw [Nat.zero_add,
    Nat.zero_add] at whole
  exact ⟨_, whole⟩

/-- The fields of a type that expands are printed as their layout says. -/
theorem Expands.prints {fields : List Field} {layout : Layout (List UInt8) Primitive}
    (expands : Expands digest get fields layout) (path : Path (List UInt8)) (first : Bool)
    (position : Nat) :
    ∃ text, Prints (fun fuel => printFields digest rendering get input
        (printMessage digest rendering get input fuel) fields first position) text
      (layout.visits Primitive.size (fun place => readValue input place.kind place.offset) path
        position) (layout.size Primitive.size) := by
  induction expands generalizing path first position with
  | nil => exact ⟨[], prints_done⟩
  | @leaf field rest type layout primitive known tail ih =>
    have walk := prints_named (prints_value (prints_field primitive known) position)
      (ih path false) first
    simpa only [Layout.visits, Layout.size, map_eq_flatMap] using walk
  | @group field rest type body layout struct found inner tail bodyHypothesis restHypothesis =>
    have element : ∀ position, ∃ text, Prints (fun fuel => printElement digest rendering get input
        (printMessage digest rendering get input fuel) position field.type) text
        (.opened :: body.visits Primitive.size
          (fun place => readValue input place.kind place.offset) path
          (position + type.superSize.toNat) ++ [.closed])
        (type.superSize.toNat + body.size Primitive.size) := by
      intro position
      obtain ⟨text, printed⟩ := bodyHypothesis path true _
      refine ⟨_, (prints_message printed).dropNul.congr ?_⟩
      intro fuel cursor
      simp [printElement, struct, found]
    have walk := prints_named (prints_value element position) (restHypothesis path false) first
    have visits : ∀ index, body.visits _
        _
        (path ++ [(field.name, Layouts.index field.length.toNat index)])
        (position + index * (type.superSize.toNat + body.size Primitive.size) +
          type.superSize.toNat) =
        body.visits Primitive.size (fun place => readValue input _ _) path
          _ :=
      fun index => Layout.visits_path _ _ _ _ _
    simpa only [Layout.visits, Layout.size, visits] using walk

end Walking

end Miranda.QueueTypes
