import Miranda.Printing.Exactness

/-!
# The lists behind the memory

The other model of `PrintMessage` has a list of bytes in place of the memory and no pointers,
and a call that returns false has no result in it. Where all of a message is there the two
agree: a call returns true exactly if the one on lists has a result, and then the memory holds
what the list has gained and the counters are the same.
-/

namespace Miranda.Printing

open Bytes Printers QCompiler List
open Layouts (copies Visit)
open LogFile (SizeT)
open QueueTypes (TypeId Field MessageType isPrimitive primitiveOf difference difference_eq)

/-- With enough input a printer on lists yields a text, exactly if there is some room. -/
structure Yields (printer : QueueTypes.Cursor → Option QueueTypes.Cursor) (need : Nat)
    (text : List UInt8) (size : Nat) : Prop where
  fits : text.length ≤ need
  returns : ∀ cursor, size ≤ cursor.inputBytes → cursor.inputBytes < 2 ^ 64 →
    need ≤ cursor.outputBytes → ∃ visits, printer cursor = some
      { output := cursor.output ++ text
        outputBytes := cursor.outputBytes - text.length
        inputBytes := cursor.inputBytes - size
        visits := visits }
  fails : ∀ cursor, size ≤ cursor.inputBytes → cursor.inputBytes < 2 ^ 64 →
    cursor.outputBytes < need → printer cursor = none

/-- The room is that for the text, or one byte more. -/
def YieldsText (printer : QueueTypes.Cursor → Option QueueTypes.Cursor) (text : List UInt8)
    (size : Nat) : Prop :=
  ∃ need, need ≤ text.length + 1 ∧ Yields printer need text size

section Composing

variable {first : QueueTypes.Cursor → Option QueueTypes.Cursor} {need more size further : Nat}
  {one two : List UInt8}

variable {position : Nat} {next : Nat → QueueTypes.Cursor → Option QueueTypes.Cursor}
  {second : QueueTypes.Cursor → Option QueueTypes.Cursor}

/-- The next printer starts where the one before has stopped reading. -/
theorem Yields.advance (start : Yields first need one size)
    (following : Yields (next (position + size)) more two further) :
    Yields (fun cursor => (first cursor).bind fun middle =>
        next (position + difference cursor.inputBytes middle.inputBytes) middle)
      (max need (one.length + more)) (one ++ two) (size + further) := by
  have fits := start.fits
  have alsoFits := following.fits
  constructor
  · rw [length_append]
    omega
  · intro cursor enough small room
    obtain ⟨visits, begun⟩ := start.returns cursor (by omega) small (by omega)
    obtain ⟨others, done⟩ := following.returns
      ⟨cursor.output ++ one, cursor.outputBytes - one.length, cursor.inputBytes - size, visits⟩
      (by dsimp only; omega) (by dsimp only; omega) (by dsimp only; omega)
    refine ⟨others, ?_⟩
    rw [begun, Option.bind_some, difference_eq (by dsimp only; omega) small]
    dsimp only
    rw [Nat.sub_sub_self (by omega), done]
    rw [append_assoc, length_append, Nat.sub_sub, Nat.sub_sub]
  · intro cursor enough small room
    by_cases begins : need ≤ cursor.outputBytes
    · obtain ⟨visits, begun⟩ := start.returns cursor (by omega) small begins
      rw [begun, Option.bind_some, difference_eq (by dsimp only; omega) small]
      rw [Nat.sub_sub_self (by omega)]
      exact following.fails _ (by dsimp only; omega) (by dsimp only; omega) (by dsimp only; omega)
    · rw [start.fails cursor (by omega) small (by omega)]
      rfl

theorem Yields.bind (start : Yields first need one size)
    (following : Yields second more two further) :
    Yields (fun cursor => (first cursor).bind second) (max need (one.length + more)) (one ++ two)
      (size + further) := by
  exact @.advance first need more size further one two 0 (fun _ => second) start following

theorem yields_put (text : List UInt8) : Yields (QueueTypes.Cursor.put text) text.length text 0 := by
  constructor
  · exact Nat.le_refl _
  · intro cursor _ _ room
    exact ⟨_, if_neg (Nat.not_lt.mpr room)⟩
  · intro cursor _ _ room
    exact if_pos room

/-- Visits are recorded besides. -/
theorem Yields.visit (yields : Yields first need one size)
    (shown : Visit (List UInt8) Primitive Nat) :
    Yields (fun cursor => first (cursor.visit shown)) need one size :=
  ⟨yields.fits, fun cursor => yields.returns (cursor.visit shown),
    fun cursor => yields.fails (cursor.visit shown)⟩

/-- The separator in front of an item, which makes up for the byte that an item needs. -/
theorem yields_separate (isFirst : Bool) :
    Yields (QueueTypes.Cursor.separate isFirst) (if isFirst then [] else separator).length
      (if isFirst then [] else separator) 0 := by
  cases isFirst with
  | true =>
    constructor
    · exact Nat.le_refl _
    · intro cursor _ _ _
      refine ⟨cursor.visits, ?_⟩
      simp [QueueTypes.Cursor.separate]
    · intro cursor _ _ room
      exact absurd room (Nat.not_lt_zero _)
  | false => exact yields_put separator

/-- A subcall's zero byte is taken back. -/
theorem Yields.dropNul (yields : Yields first (one ++ [0]).length (one ++ [0]) size) :
    YieldsText (fun cursor => (first cursor).map QueueTypes.Cursor.dropNul) one size := by
  have length : (one ++ [0]).length = one.length + 1 := by
    rw [length_append, length_singleton]
  rw [length] at yields
  refine ⟨one.length + 1, Nat.le_refl _, Nat.le_succ _, ?_, ?_⟩
  · intro cursor enough small room
    obtain ⟨visits, done⟩ := yields.returns cursor enough small room
    refine ⟨visits, ?_⟩
    rw [done, Option.map_some, QueueTypes.Cursor.dropNul]
    dsimp only
    rw [← append_assoc, dropLast_concat]
    congr 2
    omega
  · intro cursor enough small room
    rw [yields.fails cursor enough small room]
    rfl

/-- Text behind a printer makes up for the byte that it needs. -/
theorem YieldsText.closed {last : QueueTypes.Cursor → Option QueueTypes.Cursor}
    (start : YieldsText first one size) (some : two ≠ []) (text : Yields last two.length two 0) :
    Yields (fun cursor => (first cursor).bind last) (one ++ two).length (one ++ two) size := by
  obtain ⟨need, high, yields⟩ := start
  have positive := length_pos_of_ne_nil some
  have whole := yields.bind text
  rwa [Nat.max_eq_right (by omega), ← length_append] at whole

/-- Bytes of the input are skipped in front. -/
theorem Yields.skip (yields : Yields first need one size) (number : Nat) :
    Yields (fun cursor => first { cursor with inputBytes := difference cursor.inputBytes number })
      need one (number + size) := by
  refine ⟨yields.fits, ?_, ?_⟩
  · intro cursor enough small room
    rw [difference_eq (by omega) small, ← Nat.sub_sub]
    exact yields.returns _
      (by dsimp only; omega) (by dsimp only; omega) room
  · intro cursor enough small room
    rw [difference_eq (by omega) small]
    exact yields.fails _
      (by dsimp only; omega) (by dsimp only; omega) room

theorem Yields.text (exact : Yields first one.length one size) : YieldsText first one size :=
  ⟨one.length, Nat.le_succ _, exact⟩

theorem YieldsText.advance (start : YieldsText first one size)
    (following : YieldsText (next (position + size)) two further) :
    YieldsText (fun cursor => (first cursor).bind fun middle =>
        next (position + difference cursor.inputBytes middle.inputBytes) middle)
      (one ++ two) (size + further) := by
  obtain ⟨need, high, yields⟩ := start
  obtain ⟨more, above, later⟩ := following
  refine ⟨_, ?_, yields.advance later⟩
  rw [length_append]
  omega

theorem YieldsText.bind (start : YieldsText first one size)
    (following : YieldsText second two further) :
    YieldsText (fun cursor => (first cursor).bind second) (one ++ two) (size + further) := by
  obtain ⟨need, high, yields⟩ := start
  obtain ⟨more, above, later⟩ := following
  refine ⟨_, ?_, yields.bind later⟩
  rw [length_append]
  omega

end Composing

section Walking

variable {digest : List Char → BitVec 16} {formats : Formats}
  {get : TypeId → Option MessageType} {image : Image}
  {message : MessageType → Nat → QueueTypes.Cursor → Option QueueTypes.Cursor}

/-- Both models have the same texts of values. -/
theorem valueText_eq (type : Primitive) (bytes : List UInt8) :
    QueueTypes.valueText (valueText formats) type bytes = valueText formats type bytes := by
  cases type with
  | bool =>
    by_cases zero : fromBigEndian bytes = 0 <;>
      simp [QueueTypes.valueText, valueText, style, Primitive.decode, zero]
  | _ => rfl

variable {typeId : TypeId} {type : MessageType} {position size width : Nat} {field : Field}
  {texts : List (List UInt8)} {fuel : Nat}

/-- A value. -/
theorem yields_primitive {type : Primitive} (primitive : isPrimitive typeId = true)
    (known : primitiveOf digest typeId = some type) (position : Nat) :
    YieldsText (QueueTypes.printElement digest (valueText formats) get image message position typeId)
      (valueText formats type (load image position type.size)) type.size := by
  have reads : ∀ cursor : QueueTypes.Cursor, type.size ≤ cursor.inputBytes →
      QueueTypes.printElement digest (valueText formats) get image message position typeId cursor =
        if QueueTypes.usesSnprintf type && decide (cursor.outputBytes ≤
            (valueText formats type (load image position type.size)).length) then none
        else ({ cursor with inputBytes := cursor.inputBytes - type.size }.visit
          (.value type (type.decode (load image position type.size)))).put
            (valueText formats type (load image position type.size)) := by
    intro cursor enough
    rw [QueueTypes.printElement, if_pos primitive, QueueTypes.printField, known]
    dsimp only
    rw [if_neg (Nat.not_lt.mpr enough), valueText_eq]
  generalize valueText formats type _ = text at reads ⊢
  cases format : QueueTypes.usesSnprintf type with
  | true =>
    simp only [format, Bool.true_and, decide_eq_true_eq] at reads
    refine ⟨text.length + 1, Nat.le_refl _, Nat.le_succ _, ?_, ?_⟩
    · intro cursor enough _ room
      exact ⟨_, (reads cursor enough).trans ((if_neg (Nat.not_le.mpr room)).trans
        (if_neg (Nat.not_lt.mpr (Nat.le_of_succ_le room))))⟩
    · intro cursor enough _ room
      exact (reads cursor enough).trans (if_pos (Nat.le_of_lt_succ room))
  | false =>
    simp only [format, Bool.false_and, Bool.false_eq_true, if_false] at reads
    refine ⟨text.length, Nat.le_succ _, Nat.le_refl _, ?_, ?_⟩
    · intro cursor enough _ room
      exact ⟨_, (reads cursor enough).trans (if_neg (Nat.not_lt.mpr room))⟩
    · intro cursor enough _ room
      exact (reads cursor enough).trans (if_pos room)

/-- A message inside of another one. -/
theorem yields_struct (struct : isPrimitive typeId = false) (found : get typeId = some type)
    {text : List UInt8}
    (yields : Yields (message type position) (text ++ [0]).length (text ++ [0]) size) :
    YieldsText (QueueTypes.printElement digest (valueText formats) get image message position typeId)
      text size := by
  have same : QueueTypes.printElement digest (valueText formats) get image message position typeId =
      fun cursor => (message type position cursor).map QueueTypes.Cursor.dropNul := by
    funext cursor
    rw [QueueTypes.printElement, struct, found]
    rfl
  rw [same]
  exact yields.dropNul

/-- The elements of an array. -/
theorem yields_elements {text : Nat → List UInt8}
    (element : ∀ position, YieldsText
      (QueueTypes.printElement digest (valueText formats) get image message position typeId)
      (text position) width)
    (count : Nat) (first : Bool) (position : Nat) :
    YieldsText (QueueTypes.printElements digest (valueText formats) get image message typeId count
        first position)
      (separated separator first
        ((List.range count).map fun index => text (position + index * width)))
      (count * width) := by
  induction count generalizing first position with
  | zero =>
    rw [Nat.zero_mul]
    exact (yields_separate true).text
  | succ count ih =>
    have whole := (yields_separate first).text.bind
      ((element position).advance (ih false (position + width)))
    rw [positions_succ, Nat.succ_mul, Nat.add_comm (count * width), separated, append_assoc,
      ← Nat.zero_add (width + _)]
    exact whole

/-- The value of a field, or its values in brackets. -/
theorem yields_value {text : Nat → List UInt8}
    (element : ∀ position, YieldsText
      (QueueTypes.printElement digest (valueText formats) get image message position field.type)
      (text position) width)
    (position : Nat) :
    YieldsText (QueueTypes.printValue digest (valueText formats) get image message position field)
      (arrayText field.length.toNat fun index => text (position + index * width))
      (copies field.length.toNat * width) := by
  by_cases isArray : 0 < field.length.toNat
  · have items := yields_elements element field.length.toNat true position
    have array := ((yields_put [91]).text.bind items).closed (cons_ne_nil 93 [0])
      (yields_put [93, 0])
    rw [separated_eq, show ([93, 0] : List UInt8) = [93] ++ [0] from rfl, ← append_assoc,
      Nat.zero_add] at array
    have same : QueueTypes.printValue digest (valueText formats) get image message position field =
        fun cursor => (((QueueTypes.Cursor.put [91] cursor).bind
          (QueueTypes.printElements digest (valueText formats) get image message field.type
            field.length.toNat true position)).bind (QueueTypes.Cursor.put ([93] ++ [0]))).map
              QueueTypes.Cursor.dropNul := by
      funext cursor
      rw [QueueTypes.printValue, if_pos isArray, Option.bind_assoc]
      rfl
    rw [same, arrayText, copies, if_neg isArray.ne', if_neg isArray.ne']
    exact array.dropNul
  · have single : field.length.toNat = 0 := by omega
    have same : QueueTypes.printValue digest (valueText formats) get image message position field =
        QueueTypes.printElement digest (valueText formats) get image message position field.type := by
      funext cursor
      rw [QueueTypes.printValue, if_neg isArray]
    rw [same, single, arrayText, copies, if_pos rfl, if_pos rfl, Nat.one_mul, Nat.zero_mul]
    exact element position

/-- A field behind its name, and the fields behind it. -/
theorem yields_fields_cons {rest : List Field} {further : Nat} {text : List UInt8}
    (value : YieldsText
      (QueueTypes.printValue digest (valueText formats) get image message position field) text size)
    (others : YieldsText
      (QueueTypes.printFields digest (valueText formats) get image message rest false
        (position + size)) (separated separator false texts) further)
    (first : Bool) :
    YieldsText (QueueTypes.printFields digest (valueText formats) get image message (field :: rest)
        first position)
      (separated separator first ((field.name ++ [58] ++ text) :: texts)) (size + further) := by
  have name := (yields_put (field.name ++ [58])).visit (.field field.name field.length.toNat)
  have whole := (yields_separate first).text.bind (name.text.bind (value.advance others))
  rw [Nat.zero_add, Nat.zero_add, ← append_assoc (field.name ++ [58]),
    ← append_assoc] at whole
  exact whole

/-- A message with its fields in braces. -/
theorem yields_message
    (fields : YieldsText
      (QueueTypes.printFields digest (valueText formats) get image
        (QueueTypes.printMessage digest (valueText formats) get image fuel) type.fields true
        (position + type.superSize.toNat)) (separated separator true texts) size) :
    Yields (QueueTypes.printMessage digest (valueText formats) get image (fuel + 1) type position)
      (bracedText type.name texts ++ [0]).length (bracedText type.name texts ++ [0])
      (type.superSize.toNat + size) := by
  have opened := ((yields_put (type.name ++ [123])).visit .opened).text
  have braced := (opened.bind fields).closed (cons_ne_nil 125 [0])
    ((yields_put [125, 0]).visit .closed)
  rw [separated_eq, show ([125, 0] : List UInt8) = [125] ++ [0] from rfl, ← append_assoc,
    Nat.zero_add] at braced
  have same : QueueTypes.printMessage digest (valueText formats) get image (fuel + 1) type position =
      fun cursor =>
        (((({ cursor with inputBytes := difference cursor.inputBytes type.superSize.toNat }.visit
          .opened).put (type.name ++ [123])).bind
            (QueueTypes.printFields digest (valueText formats) get image
              (QueueTypes.printMessage digest (valueText formats) get image fuel) type.fields true
              (position + type.superSize.toNat))).bind fun printed =>
                (printed.visit .closed).put ([125] ++ [0])) := by
    funext cursor
    rw [Option.bind_assoc]
    rfl
  rw [same]
  exact braced.skip _

/-- The fields of a type that resolves. -/
theorem Resolves.yields {fields : List Field} {shape : Shape}
    (resolves : Resolves digest get fields shape) (deep : shape.depth ≤ fuel) (first : Bool)
    (position : Nat) :
    YieldsText (QueueTypes.printFields digest (valueText formats) get image
        (QueueTypes.printMessage digest (valueText formats) get image fuel) fields first position)
      (separated separator first (shape.texts formats image position)) shape.size := by
  induction resolves generalizing fuel first position with
  | nil => exact (yields_separate true).text
  | leaf primitive known tail ih =>
    exact yields_fields_cons (yields_value (yields_primitive primitive known) position)
      (ih deep false _) first
  | @group field rest type body shape struct found inner tail bodyHypothesis restHypothesis =>
    obtain ⟨nested, beside⟩ := Nat.max_le.mp deep
    obtain ⟨less, rfl⟩ : ∃ less, fuel = less + 1 := ⟨fuel - 1, by omega⟩
    have element : ∀ position, YieldsText
        (QueueTypes.printElement digest (valueText formats) get image
          (QueueTypes.printMessage digest (valueText formats) get image (less + 1)) position
          field.type)
        (bracedText type.name (body.texts formats image (position + type.superSize.toNat)))
        (type.superSize.toNat + body.size) :=
      fun position => yields_struct struct found
        (yields_message (bodyHypothesis (Nat.le_of_succ_le_succ nested) true _))
    exact yields_fields_cons (yields_value element position) (restHypothesis beside false _) first

end Walking

/-- The memory holds what the list has gained, and the counters are the same. -/
structure Mirrors (start : Nat) (after : Cursor) (done : QueueTypes.Cursor) : Prop where
  holds : Holds after.memory start done.output
  outputBytes : after.outputBytes = done.outputBytes
  inputBytes : after.inputBytes = done.inputBytes

/-- **A call on memory returns true exactly if the one on lists has a result, and with the same
text and the same counters.**

Proof: the same text and size describe both calls (`printMessage_follows`, `yields_message`),
so the room decides both. -/
theorem printMessage_mirrors {digest : List Char → BitVec 16} {formats : Formats}
    {get : TypeId → Option MessageType} {input : Window} {type : MessageType} {shape : Shape}
    {fuel : Nat} {cursor : Cursor} (resolves : Resolves digest get type.fields shape)
    (deep : shape.depth < fuel) (addressable : input.start + input.size < SizeT.bits64.modulus)
    (inside : Inside input cursor) (enough : messageSize type shape ≤ cursor.inputBytes) :
    (∃ after done,
      printMessage .bits64 digest formats get input fuel type cursor = .returned after ∧
      QueueTypes.printMessage digest (valueText formats) get input.image fuel type cursor.input
        ⟨[], cursor.outputBytes, cursor.inputBytes, []⟩ = some done ∧
      Mirrors cursor.output after done) ∨
    ∃ after,
      printMessage .bits64 digest formats get input fuel type cursor = .failed after ∧
      QueueTypes.printMessage digest (valueText formats) get input.image fuel type cursor.input
        ⟨[], cursor.outputBytes, cursor.inputBytes, []⟩ = none := by
  have follows : FollowsExactly input 0 (printMessage .bits64 digest formats get input fuel type)
      cursor.input (messageText formats input.image type shape cursor.input ++ [0])
      (messageSize type shape) (messageWalk type shape) :=
    printMessage_follows addressable (by decide) resolves deep cursor.input
  have ends := follows.follows.counts.mpr (Nat.sub_add_cancel enough)
  have yields : Yields (QueueTypes.printMessage digest (valueText formats) get input.image fuel type
      cursor.input) (messageText formats input.image type shape cursor.input ++ [0]).length
      (messageText formats input.image type shape cursor.input ++ [0]) (messageSize type shape) := by
    obtain ⟨less, rfl⟩ : ∃ less, fuel = less + 1 := ⟨fuel - 1, by omega⟩
    exact yields_message (resolves.yields (Nat.le_of_lt_succ deep) true _)
  have small : cursor.inputBytes < 2 ^ 64 := by
    have bounded : input.start + input.size < 2 ^ 64 := addressable
    have high := inside.2
    omega
  generalize messageText formats _ type shape _ ++ [0] = text at follows yields
  by_cases room : text.length ≤ cursor.outputBytes
  · obtain ⟨after, returned, printed⟩ := follows.follows.returns rfl inside ends room
    obtain ⟨visits, done⟩ := yields.returns ⟨[], cursor.outputBytes, cursor.inputBytes, []⟩
      enough small room
    exact .inl ⟨after, _, returned, done, printed.holds, Nat.eq_sub_of_add_eq printed.outputBytes,
      Nat.eq_sub_of_add_eq printed.inputBytes⟩
  · obtain ⟨after, failed, _⟩ := follows.follows.fails rfl inside ends (Nat.not_le.mp room)
    exact .inr ⟨after, failed, yields.fails _
      enough small (Nat.not_le.mp room)⟩

theorem printMessage_mirrors_sample :
    ∃ after done,
      printMessage .bits64 sumDigest noFormats (fun _ => none) ⟨blank, 16, 9⟩ 1 sampleType
        ⟨blank, 0, 100, 16, 9⟩ = .returned after ∧
      QueueTypes.printMessage sumDigest (valueText noFormats) (fun _ => none) blank 1 sampleType 16
        ⟨[], 100, 9, []⟩ = some done ∧
      Mirrors 0 after done := by
  refine (printMessage_mirrors sampleType_resolves (by decide) (by decide)
    ⟨by decide, by decide⟩ (by decide)).resolve_right ?_
  rintro ⟨after, failed, _⟩
  cases failed

end Miranda.Printing
