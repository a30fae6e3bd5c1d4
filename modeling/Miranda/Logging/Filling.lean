import Miranda.Logging.Cork

/-!
# Logged strings

`FillInMessage` formats a text into a log message that goes to the queue of the log writer, and
stores how many bytes of it there are. The writer copies that many bytes to the log file, and
`PrintMessage` and the log displayer print them with "%.*s", up to a zero byte.

The text is known as it is formatted and has no zero byte. A text that is cut is marked in the
buffer, but the length that is stored is the room there was for the text: it ends behind the
first byte of the mark.
-/

namespace Miranda.Logging

open Bytes Checked
open LogFile (SizeT LogMessage display logMessageLen)

/-- What `FillInMessageBase` takes from the context of the thread. -/
structure LogContext where
  source : BitVec 32
  name : List UInt8
  sequence : BitVec 16

/-- A `LogMessage` of type `kString` in shared memory. -/
structure StringMessage where
  seconds : BitVec 32
  nseconds : BitVec 32
  messageLength : Nat
  source : BitVec 32
  sequence : BitVec 16
  level : BitVec 8
  name : List UInt8
  message : Image

/-- `FillInMessageBase`, with the time now. -/
def fillInMessageBase (level : BitVec 8) (now : BitVec 32 × BitVec 32) (context : LogContext)
    (message : StringMessage) : LogContext × StringMessage :=
  ({ context with sequence := context.sequence + 1 },
    { message with
      level := level
      source := context.source
      name := context.name
      seconds := now.1
      nseconds := now.2
      sequence := context.sequence })

/-- `FillInMessage`, with no result where it dies. -/
def fillInMessage (sizeT : SizeT) (level : BitVec 8) (now : BitVec 32 × BitVec 32) (piece : Piece)
    (context : LogContext) (message : StringMessage) : Option (LogContext × StringMessage) :=
  let base := fillInMessageBase level now context message
  let formatted := executeFormat sizeT 0 logMessageLen piece.text
  formatted.2.map fun length =>
    (base.1, { base.2 with
      messageLength := length
      message := writeAll base.2.message formatted.1 })

/-- The first `message_length` bytes of `message`. -/
def StringMessage.text (message : StringMessage) : List UInt8 :=
  load message.message 0 message.messageLength

/-- What "%.*s" prints of some bytes. -/
def printString (bytes : List UInt8) : List UInt8 := bytes.takeWhile (· ≠ 0)

/-- The text is shorter than what a message has room for besides the mark. -/
def Fits (text : List UInt8) : Prop := text.length < logMessageLen - continued.length

/-- A message has the text, or the start of the text and the mark, and it is displayed so. -/
structure KeepsText (text : List UInt8) (message : StringMessage) : Prop where
  whole : Fits text → message.text = text
  cut : ¬ Fits text → ∃ kept ≤ text.length, message.text = text.take kept ++ continued
  length : strlen message.message 0 logMessageLen = some message.messageLength
  displayed : ¬ Fits text → ∀ log : LogMessage, log.body = .kString message.text →
    ∃ shown, display log.record = some (.string shown) ∧ continued <:+ printString shown

section Filling

variable {sizeT : SizeT} {level : BitVec 8} {now : BitVec 32 × BitVec 32} {piece : Piece}
  {context after : LogContext} {message filled : StringMessage}

/-- The process dies of a text whose length is no `int`. -/
theorem fillInMessage_dies (long : intMax < piece.text.length) :
    fillInMessage sizeT level now piece context message = none := by
  have dies : executeFormat sizeT 0 logMessageLen _ =
      ([⟨0, piece.text.take _ ++ [0]⟩], none) :=
    executeFormat_dies (by decide) (by decide) long
  rw [fillInMessage, dies]
  rfl

/-- Every other text becomes a message. -/
theorem fillInMessage_returns (int : piece.text.length ≤ intMax) :
    ∃ after filled,
      fillInMessage sizeT level now piece context message = some (after, filled) := by
  have formats : ∃ writes length,
      executeFormat sizeT 0 logMessageLen piece.text = (writes, some length) := by
    by_cases fits : Fits piece.text
    · exact ⟨_, _, executeFormat_fits (by decide) fits⟩
    · exact ⟨_, _, executeFormat_cuts (by decide) (by decide) (Nat.not_lt.mp fits) int⟩
  obtain ⟨writes, length, formatted⟩ := formats
  rw [fillInMessage, formatted]
  exact ⟨_, _, rfl⟩

theorem length_kept (long : ¬ Fits piece.text) :
    (piece.text.take (logMessageLen - continued.length - 1)).length =
      logMessageLen - continued.length - 1 :=
  List.length_take_of_le (Nat.le_trans (Nat.sub_le _ 1) (Nat.not_lt.mp long))

variable (done : fillInMessage sizeT level now piece context message = some (after, filled))
include done

theorem filled_of_format {writes : List Write} {length : Nat}
    (formatted : executeFormat sizeT 0 (logMessageLen - continued.length + continued.length)
      piece.text = (writes, some length)) :
    filled.message = writeAll message.message writes ∧ filled.messageLength = length := by
  have room : executeFormat sizeT 0 logMessageLen _ = (writes, some length) := formatted
  rw [fillInMessage, room] at done
  cases done
  exact ⟨rfl, rfl⟩

/-- A text that fits is in the message with a zero byte behind it. -/
theorem fillInMessage_fits (fits : Fits piece.text) :
    Holds filled.message 0 (piece.text ++ [0]) ∧ filled.messageLength = piece.text.length := by
  obtain ⟨written, length⟩ := filled_of_format done (executeFormat_fits (by decide) fits)
  rw [written]
  exact ⟨holds_store _ 0 _, length⟩

/-- A text that fits is kept. -/
theorem keepsText_of_fits (fits : Fits piece.text) :
    KeepsText piece.text filled := by
  obtain ⟨holds, length⟩ := fillInMessage_fits done fits
  refine ⟨?_, absurd fits, ?_, absurd fits⟩
  · intro _
    rw [StringMessage.text, length]
    exact (holds_append.mp holds).1
  · rw [length]
    exact strlen_eq holds piece.nonzero (Nat.lt_of_lt_of_le fits (Nat.sub_le _ _))

variable (long : ¬ Fits piece.text) (int : piece.text.length ≤ intMax)
include long int

/-- A text that does not fit is cut and marked, and the length counts one byte of the mark. -/
theorem fillInMessage_cuts :
    Holds filled.message 0 (buffered piece.text ++ [0]) ∧
      filled.messageLength = logMessageLen - continued.length := by
  have cut := Nat.not_lt.mp long
  obtain ⟨written, length⟩ :=
    filled_of_format done (executeFormat_cuts (by decide) (by decide) cut int)
  refine ⟨?_, length⟩
  have kept := length_kept long
  have front := (holds_append.mp (holds_store message.message 0
    (piece.text.take (logMessageLen - continued.length - 1) ++ [0]))).1
  have whole := holds_extended front (continued ++ [0])
  rw [kept, ← List.append_assoc, ← buffered_of_le cut] at whole
  rw [written]
  exact whole

/-- Only the first dot of the mark is part of the message. -/
theorem text_of_cut :
    filled.text = piece.text.take (logMessageLen - continued.length - 1) ++ [46] := by
  obtain ⟨holds, length⟩ := fillInMessage_cuts done long int
  have cut := Nat.not_lt.mp long
  have kept := length_kept long
  have mark : buffered piece.text ++ [0] =
      piece.text.take (logMessageLen - continued.length - 1) ++ [46] ++ [46, 46, 10, 0] := by
    rw [buffered_of_le cut, List.append_assoc, List.append_assoc]
    rfl
  rw [mark] at holds
  have front := (holds_append.mp holds).1
  rw [Holds, List.length_append, kept] at front
  rw [StringMessage.text, length]
  exact front

/-- A text that is cut is not: the string in the message is longer than what is stored as its
length. -/
theorem not_keepsText_of_cut :
    ¬ KeepsText piece.text filled := by
  intro keeps
  obtain ⟨holds, length⟩ := fillInMessage_cuts done long int
  have found := strlen_eq holds (zero_notMem_buffered piece.nonzero) (length_buffered_lt _)
  rw [keeps.length, length, length_buffered_of_le (Nat.not_lt.mp long)] at found
  exact absurd found (by decide)

end Filling

/-- **A logged string keeps its text and the mark of a cut exactly if it is not cut.** A text
whose length is no `int` never becomes a message.

Proof: by cases on the length; of the mark of a cut only the first byte is kept. -/
theorem logged_text_kept_iff (sizeT : SizeT) (level : BitVec 8) (now : BitVec 32 × BitVec 32)
    (piece : Piece) (context : LogContext) (message : StringMessage) :
    (∀ after filled,
      fillInMessage sizeT level now piece context message = some (after, filled) →
        KeepsText piece.text filled) ↔
      piece.text.length < logMessageLen - continued.length ∨ intMax < piece.text.length := by
  by_cases int : piece.text.length ≤ intMax
  · rw [or_iff_left (Nat.not_lt.mpr int)]
    constructor
    · intro keeps
      obtain ⟨after, filled, done⟩ := fillInMessage_returns int
      apply Decidable.byContradiction
      intro long
      exact not_keepsText_of_cut done long int (keeps after filled done)
    · intro fits after filled done
      exact keepsText_of_fits done fits
  · refine iff_of_true ?_ (.inr (Nat.not_le.mp int))
    intro after filled done
    cases (fillInMessage_dies (Nat.not_le.mp int)).symm.trans done

/-- Of a text of 396 letters the message has 395 letters and one dot, while the mark is in the
buffer behind that. -/
theorem logged_text_loses_marker : ∃ after filled,
    fillInMessage .bits64 1 (0, 0) (letters 1 396).piece ⟨0, [], 0⟩ ⟨0, 0, 0, 0, 0, 0, [], blank⟩ =
        some (after, filled) ∧
      filled.text = List.replicate 395 97 ++ [46] ∧
      strlen filled.message 0 logMessageLen = some 399 ∧
      ¬ KeepsText (letters 1 396).piece.text filled := by
  have length : (letters 1 396).piece.text.length = 396 := List.length_replicate
  have int : (letters 1 396).piece.text.length ≤ intMax := by
    rw [length]
    decide
  have long : ¬ Fits (letters 1 396).piece.text := by
    rw [Fits, length]
    decide
  obtain ⟨after, filled, done⟩ := fillInMessage_returns int
  obtain ⟨holds, stored⟩ := fillInMessage_cuts done long int
  refine ⟨after, filled, done, ?_, ?_, not_keepsText_of_cut done long int⟩
  · rw [text_of_cut done long int]
    exact congrArg (· ++ [46]) (List.take_replicate)
  · rw [strlen_eq holds (zero_notMem_buffered (letters 1 396).piece.nonzero)
      (length_buffered_lt _), length_buffered_of_le (Nat.not_lt.mp long)]
    rfl

end Miranda.Logging
