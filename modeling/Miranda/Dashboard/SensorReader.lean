import Mathlib.Algebra.Group.Int.Defs
import Mathlib.Algebra.Group.Nat.Defs
import Miranda.Lib.Channel

/-!
# The sensor reader of the dashboard

The loop writes one request after another to an ELM327 adapter, reads what comes back line by
line (`Serial::Read` takes the next one) and publishes the values it finds. The adapter answers
a request with three lines: an echo, a data line and an empty line. A line carries, as a
history, the number of the request it answers.

Characters stand for bytes. What `new` returns is memory with any contents, except that
the block the command is put together in starts with a terminating zero. A function that
copies a string over the end of its block has no result. The conversions to miles,
revolutions and degrees are left open. `Reset`, timeouts and the output on the console
are not modelled, nor are lines too long for the buffer they are read into.
-/

namespace Miranda.Dashboard

open Channel

abbrev Text := List Char

/-- A line that came from the adapter, without its carriage return. -/
structure Line where
  text : Text
  request : Nat
  deriving DecidableEq

/-! ### Character buffers -/

/-- A buffer after a string was copied to its start. -/
def put (buffer text : Text) : Text := text ++ '\x00' :: buffer.drop (text.length + 1)

/-- The string that starts at an offset of a buffer. -/
def cString (buffer : Text) (offset : Nat) : Text :=
  (buffer.drop offset).takeWhile fun char => char ≠ '\x00'

/-- The string put into a buffer is found there, from any offset inside it on. -/
theorem cString_put {buffer text : Text} {offset : Nat} (ends : '\x00' ∉ text)
    (inside : offset ≤ text.length) : cString (put buffer text) offset = text.drop offset := by
  have keeps : ∀ char ∈ text.drop offset, decide (char ≠ '\x00') = true := by
    intro char member
    have other : char ≠ '\x00' := by
      rintro rfl
      exact ends (List.mem_of_mem_drop member)
    exact decide_eq_true other
  rw [cString, put, List.drop_append_of_le_length inside, List.takeWhile_append_of_pos keeps,
    List.takeWhile_cons_of_neg (by decide), List.append_nil]

/-! ### Hexadecimal data -/

/-- The loop that cuts out spaces. The character behind a space moves into its place
and is not looked at. -/
def cutSpaces : Text → Text
  | [] => []
  | [char] => if char = ' ' then [] else [char]
  | char :: next :: rest =>
    if char = ' ' then next :: cutSpaces rest else char :: cutSpaces (next :: rest)

def hexDigit (char : Char) : Option Nat :=
  if '0' ≤ char ∧ char ≤ '9' then some (char.toNat - '0'.toNat)
  else if 'a' ≤ char ∧ char ≤ 'f' then some (char.toNat - 'a'.toNat + 10)
  else if 'A' ≤ char ∧ char ≤ 'F' then some (char.toNat - 'A'.toNat + 10)
  else none

/-- The number that the leading digits stand for. -/
def hexValue (text : Text) : Nat :=
  ((text.map hexDigit).takeWhile Option.isSome).foldl (fun value digit => value * 16 + digit.getD 0) 0

/-- The mark of a hexadecimal number, which counts only with a digit behind it. -/
def dropHexMark : Text → Text
  | '0' :: mark :: digit :: rest =>
    if (mark = 'x' ∨ mark = 'X') ∧ (hexDigit digit).isSome then digit :: rest
    else '0' :: mark :: digit :: rest
  | text => text

/-- `isspace`. -/
def isSpace (char : Char) : Bool := char ∈ [' ', '\t', '\n', '\x0b', '\x0c', '\r']

/-- `strtol` to the base 16, with a `long` of 64 bits. -/
def strtol (text : Text) : Int :=
  match text.dropWhile isSpace with
  | '-' :: digits => max (-(hexValue (dropHexMark digits) : Int)) (-2 ^ 63)
  | '+' :: digits => min (hexValue (dropHexMark digits) : Int) (2 ^ 63 - 1)
  | digits => min (hexValue (dropHexMark digits) : Int) (2 ^ 63 - 1)

/-- What `new` allocates for every string. -/
def blockSize : Nat := 500

/-- `strcpy` into a block, which has to hold the string and its terminator. -/
def strcpy (block text : Text) : Option Text :=
  if text.length < blockSize then some (put block text) else none

/-- The string behind an identifier, without spaces, read as a number of 32 bits. -/
def hexNumber (response : Text) : Int := (strtol (cutSpaces (cString response 6))).bmod (2 ^ 32)

/-- `ProcessHexData`: the string is copied into a block and the copy is read. -/
def processHexData (fresh response : Text) : Option Int :=
  (strcpy fresh (cString response 0)).map hexNumber

/-- A string that fits its block is read as if it had not been copied. -/
theorem processHexData_put {fresh buffer text : Text} (ends : '\x00' ∉ text)
    (long : 6 ≤ text.length) (short : text.length < blockSize) :
    processHexData fresh (put buffer text) = some (hexNumber (put [] text)) := by
  have whole : cString (put buffer text) 0 = text := cString_put ends (Nat.zero_le _)
  have behind (block : Text) : cString (put block text) 6 = text.drop 6 := cString_put ends long
  rw [processHexData, whole, strcpy, if_pos short, Option.map_some, hexNumber, behind, hexNumber,
    behind]

/-- A longer one has no result. -/
theorem processHexData_overrun {fresh buffer text : Text} (ends : '\x00' ∉ text)
    (long : blockSize ≤ text.length) : processHexData fresh (put buffer text) = none := by
  have whole : cString (put buffer text) 0 = text := cString_put ends (Nat.zero_le _)
  rw [processHexData, whole, strcpy, if_neg (Nat.not_lt.mpr long), Option.map_none]

/-! ### Sensors -/

/-- A message on `sensors_queue`. -/
structure Sensors (ρ : Type) where
  rpm : ρ
  mph : ρ
  coolantTemp : ρ
  deriving DecidableEq

/-- The conversions from the raw data to the published values. -/
structure Units (ρ : Type) where
  rpm : Int → ρ
  mph : Int → ρ
  coolantTemp : Int → ρ
  zero : ρ

def kPidCodeRpm : Text := ['0', 'C']
def kPidCodeMph : Text := ['0', 'D']
def kPidCodeCoolantTemp : Text := ['0', '5']

/-- A value that was published: the request that was being made then, and the request
that the data came in answer to. -/
structure Publication where
  during : Nat
  source : Nat
  deriving DecidableEq

/-- The contents of the blocks allocated during one `SendPidCode`. -/
structure Blocks where
  response : Text
  hex : Text
  deriving DecidableEq

structure SensorReader (ρ : Type) where
  unread : List Line := []
  /-- The number of requests written so far. -/
  requests : Nat := 0
  /-- The static variables of `WriteDataToQueue`. -/
  last : Sensors ρ
  queue : List (Sensors ρ) := []
  sensorsQueue : Reader (Sensors ρ) := {}
  /-- History: every value published. -/
  published : List Publication := []
  /-- History: the number of unread lines after each `SendPidCode`. -/
  backlog : List Nat := []
  deriving DecidableEq

/-- The values with the one that the data is for replaced. -/
def Sensors.update {ρ : Type} (units : Units ρ) (last : Sensors ρ) (id : Text) (parsedData : Int) :
    Option (Sensors ρ) :=
  if id = kPidCodeRpm then some { last with rpm := units.rpm parsedData }
  else if id = kPidCodeMph then some { last with mph := units.mph parsedData }
  else if id = kPidCodeCoolantTemp then some { last with coolantTemp := units.coolantTemp parsedData }
  else none

namespace SensorReader

variable {ρ : Type}

/-- `sensors_queue.FetchLatest()`, and the static variables if it fetched a message. -/
def fetchLatest (reader : SensorReader ρ) : SensorReader ρ :=
  match reader.sensorsQueue.fetchLatest reader.queue with
  | none => reader
  | some sensorsQueue =>
    { reader with sensorsQueue, last := sensorsQueue.message.getD reader.last }

/-- `WriteDataToQueue` from its result of `ProcessHexData` on. The request the data
answers only goes into the history. -/
def writeParsedData (units : Units ρ) (data : Text) (parsedData : Int) (source : Nat)
    (reader : SensorReader ρ) : SensorReader ρ :=
  let id := (cString data 3).take 2
  let reader := reader.fetchLatest
  match reader.last.update units id parsedData with
  | none => reader
  | some last =>
    { reader with
      last
      queue := reader.queue ++ [last]
      published := reader.published ++ [⟨reader.requests - 1, source⟩] }

/-- `WriteDataToQueue`. -/
def writeDataToQueue (units : Units ρ) (fresh data : Text) (source : Nat)
    (reader : SensorReader ρ) : Option (SensorReader ρ) :=
  (processHexData fresh data).map fun parsedData =>
    reader.writeParsedData units data parsedData source

/-- `ProcessData`. It waits while there is no line to read. -/
def processData (units : Units ρ) (blocks : Blocks) (reader : SensorReader ρ) :
    Option (SensorReader ρ) :=
  match reader.unread with
  | [] => none
  | line :: unread =>
    let response := put blocks.response line.text
    if response.head? = some '>' then
      match unread with
      | [] => none
      | data :: unread =>
        writeDataToQueue units blocks.hex (put response data.text) data.request
          { reader with unread }
    else some { reader with unread }

end SensorReader

/-! ### The adapter -/

/-- The adapter as in the recorded transcript: what stands behind the identifier in the
data line of each answer. The line fits a block. -/
structure Adapter where
  payload : Nat → Text
  ends : ∀ request, '\x00' ∉ payload request
  short : ∀ request, (payload request).length + 6 < blockSize

/-- The data line of a positive answer. -/
def Adapter.dataLine (adapter : Adapter) (request : Nat) (pidCode : Text) : Text :=
  ['4', '1', ' '] ++ pidCode ++ ' ' :: adapter.payload request

/-- The lines that answer a request. -/
def Adapter.answer (adapter : Adapter) (request : Nat) (pidCode : Text) : List Line :=
  [⟨'>' :: '0' :: '1' :: pidCode, request⟩, ⟨adapter.dataLine request pidCode, request⟩,
    ⟨[], request⟩]

namespace SensorReader

variable {ρ : Type}

/-- `SendPidCode`: the request goes out, the adapter answers it, and `ProcessData`
reads. -/
def sendPidCode (units : Units ρ) (adapter : Adapter) (blocks : Blocks) (pidCode : Text)
    (reader : SensorReader ρ) : Option (SensorReader ρ) :=
  let reader : SensorReader ρ :=
    { reader with
      unread := reader.unread ++ adapter.answer reader.requests pidCode
      requests := reader.requests + 1 }
  (reader.processData units blocks).map fun reader =>
    { reader with backlog := reader.backlog ++ [reader.unread.length] }

/-- The code the loop sends as its request of the given number. -/
def pidCode (request : Nat) : Text :=
  if request % 3 = 0 then kPidCodeRpm
  else if request % 3 = 1 then kPidCodeMph
  else kPidCodeCoolantTemp

/-- One call in the loop of the constructor. Behind the last of an iteration the latest
values are fetched to be shown; this leaves the static variables alone. -/
def poll (units : Units ρ) (adapter : Adapter) (blocks : Nat → Blocks) (reader : SensorReader ρ) :
    Option (SensorReader ρ) :=
  (reader.sendPidCode units adapter (blocks reader.requests) (pidCode reader.requests)).map
    fun reader =>
      if reader.requests % 3 = 0 then
        { reader with
          sensorsQueue := (reader.sensorsQueue.fetchLatest reader.queue).getD reader.sensorsQueue }
      else reader

/-- The reader when the loop begins, with no unread lines. -/
def start (units : Units ρ) : SensorReader ρ where
  last := ⟨units.zero, units.zero, units.zero⟩

/-- The loop for a number of calls of `SendPidCode`. -/
def polls (units : Units ρ) (adapter : Adapter) (blocks : Nat → Blocks) :
    Nat → Option (SensorReader ρ)
  | 0 => some (start units)
  | calls + 1 => (polls units adapter blocks calls).bind (poll units adapter blocks)

end SensorReader

end Miranda.Dashboard
