import Miranda.LogFile.Accessor
import Miranda.QueueTypes.MessageType

/-!
# The loop of the binary log writer

The writer process takes log messages one at a time and appends them to the log
file. A struct message is preceded by the definitions of its type and of all
types nested in it, unless they were written before; which were is forgotten when
the log enters a new block of seekable pages.

A message keeps the limits of the buffers it came in as fields. `handleMessage`
is one pass of the loop and fails where the source dies: on a failed check, on an
unknown type, or on a type that contains itself, which no cache built in the order
of `type_cache::Add` has. The queue the messages come from, sleeping and the names
of files are not modelled. The decoding of payloads by the log displayer stands at
the end of the module; printing is left out.
-/

namespace Miranda.LogFile

open Bytes QueueTypes

/-- `LOG_MESSAGE_LEN`. -/
def logMessageLen : Nat := 400

/-- `LOG_MESSAGE_NAME_LEN`. -/
def logMessageNameLen : Nat := 100

/-- The part of a `LogMessage` that depends on its type. The struct and matrix
buffers hold the message string followed by the serialized data. -/
inductive LogMessageBody where
  | kString (message : List UInt8)
  | kStruct (typeId : TypeId) (string serialized : List UInt8)
  | kMatrix (type : TypeId) (rows cols : BitVec 32) (string data : List UInt8)
  deriving DecidableEq, Repr

namespace LogMessageBody

/-- `message_length`: the data without the message string. -/
def messageLength : LogMessageBody → Nat
  | kString message => message.length
  | kStruct _ _ serialized => serialized.length
  | kMatrix _ _ _ _ data => data.length

/-- How many bytes of its buffer the body uses. -/
def used : LogMessageBody → Nat
  | kString message => message.length
  | kStruct _ string serialized => string.length + serialized.length
  | kMatrix _ _ _ string data => string.length + data.length

end LogMessageBody

/-- `LogMessage`. -/
structure LogMessage where
  seconds : BitVec 32
  nseconds : BitVec 32
  source : BitVec 32
  sequence : BitVec 16
  level : BitVec 8
  name : List UInt8
  body : LogMessageBody
  nameFits : name.length ≤ logMessageNameLen
  bodyFits : body.used ≤ logMessageLen
  deriving DecidableEq

namespace LogMessage

/-- `raw_output_length`. -/
def rawOutputLength (msg : LogMessage) : Nat :=
  headerSize + msg.name.length + msg.body.messageLength

/-- `output_length`. -/
def outputLength (msg : LogMessage) : Nat :=
  match msg.body with
  | .kString _ => msg.rawOutputLength
  | .kStruct _ string _ => msg.rawOutputLength + (4 + 4 + string.length)
  | .kMatrix _ _ _ string _ => msg.rawOutputLength + (4 + 4 + 2 + 2 + string.length)

/-- The record type and the bytes after the name. -/
def payload (msg : LogMessage) : MessageKind × List UInt8 :=
  match msg.body with
  | .kString message => (.kString, message)
  | .kStruct typeId string serialized =>
    (.kStruct, littleEndian 4 typeId.toNat ++ littleEndian 4 string.length ++
      (string ++ serialized))
  | .kMatrix type rows cols string data =>
    (.kMatrix, littleEndian 4 type.toNat ++ littleEndian 4 string.length ++
      littleEndian 2 (rows.setWidth 16).toNat ++ littleEndian 2 (cols.setWidth 16).toNat ++
      (string ++ data))

/-- What the loop fills in for a message. -/
def record (msg : LogMessage) : Record where
  timeSec := msg.seconds
  timeNsec := msg.nseconds
  source := msg.source
  sequence := msg.sequence
  kind := msg.payload.1
  level := msg.level
  name := msg.name
  message := msg.payload.2

/-- `CHECK_EQ(msg->message_length, Sizeof(type) * rows * cols)`, in unsigned int. -/
def matrixSizeAgrees (msg : LogMessage) : Bool :=
  match msg.body with
  | .kMatrix type rows cols _ data =>
    data.length == (sizeof type * (rows.setWidth 16).setWidth 32 *
      (cols.setWidth 16).setWidth 32).toNat
  | _ => true

end LogMessage

/-- Where the writer process dies. -/
inductive Fatal where
  | cookieAhead
  | unknownType
  | endlessType
  | matrixNotPrimitive
  | matrixSize
  | lengthsDiffer
  deriving DecidableEq, Repr

/-- What the writer process was started with. -/
structure WriterProcess where
  sizeT : SizeT
  types : TypeCache
  pid : BitVec 32

/-- The variables of the loop. -/
structure LoopState where
  writer : LogFileWriter
  writtenTypeIds : List TypeId
  clearTypeIdsCookie : Nat

/-- The loop before its first message. -/
def LoopState.start : LoopState :=
  { writer := LogFileWriter.create, writtenTypeIds := [], clearTypeIdsCookie := 0 }

namespace WriterProcess

variable (process : WriterProcess)

/-- The `FATAL` log level, which type records carry. -/
def fatalLevel : BitVec 8 := 4

/-- The record of a serialized type. -/
def typeRecord (serialized : List UInt8) : Record where
  timeSec := 0
  timeNsec := 0
  source := process.pid
  sequence := 0
  kind := .kStructType
  level := fatalLevel
  name := []
  message := serialized

/-- Write a record of a size with `GetWritePosition` and set its marker. -/
def put (writer : LogFileWriter) (size : Nat) (record : Record) : LogFileWriter :=
  let position := writer.getWritePosition process.sizeT size
  position.2.publish position.1 record

/-- The buffer of `CheckTypeWritten`. -/
def typeBufferSize : Nat := 1024

/-- The end of `CheckTypeWritten`: serialize a type and write it, unless it does
not fit the buffer. -/
def writeType (state : LoopState) (typeId : TypeId) (type : MessageType) : LoopState :=
  match type.serialize blank typeBufferSize with
  | none => state
  | some (buffer, size) =>
    { state with
      writer := process.put state.writer (headerSize + size) (process.typeRecord (load buffer 0 size))
      writtenTypeIds := state.writtenTypeIds ++ [typeId] }

/-- `CheckTypeWritten`, with a bound on how deep types are nested. -/
def checkTypeWritten : (depth : Nat) → TypeId → LoopState → Except Fatal LoopState
  | 0, _, _ => .error .endlessType
  | depth + 1, typeId, state =>
    if typeId ∈ state.writtenTypeIds then .ok state
    else if isPrimitive typeId then .ok state
    else
      match process.types.get typeId with
      | none => .error .unknownType
      | some type =>
        match type.fields.foldlM (fun state field => checkTypeWritten depth field.type state)
            state with
        | .error fatal => .error fatal
        | .ok state => .ok (process.writeType state typeId type)

/-- No chain of nested types is longer than the number of types. -/
def typeDepth : Nat := process.types.types.length + 1

/-- What the loop does before it asks for the write position. -/
def prepare (state : LoopState) (msg : LogMessage) : Except Fatal LoopState :=
  match msg.body with
  | .kString _ => .ok state
  | .kStruct typeId _ _ =>
    match state.writer.shouldClearSeekableData state.clearTypeIdsCookie msg.outputLength with
    | none => .error .cookieAhead
    | some (true, cookie) =>
      process.checkTypeWritten process.typeDepth typeId
        { writer := state.writer.forceNewPage, writtenTypeIds := [], clearTypeIdsCookie := cookie }
    | some (false, cookie) =>
      process.checkTypeWritten process.typeDepth typeId
        { state with clearTypeIdsCookie := cookie }
  | .kMatrix type _ _ _ _ => if isPrimitive type then .ok state else .error .matrixNotPrimitive

/-- One pass of the loop of `BinaryLogReaderMain`. -/
def handleMessage (state : LoopState) (msg : LogMessage) : Except Fatal LoopState :=
  match process.prepare state msg with
  | .error fatal => .error fatal
  | .ok state =>
    if ¬msg.matrixSizeAgrees then .error .matrixSize
    else if msg.record.message.length - msg.body.messageLength ≠
        msg.outputLength - msg.rawOutputLength then .error .lengthsDiffer
    else .ok { state with writer := process.put state.writer msg.outputLength msg.record }

/-- The loop over any number of messages. -/
def handleMessages (state : LoopState) (messages : List LogMessage) : Except Fatal LoopState :=
  messages.foldlM process.handleMessage state

end WriterProcess

/-- What the log displayer takes out of a record's payload. -/
inductive Displayed where
  | string (message : List UInt8)
  | struct (typeId : TypeId) (string serialized : List UInt8)
  | matrix (type : TypeId) (rows cols : BitVec 16) (string data : List UInt8)
  deriving DecidableEq, Repr

/-- The payload decoding of the log displayer, with none where it dies: type
records do not get there, and a matrix has to have the size its header gives. -/
def display (record : Record) : Option Displayed :=
  match record.kind with
  | .kString => some (.string record.message)
  | .kStruct =>
    let typeId := BitVec.ofNat 32 (fromLittleEndian (record.message.take 4))
    let position := record.message.drop 4
    let stringLength := fromLittleEndian (position.take 4)
    let position := position.drop 4
    some (.struct typeId (position.take stringLength) (position.drop stringLength))
  | .kMatrix =>
    let type := BitVec.ofNat 32 (fromLittleEndian (record.message.take 4))
    let position := record.message.drop 4
    let stringLength := fromLittleEndian (position.take 4)
    let position := position.drop 4
    let rows := BitVec.ofNat 16 (fromLittleEndian (position.take 2))
    let position := position.drop 2
    let cols := BitVec.ofNat 16 (fromLittleEndian (position.take 2))
    let position := position.drop 2
    let data := position.drop stringLength
    if data.length == (sizeof type * rows.setWidth 32 * cols.setWidth 32).toNat then
      some (.matrix type rows cols (position.take stringLength) data)
    else none
  | .kStructType => none

/-- What the displayer should find for a message. The dimensions of a matrix are
the sixteen-bit numbers the writer put in. -/
def LogMessage.displayed (msg : LogMessage) : Displayed :=
  match msg.body with
  | .kString message => .string message
  | .kStruct typeId string serialized => .struct typeId string serialized
  | .kMatrix type rows cols string data =>
    .matrix type (rows.setWidth 16) (cols.setWidth 16) string data

namespace LogMessage

variable (msg : LogMessage)

/-- The size computed for the write position is the size of the record. -/
theorem size_record : msg.record.size = msg.outputLength := by
  simp only [Record.size, record, payload, outputLength, rawOutputLength]
  cases msg.body with
  | kString message => rfl
  | kStruct typeId string serialized | kMatrix type rows cols string data =>
    simp [LogMessageBody.messageLength]
    omega

/-- A message makes a record that any page has room for. -/
theorem outputLength_le : msg.outputLength ≤ 544 := by
  have name := msg.nameFits
  have body := msg.bodyFits
  simp only [outputLength, rawOutputLength, headerSize, logMessageNameLen, logMessageLen] at *
  cases isBody : msg.body <;>
    simp only [isBody, LogMessageBody.used, LogMessageBody.messageLength] at body ⊢ <;> omega

/-- The two ways to count the bytes that are added to a message never differ. -/
theorem lengths_agree : msg.record.message.length - msg.body.messageLength =
    msg.outputLength - msg.rawOutputLength := by
  have same := msg.size_record
  simp only [Record.size, rawOutputLength] at same ⊢
  have name : msg.record.name = msg.name := rfl
  rw [name] at same
  omega

/-- The displayer recovers a string, a struct or a matrix whose size was checked. -/
theorem display_record (checked : msg.matrixSizeAgrees = true) :
    display msg.record = some msg.displayed := by
  have body := msg.bodyFits
  have word : ∀ length ≤ logMessageLen, fromLittleEndian (littleEndian 4 length) = length := by
    intro length small
    apply fromLittleEndian_littleEndian
    simp only [logMessageLen] at small
    omega
  cases isBody : msg.body with
  | kString message => simp [display, record, payload, displayed, isBody]
  | kStruct typeId string serialized =>
    simp only [isBody, LogMessageBody.used] at body
    have id := ofNat_fromLittleEndian 4 typeId (by decide)
    have length := word string.length (by omega)
    simp [display, record, payload, displayed, isBody, List.append_assoc, id, length]
  | kMatrix type rows cols string data =>
    simp only [isBody, LogMessageBody.used] at body
    have id := ofNat_fromLittleEndian 4 type (by decide)
    have length := word string.length (by omega)
    simp only [matrixSizeAgrees, isBody] at checked
    simp only [display, record, payload, displayed, isBody, List.append_assoc]
    generalize rows.setWidth 16 = shortRows at *
    generalize cols.setWidth 16 = shortCols at *
    have rowsBack := ofNat_fromLittleEndian 2 shortRows (by decide)
    have colsBack := ofNat_fromLittleEndian 2 shortCols (by decide)
    simpa [id, length, rowsBack, colsBack] using checked

end LogMessage

end Miranda.LogFile
