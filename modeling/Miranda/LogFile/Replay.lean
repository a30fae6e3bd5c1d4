import Miranda.LogFile.RoundTrip
import Miranda.Timing.Arithmetic

/-!
# Replaying logged structs

`LOG_STRUCT` puts the file and the line in front of the message, and
`FillInMessageStructure` puts the text in front of the serialized struct. The log replayer
takes both apart again: it finds the message behind the second colon of the text, and the
struct behind the text. It calls the handler that was registered for the process and the
message.

Strings are lists of bytes; the texts that `LOG_STRUCT` is given are string literals, so they
have no null byte, and names of source files with a colon are excluded. A handler is
represented by its key and the arguments it is called with. The serialized struct is
whatever bytes the message serialized itself to. The arithmetic on `size_t` wraps around as
it does in the source, which also makes the result of an unsuccessful search a position.
-/

namespace Miranda.LogFile

open Bytes QueueTypes Timing List

/-- A `LOG_STRUCT` call, with what `FillInMessageBase` finds in the context of the thread. -/
structure StructLog where
  level : BitVec 8
  name : List UInt8
  source : BitVec 32
  sequence : BitVec 16
  time : Time
  file : List UInt8
  line : Nat
  message : List UInt8
  typeId : TypeId
  serialized : List UInt8
  nameFits : name.length ≤ logMessageNameLen
  timeValid : time.Valid
  fileWithoutColon : 58 ∉ file
  terminated : 0 ∉ file ∧ 0 ∉ message

/-- `STRINGIFY(__LINE__)`. -/
def stringify (line : Nat) : List UInt8 := (Nat.toDigits 10 line).map fun digit => digit.toUInt8

/-- `LOG_SOURCENAME ": " STRINGIFY(__LINE__) ": " message`. -/
def StructLog.text (log : StructLog) : List UInt8 :=
  log.file ++ [58, 32] ++ stringify log.line ++ [58, 32] ++ log.message

/-- `sizeof(size_t)`. -/
def SizeT.bytes : SizeT → Nat
  | .bits32 => 4
  | .bits64 => 8

/-- `sizeof(message->structure.serialized)`. The `type` in its declaration is the one-byte type
of the log message. -/
def serializedCapacity (sizeT : SizeT) : Nat := logMessageLen - 1 - sizeT.bytes

/-- `FillInMessageStructure`, with no result where it dies. -/
def fillInMessageStructure (sizeT : SizeT) (log : StructLog) : Option LogMessage :=
  if fits : log.text.length + log.serialized.length ≤ serializedCapacity sizeT then
    some
      { seconds := log.time.sec.toBitVec
        nseconds := log.time.nsec.toBitVec
        source := log.source
        sequence := log.sequence
        level := log.level
        name := log.name
        body := .kStruct log.typeId log.text log.serialized
        nameFits := log.nameFits
        bodyFits := Nat.le_trans fits (Nat.le_trans (Nat.sub_le _ _) (Nat.sub_le _ _)) }
  else none

/-! ## The replayer -/

/-- `LogReplayer::Key`. -/
structure Key where
  process : List UInt8
  message : List UInt8
  deriving DecidableEq, Repr

/-- A call of `HandleStruct` of the handler for a key. -/
structure HandlerCall where
  key : Key
  time : Time
  typeId : TypeId
  data : List UInt8
  deriving DecidableEq, Repr

/-- `find_first_of(':', start)`, which is `npos` if there is none. -/
def findColon (sizeT : SizeT) (text : List UInt8) (start : Nat) : Nat :=
  match (text.drop start).idxOf? 58 with
  | some index => start + index
  | none => sizeT.modulus - 1

/-- The position of the message in the text. -/
def splitIndex (sizeT : SizeT) (text : List UInt8) : Nat :=
  (findColon sizeT text ((findColon sizeT text 0 + 2) % sizeT.modulus) + 2) % sizeT.modulus

/-- `ProcessMessage` for a record: the call it makes, if any, and no result where it dies. -/
def handleRecord (sizeT : SizeT) (handlers : List Key) (record : Record) :
    Option (Option HandlerCall) :=
  if record.kind ≠ .kStruct then some none
  else
    let typeId := BitVec.ofNat 32 (fromLittleEndian (record.message.take 4))
    let position := record.message.drop 4
    let messageLength := fromLittleEndian (position.take 4)
    let position := position.drop 4
    let text := position.take messageLength
    let position := position.drop messageLength
    if text.length < splitIndex sizeT text then none
    else
      let key : Key := ⟨record.name, text.drop (splitIndex sizeT text)⟩
      if key ∈ handlers then
        let dataSize := (record.message.length + sizeT.modulus -
          (4 + 4 + messageLength) % sizeT.modulus) % sizeT.modulus
        (Time.new (Int32.ofBitVec record.timeSec) (Int32.ofBitVec record.timeNsec)).map fun time =>
          some ⟨key, time, typeId, position.take dataSize⟩
      else some none

/-- How a call of `ProcessMessage` ends. -/
inductive Processed where
  | finished
  | message (reader : LogFileReader) (call : Option HandlerCall)
  | died
  deriving DecidableEq, Repr

/-- `LogReplayer::ProcessMessage`. A record of none of the four types is skipped. -/
def processMessage (sizeT : SizeT) (handlers : List Key) (file : PagedFile)
    (reader : LogFileReader) : Processed :=
  match reader.readNextMessage sizeT file with
  | .null _ => .finished
  | .corrupt => .died
  | .unreadable => .died
  | .message address following =>
    match loadRecord file.image address with
    | none => .message following none
    | some record =>
      match handleRecord sizeT handlers record with
      | none => .died
      | some call => .message following call

/-- Calling `ProcessMessage` until it returns true makes these calls of handlers. -/
inductive Replays (sizeT : SizeT) (handlers : List Key) (file : PagedFile) :
    LogFileReader → List HandlerCall → Prop where
  | finished {reader : LogFileReader}
      (processed : processMessage sizeT handlers file reader = .finished) :
      Replays sizeT handlers file reader []
  | message {reader following : LogFileReader} {call : Option HandlerCall}
      {calls : List HandlerCall}
      (processed : processMessage sizeT handlers file reader = .message following call)
      (rest : Replays sizeT handlers file following calls) :
      Replays sizeT handlers file reader (call.toList ++ calls)

variable {handlers : List Key} {reader : LogFileReader} {file : PagedFile} {sizeT : SizeT}
  {msg : LogMessage} {log : StructLog}

/-- What is replayed is determined by the file. -/
theorem Replays.unique {first second : List HandlerCall}
    (replays : Replays sizeT handlers file reader first)
    (again : Replays sizeT handlers file reader second) : first = second := by
  induction replays generalizing second with
  | finished processed =>
    cases again with
    | finished _ => rfl
    | message processedAgain _ => cases processed.symm.trans processedAgain
  | message processed _ ih =>
    cases again with
    | finished processedAgain => cases processed.symm.trans processedAgain
    | message processedAgain restAgain =>
      cases processed.symm.trans processedAgain
      rw [ih restAgain]

/-! ## Finding the message again -/

/-- A colon is found behind what has none. -/
theorem findColon_append (sizeT : SizeT) {plain : List UInt8} (without : 58 ∉ plain)
    (before rest : List UInt8) :
    findColon sizeT (before ++ (plain ++ 58 :: rest)) before.length =
      before.length + plain.length := by
  have first : (plain ++ 58 :: rest).idxOf? 58 = some plain.length := by
    induction plain with
    | nil => simp [idxOf?_cons]
    | cons byte others ih =>
      have different : (byte == 58) = false := by
        apply beq_false_of_ne
        rintro rfl
        exact without mem_cons_self
      have found := ih fun member => without (mem_cons_of_mem _ member)
      rw [cons_append, idxOf?_cons, different, found]
      rfl
  rw [findColon, drop_left, first]

/-- No digit is a colon. -/
theorem not_mem_stringify (line : Nat) : 58 ∉ stringify line := by
  intro member
  obtain ⟨digit, inside, same⟩ := mem_map.mp member
  have isDigit := Nat.isDigit_of_mem_toDigits (by decide) (by decide) inside
  simp only [Char.isDigit, Bool.and_eq_true, decide_eq_true_eq, ge_iff_le,
    UInt32.le_iff_toNat_le] at isDigit
  have value : digit.val.toNat % 2 ^ 8 = 58 := by
    exact congrArg UInt8.toNat same
  have most : digit.val.toNat ≤ 57 := isDigit.2
  omega

theorem SizeT.modulus_ge (sizeT : SizeT) : 2 ^ 32 ≤ sizeT.modulus := by
  cases sizeT <;> decide

namespace StructLog

variable (log : StructLog)

/-- What stands in front of the message. -/
def place : List UInt8 := log.file ++ [58, 32] ++ stringify log.line ++ [58, 32]

/-- The message is found behind the second colon. -/
theorem splitIndex_text (sizeT : SizeT) (fits : log.text.length < 2 ^ 32) :
    splitIndex sizeT log.text = log.place.length := by
  have large := sizeT.modulus_ge
  have total : log.text.length = log.place.length + log.message.length := by
    rw [text, place, length_append]
  have parts : log.place.length = log.file.length + 2 + (stringify log.line).length + 2 := by
    simp only [place, length_append, length_cons, length_nil]
  have first : findColon sizeT log.text 0 = log.file.length := by
    have found := findColon_append sizeT log.fileWithoutColon []
      (32 :: (stringify log.line ++ [58, 32] ++ log.message))
    simpa [text] using found
  have second : findColon sizeT log.text (log.file.length + 2) =
      log.file.length + 2 + (stringify log.line).length := by
    have found := findColon_append sizeT (not_mem_stringify log.line) (log.file ++ [58, 32])
      (32 :: log.message)
    simpa [text] using found
  have inside : (log.file.length + 2) % sizeT.modulus = log.file.length + 2 :=
    Nat.mod_eq_of_lt (by omega)
  rw [splitIndex, first, inside, second, ← parts]
  exact Nat.mod_eq_of_lt (by omega)

/-- The key a struct is logged under. -/
def key : Key := ⟨log.name, log.message⟩

/-- The call of the handler that is meant for a logged struct. -/
def call : HandlerCall := ⟨log.key, log.time, log.typeId, log.serialized⟩

end StructLog

/-- What `FillInMessageStructure` fills in. -/
theorem fillInMessageStructure_some (filled : fillInMessageStructure sizeT log = some msg) :
    log.text.length + log.serialized.length ≤ logMessageLen ∧
      msg.seconds = log.time.sec.toBitVec ∧ msg.nseconds = log.time.nsec.toBitVec ∧
      msg.name = log.name ∧ msg.body = .kStruct log.typeId log.text log.serialized := by
  unfold fillInMessageStructure at filled
  split at filled
  · next fits =>
    cases filled
    exact ⟨Nat.le_trans fits (Nat.le_trans (Nat.sub_le _ _) (Nat.sub_le _ _)), rfl, rfl, rfl, rfl⟩
  · cases filled

/-- The constructor accepts the parts of every valid time. -/
theorem new_parts {time : Time} (valid : time.Valid) :
    Time.new (Int32.ofBitVec time.sec.toBitVec) (Int32.ofBitVec time.nsec.toBitVec) = some time := by
  have inRange : ¬(time.nsec ≥ kNSecInSec ∨ time.nsec < 0) := by
    rintro (large | negative)
    · exact absurd valid.2 (Int32.not_lt.mpr large)
    · exact absurd valid.1 (Int32.not_le.mpr negative)
  rw [Int32.ofBitVec_toBitVec, Int32.ofBitVec_toBitVec, Time.new, if_neg inRange]

/-- The record of a struct is taken apart into what was logged. -/
theorem handleRecord_struct (sizeT logger : SizeT) (handlers : List Key)
    (filled : fillInMessageStructure logger log = some msg) :
    handleRecord sizeT handlers msg.record =
      some (if log.key ∈ handlers then some log.call else none) := by
  obtain ⟨fits, seconds, nseconds, name, body⟩ := fillInMessageStructure_some filled
  simp only [logMessageLen] at fits
  have large := sizeT.modulus_ge
  have split := log.splitIndex_text sizeT (by omega)
  have textParts : log.text = log.place ++ log.message := rfl
  have id := ofNat_fromLittleEndian 4 log.typeId (by decide)
  have length : fromLittleEndian _ = log.text.length :=
    fromLittleEndian_littleEndian 4 _ (by omega)
  have payload : msg.payload = (.kStruct, littleEndian 4 log.typeId.toNat ++
      (littleEndian 4 log.text.length ++ (log.text ++ log.serialized))) := by
    simp [LogMessage.payload, body]
  have dataSize : (4 + (4 + (log.text.length + log.serialized.length)) + sizeT.modulus -
      (4 + 4 + log.text.length) % sizeT.modulus) % sizeT.modulus = log.serialized.length := by
    rw [Nat.mod_eq_of_lt (show 4 + 4 + log.text.length < sizeT.modulus by omega),
      show 4 + (4 + (log.text.length + log.serialized.length)) + sizeT.modulus -
        (4 + 4 + log.text.length) = log.serialized.length + sizeT.modulus by omega,
      Nat.add_mod_right]
    exact Nat.mod_eq_of_lt (by omega)
  have inside : ¬log.text.length < log.place.length := by
    rw [textParts, length_append]
    omega
  have message : log.text.drop log.place.length = log.message := by
    rw [textParts, drop_left]
  simp only [handleRecord, LogMessage.record, payload, seconds, nseconds, name, id, length, split,
    message, dataSize, inside, new_parts log.timeValid, take_left', drop_left',
    length_littleEndian, length_append, StructLog.key, StructLog.call]
  rw [if_neg not_false, take_length, Option.map_some]
  exact (apply_ite some _ _ _).symm

/-- A record of another kind calls nothing. -/
theorem handleRecord_other (sizeT : SizeT) (handlers : List Key) {record : Record}
    (other : record.kind ≠ .kStruct) : handleRecord sizeT handlers record = some none :=
  if_pos other

/-! ## Logging and replaying -/

/-- What is logged: a struct, or something else that was put into the queue of messages. -/
inductive Entry where
  | struct (log : StructLog)
  | other (msg : LogMessage) (notStruct : msg.record.kind ≠ .kStruct)

namespace Entry

/-- The message the logger makes of an entry. -/
def message (logger : SizeT) : Entry → Option LogMessage
  | struct log => fillInMessageStructure logger log
  | other msg _ => some msg

def structLog : Entry → Option StructLog
  | struct log => some log
  | other _ _ => none

/-- The call that an entry is meant to make. -/
def expectedCall (handlers : List Key) (entry : Entry) : Option HandlerCall :=
  (entry.structLog.filter fun log => log.key ∈ handlers).map StructLog.call

/-- The replayer makes the call that was meant. -/
theorem handleRecord_message (sizeT logger : SizeT) (handlers : List Key) {entry : Entry}
    {msg : LogMessage} (filled : entry.message logger = some msg) :
    handleRecord sizeT handlers msg.record = some (entry.expectedCall handlers) := by
  cases entry with
  | struct log =>
    rw [handleRecord_struct sizeT logger handlers filled]
    by_cases registered : log.key ∈ handlers <;> simp [expectedCall, structLog, registered]
  | other own notStruct =>
    cases filled
    exact handleRecord_other sizeT handlers notStruct

/-- So it is for all entries, one after the other. -/
theorem handleRecord_messages (sizeT logger : SizeT) (handlers : List Key) {entries : List Entry}
    {messages : List LogMessage} (filled : entries.mapM (message logger) = some messages) :
    (messages.map LogMessage.record).map (handleRecord sizeT handlers) =
      entries.map fun entry => some (entry.expectedCall handlers) := by
  induction entries generalizing messages with
  | nil =>
    cases filled
    rfl
  | cons entry rest ih =>
    rw [mapM_cons] at filled
    obtain ⟨msg, first, filled⟩ := Option.bind_eq_some_iff.mp filled
    obtain ⟨others, later, same⟩ := Option.bind_eq_some_iff.mp filled
    cases same
    rw [map_cons, map_cons, ih later,
      handleRecord_message sizeT logger handlers first, map_cons]

end Entry

/-- The structs among the entries. -/
def structLogs (entries : List Entry) : List StructLog := entries.filterMap Entry.structLog

/-- The calls that the entries are meant to make. -/
def expectedCalls (handlers : List Key) (entries : List Entry) : List HandlerCall :=
  ((structLogs entries).filter fun log => log.key ∈ handlers).map StructLog.call

theorem filterMap_expectedCall (handlers : List Key) (entries : List Entry) :
    entries.filterMap (Entry.expectedCall handlers) = expectedCalls handlers entries := by
  rw [expectedCalls, structLogs, filter_filterMap, map_filterMap]
  rfl

/-- A registered handler is meant to be called for the structs logged under its key. -/
theorem filter_expectedCalls {key : Key} (registered : key ∈ handlers) (entries : List Entry) :
    (expectedCalls handlers entries).filter (fun call => call.key = key) =
      ((structLogs entries).filter fun log => log.key = key).map StructLog.call := by
  have both : ∀ log : StructLog, (decide (log.key = key) && decide (log.key ∈ handlers)) =
      decide (log.key = key) := by
    intro log
    by_cases same : log.key = key
    · simp [same, registered]
    · simp [same]
  rw [expectedCalls, filter_map, filter_filter]
  exact congrArg _ (filter_congr fun log _ => both log)

/-- The call that the replayer makes for a record. -/
def Record.replayed (sizeT : SizeT) (handlers : List Key) (record : Record) : Option HandlerCall :=
  (handleRecord sizeT handlers record).join

/-- Where no record makes the replayer die, it makes the calls of the records in order. -/
theorem ReadsAll.replays {records : List Record} (reads : ReadsAll sizeT file reader records)
    (handled : ∀ record ∈ records, (handleRecord sizeT handlers record).isSome) :
    Replays sizeT handlers file reader (records.filterMap (Record.replayed sizeT handlers)) := by
  induction reads with
  | done read =>
    apply Replays.finished
    rw [processMessage, read]
  | @next reader following address record records read loaded rest ih =>
    have later := ih fun other member =>
      handled other (mem_cons_of_mem _ member)
    obtain ⟨call, handles⟩ := Option.isSome_iff_exists.mp (handled record mem_cons_self)
    have processed : processMessage sizeT handlers file reader = .message following call := by
      simp only [processMessage, read, loaded, handles]
    have all := Replays.message processed later
    cases call <;> simpa [Record.replayed, handles] using all

section Written

variable {logger : SizeT} {entries : List Entry} {messages : List LogMessage}
  {records : List Record} (sizeT : SizeT) (handlers : List Key)
  (filled : entries.mapM (Entry.message logger) = some messages)
  (ofMessages : records.filter Record.ofMessage = messages.map LogMessage.record)

/-- The record of a type calls nothing. -/
theorem handleRecord_type {record : Record} (isType : record.ofMessage = false) :
    handleRecord sizeT handlers record = some none := by
  apply handleRecord_other
  intro isStruct
  rw [Record.ofMessage, isStruct] at isType
  cases isType

include filled ofMessages in
/-- No record of the log makes the replayer die. -/
theorem handleRecord_isSome {record : Record} (member : record ∈ records) :
    (handleRecord sizeT handlers record).isSome := by
  cases isMessage : record.ofMessage with
  | false =>
    rw [handleRecord_type sizeT handlers isMessage]
    rfl
  | true =>
    have written : record ∈ messages.map LogMessage.record := by
      rw [← ofMessages]
      exact List.mem_filter.mpr ⟨member, isMessage⟩
    have result := List.mem_map_of_mem (f := handleRecord sizeT handlers) written
    rw [Entry.handleRecord_messages sizeT logger handlers filled] at result
    obtain ⟨entry, _, same⟩ := List.mem_map.mp result
    rw [← same]
    rfl

include filled ofMessages in
/-- The records of the log make the calls that the entries are meant to make. -/
theorem filterMap_replayed :
    records.filterMap (Record.replayed sizeT handlers) = expectedCalls handlers entries := by
  have typesSilent : (records.filter Record.ofMessage).filterMap (Record.replayed sizeT handlers) =
      records.filterMap (Record.replayed sizeT handlers) := by
    rw [List.filterMap_filter]
    apply List.filterMap_congr
    intro record _
    cases isMessage : record.ofMessage with
    | false => simp [Record.replayed, handleRecord_type sizeT handlers isMessage]
    | true => rfl
  calc records.filterMap (Record.replayed sizeT handlers)
      = ((messages.map LogMessage.record).map (handleRecord sizeT handlers)).filterMap
          Option.join := by
        rw [← typesSilent, ofMessages, List.filterMap_map, List.filterMap_map, List.filterMap_map]
        rfl
    _ = entries.filterMap (Entry.expectedCall handlers) := by
        rw [Entry.handleRecord_messages sizeT logger handlers filled, List.filterMap_map]
        rfl
    _ = expectedCalls handlers entries := filterMap_expectedCall handlers entries

end Written

/-- Structs and other messages that are logged are written, and replaying the file calls the
registered handlers for the structs logged under their keys, in order and with what was
logged, and calls no other handler.

Proof: the file reads back as the records that were made (`handled_reads`), and taking a
record apart gives the call of its struct (`filterMap_replayed`). -/
theorem log_and_replay_agree (logger reader : SizeT) (process : WriterProcess)
    (sized : Sized process.types) (handlers : List Key) (entries : List Entry)
    (messages : List LogMessage)
    (filled : entries.mapM (Entry.message logger) = some messages)
    (acceptable : ∀ msg ∈ messages, process.Acceptable msg) :
    ∃ final, process.handleMessages LoopState.start messages = .ok final ∧
      (∀ calls, Replays reader handlers final.writer.toPagedFile LogFileReader.atStart calls ↔
        calls = expectedCalls handlers entries) ∧
      ∀ key ∈ handlers, (expectedCalls handlers entries).filter (fun call => call.key = key) =
        ((structLogs entries).filter fun log => log.key = key).map StructLog.call := by
  obtain ⟨final, handled⟩ :=
    WriterProcess.handleMessages_total sized messages start_running acceptable
  obtain ⟨_, reads, ofMessages, _⟩ := WriterProcess.handled_reads sized handled reader
  have replays := reads.replays fun record member =>
    handleRecord_isSome reader handlers filled ofMessages member
  rw [filterMap_replayed reader handlers filled ofMessages] at replays
  refine ⟨final, handled, fun calls => ⟨fun other => other.unique replays, ?_⟩,
    fun key registered => filter_expectedCalls registered entries⟩
  rintro rfl
  exact replays

theorem sampleName_fits : [(112 : UInt8), 113].length ≤ logMessageNameLen := by decide

theorem sampleText_fits : (LogMessageBody.kString [104, 105]).used ≤ logMessageLen := by decide

/-- A struct that is logged with a message. -/
def sampleStructLog (message : List UInt8) (terminated : 0 ∉ message) : StructLog where
  level := 1
  name := [112, 113]
  source := 5
  sequence := 6
  time := ⟨3, 4⟩
  file := [97, 46, 99, 99]
  line := 12
  message := message
  typeId := 0x00020008
  serialized := [0, 0, 0, 1, 0, 0, 0, 2]
  nameFits := sampleName_fits
  timeValid := by decide
  fileWithoutColon := by decide
  terminated := ⟨by decide, terminated⟩

def sampleEntries : List Entry :=
  [.struct (sampleStructLog [97, 58, 32, 98] (by decide)),
    .other (sampleMessage (.kString [104, 105]) sampleText_fits) (by decide),
    .struct (sampleStructLog [] (by decide))]

/-- What the logger makes of them. -/
def sampleLogged : List LogMessage :=
  [sampleMessage (.kStruct 0x00020008 [97, 46, 99, 99, 58, 32, 49, 50, 58, 32, 97, 58, 32, 98]
      [0, 0, 0, 1, 0, 0, 0, 2]) (by decide),
    sampleMessage (.kString [104, 105]) sampleText_fits,
    sampleMessage (.kStruct 0x00020008 [97, 46, 99, 99, 58, 32, 49, 50, 58, 32]
      [0, 0, 0, 1, 0, 0, 0, 2]) (by decide)]

theorem sampleLogged_acceptable : ∀ msg ∈ sampleLogged, sampleProcess.Acceptable msg := by
  simp only [sampleLogged, forall_mem_cons]
  exact ⟨.inr (by decide), trivial, .inr (by decide), by simp⟩

/-- The hypotheses hold together: structs with a colon in the message and with an empty
message are logged around a string, and the one with a handler is replayed. -/
theorem log_and_replay_agree_sample : ∃ final,
    sampleEntries.mapM (Entry.message .bits32) = some sampleLogged ∧
      sampleProcess.handleMessages LoopState.start sampleLogged = .ok final ∧
      Replays .bits64 [⟨[112, 113], [97, 58, 32, 98]⟩] final.writer.toPagedFile
        LogFileReader.atStart [(sampleStructLog [97, 58, 32, 98] (by decide)).call] := by
  have filled : sampleEntries.mapM (Entry.message .bits32) = some sampleLogged := by decide
  obtain ⟨final, handled, replays, _⟩ := log_and_replay_agree .bits32 .bits64 sampleProcess
    sampleTypes_sized _ sampleEntries sampleLogged filled
    sampleLogged_acceptable
  exact ⟨final, filled, handled, (replays _).mpr (by decide)⟩

end Miranda.LogFile
