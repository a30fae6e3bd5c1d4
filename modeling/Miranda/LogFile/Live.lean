import Miranda.Lib.Runs
import Miranda.LogFile.Layout

/-!
# A writer and a reader on one log file

While the writer appends to a log another process may follow it. The two share
the bytes of the file and nothing else, so every access of either is one step
here, over one sequentially consistent image. The writer grows the file, marks the
end of the old page and goes on at the start of the new one; it stores the fields
and the payload of a record one at a time and sets the marker last. The reader
makes the accesses of `ReadNextMessage`, in its order: every mention of the marker
is a load of its own.

A writer step may begin any record that fits the current page and may turn any
page that is not empty, which is more than the loop does. Returning from the
futex, successfully or interrupted, may happen at any time. The value that
`message_size` has while a payload is being added up is not kept. A reader that
fails stays in its failed state.
-/

namespace Miranda.LogFile

open Bytes Paged Runs

/-- The stores of a record but for its marker, in order. -/
def recordStores (address : Nat) (record : Record) : List (Nat × List UInt8) :=
  [(address + 16, littleEndian 4 record.name.length),
    (address + 20, littleEndian 4 record.message.length),
    (address + 12, littleEndian 4 record.source.toNat),
    (address + 28, littleEndian 1 record.level.toNat),
    (address + 4, littleEndian 4 record.timeSec.toNat),
    (address + 8, littleEndian 4 record.timeNsec.toNat),
    (address + 24, littleEndian 2 record.sequence.toNat),
    (address + headerSize, record.name),
    (address + headerSize + record.name.length, record.message),
    (address + 26, littleEndian 2 record.kind.code)]

/-- Make a number of stores. -/
def storeAll (image : Image) (parts : List (Nat × List UInt8)) : Image :=
  parts.foldl (fun image part => store image part.1 part.2) image

inductive WriterPhase where
  | idle
  | grown
  | storing (address : Nat) (record : Record) (parts : List (Nat × List UInt8))
  deriving DecidableEq

/-- Where the reader is in `ReadNextMessage`; the flag is its argument `wait`. -/
inductive ReaderPhase where
  | idle
  | waiting
  | testingEnd (wait : Bool)
  | turning (wait : Bool)
  | looping (wait : Bool)
  | testingNull
  | sizing
  | sizingMessage (nameSize : Nat)
  | corrupt
  | unreadable
  deriving DecidableEq

/-- The file with its length, and both sides. What the reader returned is kept as
the record found at the returned address. -/
structure LiveLog where
  writer : LogFileWriter
  pages : Nat
  writing : WriterPhase
  reader : LogFileReader
  reading : ReaderPhase
  returned : List (Option Record)

/-- A new file and a new reader. -/
def LiveLog.start : LiveLog :=
  { writer := LogFileWriter.create
    pages := 1
    writing := .idle
    reader := LogFileReader.atStart
    reading := .idle
    returned := [] }

inductive LiveEvent where
  | grow
  | endPage
  | begin (record : Record)
  | storePart
  | publish
  | call (wait : Bool)
  | waited (interrupted : Bool)
  | testEnd
  | mapNextPage
  | testLoop
  | testNull
  | loadNameSize
  | loadMessageSize
  deriving DecidableEq

namespace LiveLog

/-- The marker the reader looks at. -/
def readerMarker (log : LiveLog) : Nat := marker log.writer.image log.reader.place

/-- One access of the writer, or none where it is not its turn to make it. -/
def writerStep (sizeT : SizeT) (log : LiveLog) : LiveEvent → Option LiveLog
  | .grow =>
    match log.writing with
    | .idle =>
      if 0 < log.writer.position then
        some { log with pages := log.writer.pages + 1, writing := .grown }
      else none
    | _ => none
  | .endPage =>
    match log.writing with
    | .grown => some { log with writer := log.writer.forceNewPage, writing := .idle }
    | _ => none
  | .begin record =>
    match log.writing with
    | .idle =>
      if log.writer.needNewPageFor record.size then none
      else
        some { log with
          writer := { log.writer with
            position := incrementPosition sizeT log.writer.position record.size }
          writing := .storing log.writer.place record (recordStores log.writer.place record) }
    | _ => none
  | .storePart =>
    match log.writing with
    | .storing address record (part :: rest) =>
      some { log with
        writer := { log.writer with image := store log.writer.image part.1 part.2 }
        writing := .storing address record rest }
    | _ => none
  | .publish =>
    match log.writing with
    | .storing address record [] =>
      some { log with
        writer := { log.writer with
          image := setMarker log.writer.image address 1
          published := log.writer.published ++ [(address, record)] }
        writing := .idle }
    | _ => none
  | _ => none

/-- One access of the reader, or none where it is not its turn to make it. -/
def readerStep (sizeT : SizeT) (log : LiveLog) : LiveEvent → Option LiveLog
  | .call wait =>
    match log.reading with
    | .idle => some { log with reading := if wait then .waiting else .testingEnd false }
    | _ => none
  | .waited interrupted =>
    match log.reading with
    | .waiting => some { log with reading := if interrupted then .looping true else .testingEnd true }
    | _ => none
  | .testEnd =>
    match log.reading with
    | .testingEnd wait =>
      some { log with reading := if log.readerMarker = 2 then .turning wait else .looping wait }
    | _ => none
  | .mapNextPage =>
    match log.reading with
    | .turning wait =>
      some { log with
        reader := log.reader.nextPage
        reading := if log.reader.nextPage.page < log.pages then .looping wait else .unreadable }
    | _ => none
  | .testLoop =>
    match log.reading with
    | .looping wait =>
      some { log with reading := if wait ∧ log.readerMarker = 0 then .waiting else .testingNull }
    | _ => none
  | .testNull =>
    match log.reading with
    | .testingNull => some { log with reading := if log.readerMarker = 0 then .idle else .sizing }
    | _ => none
  | .loadNameSize =>
    match log.reading with
    | .sizing =>
      some { log with reading := .sizingMessage (nameSize log.writer.image log.reader.place) }
    | _ => none
  | .loadMessageSize =>
    match log.reading with
    | .sizingMessage nameSize =>
      let position := log.reader.advanced sizeT nameSize
        (messageSize log.writer.image log.reader.place)
      if kPageSize ≤ position then some { log with reading := .corrupt }
      else
        some { log with
          reader := { log.reader with position := position }
          reading := .idle
          returned := log.returned ++ [loadRecord log.writer.image log.reader.place] }
    | _ => none
  | _ => none

/-- One access of either side, as a function. -/
def step (sizeT : SizeT) (log : LiveLog) (event : LiveEvent) : Option LiveLog :=
  (log.writerStep sizeT event).or (log.readerStep sizeT event)

end LiveLog

/-- One access of either side. -/
def LiveStep (sizeT : SizeT) (before : LiveLog) (event : LiveEvent) (after : LiveLog) : Prop :=
  before.writerStep sizeT event = some after ∨ before.readerStep sizeT event = some after

theorem LiveStep.of_step {sizeT : SizeT} {log after : LiveLog} {event : LiveEvent}
    (taken : log.step sizeT event = some after) : LiveStep sizeT log event after := by
  unfold LiveLog.step at taken
  cases written : log.writerStep sizeT event with
  | some next =>
    rw [written] at taken
    exact .inl (written.trans taken)
  | none =>
    rw [written] at taken
    exact .inr taken

/-- Storing the parts is storing the record. -/
theorem storeRecord_eq (image : Image) (address : Nat) (record : Record) :
    storeRecord image address record = storeAll image (recordStores address record) := rfl

variable {address : Nat} {record : Record}

/-- All parts lie between the marker and the end of the record. -/
theorem recordStores_inside {part : Nat × List UInt8} (member : part ∈ recordStores address record) :
    address + 4 ≤ part.1 ∧ part.1 + part.2.length ≤ address + record.size := by
  simp only [recordStores, List.mem_cons, List.not_mem_nil, or_false] at member
  simp only [Record.size, headerSize] at *
  rcases member with rfl | rfl | rfl | rfl | rfl | rfl | rfl | rfl | rfl | rfl <;>
    simp only [length_littleEndian] <;> omega

/-- Some of the parts change nothing outside that range. -/
theorem storeAll_agree (parts : List (Nat × List UInt8))
    (inside : ∀ part ∈ parts, part ∈ recordStores address record) (image : Image)
    {place length : Nat} (disjoint : place + length ≤ address + 4 ∨ address + record.size ≤ place) :
    Agree (storeAll image parts) image place length := by
  induction parts generalizing image with
  | nil => exact fun _ _ => rfl
  | cons part rest ih =>
    have bounds := recordStores_inside (inside part List.mem_cons_self)
    have later := ih (fun other member => inside other (List.mem_cons_of_mem _ member))
      (store image part.1 part.2)
    exact later.trans (store_agree (by omega))

section Uninterrupted

variable {sizeT : SizeT} {initial log : LiveLog} {events : List LiveEvent}

/-- The parts of a record are stored one after another. -/
theorem storeParts_uninterrupted (parts : List (Nat × List UInt8))
    (run : Run (LiveStep sizeT) initial events log)
    (storing : log.writing = .storing address record parts) :
    ∃ more, Run (LiveStep sizeT) initial more { log with
      writer := { log.writer with image := storeAll log.writer.image parts }
      writing := .storing address record [] } := by
  induction parts generalizing log events with
  | nil => exact ⟨events, by rw [← storing]; exact run⟩
  | cons part rest ih =>
    have stored : log.writerStep sizeT .storePart = some { log with
        writer := { log.writer with image := store log.writer.image part.1 part.2 }
        writing := .storing address record rest } := by
      simp [LiveLog.writerStep, storing]
    exact ih (run.snoc (.inl stored)) rfl

/-- A record written without interruption is written as `GetWritePosition` and
`publish` write it. -/
theorem write_uninterrupted (idle : log.writing = .idle)
    (room : log.writer.needNewPageFor record.size = false) :
    ∃ events, Run (LiveStep sizeT) log events { log with
      writer := (log.writer.getWritePosition sizeT record.size).2.publish
        (log.writer.getWritePosition sizeT record.size).1 record } := by
  have begun : log.writerStep sizeT (.begin record) = some { log with
      writer := { log.writer with
        position := incrementPosition sizeT log.writer.position record.size }
      writing := .storing log.writer.place record (recordStores log.writer.place record) } := by
    simp [LiveLog.writerStep, idle, room]
  obtain ⟨events, stored⟩ := storeParts_uninterrupted _
    ((Run.nil log).snoc (.inl begun)) rfl
  refine ⟨events ++ [.publish], stored.snoc (.inl ?_)⟩
  simp [LiveLog.writerStep, LogFileWriter.getWritePosition, room, LogFileWriter.publish,
    storeRecord_eq, idle]

end Uninterrupted

end Miranda.LogFile
