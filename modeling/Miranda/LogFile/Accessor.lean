import Miranda.LogFile.Format

/-!
# Accessing a log file: the writer's and the reader's positions

Files grow by whole pages and both sides map one page at a time. The writer
always has the last page mapped; the reader has one page mapped and a position in
it. Both advance by the same position arithmetic, which is done in the machine's
`size_t` and always skips at least one byte after a record.

A log file is a byte image with a number of pages; the image is zero beyond what
was written, as `ftruncate` leaves it. Mapping and unmapping are the page numbers
here. The reader that falls back to `read(2)`, system call failures and futex
wake-ups are not modelled in this module, and `ReadNextMessage` is the
non-waiting call on a file nobody is changing.
-/

namespace Miranda.LogFile

open Bytes

/-- The width of `size_t`. -/
inductive SizeT where
  | bits32
  | bits64
  deriving DecidableEq, Repr

def SizeT.modulus : SizeT → Nat
  | .bits32 => 2 ^ 32
  | .bits64 => 2 ^ 64

/-- `IncrementPosition` with its `AlignPosition`. -/
def incrementPosition (sizeT : SizeT) (position size : Nat) : Nat :=
  let position := (position + size) % sizeT.modulus
  (position + (kAlignment - position % kAlignment)) % sizeT.modulus

/-- How far a record moves an aligned position. -/
def footprint (size : Nat) : Nat := size + (kAlignment - size % kAlignment)

theorem footprint_aligned (size : Nat) : footprint size % kAlignment = 0 := by
  simp only [footprint, kAlignment]
  omega

theorem size_lt_footprint (size : Nat) : size < footprint size := by
  simp only [footprint, kAlignment]
  omega

/-- Aligned positions advance by the footprint as long as nothing wraps. -/
theorem incrementPosition_eq (sizeT : SizeT) {position : Nat} (size : Nat)
    (aligned : position % kAlignment = 0) (small : position + size < 2 ^ 31) :
    incrementPosition sizeT position size = position + footprint size := by
  have enough : 2 ^ 32 ≤ sizeT.modulus := by cases sizeT <;> decide
  simp only [kAlignment] at aligned
  simp only [incrementPosition, footprint, kAlignment]
  rw [Nat.mod_eq_of_lt (show position + size < sizeT.modulus by omega)]
  rw [Nat.mod_eq_of_lt (by omega)]
  omega

/-- The bytes of a file and how many pages long it is. -/
structure PagedFile where
  image : Image
  pages : Nat

/-- The writer: the file, whose last page it has mapped, and its position there.
The records it has published, with their addresses, are a history the source
does not keep. -/
structure LogFileWriter extends PagedFile where
  position : Nat
  published : List (Nat × Record)

namespace LogFileWriter

/-- A writer over a new file has grown it by one page. -/
def create : LogFileWriter := { image := blank, pages := 1, position := 0, published := [] }

/-- The address `&current()[position()]`. -/
def place (writer : LogFileWriter) : Nat := (writer.pages - 1) * kPageSize + writer.position

/-- `NeedNewPageFor`. -/
def needNewPageFor (writer : LogFileWriter) (bytes : Nat) : Bool :=
  kPageSize < writer.position + bytes + (kAlignment - bytes % kAlignment) + futexSize

/-- `ForceNewPage`: grow the file, then mark the end of the old page. -/
def forceNewPage (writer : LogFileWriter) : LogFileWriter :=
  { writer with
    image := setMarker writer.image writer.place 2
    pages := writer.pages + 1
    position := 0 }

/-- `GetWritePosition`: the address to write to, and the advanced writer. -/
def getWritePosition (sizeT : SizeT) (writer : LogFileWriter) (messageSize : Nat) :
    Nat × LogFileWriter :=
  let writer := if writer.needNewPageFor messageSize then writer.forceNewPage else writer
  (writer.place,
    { writer with position := incrementPosition sizeT writer.position messageSize })

/-- Fill in a record at a write position and set its marker. -/
def publish (writer : LogFileWriter) (address : Nat) (record : Record) : LogFileWriter :=
  { writer with
    image := setMarker (storeRecord writer.image address record) address 1
    published := writer.published ++ [(address, record)] }

/-- The seekable page number the next message of a size goes to, as
`ShouldClearSeekableData` computes it. -/
def nextSeekablePage (writer : LogFileWriter) (nextMessageSize : Nat) : Nat :=
  let nextMessagePage := writer.pages - 1
  let nextMessagePage :=
    if writer.needNewPageFor nextMessageSize then nextMessagePage + 1 else nextMessagePage
  nextMessagePage / kSeekPages

/-- `ShouldClearSeekableData`: the result and the new cookie, or none where its
check of the old cookie fails. -/
def shouldClearSeekableData (writer : LogFileWriter) (cookie nextMessageSize : Nat) :
    Option (Bool × Nat) :=
  let currentSeekablePage := writer.nextSeekablePage nextMessageSize
  if cookie ≤ currentSeekablePage then
    some (decide (cookie ≠ currentSeekablePage), currentSeekablePage)
  else none

end LogFileWriter

/-- The reader: the number of the page it has mapped and its position there. -/
structure LogFileReader where
  page : Nat
  position : Nat
  deriving DecidableEq, Repr

/-- How a call of `ReadNextMessage` ends: with the address of a record, with NULL,
or with one of its two fatal errors. -/
inductive ReadResult where
  | message (address : Nat) (reader : LogFileReader)
  | null (reader : LogFileReader)
  | corrupt
  | unreadable
  deriving DecidableEq, Repr

namespace LogFileReader

/-- A new reader has the first page mapped. -/
def atStart : LogFileReader := { page := 0, position := 0 }

/-- The address `&current()[position()]`. -/
def place (reader : LogFileReader) : Nat := reader.page * kPageSize + reader.position

/-- `Unmap` and `MapNextPage`. -/
def nextPage (reader : LogFileReader) : LogFileReader :=
  { page := reader.page + 1, position := 0 }

/-- The position after the record of a name and a message size. -/
def advanced (sizeT : SizeT) (reader : LogFileReader) (nameSize messageSize : Nat) : Nat :=
  incrementPosition sizeT reader.position ((headerSize + nameSize + messageSize) % sizeT.modulus)

/-- The end of `ReadNextMessage`, once the reader is where the next record starts. -/
def finishRead (sizeT : SizeT) (file : PagedFile) (reader : LogFileReader) : ReadResult :=
  if marker file.image reader.place = 0 then .null reader
  else
    let position := reader.advanced sizeT (nameSize file.image reader.place)
      (messageSize file.image reader.place)
    if kPageSize ≤ position then .corrupt
    else .message reader.place { reader with position := position }

/-- `ReadNextMessage(false)`. A page beyond the end of the file is mapped but does
not pass `CheckCurrentPageReadable`. -/
def readNextMessage (sizeT : SizeT) (file : PagedFile) (reader : LogFileReader) : ReadResult :=
  if marker file.image reader.place = 2 then
    if reader.nextPage.page < file.pages then finishRead sizeT file reader.nextPage
    else .unreadable
  else finishRead sizeT file reader

end LogFileReader

/-- Repeated calls of `ReadNextMessage(false)` return exactly these records and
then NULL. -/
inductive ReadsAll (sizeT : SizeT) (file : PagedFile) : LogFileReader → List Record → Prop where
  | done {reader stopped : LogFileReader}
      (read : reader.readNextMessage sizeT file = .null stopped) : ReadsAll sizeT file reader []
  | next {reader following : LogFileReader} {address : Nat} {record : Record}
      {records : List Record}
      (read : reader.readNextMessage sizeT file = .message address following)
      (loaded : loadRecord file.image address = some record)
      (rest : ReadsAll sizeT file following records) :
      ReadsAll sizeT file reader (record :: records)

variable {file : PagedFile} {sizeT : SizeT}

/-- Only what the next call returns matters. -/
theorem ReadsAll.congr {first second : LogFileReader} {records : List Record}
    (same : first.readNextMessage sizeT file = second.readNextMessage sizeT file)
    (reads : ReadsAll sizeT file first records) : ReadsAll sizeT file second records := by
  cases reads with
  | done read => exact .done (same ▸ read)
  | next read loaded rest => exact .next (same ▸ read) loaded rest

namespace LogFileReader

variable {sizeT : SizeT} {file : PagedFile} {reader : LogFileReader} {record : Record}

/-- An aligned reader moves by the footprint of a record that ends on its page. -/
theorem advanced_eq (sizeT : SizeT) (aligned : reader.position % kAlignment = 0)
    (inside : reader.position + footprint record.size < kPageSize) :
    reader.advanced sizeT record.name.length record.message.length =
      reader.position + footprint record.size := by
  have covered := size_lt_footprint record.size
  simp only [kPageSize] at inside
  have enough : 2 ^ 32 ≤ sizeT.modulus := by cases sizeT <;> decide
  have size : (headerSize + record.name.length + record.message.length) % sizeT.modulus =
      record.size := Nat.mod_eq_of_lt (show record.size < sizeT.modulus by omega)
  rw [advanced, size]
  exact incrementPosition_eq sizeT _ aligned (by omega)

/-- A published record at an aligned position is returned, and the reader moves by
its footprint. -/
theorem readNextMessage_record (published : marker file.image reader.place = 1)
    (loaded : loadRecord file.image reader.place = some record)
    (aligned : reader.position % kAlignment = 0)
    (inside : reader.position + footprint record.size < kPageSize) :
    reader.readNextMessage sizeT file =
      .message reader.place { reader with position := reader.position + footprint record.size } := by
  obtain ⟨nameLength, messageLength⟩ := loadRecord_size loaded
  have moved := advanced_eq sizeT aligned inside
  simp only [readNextMessage, finishRead, published, nameLength, messageLength, moved]
  rw [if_neg (by decide), if_neg (by decide), if_neg (Nat.not_le.mpr inside)]

/-- Where nothing was published the call returns NULL. -/
theorem readNextMessage_null (unpublished : marker file.image reader.place = 0) :
    reader.readNextMessage sizeT file = .null reader := by
  simp [readNextMessage, finishRead, unpublished]

/-- At a page end the call does what it does at the start of the next page. -/
theorem readNextMessage_turn (sizeT : SizeT) (ended : marker file.image reader.place = 2)
    (present : reader.page + 1 < file.pages)
    (begun : marker file.image reader.nextPage.place ≠ 2) :
    reader.readNextMessage sizeT file = reader.nextPage.readNextMessage sizeT file := by
  have onFile : reader.nextPage.page < file.pages := present
  rw [readNextMessage, if_pos ended, if_pos onFile, readNextMessage, if_neg begun]

end LogFileReader

end Miranda.LogFile
