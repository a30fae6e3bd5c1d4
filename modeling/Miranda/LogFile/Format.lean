import Miranda.Lib.Bytes

/-!
# The binary log file format

One record is a header of thirty-two bytes, the name of the process that logged
it and the message bytes. The header starts with the marker word readers wait on;
its other fields keep the offsets of the packed source structure, and integers
are little-endian as on the machines the robots run. Three bytes at the end of the
header are padding that nobody writes.

A record is stored field by field, in the order of the writer's assignments, and
the marker is stored separately because it is what publishes the record. Sizes
are stored in thirty-two bits; longer names and messages would be truncated, so
the round trip asks for less.
-/

namespace Miranda.LogFile

open Bytes

def kPageSize : Nat := 16384

def kAlignment : Nat := 8

def kSeekPages : Nat := 256

/-- `sizeof(LogFileMessageHeader)`. -/
def headerSize : Nat := 32

/-- `sizeof(aos_futex)`. -/
def futexSize : Nat := 4

/-- `LogFileMessageHeader::MessageType`. -/
inductive MessageKind where
  | kString
  | kStructType
  | kStruct
  | kMatrix
  deriving DecidableEq, Repr

namespace MessageKind

def code : MessageKind → Nat
  | kString => 0
  | kStructType => 1
  | kStruct => 2
  | kMatrix => 3

def ofCode : Nat → Option MessageKind
  | 0 => some kString
  | 1 => some kStructType
  | 2 => some kStruct
  | 3 => some kMatrix
  | _ => none

theorem ofCode_code (kind : MessageKind) : ofCode kind.code = some kind := by
  cases kind <;> rfl

theorem code_lt (kind : MessageKind) : kind.code < 256 ^ 2 := by
  cases kind <;> decide

end MessageKind

/-- The contents of one record: header fields other than the marker and the two
sizes, which are the lengths of the byte strings. -/
structure Record where
  timeSec : BitVec 32
  timeNsec : BitVec 32
  source : BitVec 32
  sequence : BitVec 16
  kind : MessageKind
  level : BitVec 8
  name : List UInt8
  message : List UInt8
  deriving DecidableEq, Repr

/-- `sizeof(LogFileMessageHeader) + name_size + message_size`. -/
def Record.size (record : Record) : Nat :=
  headerSize + record.name.length + record.message.length

/-- The marker word of the record at an address. -/
def marker (image : Image) (address : Nat) : Nat := loadWord image address 4

def setMarker (image : Image) (address value : Nat) : Image := storeWord image address 4 value

/-- Store everything of a record but its marker. -/
def storeRecord (image : Image) (address : Nat) (record : Record) : Image :=
  let image := storeWord image (address + 16) 4 record.name.length
  let image := storeWord image (address + 20) 4 record.message.length
  let image := storeWord image (address + 12) 4 record.source.toNat
  let image := storeWord image (address + 28) 1 record.level.toNat
  let image := storeWord image (address + 4) 4 record.timeSec.toNat
  let image := storeWord image (address + 8) 4 record.timeNsec.toNat
  let image := storeWord image (address + 24) 2 record.sequence.toNat
  let image := store image (address + headerSize) record.name
  let image := store image (address + headerSize + record.name.length) record.message
  storeWord image (address + 26) 2 record.kind.code

/-- `name_size` of the record at an address. -/
def nameSize (image : Image) (address : Nat) : Nat := loadWord image (address + 16) 4

/-- `message_size` of the record at an address. -/
def messageSize (image : Image) (address : Nat) : Nat := loadWord image (address + 20) 4

/-- Read the record at an address, unless its type is none of the four. -/
def loadRecord (image : Image) (address : Nat) : Option Record :=
  (MessageKind.ofCode (loadWord image (address + 26) 2)).map fun kind =>
    { timeSec := BitVec.ofNat 32 (loadWord image (address + 4) 4)
      timeNsec := BitVec.ofNat 32 (loadWord image (address + 8) 4)
      source := BitVec.ofNat 32 (loadWord image (address + 12) 4)
      sequence := BitVec.ofNat 16 (loadWord image (address + 24) 2)
      kind := kind
      level := BitVec.ofNat 8 (loadWord image (address + 28) 1)
      name := load image (address + headerSize) (nameSize image address)
      message := load image (address + headerSize + nameSize image address)
        (messageSize image address) }

section Loading

variable {image other : Image} {address : Nat} {record : Record}

/-- A marker is only changed by a store over its four bytes. -/
theorem marker_congr (agree : Agree image other address 4) :
    marker image address = marker other address :=
  loadWord_congr agree

variable {value length place : Nat}

theorem marker_setMarker (small : value < 256) :
    marker (setMarker image address value) address = value :=
  loadWord_storeWord (by omega)

theorem setMarker_agree (disjoint : place + length ≤ address ∨ address + 4 ≤ place) :
    Agree (setMarker image address value) image place length :=
  storeWord_agree disjoint

/-- Storing a record touches its own bytes after the marker and no others. -/
theorem storeRecord_agree (disjoint : place + length ≤ address + 4 ∨ address + record.size ≤ place) :
    Agree (storeRecord image address record) image place length := by
  simp only [Record.size, headerSize] at disjoint
  refine (storeWord_agree (by omega)).trans ?_
  refine (store_agree (by simp only [headerSize]; omega)).trans ?_
  refine (store_agree (by simp only [headerSize]; omega)).trans ?_
  refine (storeWord_agree (by omega)).trans ?_
  refine (storeWord_agree (by omega)).trans ?_
  refine (storeWord_agree (by omega)).trans ?_
  refine (storeWord_agree (by omega)).trans ?_
  refine (storeWord_agree (by omega)).trans ?_
  exact (storeWord_agree (by omega)).trans (storeWord_agree (by omega))

/-- The sizes in the header are what decides where the record ends. -/
theorem loadRecord_size (loaded : loadRecord image address = some record) :
    nameSize image address = record.name.length ∧
      messageSize image address = record.message.length := by
  obtain ⟨kind, _, rfl⟩ := Option.map_eq_some_iff.mp loaded
  simp

/-- A record depends on its own bytes after the marker only. -/
theorem loadRecord_congr (agree : Agree image other (address + 4) (record.size - 4))
    (loaded : loadRecord image address = some record) :
    loadRecord other address = some record := by
  obtain ⟨nameLength, messageLength⟩ := loadRecord_size loaded
  have word : ∀ offset width, 4 ≤ offset → offset + width ≤ headerSize →
      loadWord other (address + offset) width = loadWord image (address + offset) width := by
    intro offset width after inside
    have part := agree.symm.part (offset - 4) width (by simp only [Record.size]; omega)
    rw [Nat.add_assoc, show 4 + (offset - 4) = offset by omega] at part
    exact loadWord_congr part
  have bytes : ∀ offset length, headerSize ≤ offset → offset + length ≤ record.size →
      load other (address + offset) length = load image (address + offset) length := by
    intro offset length after inside
    simp only [headerSize] at after
    have part := agree.symm.part (offset - 4) length (by omega)
    rw [Nat.add_assoc, show 4 + (offset - 4) = offset by omega] at part
    exact load_congr part
  have sameName : nameSize other address = nameSize image address :=
    word 16 4 (by decide) (by decide)
  have sameMessage : messageSize other address = messageSize image address :=
    word 20 4 (by decide) (by decide)
  have sameNameBytes : load other _ record.name.length =
      load image _ _ :=
    bytes headerSize _ (Nat.le_refl _) (by simp only [Record.size]; omega)
  have sameMessageBytes :
      load other (address + headerSize + record.name.length) record.message.length =
        load image (address + headerSize + record.name.length) record.message.length := by
    have same := bytes (headerSize + record.name.length) record.message.length (by omega)
      (by simp only [Record.size]; omega)
    rwa [← Nat.add_assoc] at same
  rw [← loaded]
  unfold loadRecord
  rw [sameName, sameMessage, nameLength, messageLength, sameNameBytes, sameMessageBytes,
    word 26 2 (by decide) (by decide), word 4 4 (by decide) (by decide),
    word 8 4 (by decide) (by decide), word 12 4 (by decide) (by decide),
    word 24 2 (by decide) (by decide), word 28 1 (by decide) (by decide)]

/-- Every header word of a stored record is read back: the stores do not overlap,
so each load sees its own store. -/
theorem loadWord_storeRecord (image : Image) (address : Nat) (record : Record) :
    let stored := storeRecord image address record
    loadWord stored (address + 4) 4 = record.timeSec.toNat ∧
      loadWord stored (address + 8) 4 = record.timeNsec.toNat ∧
      loadWord stored (address + 12) 4 = record.source.toNat ∧
      loadWord stored (address + 24) 2 = record.sequence.toNat ∧
      loadWord stored (address + 26) 2 = record.kind.code ∧
      loadWord stored (address + 28) 1 = record.level.toNat := by
  intro stored
  refine ⟨?_, ?_, ?_, ?_, ?_, ?_⟩ <;>
    simp (disch := first | omega | simp only [headerSize]; omega) only [stored, storeRecord,
      loadWord_storeWord_disjoint, loadWord_store_disjoint]
  · apply loadWord_storeWord
    exact record.timeSec.isLt
  · apply loadWord_storeWord
    exact record.timeNsec.isLt
  · apply loadWord_storeWord
    exact record.source.isLt
  · apply loadWord_storeWord
    exact record.sequence.isLt
  · apply loadWord_storeWord
    exact record.kind.code_lt
  · apply loadWord_storeWord
    exact record.level.isLt

/-- The sizes are read back as well when they fit their header fields. -/
theorem sizes_storeRecord (image : Image) (address : Nat) (nameFits : record.name.length < 2 ^ 32)
    (messageFits : record.message.length < 2 ^ 32) :
    nameSize (storeRecord image address record) address = record.name.length ∧
      messageSize (storeRecord image address record) address = record.message.length := by
  constructor <;>
    simp (disch := first | omega | simp only [headerSize]; omega) only [nameSize, messageSize,
      storeRecord, loadWord_storeWord_disjoint, loadWord_store_disjoint]
  · apply loadWord_storeWord
    exact nameFits
  · apply loadWord_storeWord
    exact messageFits

/-- A stored record is read back whole, provided its sizes fit their header
fields. -/
theorem loadRecord_storeRecord (nameFits : record.name.length < 2 ^ 32)
    (messageFits : record.message.length < 2 ^ 32) :
    loadRecord (storeRecord image address record) address = some record := by
  obtain ⟨timeSec, timeNsec, source, sequence, kind, level⟩ :=
    loadWord_storeRecord image address record
  obtain ⟨nameLength, messageLength⟩ :=
    sizes_storeRecord image address nameFits messageFits
  have nameBytes : load (storeRecord image address record) (address + headerSize)
      record.name.length = record.name := by
    simp (disch := first | omega | simp only [headerSize]; omega) only [storeRecord,
      load_storeWord_disjoint, load_store_disjoint]
    exact load_store _ _ _
  have messageBytes : load (storeRecord image address record)
      (address + headerSize + record.name.length) record.message.length = record.message := by
    simp (disch := first | omega | simp only [headerSize]; omega) only [storeRecord,
      load_storeWord_disjoint]
    exact load_store _ _ _
  unfold loadRecord
  rw [nameLength, messageLength, nameBytes, messageBytes, timeSec, timeNsec, source, sequence,
    kind, level, MessageKind.ofCode_code]
  simp

end Loading

end Miranda.LogFile
