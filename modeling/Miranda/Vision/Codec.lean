import Miranda.Lib.Signed
import Miranda.Lib.Streams
import Miranda.Vision.Threshold

/-!
# The blob list codec

`SerializeBlob` writes a blob list as sixteen-bit integers in the byte order of the
machine, with every list behind its length; `ParseBlobList` reads it back and
`PredictSize` adds up the size in an `int`. The three walk over the nested lists on
their own.
-/

namespace Miranda.Vision

open Bytes Signed Streams List

abbrev BlobList := List RangeImage

/-- `PredictSize`. The size of a row is a `size_t`, which is cut when it is added. -/
def predictSize (blobs : BlobList) : Int32 :=
  blobs.foldl (fun count blob =>
    blob.ranges.foldl (fun count row => count + Int32.ofNat (2 + 4 * row.length)) (count + 4)) 2

/-- `WriteInt16`, with the cast to `uint16_t`. -/
def writeInt16 (value : Int) (output : Bytes.Image × Nat) : Bytes.Image × Nat :=
  (storeWord output.1 output.2 2 (value % 2 ^ 16).toNat, output.2 + 2)

/-- The body of the loop over the ranges of a row. -/
def writeRange (output : Bytes.Image × Nat) (range : ImageRange) : Bytes.Image × Nat :=
  writeInt16 range.ed (writeInt16 range.st output)

/-- The body of the loop over the rows of a blob. -/
def writeRow (output : Bytes.Image × Nat) (row : List ImageRange) : Bytes.Image × Nat :=
  row.foldl writeRange (writeInt16 row.length output)

/-- The body of the loop over the blobs. -/
def writeBlob (output : Bytes.Image × Nat) (blob : RangeImage) : Bytes.Image × Nat :=
  blob.ranges.foldl writeRow (writeInt16 blob.ranges.length (writeInt16 blob.mini output))

/-- `SerializeBlob`: the memory behind the call. -/
def serializeBlob (blobs : BlobList) (data : Nat) (image : Bytes.Image) : Bytes.Image :=
  (blobs.foldl writeBlob (writeInt16 blobs.length (image, data))).1

/-- `ReadInt16`. -/
def readInt16 (image : Bytes.Image) (data : Nat) : Nat × Nat := (loadWord image data 2, data + 2)

def parseRange (image : Bytes.Image) (data : Nat) : ImageRange × Nat :=
  let (st, data) := readInt16 image data
  let (ed, data) := readInt16 image data
  (⟨st, ed⟩, data)

def parseRow (image : Bytes.Image) (data : Nat) : List ImageRange × Nat :=
  let (numSubRanges, data) := readInt16 image data
  readMany parseRange numSubRanges image data

def parseBlob (image : Bytes.Image) (data : Nat) : RangeImage × Nat :=
  let (mini, data) := readInt16 image data
  let (numRanges, data) := readInt16 image data
  let (ranges, data) := readMany parseRow numRanges image data
  (⟨mini, ranges⟩, data)

/-- `ParseBlobList`: the list with the parsed blobs behind it, and the pointer behind
what was read. -/
def parseBlobList (blobs : BlobList) (image : Bytes.Image) (data : Nat) : BlobList × Nat :=
  let (numItems, data) := readInt16 image data
  let (parsed, data) := readMany parseBlob numItems image data
  (blobs ++ parsed, data)

/-- The bytes of a sixteen-bit integer. -/
def int16 (value : Int) : List UInt8 := littleEndian 2 (value % 2 ^ 16).toNat

namespace Encoding

def range (range : ImageRange) : List UInt8 := int16 range.st ++ int16 range.ed

def row (row : List ImageRange) : List UInt8 := int16 row.length ++ row.flatMap range

def blob (blob : RangeImage) : List UInt8 :=
  int16 blob.mini ++ (int16 blob.ranges.length ++ blob.ranges.flatMap row)

/-- The bytes of a blob list. -/
def blobs (blobs : BlobList) : List UInt8 := int16 blobs.length ++ blobs.flatMap blob

end Encoding

theorem writes_int16 (value : Int) : Writes (writeInt16 value) (int16 value) := by
  intro image address
  simp only [writeInt16, storeWord, int16, length_littleEndian]

/-- `SerializeBlob` writes the bytes of the list and nothing else. -/
theorem serializeBlob_eq (blobs : BlobList) (data : Nat) (image : Bytes.Image) :
    serializeBlob blobs data image = store image data (Encoding.blobs blobs) := by
  have ranges : ∀ range, Writes _ (Encoding.range range) :=
    fun range => (writes_int16 _).comp (writes_int16 _)
  have rows : ∀ row, Writes _ (Encoding.row row) :=
    fun row => (writes_int16 _).comp (writes_foldl ranges row)
  have blob : ∀ blob, Writes _ (Encoding.blob blob) :=
    fun blob => (writes_int16 _).comp
      ((writes_int16 _).comp (writes_foldl rows _))
  have whole := (writes_int16 blobs.length).comp (writes_foldl blob blobs)
  exact congrArg _ (whole image data)

/-- A number that sixteen bits hold. -/
def Small (value : Int) : Prop := 0 ≤ value ∧ value < 2 ^ 16

instance (value : Int) : Decidable (Small value) := inferInstanceAs (Decidable (_ ∧ _))

/-- The lengths and the coordinates of a list fit in sixteen bits. -/
structure SmallBlob (blob : RangeImage) : Prop where
  mini : Small blob.mini
  rows : Small blob.ranges.length
  row : ∀ row ∈ blob.ranges, Small row.length
  range : ∀ row ∈ blob.ranges, ∀ range ∈ row, Small range.st ∧ Small range.ed

instance (blob : RangeImage) : Decidable (SmallBlob blob) :=
  decidable_of_iff (Small blob.mini ∧ Small blob.ranges.length ∧
      (∀ row ∈ blob.ranges, Small row.length) ∧
      ∀ row ∈ blob.ranges, ∀ range ∈ row, Small range.st ∧ Small range.ed)
    ⟨fun ⟨mini, rows, row, range⟩ => ⟨mini, rows, row, range⟩,
      fun small => ⟨small.mini, small.rows, small.row, small.range⟩⟩

theorem reads_int16 {value : Int} (small : Small value) :
    Reads readInt16 (int16 value) value.toNat := by
  obtain ⟨lower, upper⟩ := small
  intro image address holds
  rw [Holds, int16, length_littleEndian] at holds
  rw [readInt16, loadWord, holds, fromLittleEndian_littleEndian 2 _ (by omega), int16,
    length_littleEndian, Int.emod_eq_of_lt lower upper]

theorem reads_range {range : ImageRange} (st : Small range.st) (ed : Small range.ed) :
    Reads parseRange (Encoding.range range) range := by
  intro image address holds
  obtain ⟨head, tail⟩ := holds_append.mp holds
  simp only [parseRange, reads_int16 st image address head, reads_int16 ed image _ tail,
    Int.toNat_of_nonneg st.1, Int.toNat_of_nonneg ed.1]
  rw [Encoding.range, length_append, Nat.add_assoc]

theorem reads_row {row : List ImageRange} (length : Small row.length)
    (ranges : ∀ range ∈ row, Small range.st ∧ Small range.ed) :
    Reads parseRow (Encoding.row row) row := by
  have each : Reads _ _ row :=
    reads_many fun range member => reads_range (ranges range member).1 (ranges range member).2
  intro image address holds
  obtain ⟨head, tail⟩ := holds_append.mp holds
  simp only [parseRow, reads_int16 length image address head, Int.toNat_natCast,
    each image _ tail]
  rw [Encoding.row, length_append, Nat.add_assoc]

theorem reads_blob {blob : RangeImage} (small : SmallBlob blob) :
    Reads parseBlob (Encoding.blob blob) blob := by
  have each : Reads _ _
      _ :=
    reads_many fun row member => reads_row (small.row row member) (small.range row member)
  intro image address holds
  obtain ⟨mini, rest⟩ := holds_append.mp holds
  obtain ⟨rows, ranges⟩ := holds_append.mp rest
  simp only [parseBlob, reads_int16 small.mini image address mini,
    reads_int16 small.rows image _ rows, Int.toNat_natCast, each image _ ranges]
  rw [Encoding.blob, length_append, length_append, Nat.add_assoc, Nat.add_assoc]

/-- `ParseBlobList` reads a list from its bytes. -/
theorem parseBlobList_eq {blobs : BlobList} (length : Small blobs.length)
    (small : ∀ blob ∈ blobs, SmallBlob blob) (image : Bytes.Image) (data : Nat)
    (holds : Holds image data (Encoding.blobs blobs)) :
    parseBlobList [] image data = (blobs, data + (Encoding.blobs blobs).length) := by
  have each : Reads _ _ blobs :=
    reads_many fun blob member => reads_blob (small blob member)
  obtain ⟨head, tail⟩ := holds_append.mp holds
  simp only [parseBlobList, reads_int16 length image data head, Int.toNat_natCast,
    each image _ tail, nil_append]
  rw [Encoding.blobs, length_append, Nat.add_assoc]

/-- The number of bytes of a blob. -/
def RangeImage.bytes (blob : RangeImage) : Nat :=
  4 + (blob.ranges.map fun row => 2 + 4 * row.length).sum

/-- The number of bytes of a list. -/
def BlobList.bytes (blobs : BlobList) : Nat := 2 + (blobs.map RangeImage.bytes).sum

theorem length_int16 (value : Int) : (int16 value).length = 2 := length_littleEndian _ _

theorem Encoding.length_row (row : List ImageRange) :
    (Encoding.row row).length = 2 + 4 * row.length := by
  have ranges : ∀ range, (Encoding.range range).length = 4 := by
    intro range
    rw [Encoding.range, length_append, length_int16, length_int16]
  simp [Encoding.row, length_int16, length_flatMap, ranges, Nat.mul_comm]

theorem Encoding.length_blob (blob : RangeImage) : (Encoding.blob blob).length = blob.bytes := by
  simp only [Encoding.blob, length_append, length_int16, length_flatMap, Encoding.length_row,
    RangeImage.bytes]
  omega

theorem Encoding.length_blobs (blobs : BlobList) : (Encoding.blobs blobs).length = blobs.bytes := by
  simp only [Encoding.blobs, length_append, length_int16, length_flatMap, Encoding.length_blob,
    BlobList.bytes]

/-- Adding up numbers in an `int` gives their sum, up to wrapping. -/
theorem foldl_modEq {α : Type} {next : Int32 → α → Int32} {amount : α → Nat}
    (each : ∀ count item, (next count item).toInt ≡ count.toInt + amount item [ZMOD 2 ^ 32])
    (items : List α) (start : Int32) :
    (items.foldl next start).toInt ≡ start.toInt + ((items.map amount).sum : Nat)
      [ZMOD 2 ^ 32] := by
  induction items generalizing start with
  | nil => simp
  | cons item rest ih =>
    rw [map_cons, sum_cons, Nat.cast_add, ← Int.add_assoc]
    exact (ih _).trans ((each start item).add_right _)

theorem predictSize_modEq (blobs : BlobList) :
    (predictSize blobs).toInt ≡ (blobs.bytes : Int) [ZMOD 2 ^ 32] := by
  have rows : ∀ (count : Int32) (row : List ImageRange),
      (count + .ofNat (2 + 4 * row.length)).toInt ≡
        count.toInt + ((2 + 4 * row.length : Nat) : Int) [ZMOD 2 ^ 32] := by
    intro count row
    apply (add_modEq _ _).trans (.add_left _ _)
    rw [Int32.toInt_ofNat']
    exact Int.bmod_emod
  have each : ∀ (count : Int32) (blob : RangeImage),
      (blob.ranges.foldl (fun count row => count + Int32.ofNat (2 + 4 * row.length))
        (count + 4)).toInt ≡ count.toInt + (blob.bytes : Int) [ZMOD 2 ^ 32] := by
    intro count blob
    apply (foldl_modEq rows _ _).trans
    rw [RangeImage.bytes, Nat.cast_add, ← Int.add_assoc]
    exact (add_modEq count 4).add_right _
  have total := foldl_modEq each blobs 2
  exact total

/-- The prediction is right exactly if the size fits in an `int`. -/
theorem toInt_predictSize_iff (blobs : BlobList) :
    (predictSize blobs).toInt = (blobs.bytes : Int) ↔ blobs.bytes < 2 ^ 31 := by
  have congruent := predictSize_modEq blobs
  have lower := (predictSize blobs).le_toInt
  have upper := (predictSize blobs).toInt_lt
  rw [Int.ModEq] at congruent
  constructor
  · intro same
    omega
  · intro small
    omega

/-- What the codec is for: the predicted number of bytes is written, and from any
buffer that starts with them the list is read back, up to behind them. -/
structure RoundTrips (blobs : BlobList) : Prop where
  writes : ∀ data image, serializeBlob blobs data image = store image data (Encoding.blobs blobs)
  predicts : ((Encoding.blobs blobs).length : Int) = (predictSize blobs).toInt
  parses : ∀ buffer data, Holds buffer data (Encoding.blobs blobs) →
    ∃ behind, parseBlobList [] buffer data = (blobs, behind) ∧
      (behind : Int) = data + (predictSize blobs).toInt

/-- A list of sixteen-bit numbers makes the round trip exactly if its size fits in an
`int`.

Proof: writer and parser agree on the encoding, and the prediction adds up its length in
an `int` (`toInt_predictSize_iff`). -/
theorem blob_codec_round_trip_iff (blobs : BlobList) (length : Small blobs.length)
    (small : ∀ blob ∈ blobs, SmallBlob blob) : RoundTrips blobs ↔ blobs.bytes < 2 ^ 31 := by
  rw [← toInt_predictSize_iff]
  constructor
  · intro trips
    rw [← trips.predicts, Encoding.length_blobs]
  · intro predicted
    refine ⟨serializeBlob_eq blobs, by rw [Encoding.length_blobs, predicted], ?_⟩
    intro buffer data holds
    refine ⟨_, parseBlobList_eq length small buffer data holds, ?_⟩
    rw [Encoding.length_blobs, predicted, Nat.cast_add]

/-- An empty blob, and a blob with an empty row. -/
def sparse : BlobList := [⟨3, []⟩, ⟨7, [[], [⟨2, 65535⟩]]⟩]

theorem blob_codec_round_trip_sparse :
    Small sparse.length ∧ (∀ blob ∈ sparse, SmallBlob blob) ∧ RoundTrips sparse :=
  ⟨by decide, by decide, (blob_codec_round_trip_iff sparse (by decide) (by decide)).mpr (by decide)⟩

/-- One blob with equally many ranges in every row. -/
def block (rows ranges : Nat) : BlobList :=
  [⟨0, List.replicate rows (List.replicate ranges ⟨0, 1⟩)⟩]

theorem bytes_block (rows ranges : Nat) :
    (block rows ranges).bytes = 6 + rows * (2 + 4 * ranges) := by
  simp only [block, BlobList.bytes, RangeImage.bytes, map_cons, map_nil,
    map_replicate, length_replicate, sum_replicate_nat, sum_cons, sum_nil]
  omega

theorem small_length {number : Nat} (few : number < 2 ^ 16) : Small number :=
  ⟨by omega, by omega⟩

theorem small_block {rows ranges : Nat} (few : rows < 2 ^ 16) (short : ranges < 2 ^ 16) :
    ∀ blob ∈ block rows ranges, SmallBlob blob := by
  intro blob member
  rw [mem_singleton.mp member]
  refine ⟨small_length (show 0 < 2 ^ 16 by decide), small_length (by rwa [length_replicate]), ?_, ?_⟩
  · intro row inside
    rw [eq_of_mem_replicate inside]
    exact small_length (by rwa [length_replicate])
  · intro row inside range within
    rw [eq_of_mem_replicate inside] at within
    rw [eq_of_mem_replicate within]
    decide

/-- A blob of 8193 rows with 65535 ranges each takes more than two gigabytes, and a
negative size is predicted. -/
theorem predicts_negative_size :
    Small (block 8193 65535).length ∧ (∀ blob ∈ block 8193 65535, SmallBlob blob) ∧
      (predictSize (block 8193 65535)).toInt < 0 ∧ ¬ RoundTrips (block 8193 65535) := by
  have size := bytes_block 8193 65535
  have congruent := predictSize_modEq (block 8193 65535)
  have lower := (predictSize (block 8193 65535)).le_toInt
  have upper := (predictSize (block 8193 65535)).toInt_lt
  rw [Int.ModEq] at congruent
  refine ⟨by rw [block]; decide, small_block (by decide) (by decide), by omega, ?_⟩
  intro trips
  have predicted := trips.predicts
  omega

end Miranda.Vision
