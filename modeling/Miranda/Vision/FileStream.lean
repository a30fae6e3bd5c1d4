import Miranda.Lib.Bytes
import Miranda.Lib.Signed
import Mathlib.Algebra.BigOperators.Group.List.Lemmas
import Mathlib.Algebra.Order.BigOperators.Group.List
import Mathlib.Algebra.Order.Group.Nat

/-!
# Streams of images in files

`WriteImage` appends an image to one file and an entry to an index file: where the image
ends, as a 32-bit `int` that wraps, and a stamp. The reader takes the index apart. From
the differences of the wrapped ends it recovers the sizes and from these the ends as
64-bit numbers, and it allocates a buffer for the largest image. `read_at` seeks to where
an image starts and reads it into that buffer.

Files are their bytes. A stream is its position and whether it has failed, after which
nothing moves or reads; a read that would leave the buffer has no result. The index is
counted in an `int`, so only fewer than 2^31 images can be told apart.
-/

namespace Miranda.Vision

open Bytes Signed List

/-- `JpegStreamWriter`, with the contents of its files. -/
structure JpegStreamWriter where
  offsets : Int32 := 0
  imgfile : List UInt8 := []
  indexfile : List UInt8 := []

/-- `WriteImage`. -/
def JpegStreamWriter.writeImage (writer : JpegStreamWriter) (binaryBlob : List UInt8)
    (stamp : Int64) : JpegStreamWriter :=
  let offsets := writer.offsets + Int32.ofNat binaryBlob.length
  { offsets
    indexfile := writer.indexfile ++ (littleEndian 4 offsets.toUInt32.toNat ++
      littleEndian 8 stamp.toUInt64.toNat)
    imgfile := writer.imgfile ++ binaryBlob }

/-- The variables of the loop over the index, with what is left of the index file. -/
structure IndexLoop where
  indexfile : List UInt8
  offset : UInt64 := 0
  maxSize : Int32 := 0
  index : List Int64 := []
  times : List Int64 := []

/-- The body of the loop over the index. -/
def IndexLoop.next (loop : IndexLoop) : IndexLoop :=
  let val := UInt32.ofNat (fromLittleEndian (loop.indexfile.take 4))
  let time := (UInt64.ofNat (fromLittleEndian ((loop.indexfile.drop 4).take 8))).toInt64
  let size := (val - loop.offset.toUInt32).toInt32
  let offset := loop.offset + size.toInt64.toUInt64
  { indexfile := loop.indexfile.drop 12
    offset
    maxSize := if size > loop.maxSize then size else loop.maxSize
    index := loop.index ++ [offset.toInt64]
    times := loop.times ++ [time] }

/-- The loop over the index. -/
def IndexLoop.run : Nat → IndexLoop → IndexLoop
  | 0, loop => loop
  | count + 1, loop => IndexLoop.run count loop.next

/-- `JpegStreamReader`, with the stream of its image file. -/
structure JpegStreamReader where
  imgfile : List UInt8
  position : Nat := 0
  failed : Bool := false
  data : List UInt8
  index : List Int64
  times : List Int64

namespace JpegStreamReader

/-- The constructor. It throws if the count is negative and asserts that it is not zero. -/
def new (imgfile indexfile : List UInt8) : Option JpegStreamReader :=
  let count := Int32.ofNat (indexfile.length / 12)
  if count ≤ 0 then none
  else
    let loop := IndexLoop.run count.toInt.toNat { indexfile }
    some {
      imgfile
      data := List.replicate loop.maxSize.toInt.toNat 0
      index := loop.index
      times := loop.times }

/-- `seekg`. -/
def seekg (reader : JpegStreamReader) (offset : Int64) : JpegStreamReader :=
  if reader.failed then reader
  else if offset < 0 then { reader with failed := true }
  else { reader with position := offset.toInt.toNat }

/-- `read` into the buffer, which fails behind the end of the file. -/
def read (reader : JpegStreamReader) (length : Nat) : JpegStreamReader :=
  if reader.failed then reader
  else
    let bytes := (reader.imgfile.drop reader.position).take length
    { reader with
      position := reader.position + bytes.length
      failed := bytes.length < length
      data := bytes ++ reader.data.drop bytes.length }

/-- `read_at`: the bytes of the reference it returns, unless an index or a length is out
of bounds. -/
def readAt (reader : JpegStreamReader) (i : Nat) : Option (List UInt8 × JpegStreamReader) :=
  (if 0 < i then reader.index[i - 1]? else some 0).bind fun startOff =>
    reader.index[i]?.bind fun stop =>
      let len := (stop - startOff).toInt32
      if len < 0 ∨ reader.data.length < len.toInt.toNat then none
      else
        let reader := (reader.seekg startOff).read len.toInt.toNat
        some (reader.data.take len.toInt.toNat, reader)

/-- `get_time`. -/
def getTime (reader : JpegStreamReader) (i : Nat) : Option Int64 := reader.times[i]?

/-- `size`. -/
def size (reader : JpegStreamReader) : Int32 := Int32.ofNat reader.index.length

/-- Calls of `read_at` one after the other. -/
def readAll (reader : JpegStreamReader) : List Nat → Option (List (List UInt8))
  | [] => some []
  | i :: later =>
    (reader.readAt i).bind fun (bytes, reader) => (reader.readAll later).map (bytes :: ·)

end JpegStreamReader

/-- `WriteImage` for every image with its stamp. -/
def JpegStreamWriter.writeImages (writer : JpegStreamWriter)
    (images : List (List UInt8 × Int64)) : JpegStreamWriter :=
  images.foldl (fun writer image => writer.writeImage image.1 image.2) writer

def sizes (images : List (List UInt8 × Int64)) : List Nat := images.map fun image => image.1.length

/-- Where images of given sizes end. -/
def ends (start : Nat) : List Nat → List Nat
  | [] => []
  | size :: later => (start + size) :: ends (start + size) later

/-- The entries of the index. -/
def entries (start : Nat) : List (List UInt8 × Int64) → List UInt8
  | [] => []
  | (image, stamp) :: later =>
    littleEndian 4 ((start + image.length) % 2 ^ 32) ++ littleEndian 8 stamp.toUInt64.toNat ++
      entries (start + image.length) later

theorem writeImages_eq (images : List (List UInt8 × Int64)) (start : Nat)
    (imgfile indexfile : List UInt8) :
    JpegStreamWriter.writeImages ⟨Int32.ofNat start, imgfile, indexfile⟩ images =
      ⟨Int32.ofNat (start + (sizes images).sum), imgfile ++ (images.map Prod.fst).flatten,
        indexfile ++ entries start images⟩ := by
  induction images generalizing start imgfile indexfile with
  | nil => simp [JpegStreamWriter.writeImages, sizes, entries]
  | cons image later ih =>
    obtain ⟨bytes, stamp⟩ := image
    have bits : (Int32.ofNat (start + bytes.length)).toUInt32.toNat =
        (start + bytes.length) % 2 ^ 32 := by
      rw [Int32.toUInt32_ofNat', UInt32.toNat_ofNat']
    have rest := ih (start + bytes.length) (imgfile ++ bytes)
      (indexfile ++ (littleEndian 4 ((start + bytes.length) % 2 ^ 32) ++
        littleEndian 8 stamp.toUInt64.toNat))
    rw [JpegStreamWriter.writeImages, foldl_cons, JpegStreamWriter.writeImage,
      ← Int32.ofNat_add, bits]
    rw [JpegStreamWriter.writeImages] at rest
    rw [rest]
    simp [sizes, entries, Nat.add_assoc]

theorem length_entries (start : Nat) (images : List (List UInt8 × Int64)) :
    (entries start images).length = 12 * images.length := by
  induction images generalizing start with
  | nil => rfl
  | cons image later ih =>
    simp only [entries, length_append, length_littleEndian, ih,
      length_cons]
    omega

theorem length_ends (start : Nat) (sizes : List Nat) : (ends start sizes).length = sizes.length := by
  induction sizes generalizing start with
  | nil => rfl
  | cons size later ih => rw [ends, length_cons, ih,
      length_cons]

/-- An image ends behind all the images up to it. -/
theorem getElem_ends (start : Nat) (sizes : List Nat) (i : Nat) (inside : i < sizes.length) :
    (ends start sizes)[i]? = some (start + (sizes.take (i + 1)).sum) := by
  induction sizes generalizing start i with
  | nil => simp at inside
  | cons size later ih =>
    cases i with
    | zero => simp [ends]
    | succ i =>
      rw [ends, getElem?_cons_succ, ih _ i (Nat.lt_of_succ_lt_succ inside),
        take_succ_cons, sum_cons, Nat.add_assoc]

variable {loop : IndexLoop} {start : Nat}

/-- The body of the loop recovers the size of an image and where it ends. -/
theorem next_entry {image : List UInt8} {stamp : Int64} {rest : List UInt8}
    (isFile : loop.indexfile = littleEndian 4 ((start + image.length) % 2 ^ 32) ++
      littleEndian 8 stamp.toUInt64.toNat ++ rest)
    (isOffset : loop.offset = UInt64.ofNat start) (small : image.length < 2 ^ 31) :
    loop.next = {
      indexfile := rest
      offset := UInt64.ofNat (start + image.length)
      maxSize := if Int32.ofNat image.length > loop.maxSize then Int32.ofNat image.length
        else loop.maxSize
      index := loop.index ++ [Int64.ofNat (start + image.length)]
      times := loop.times ++ [stamp] } := by
  have first : loop.indexfile.take 4 = littleEndian 4 ((start + image.length) % 2 ^ 32) := by
    rw [isFile, append_assoc, take_append_of_le_length (by simp)]
    exact take_of_length_le (by simp)
  have behind : loop.indexfile.drop 4 = littleEndian 8 stamp.toUInt64.toNat ++ rest := by
    rw [isFile, append_assoc]
    exact drop_left' (by simp)
  have second : (loop.indexfile.drop 4).take 8 = littleEndian 8 stamp.toUInt64.toNat := by
    rw [behind]
    exact take_left' (by simp)
  have left : loop.indexfile.drop 12 = rest := by
    rw [isFile]
    exact drop_left' (by simp)
  have val : .ofNat ((start + image.length) % 2 ^ 32) =
      .ofNat start + UInt32.ofNat image.length := by
    rw [← UInt32.ofNat_add]
    exact UInt32.toNat_inj.mp (by rw [UInt32.toNat_ofNat', UInt32.toNat_ofNat', Nat.mod_mod])
  have size : (.ofNat start + .ofNat image.length - UInt32.ofNat start).toInt32 =
      .ofNat image.length := by
    rw [UInt32.add_comm, UInt32.add_sub_cancel, UInt32.toInt32_ofNat']
  have time : (UInt64.ofNat stamp.toUInt64.toNat).toInt64 = stamp := by
    rw [UInt64.ofNat_toNat, Int64.toInt64_toUInt64]
  have bound : (image.length : Int) ≤ Int32.maxValue.toInt := by
    change (image.length : Int) ≤ 2147483647
    omega
  have step : UInt64.ofNat start + (Int32.ofNat image.length).toInt64.toUInt64 =
      UInt64.ofNat (start + image.length) := by
    rw [Int32.toInt64_ofNat' bound, Int64.toUInt64_ofNat', UInt64.ofNat_add]
  have byte : (start + image.length) % 2 ^ 32 < 256 ^ 4 := Nat.mod_lt _ (by decide)
  have stampBytes := stamp.toUInt64.toNat_lt
  simp only [IndexLoop.next, first, second, left, isOffset, UInt64.toUInt32_ofNat',
    fromLittleEndian_littleEndian 4 _ byte, fromLittleEndian_littleEndian 8 _ stampBytes, val,
    size, time, step, UInt64.toInt64_ofNat']

/-- The loop recovers where all images end. -/
theorem run_entries (images : List (List UInt8 × Int64))
    (small : ∀ image ∈ images, image.1.length < 2 ^ 31)
    (isFile : loop.indexfile = entries start images) (isOffset : loop.offset = UInt64.ofNat start) :
    (IndexLoop.run images.length loop).index =
        loop.index ++ (ends start (sizes images)).map Int64.ofNat ∧
      (IndexLoop.run images.length loop).times = loop.times ++ images.map Prod.snd ∧
      loop.maxSize.toInt ≤ (IndexLoop.run images.length loop).maxSize.toInt ∧
      ∀ image ∈ images,
        (image.1.length : Int) ≤ (IndexLoop.run images.length loop).maxSize.toInt := by
  induction images generalizing loop start with
  | nil => simp [IndexLoop.run, sizes, ends]
  | cons image later ih =>
    obtain ⟨bytes, stamp⟩ := image
    have short := small _ mem_cons_self
    have step := next_entry isFile isOffset short
    obtain ⟨index, times, most, larger⟩ := ih
      (fun image member => small image (mem_cons_of_mem _ member))
      (show loop.next.indexfile = entries _ later by rw [step])
      (by rw [step])
    have length : (Int32.ofNat _).toInt = bytes.length := Int32.toInt_ofNat_of_lt short
    have grows : loop.maxSize.toInt ≤ loop.next.maxSize.toInt ∧
        (bytes.length : Int) ≤ loop.next.maxSize.toInt := by
      rw [step]
      dsimp only
      split
      · rename_i more
        rw [gt_iff_lt, Int32.lt_iff_toInt_lt] at more
        omega
      · rename_i less
        rw [gt_iff_lt, Int32.lt_iff_toInt_lt] at less
        omega
    rw [length_cons, IndexLoop.run]
    refine ⟨?_, ?_, by omega, ?_⟩
    · rw [index, step]
      simp [sizes, ends]
    · rw [times, step]
      simp
    · intro other member
      cases member with
      | head => exact Int.le_trans grows.2 most
      | tail _ member => exact larger other member

/-- Where an image starts. -/
def startOf (images : List (List UInt8 × Int64)) (i : Nat) : Nat := ((sizes images).take i).sum

/-- A reader of the files of the images that has not failed. -/
structure Ready (images : List (List UInt8 × Int64)) (reader : JpegStreamReader) : Prop where
  imgfile : reader.imgfile = (images.map Prod.fst).flatten
  works : reader.failed = false
  index : reader.index = (ends 0 (sizes images)).map Int64.ofNat
  times : reader.times = images.map Prod.snd
  room : ∀ image ∈ images, image.1.length ≤ reader.data.length

section Reading

variable {images : List (List UInt8 × Int64)} {reader : JpegStreamReader}

variable {i : Nat}

theorem getElem_index (ready : Ready images reader) (inside : i < images.length) :
    reader.index[i]? = some (Int64.ofNat (startOf images (i + 1))) := by
  rw [ready.index, getElem?_map, getElem_ends 0 _ i (by rwa [sizes, length_map]),
    Nat.zero_add]
  rfl

/-- The bytes from where an image starts are those of the image. -/
theorem take_drop_image (inside : i < images.length) :
    ((images.map Prod.fst).flatten.drop (startOf images i)).take (images[i]).1.length =
      (images[i]).1 := by
  have lengths : sizes images = (images.map Prod.fst).map List.length := by
    rw [map_map]
    rfl
  rw [startOf, lengths, drop_sum_flatten, drop_eq_getElem_cons (by simpa using inside),
    getElem_map]
  exact take_left' rfl

theorem startOf_succ (inside : i < images.length) :
    startOf images (i + 1) = startOf images i + (images[i]).1.length := by
  have bound : i < (sizes images).length := by rwa [sizes, length_map]
  rw [startOf, startOf, take_succ_eq_append_getElem bound]
  simp [sizes]

/-- No image starts where a 64-bit offset does not reach. -/
theorem startOf_lt (few : images.length < 2 ^ 31)
    (small : ∀ image ∈ images, image.1.length < 2 ^ 31) (i : Nat) :
    startOf images i < 2 ^ 62 := by
  have each : ∀ size ∈ (sizes images).take i, size ≤ 2 ^ 31 - 1 := by
    intro size member
    obtain ⟨image, inside, rfl⟩ := mem_map.mp (mem_of_mem_take member)
    have short := small image inside
    omega
  have total := sum_le_card_nsmul _ _ each
  have number : ((sizes images).take i).length ≤ images.length := by
    rw [length_take, sizes, length_map]
    exact Nat.min_le_right _ _
  change _ ≤ ((sizes images).take i).length * (2 ^ 31 - 1) at total
  have product := Nat.mul_le_mul_right (2 ^ 31 - 1) number
  rw [startOf]
  omega

/-- Reading within the file fills the buffer from its start. -/
theorem seekg_read {position : Int64} {length : Nat} {bytes : List UInt8}
    (works : reader.failed = false) (nonneg : 0 ≤ position.toInt)
    (isBytes : (reader.imgfile.drop position.toInt.toNat).take length = bytes)
    (complete : bytes.length = length) :
    (reader.seekg position).read length = { reader with
      position := position.toInt.toNat + length
      failed := false
      data := bytes ++ reader.data.drop length } := by
  have notNegative : ¬ position < 0 := by
    rw [Int64.lt_iff_toInt_lt, Int64.toInt_zero]
    omega
  rw [JpegStreamReader.seekg, works, if_neg notNegative,
    JpegStreamReader.read]
  dsimp only
  rw [if_neg Bool.false_ne_true, isBytes, complete]
  simp

/-- `read_at` of a reader that is ready returns the image and leaves it ready. -/
theorem readAt_image (few : images.length < 2 ^ 31)
    (small : ∀ image ∈ images, image.1.length < 2 ^ 31) (ready : Ready images reader)
    (inside : i < images.length) :
    ∃ after, reader.readAt i = some ((images[i]).1, after) ∧ Ready images after := by
  have short := small _ (getElem_mem inside)
  have room := ready.room _ (getElem_mem inside)
  have starts := startOf_lt few small i
  have start : (if 0 < i then reader.index[i - 1]? else some 0) =
      some (.ofNat (startOf images i)) := by
    split
    · rename_i positive
      rw [getElem_index ready (by omega), Nat.sub_add_cancel positive]
    · rename_i zero
      rw [show i = 0 by omega]
      rfl
  have length : (.ofNat (startOf images (i + 1)) - Int64.ofNat (startOf images i)).toInt32 =
      .ofNat (images[i]).1.length := by
    rw [startOf_succ inside, Nat.add_comm, Int64.ofNat_add, Int64.add_sub_cancel,
      Int64.toInt32_ofNat']
  have number : (Int32.ofNat _).toInt = (images[i]).1.length :=
    Int32.toInt_ofNat_of_lt short
  have position : (Int64.ofNat _).toInt = startOf images i :=
    Int64.toInt_ofNat_of_lt (by omega)
  have bytes := take_drop_image inside
  rw [← ready.imgfile] at bytes
  have isBytes : (reader.imgfile.drop (Int64.ofNat (startOf images i)).toInt.toNat).take
      (images[i]).1.length = (images[i]).1 := by
    rw [position]
    exact bytes
  have reads := seekg_read ready.works (by omega) isBytes rfl
  have within : ¬ (Int32.ofNat (images[i]).1.length < 0 ∨
      reader.data.length < (Int32.ofNat (images[i]).1.length).toInt.toNat) := by
    rw [Int32.lt_iff_toInt_lt, Int32.toInt_zero]
    omega
  refine ⟨(reader.seekg (Int64.ofNat (startOf images i))).read (images[i]).1.length, ?_, ?_⟩
  · rw [JpegStreamReader.readAt, start, Option.bind_some, getElem_index ready inside,
      Option.bind_some]
    rw [length, if_neg within, number, Int.toNat_natCast, reads]
    dsimp only
    rw [take_left' rfl]
  · rw [reads]
    refine ⟨ready.imgfile, rfl, ready.index, ready.times, ?_⟩
    intro image member
    have enough := ready.room image member
    simp only [length_append, length_drop]
    omega

/-- So do any number of calls in any order. -/
theorem readAll_images (few : images.length < 2 ^ 31)
    (small : ∀ image ∈ images, image.1.length < 2 ^ 31) (ready : Ready images reader)
    (calls : List (Fin images.length)) :
    reader.readAll (calls.map Fin.val) = some (calls.map fun i => (images[i]).1) := by
  induction calls generalizing reader with
  | nil => rfl
  | cons i later ih =>
    obtain ⟨after, read, still⟩ := readAt_image few small ready i.isLt
    have others := ih still
    rw [map_cons, JpegStreamReader.readAll, read, Option.bind_some]
    dsimp only
    rw [others]
    rfl

theorem files_eq (images : List (List UInt8 × Int64)) :
    (JpegStreamWriter.writeImages {} images).imgfile = (images.map Prod.fst).flatten ∧
      (JpegStreamWriter.writeImages {} images).indexfile = entries 0 images := by
  have files := writeImages_eq images 0 [] []
  exact ⟨congrArg _ files, congrArg _ files⟩

/-- The reader of the files of a writer. -/
def reopened (images : List (List UInt8 × Int64)) : Option JpegStreamReader :=
  let writer := JpegStreamWriter.writeImages {} images
  JpegStreamReader.new writer.imgfile writer.indexfile

/-- The constructor makes a reader of the files that is ready. -/
theorem reopened_ready (few : images.length < 2 ^ 31)
    (small : ∀ image ∈ images, image.1.length < 2 ^ 31) (nonempty : images ≠ []) :
    ∃ reader, reopened images = some reader ∧ Ready images reader := by
  have positive := length_pos_of_ne_nil nonempty
  have number : (Int32.ofNat _).toInt = images.length := Int32.toInt_ofNat_of_lt few
  have enough : ¬ Int32.ofNat images.length ≤ 0 := by
    rw [Int32.le_iff_toInt_le, Int32.toInt_zero]
    omega
  have loop : IndexLoop.indexfile { indexfile := entries 0 images } = entries 0 images := rfl
  obtain ⟨index, times, _, larger⟩ := run_entries images small loop rfl
  rw [reopened, (files_eq images).1, (files_eq images).2, JpegStreamReader.new, length_entries,
    Nat.mul_div_cancel_left _ (by decide)]
  rw [if_neg enough, number, Int.toNat_natCast]
  refine ⟨_, rfl, rfl, rfl, index, times, ?_⟩
  intro image member
  have fits := larger image member
  rw [length_replicate]
  omega

end Reading

/-- Fewer than 2^31 images, each smaller than 2^31 bytes, come back from their files:
all of them in any order of calls, with their stamps, and never past the buffer.

Proof: the differences of the wrapped ends are the sizes, so the reader opens with the
right ends (`reopened_ready`), and each read leaves the stream good. -/
theorem image_stream_round_trip (images : List (List UInt8 × Int64)) (nonempty : images ≠ [])
    (few : images.length < 2 ^ 31) (small : ∀ image ∈ images, image.1.length < 2 ^ 31) :
    ∃ reader, reopened images = some reader ∧ reader.size.toInt = images.length ∧
      (∀ i : Fin images.length, reader.getTime i = some (images[i]).2) ∧
      ∀ calls : List (Fin images.length),
        reader.readAll (calls.map Fin.val) = some (calls.map fun i => (images[i]).1) := by
  obtain ⟨reader, opened, ready⟩ := reopened_ready few small nonempty
  refine ⟨reader, opened, ?_, ?_, readAll_images few small ready⟩
  · rw [JpegStreamReader.size, ready.index, length_map, length_ends, sizes, length_map]
    exact Int32.toInt_ofNat_of_lt few
  · intro i
    rw [JpegStreamReader.getTime, ready.times, getElem?_map, getElem?_eq_getElem i.isLt]
    rfl

/-- Two images, read in the order of their stamps. -/
theorem image_stream_round_trip_two :
    ∃ reader, reopened [([1, 2, 3], 9), ([4], -1)] = some reader ∧
      reader.readAll [1, 0, 1] = some [[4], [1, 2, 3], [4]] := by
  obtain ⟨reader, opened, _, _, reads⟩ := image_stream_round_trip [([1, 2, 3], 9), ([4], -1)]
    (by simp) (by decide) (by decide)
  exact ⟨reader, opened, reads [1, 0, 1]⟩

/-- With 2^31 images the count turns negative and there is no reader. -/
theorem image_stream_count_wraps :
    (∀ image ∈ List.replicate (2 ^ 31) (([], 0) : List UInt8 × Int64), image.1.length < 2 ^ 31) ∧
      reopened (List.replicate (2 ^ 31) ([], 0)) = none := by
  have negative : Int32.ofNat (2 ^ 31) ≤ 0 := by decide
  constructor
  · intro image member
    rw [eq_of_mem_replicate member]
    exact Nat.two_pow_pos 31
  rw [reopened, JpegStreamReader.new, (files_eq _).2, length_entries,
    length_replicate]
  exact if_pos negative

end Miranda.Vision
